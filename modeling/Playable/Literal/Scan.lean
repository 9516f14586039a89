import Playable.Text.Blank
import Playable.Text.Quoted

/-!
# Balanced literals

Reading an object or array literal out of a text that goes on behind it. A
literal runs from its opening brace or bracket to the closer that belongs to it.
Inside, quoted strings and regular expressions are opaque, and a closer that does
not belong to the innermost open context is an ordinary character. A slash opens
a regular expression only where a value may stand, that is behind an operator or
an opening character; elsewhere it divides.
-/

namespace Playable.Literal

/-- What a scan may be inside of. -/
inductive Context where
  /-- Between braces. -/
  | brace
  /-- Between brackets. -/
  | bracket
  /-- Inside a quoted string. -/
  | quote
  /-- Inside a regular expression. -/
  | slash
  deriving DecidableEq, Repr

/-- The character that ends a context. -/
def Context.closer : Context → Char
  | brace => '}'
  | bracket => ']'
  | quote => '"'
  | slash => '/'

/-- Inside strings and regular expressions nothing opens, and a backslash
protects the next character. -/
def Context.isVerbatim : Context → Bool
  | brace => false
  | bracket => false
  | quote => true
  | slash => true

/-- The characters behind which a slash opens a regular expression. -/
def regexPreceders : List Char :=
  "(,=:[!&|?\x7b\x7d;".toList

/-- The context that a character opens, given the last character before it that
is not blank. -/
def Context.openedBy? (last c : Char) : Option Context :=
  if c = '{' then some brace
  else if c = '[' then some bracket
  else if c = '"' then some quote
  else if c = '/' ∧ last ∈ regexPreceders then some slash
  else none

/-- The text behind the closer of the outermost context, or the number of
contexts that are still open when the text ends. The scan stands inside
`context`, which lies inside the contexts of `outer`, innermost first; `last` is
the last character before it that is not blank. -/
def behind (outer : List Context) (context : Context) (last : Char) : Text → Except Nat Text
  | [] => .error (outer.length + 1)
  | c :: rest =>
    let last' := if Text.isBlank c then last else c
    if c = context.closer then
      match outer with
      | [] => .ok rest
      | enclosing :: outer' => behind outer' enclosing last' rest
    else if context.isVerbatim then
      if c = '\\' then
        match rest with
        | [] => .error (outer.length + 1)
        | _ :: rest' => behind outer context last rest'
      else behind outer context last' rest
    else match Context.openedBy? last c with
      | some inner => behind (context :: outer) inner last' rest
      | none => behind outer context last' rest

/-- Why no literal can be read at a place. -/
inductive Fault where
  /-- The place lies outside the text. -/
  | outside
  /-- No opener stands there. -/
  | noOpener (found : Char)
  /-- The text ends before every context is closed. -/
  | unclosed (contexts : Nat)
  deriving DecidableEq, Repr

/-- The literal at the start of a text, and the text behind it. -/
def read (t : Text) : Except Fault (Text × Text) :=
  match t with
  | [] => .error .outside
  | c :: rest =>
    let opened := if c = '{' then some Context.brace
      else if c = '[' then some Context.bracket else none
    match opened with
    | none => .error (.noOpener c)
    | some context =>
      match behind [] context c rest with
      | .error n => .error (.unclosed n)
      | .ok after => .ok (t.take (t.length - after.length), after)

/-- The failure to read a literal at an offset of a text. -/
structure ScanError where
  /-- The offset at which a literal was expected. -/
  offset : Int
  /-- Why there is none. -/
  fault : Fault
  deriving DecidableEq, Repr

/-- The wording of a failed scan. -/
def ScanError.message (e : ScanError) : Text :=
  let offset := Text.ofInt e.offset
  match e.fault with
  | .outside => "Start offset ".toList ++ offset ++ " is outside the text".toList
  | .noOpener found =>
    "Expected '\x7b' or '[' at offset ".toList ++ offset ++ ", found ".toList
      ++ Text.quoted [found]
  | .unclosed contexts =>
    "Text ended with ".toList ++ Text.ofNat contexts
      ++ " unclosed context(s) from offset ".toList ++ offset

/-- The literal at an offset of a text. -/
def readAt (t : Text) (offset : Int) : Except ScanError Text :=
  if offset < 0 then .error ⟨offset, .outside⟩
  else match read (t.drop offset.toNat) with
    | .ok (literal, _) => .ok literal
    | .error fault => .error ⟨offset, fault⟩

/-- The literal at the start of a text, if there is one. -/
def read? (t : Text) : Option Text :=
  match read t with
  | .ok (literal, _) => some literal
  | .error _ => none

end Playable.Literal
