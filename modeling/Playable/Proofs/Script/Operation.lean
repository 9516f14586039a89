import Playable.Proofs.Script.Member
import Playable.Proofs.Script.Statement
import Playable.Script.Shape

/-!
# Members with the standard operations

The helper of a player script offers three operations, each written in one way up to the
names of its parameters. The standard shapes tell them apart, whatever the names are.
-/

namespace Playable.Script

open Pattern

variable {before rest s t : Text} {labels : List (String × Text)}

/-- The operations of a helper. -/
inductive Transform where
  /-- Reverse the characters. -/
  | reverse
  /-- Drop characters from the front. -/
  | splice
  /-- Exchange the first character with another one. -/
  | swap
  deriving DecidableEq, Repr

/-- The name of an operation in the catalog. -/
def Transform.operation : Transform → Text
  | reverse => "reverse".toList
  | splice => "splice".toList
  | swap => "swap".toList

/-- The names inside the members of a helper. They need not differ: the shapes do not
compare them. -/
structure Locals where
  /-- The first parameter, the characters. -/
  chars : Text
  /-- The second parameter, a number or an index. -/
  index : Text
  /-- The variable for the saved character. -/
  saved : Text
  /-- The first parameter is an identifier. -/
  chars_identifier : IsIdentifier chars
  /-- The second parameter is an identifier. -/
  index_identifier : IsIdentifier index
  /-- The variable is an identifier. -/
  saved_identifier : IsIdentifier saved

/-- The character that is exchanged with the first one. -/
def Locals.element (n : Locals) : Text :=
  n.chars ++ "[".toList ++ n.index ++ "%".toList ++ n.chars ++ ".length]".toList

namespace Transform

/-- The parameters of the member with an operation. -/
def params (k : Transform) (n : Locals) : List Text :=
  match k with
  | reverse => [n.chars]
  | splice => [n.chars, n.index]
  | swap => [n.chars, n.index]

/-- The statements of the member with an operation. -/
def body (k : Transform) (n : Locals) : List Text :=
  match k with
  | reverse => [n.chars ++ ".reverse()".toList]
  | splice => [n.chars ++ ".splice(0,".toList ++ n.index ++ ")".toList]
  | swap =>
    ["var ".toList ++ n.saved ++ "=".toList ++ n.chars ++ "[0]".toList,
      n.chars ++ "[0]=".toList ++ n.element, n.element ++ "=".toList ++ n.saved]

end Transform

/-- A text of identifiers and of symbols that no statement ends with. -/
def IsExpression (t : Text) : Prop :=
  ∀ c ∈ t, isIdentifierChar c = true ∨ c ∈ ".()[],%=".toList

instance (t : Text) : Decidable (IsExpression t) :=
  List.decidableBAll (fun c => isIdentifierChar c = true ∨ c ∈ ".()[],%=".toList) t

/-- An identifier is an expression. -/
theorem IsIdentifier.isExpression (h : IsIdentifier t) : IsExpression t :=
  fun c hc => .inl (h.2 c hc)

/-- Expressions stand one behind the other. -/
theorem IsExpression.append (hs : IsExpression s) (ht : IsExpression t) :
    IsExpression (s ++ t) :=
  fun c hc => (List.mem_append.mp hc).elim (hs c) (ht c)

/-- An expression holds no blank. -/
theorem IsExpression.not_blank (h : IsExpression t) : ∀ c ∈ t, Text.isBlank c = false := by
  have hsymbols : ∀ c ∈ ".()[],%=".toList, Text.isBlank c = false :=
    Text.forall_mem_of_all rfl
  exact fun c hc => (h c hc).elim isBlank_of_isIdentifierChar (hsymbols c)

/-- An expression holds no semicolon. -/
theorem IsExpression.no_semicolon (h : IsExpression t) : ';' ∉ t := by
  intro hmem
  have hcases := h ';' hmem
  revert hcases
  decide

/-- An expression is a statement. -/
theorem IsExpression.isStatement (h : IsExpression t) (hne : t ≠ []) : IsStatement t :=
  ⟨hne, h.no_semicolon, normalize_of_forall h.not_blank⟩

/-- A variable is declared behind a word and a space. -/
theorem IsExpression.isStatement_var {value : Text} (h : IsExpression value)
    (hstart : value.head?.any Text.isWordOrDollar = true) :
    IsStatement ("var ".toList ++ value) := by
  obtain ⟨d, more, rfl⟩ : ∃ d more, value = d :: more := by
    cases value with
    | nil => cases hstart
    | cons d more => exact ⟨d, more, rfl⟩
  refine ⟨by simp, ?_, ?_⟩
  · rw [List.mem_append, not_or]
    exact ⟨by decide, h.no_semicolon⟩
  · have hva : ∀ c ∈ "va".toList, Text.isBlank c = false := Text.forall_mem_of_all rfl
    exact normalize_space hva (by decide) hstart (by decide) h.not_blank

/-- A shape fits if the number of statements is right and its pattern matches them. -/
theorem Shape.fits_of_instantiate? {shape : Shape} {ps ss : List Text} {pattern : Pattern}
    (hpattern : shape.template.instantiate? ps = some pattern)
    (hcount : ss.length = shape.statementCount) :
    shape.fits ps ss = pattern.matchesAll (Text.join [';'] ss) := by
  rw [Shape.fits, hpattern, hcount]
  simp

/-- A shape for another number of statements does not fit. -/
theorem Shape.fits_of_length_ne {shape : Shape} {ps ss : List Text}
    (hcount : ss.length ≠ shape.statementCount) : shape.fits ps ss = false := by
  simp [Shape.fits, hcount]

/-- The exchanged character is an expression. -/
theorem Locals.element_isExpression (n : Locals) : IsExpression n.element := by
  have hchars : IsExpression n.chars := n.chars_identifier.isExpression
  have hindex : IsExpression n.index := n.index_identifier.isExpression
  have hopen : IsExpression "[".toList := by decide
  have hmod : IsExpression "%".toList := by decide
  have hlength : IsExpression ".length]".toList := by decide
  have hindexed := (hchars.append hopen).append hindex
  exact ((hindexed.append hmod).append hchars).append hlength

namespace Transform

variable (k : Transform) (n : Locals)

/-- What a member is written with are statements. -/
theorem isStatement_of_mem_body : ∀ s ∈ k.body n, IsStatement s := by
  have hchars : IsExpression n.chars := n.chars_identifier.isExpression
  have hindex : IsExpression n.index := n.index_identifier.isExpression
  have hsaved : IsExpression n.saved := n.saved_identifier.isExpression
  have helement : IsExpression n.element := n.element_isExpression
  have hequals : IsExpression "=".toList := by decide
  cases k with
  | reverse =>
    have hcall : IsExpression ".reverse()".toList := by decide
    rintro _ (_ | ⟨_, ⟨⟩⟩)
    exact (hchars.append hcall).isStatement (by simp)
  | splice =>
    have hcall : IsExpression ".splice(0,".toList := by decide
    have hclose : IsExpression ")".toList := by decide
    rintro _ (_ | ⟨_, ⟨⟩⟩)
    exact (((hchars.append hcall).append hindex).append hclose).isStatement (by simp)
  | swap =>
    have hfirst : IsExpression "[0]".toList := by decide
    have hassign : IsExpression "[0]=".toList := by decide
    rintro _ (_ | ⟨_, _ | ⟨_, _ | ⟨_, ⟨⟩⟩⟩⟩)
    · have hvalue : IsExpression (n.saved ++ ("=".toList ++ (n.chars ++ "[0]".toList))) :=
        hsaved.append (hequals.append (hchars.append hfirst))
      obtain ⟨c, more, hcons, hc⟩ := n.saved_identifier.exists_cons
      have hword : Text.isWordOrDollar c = true :=
        isWordOrDollar_of_isIdentifierChar (n.saved_identifier.2 c (by simp [hcons]))
      simpa using hvalue.isStatement_var (by simpa [hcons] using hword)
    · exact ((hchars.append hassign).append helement).isStatement (by simp)
    · exact ((helement.append hequals).append hsaved).isStatement (by simp)

/-- A member holds at least one statement. -/
theorem body_ne_nil : k.body n ≠ [] := by
  cases k <;> simp [body]

/-- The optional word in front of a value is missing in front of an expression. -/
theorem returned_takes (h : IsExpression t) : returned.Takes [] [] t labels labels := by
  refine takes_absent fun ⟨w, rest, heq, hw⟩ => ?_
  obtain rfl : w = "return ".toList := hw
  have hspace : Text.isBlank ' ' = false := h.not_blank ' ' (by rw [heq]; simp)
  exact absurd hspace (by decide)

/-- The statement of a reversing member has the shape for it. -/
theorem reverse_matches :
    (returned ++ text n.chars ++ lit ".reverse()").matchesAll
      (n.chars ++ ".reverse()".toList) = true := by
  refine matchesAll_of_takes [] (Takes.append ?_ (takes_lit ".reverse()"))
  refine Takes.nil_append (returned_takes ?_) (takes_text n.chars)
  have hcall : IsExpression ".reverse()".toList := by decide
  exact n.chars_identifier.isExpression.append hcall

/-- The statement of a splicing member has the shape for it. -/
theorem splice_matches :
    (returned ++ text n.chars ++ lit ".splice(0," ++ text n.index ++ lit ")").matchesAll
      (n.chars ++ ".splice(0,".toList ++ n.index ++ ")".toList) = true := by
  have hcall : IsExpression ".splice(0,".toList := by decide
  have hclose : IsExpression ")".toList := by decide
  refine matchesAll_of_takes [] (Takes.append ?_ (takes_lit ")"))
  refine Takes.append ?_ (takes_text n.index)
  refine Takes.append ?_ (takes_lit ".splice(0,")
  refine Takes.nil_append (returned_takes ?_) (takes_text n.chars)
  exact n.chars_identifier.isExpression.append
    (hcall.append (n.index_identifier.isExpression.append hclose))

/-- The statement of a splicing member has not the shape of a reversing one. -/
theorem splice_not_matches :
    (returned ++ text n.chars ++ lit ".reverse()").matchesAll
      (n.chars ++ ".splice(0,".toList ++ n.index ++ ")".toList) = false := by
  have hcall : IsExpression ".splice(0,".toList := by decide
  have hclose : IsExpression ")".toList := by decide
  have hexpression : IsExpression (n.chars ++ ".splice(0,".toList ++ n.index ++ ")".toList) :=
    ((n.chars_identifier.isExpression.append hcall).append
      n.index_identifier.isExpression).append hclose
  refine matchesAll_eq_false ?_
  rintro ⟨_, _, heq, ⟨front, chars, rfl, hfront, hchars⟩, rfl⟩
  obtain rfl : chars = n.chars := hchars
  rcases hfront with hword | rfl
  · obtain rfl : front = "return ".toList := hword
    have hspace : Text.isBlank ' ' = false := hexpression.not_blank ' ' (by rw [heq]; simp)
    exact absurd hspace (by decide)
  · simp at heq

/-- The statements of a swapping member have the shape for it. -/
theorem swap_matches :
    (saveFirst n.chars n.index ++ text n.chars ++ lit "[" ++ text n.index ++ lit "%"
      ++ text n.chars ++ lit ".length]=" ++ same "saved").matchesAll
      (Text.join [';'] (swap.body n)) = true := by
  have htext : Text.join [';'] (swap.body n) = "var ".toList ++ n.saved ++ "=".toList ++ n.chars
      ++ "[0];".toList ++ n.chars ++ "[0]=".toList ++ n.chars ++ "[".toList ++ n.index
      ++ "%".toList ++ n.chars ++ ".length];".toList ++ n.chars ++ "[".toList ++ n.index
      ++ "%".toList ++ n.chars ++ ".length]=".toList ++ n.saved := by
    simp [body, Locals.element, Text.join]
  have hword : ∀ c ∈ n.saved, Text.isWordOrDollar c = true := fun c hc =>
    isWordOrDollar_of_isIdentifierChar (n.saved_identifier.2 c hc)
  rw [htext]
  -- From the last part of the shape to the first one.
  refine matchesAll_of_takes [("saved", n.saved)] (Takes.append ?_ (takes_same rfl))
  refine Takes.append ?_ (takes_lit ".length]=")
  refine Takes.append ?_ (takes_text n.chars)
  refine Takes.append ?_ (takes_lit "%")
  refine Takes.append ?_ (takes_text n.index)
  refine Takes.append ?_ (takes_lit "[")
  refine Takes.append ?_ (takes_text n.chars)
  refine Takes.append ?_ (takes_lit ".length];")
  refine Takes.append ?_ (takes_text n.chars)
  refine Takes.append ?_ (takes_lit "%")
  refine Takes.append ?_ (takes_text n.index)
  refine Takes.append ?_ (takes_lit "[")
  refine Takes.append ?_ (takes_text n.chars)
  refine Takes.append ?_ (takes_lit "[0]=")
  refine Takes.append ?_ (takes_text n.chars)
  refine Takes.append ?_ (takes_lit "[0];")
  refine Takes.append ?_ (takes_text n.chars)
  refine Takes.append ?_ (takes_lit "=")
  exact (takes_lit "var ").append
    (takes_label "saved" (takes_some1 n.saved_identifier.ne_nil hword rfl))

/-- The standard shapes tell what a member does from its body alone. -/
theorem classify_bodyText :
    classify standardShapes (k.params n) (bodyText (k.body n)) = some k.operation := by
  rw [classify, statements_bodyText (k.body_ne_nil n) (k.isStatement_of_mem_body n)]
  cases k with
  | reverse =>
    rw [standardShapes, List.find?_cons_of_pos]
    · rfl
    · exact (Shape.fits_of_instantiate? rfl rfl).trans (reverse_matches n)
  | splice =>
    rw [standardShapes, List.find?_cons_of_neg, List.find?_cons_of_pos]
    · rfl
    · exact (Shape.fits_of_instantiate? rfl rfl).trans (splice_matches n)
    · exact Bool.eq_false_iff.mp ((Shape.fits_of_instantiate? rfl rfl).trans (splice_not_matches n))
  | swap =>
    -- The shapes of one statement do not even look at the others.
    rw [standardShapes, List.find?_cons_of_neg, List.find?_cons_of_neg, List.find?_cons_of_pos]
    · rfl
    · exact (Shape.fits_of_instantiate? rfl rfl).trans (swap_matches n)
    · exact Bool.eq_false_iff.mp (Shape.fits_of_length_ne (by simp [body]))
    · exact Bool.eq_false_iff.mp (Shape.fits_of_length_ne (by simp [body]))

/-- The statements of a member are parts of any literal. -/
theorem isPart_of_mem_body : ∀ s ∈ k.body n, Literal.IsPart s := by
  have hchars : Literal.IsPart n.chars := n.chars_identifier.isPart
  have hindex : Literal.IsPart n.index := n.index_identifier.isPart
  have hsaved : Literal.IsPart n.saved := n.saved_identifier.isPart
  have hmod : Literal.IsPart "%".toList := Literal.isPart_of_all (by decide)
  have hlength : Literal.IsPart ".length".toList := Literal.isPart_of_all (by decide)
  have hequals : Literal.IsPart "=".toList := Literal.isPart_of_all (by decide)
  have helement : Literal.IsPart n.element := by
    have hinside : Literal.IsPart (n.index ++ ("%".toList ++ (n.chars ++ ".length".toList))) :=
      hindex.append (hmod.append (hchars.append hlength))
    simpa [Locals.element] using hchars.append hinside.bracketed_isPart
  cases k with
  | reverse =>
    have hcall : Literal.IsPart ".reverse()".toList := Literal.isPart_of_all (by decide)
    rintro _ (_ | ⟨_, ⟨⟩⟩)
    exact hchars.append hcall
  | splice =>
    have hcall : Literal.IsPart ".splice(0,".toList := Literal.isPart_of_all (by decide)
    have hclose : Literal.IsPart ")".toList := Literal.isPart_of_all (by decide)
    rintro _ (_ | ⟨_, ⟨⟩⟩)
    exact ((hchars.append hcall).append hindex).append hclose
  | swap =>
    have hvar : Literal.IsPart "var ".toList := Literal.isPart_of_all (by decide)
    have hzero : Literal.IsPart "0".toList := Literal.isPart_of_all (by decide)
    have hfirst : Literal.IsPart "[0]".toList := hzero.bracketed_isPart
    have hassign : Literal.IsPart "[0]=".toList := hfirst.append hequals
    rintro _ (_ | ⟨_, _ | ⟨_, _ | ⟨_, ⟨⟩⟩⟩⟩)
    · exact (((hvar.append hsaved).append hequals).append hchars).append hfirst
    · exact (hchars.append hassign).append helement
    · exact (helement.append hequals).append hsaved

/-- The member of a helper with an operation. -/
def member (name : Text) : Member :=
  ⟨name, k.params n, bodyText (k.body n)⟩

/-- A helper can be written with its members. -/
theorem member_isWellFormed {name : Text} (hname : IsIdentifier name) :
    (k.member n name).IsWellFormed where
  name := hname
  params := by
    cases k with
    | reverse => simpa [member, params] using n.chars_identifier
    | splice => simpa [member, params] using ⟨n.chars_identifier, n.index_identifier⟩
    | swap => simpa [member, params] using ⟨n.chars_identifier, n.index_identifier⟩
  body := (Literal.isPart_join (Literal.isPart_of_all (by decide))
    (k.isPart_of_mem_body n)).braced
  brace := rfl

end Transform
end Playable.Script
