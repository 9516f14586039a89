import Playable.Proofs.Script.Token
import Playable.Text.Digit
import Playable.Text.Raw

/-!
# Array programs

A member of a helper object is a short program on an array of characters: it declares
variables, stores elements, and turns or cuts the array. This module gives such programs
their text and their meaning. The statements of a body spell one program at most.
-/

namespace Playable.Script

/-- A name of a variable: a word that does not begin with a digit. -/
structure IsName (n : Text) : Prop where
  /-- There is a name. -/
  ne_nil : n ≠ []
  /-- It is made of word characters. -/
  word : ∀ c ∈ n, Text.isWordOrDollar c = true
  /-- It is no number. -/
  start : n.head?.any Text.isDecimalDigit = false

instance (n : Text) : Decidable (IsName n) :=
  decidable_of_iff (n ≠ [] ∧ n.all Text.isWordOrDollar = true ∧
      n.head?.any Text.isDecimalDigit = false)
    ⟨fun ⟨hne, hword, hstart⟩ => ⟨hne, List.all_eq_true.mp hword, hstart⟩,
      fun h => ⟨h.ne_nil, List.all_eq_true.mpr h.word, h.start⟩⟩

/-- A name is written as a word. -/
theorem IsName.isWellFormed {n : Text} (h : IsName n) : (Token.word n).IsWellFormed :=
  ⟨h.ne_nil, h.word⟩

namespace ArrayProgram

/-- A place in an array. -/
inductive Place where
  /-- The first place. -/
  | zero
  /-- The place that a variable tells. -/
  | named (n : Text)
  /-- The place that a variable tells, taken modulo the length of an array. -/
  | remainder (n array : Text)
  deriving DecidableEq, Repr

/-- An element of an array. -/
structure Element where
  /-- The name of the array. -/
  array : Text
  /-- Where the element stands. -/
  place : Place
  deriving DecidableEq, Repr

/-- Where a value comes from. -/
inductive Source where
  /-- A variable. -/
  | named (n : Text)
  /-- An element of an array. -/
  | element (e : Element)
  deriving DecidableEq, Repr

/-- A method of an array. -/
inductive Method where
  /-- Turn the array around. -/
  | reverse
  /-- Remove as many elements from the front as a variable tells. -/
  | splice (count : Text)
  deriving DecidableEq, Repr

/-- A statement of an array program. -/
inductive Statement where
  /-- Declare a variable with a value. -/
  | declare (n : Text) (value : Source)
  /-- Store a value in an array. -/
  | store (target : Element) (value : Source)
  /-- Call a method of an array, and perhaps end with its answer. -/
  | call (returns : Bool) (array : Text) (method : Method)
  deriving DecidableEq, Repr

/-! ## The text of a program -/

/-- The tokens of a place. -/
def Place.tokens : Place → List Token
  | zero => [.word "0".toList]
  | named n => [.word n]
  | remainder n array => [.word n, .symbol '%', .word array, .symbol '.', .word "length".toList]

/-- The tokens of an element. -/
def Element.tokens (e : Element) : List Token :=
  .word e.array :: .symbol '[' :: (e.place.tokens ++ [.symbol ']'])

/-- The tokens of a value. -/
def Source.tokens : Source → List Token
  | named n => [.word n]
  | element e => e.tokens

/-- The tokens of a method with its arguments. -/
def Method.tokens : Method → List Token
  | reverse => [.word "reverse".toList, .symbol '(', .symbol ')']
  | splice count =>
    [.word "splice".toList, .symbol '(', .word "0".toList, .symbol ',', .word count, .symbol ')']

/-- The tokens of a statement. -/
def Statement.tokens : Statement → List Token
  | declare n value => .word "var".toList :: .word n :: .symbol '=' :: value.tokens
  | store target value => target.tokens ++ .symbol '=' :: value.tokens
  | call true array method =>
    .word "return".toList :: .word array :: .symbol '.' :: method.tokens
  | call false array method => .word array :: .symbol '.' :: method.tokens

/-- A statement in its normal layout. -/
def Statement.toText (s : Statement) : Text :=
  layout s.tokens

/-- The names in a place. -/
def Place.names : Place → List Text
  | zero => []
  | named n => [n]
  | remainder n array => [n, array]

/-- The names in an element. -/
def Element.names (e : Element) : List Text :=
  e.array :: e.place.names

/-- The names in a value. -/
def Source.names : Source → List Text
  | named n => [n]
  | element e => e.names

/-- The names in the arguments of a method. -/
def Method.names : Method → List Text
  | reverse => []
  | splice count => [count]

/-- The names in a statement. -/
def Statement.names : Statement → List Text
  | declare n value => n :: value.names
  | store target value => target.names ++ value.names
  | call _ array method => array :: method.names

/-- The statements of a body are the text of a program. -/
structure Spells (body : Text) (program : List Statement) : Prop where
  /-- All names are names. -/
  names : ∀ s ∈ program, ∀ n ∈ s.names, IsName n
  /-- The statements are those of the program. -/
  statements : statements body = program.map Statement.toText

/-! ## A body spells one program at most -/

section Unique

variable {n m : Text} {rest rest' : List Token} {p q : Place} {e f : Element} {v w : Source}
  {k l : Method} {s r : Statement}

/-- A place is made of words and symbols. -/
theorem Place.isWellFormed_tokens (h : ∀ n ∈ p.names, (Token.word n).IsWellFormed) :
    ∀ t ∈ p.tokens, t.IsWellFormed := by
  cases p with
  | zero => simpa [tokens] using (by decide : (Token.word "0".toList).IsWellFormed)
  | named n => simpa [tokens] using h n (by simp [names])
  | remainder n array =>
    have hn : (Token.word n).IsWellFormed := h n (by simp [names])
    have harray : (Token.word array).IsWellFormed := h array (by simp [names])
    simp only [tokens, List.forall_mem_cons]
    exact ⟨hn, by decide, harray, by decide, by decide, nofun⟩

/-- An element is made of words and symbols. -/
theorem Element.isWellFormed_tokens (h : ∀ n ∈ e.names, (Token.word n).IsWellFormed) :
    ∀ t ∈ e.tokens, t.IsWellFormed := by
  obtain ⟨harray, hplace⟩ := List.forall_mem_cons.mp h
  simp only [tokens, List.forall_mem_cons, List.forall_mem_append]
  exact ⟨harray, by decide, Place.isWellFormed_tokens hplace, by decide, nofun⟩

/-- A value is made of words and symbols. -/
theorem Source.isWellFormed_tokens (h : ∀ n ∈ v.names, (Token.word n).IsWellFormed) :
    ∀ t ∈ v.tokens, t.IsWellFormed := by
  cases v with
  | named n => simpa [tokens] using h n (by simp [names])
  | element e => exact Element.isWellFormed_tokens h

/-- A method is made of words and symbols. -/
theorem Method.isWellFormed_tokens (h : ∀ n ∈ k.names, (Token.word n).IsWellFormed) :
    ∀ t ∈ k.tokens, t.IsWellFormed := by
  cases k with
  | reverse =>
    simp only [tokens, List.forall_mem_cons]
    exact ⟨by decide, by decide, by decide, nofun⟩
  | splice count =>
    have hcount : (Token.word count).IsWellFormed := h count (by simp [names])
    simp only [tokens, List.forall_mem_cons]
    exact ⟨by decide, by decide, by decide, by decide, hcount, by decide, nofun⟩

/-- A statement is made of words and symbols. -/
theorem Statement.isWellFormed_tokens (h : ∀ n ∈ s.names, (Token.word n).IsWellFormed) :
    ∀ t ∈ s.tokens, t.IsWellFormed := by
  cases s with
  | declare n value =>
    obtain ⟨hn, hvalue⟩ := List.forall_mem_cons.mp h
    simp only [tokens, List.forall_mem_cons]
    exact ⟨by decide, hn, by decide, Source.isWellFormed_tokens hvalue⟩
  | store target value =>
    obtain ⟨htarget, hvalue⟩ := List.forall_mem_append.mp h
    simp only [tokens, List.forall_mem_append, List.forall_mem_cons]
    exact ⟨Element.isWellFormed_tokens htarget, by decide, Source.isWellFormed_tokens hvalue⟩
  | call returns array method =>
    obtain ⟨harray, hmethod⟩ := List.forall_mem_cons.mp h
    have hcall : ∀ t ∈ Token.word array :: .symbol '.' :: method.tokens, t.IsWellFormed := by
      simp only [List.forall_mem_cons]
      exact ⟨harray, by decide, Method.isWellFormed_tokens hmethod⟩
    cases returns with
    | false => exact hcall
    | true => exact List.forall_mem_cons.mpr ⟨by decide, hcall⟩

/-- No name is a number. -/
theorem ne_zero_of_isName (h : IsName n) : n ≠ "0".toList := by
  rintro rfl
  exact absurd h.start (by decide)

/-- A place in brackets is read in one way only. -/
theorem Place.tokens_inj (hp : ∀ n ∈ p.names, IsName n) (hq : ∀ n ∈ q.names, IsName n)
    (h : p.tokens ++ .symbol ']' :: rest = q.tokens ++ .symbol ']' :: rest') :
    p = q ∧ rest = rest' := by
  cases p with
  | zero =>
    cases q with
    | zero => simpa [tokens] using h
    | named m =>
      refine absurd ?_ (ne_zero_of_isName (hq m (by simp [names])))
      exact (Token.word.inj (List.cons.inj h).1).symm
    | remainder m array => simp [tokens] at h
  | named n =>
    cases q with
    | zero =>
      refine absurd ?_ (ne_zero_of_isName (hp n (by simp [names])))
      exact Token.word.inj (List.cons.inj h).1
    | named m => simpa [tokens] using h
    | remainder m array => simp [tokens] at h
  | remainder n array =>
    cases q with
    | zero => simp [tokens] at h
    | named m => simp [tokens] at h
    | remainder m array => simpa [tokens, and_assoc] using h

/-- An element is read in one way only. -/
theorem Element.tokens_inj (he : ∀ n ∈ e.names, IsName n) (hf : ∀ n ∈ f.names, IsName n)
    (h : e.tokens ++ rest = f.tokens ++ rest') : e = f ∧ rest = rest' := by
  obtain ⟨array, p⟩ := e
  obtain ⟨array', q⟩ := f
  simp only [tokens, List.cons_append, List.append_assoc, List.cons.injEq, Token.word.injEq] at h
  obtain ⟨rfl, -, hplace⟩ := h
  obtain ⟨rfl, rfl⟩ := Place.tokens_inj (List.forall_mem_cons.mp he).2
    (List.forall_mem_cons.mp hf).2 hplace
  exact ⟨rfl, rfl⟩

/-- A value is read in one way only. -/
theorem Source.tokens_inj (hv : ∀ n ∈ v.names, IsName n) (hw : ∀ n ∈ w.names, IsName n)
    (h : v.tokens = w.tokens) : v = w := by
  cases v with
  | named n =>
    cases w with
    | named m => simpa [tokens] using h
    | element f => simp [tokens, Element.tokens] at h
  | element e =>
    cases w with
    | named m => simp [tokens, Element.tokens] at h
    | element f =>
      have hends : e.tokens ++ [] = f.tokens ++ [] := by
        rw [List.append_nil, List.append_nil]
        exact h
      rw [(Element.tokens_inj hv hw hends).1]

/-- A method is read in one way only. -/
theorem Method.tokens_inj (h : k.tokens = l.tokens) : k = l := by
  cases k <;> cases l <;> simp [tokens] at h ⊢
  exact h

/-- A statement is read in one way only. -/
theorem Statement.tokens_inj (hs : ∀ n ∈ s.names, IsName n) (hr : ∀ n ∈ r.names, IsName n)
    (h : s.tokens = r.tokens) : s = r := by
  cases s with
  | declare n value =>
    cases r with
    | declare m value' =>
      simp only [tokens, List.cons.injEq, Token.word.injEq, true_and] at h
      rw [h.1, Source.tokens_inj (List.forall_mem_cons.mp hs).2 (List.forall_mem_cons.mp hr).2 h.2]
    | store target value' => simp [tokens, Element.tokens] at h
    | call returns array method => cases returns <;> simp [tokens] at h
  | store target value =>
    cases r with
    | declare m value' => simp [tokens, Element.tokens] at h
    | store target' value' =>
      obtain ⟨htarget, hvalue⟩ := List.forall_mem_append.mp hs
      obtain ⟨htarget', hvalue'⟩ := List.forall_mem_append.mp hr
      obtain ⟨rfl, hrest⟩ := Element.tokens_inj htarget htarget' h
      rw [Source.tokens_inj hvalue hvalue' (List.cons.inj hrest).2]
    | call returns array method => cases returns <;> simp [tokens, Element.tokens] at h
  | call returns array method =>
    cases r with
    | declare m value' => cases returns <;> simp [tokens] at h
    | store target value' => cases returns <;> simp [tokens, Element.tokens] at h
    | call returns' array' method' =>
      cases returns <;> cases returns' <;> simp [tokens] at h
      · rw [h.1, Method.tokens_inj h.2]
      · rw [h.1, Method.tokens_inj h.2]

/-- The text of a statement tells its tokens. -/
theorem Statement.tokens_toText (hs : ∀ n ∈ s.names, (Token.word n).IsWellFormed) :
    Script.tokens s.toText = s.tokens :=
  tokens_layout (Statement.isWellFormed_tokens hs)

/-- No element holds a semicolon. -/
theorem Element.semicolon_not_mem_tokens : .symbol ';' ∉ e.tokens := by
  obtain ⟨array, place⟩ := e
  cases place <;> simp [tokens, Place.tokens]

/-- No value holds a semicolon. -/
theorem Source.semicolon_not_mem_tokens : .symbol ';' ∉ v.tokens := by
  cases v with
  | named n => simp [tokens]
  | element e => exact Element.semicolon_not_mem_tokens

/-- No statement holds a semicolon. -/
theorem Statement.semicolon_not_mem_toText (hs : ∀ n ∈ s.names, (Token.word n).IsWellFormed) :
    ';' ∉ s.toText := by
  have hsymbol : isSymbol ';' = true := rfl
  rw [← symbol_mem_tokens hsymbol, tokens_toText hs]
  cases s with
  | declare n value => simpa [tokens] using Source.semicolon_not_mem_tokens
  | store target value =>
    simpa [tokens] using ⟨Element.semicolon_not_mem_tokens, Source.semicolon_not_mem_tokens⟩
  | call returns array method => cases returns <;> cases method <;> simp [tokens, Method.tokens]

/-- Statements that read like a program with semicolons in between are those of the program. -/
theorem statements_eq_of_join {body : Text} {program : List Statement} (hne : program ≠ [])
    (hnames : ∀ s ∈ program, ∀ n ∈ s.names, (Token.word n).IsWellFormed)
    (hstatements : statements body ≠ [])
    (h : Text.join [';'] (statements body) = Text.join [';'] (program.map Statement.toText)) :
    statements body = program.map Statement.toText := by
  rw [← Text.split_join hstatements fun s hs => (isStatement_of_mem_statements hs).no_semicolon, h]
  refine Text.split_join (by simpa using hne) fun t ht => ?_
  obtain ⟨s, hs, rfl⟩ := List.mem_map.mp ht
  exact Statement.semicolon_not_mem_toText (hnames s hs)

/-- A body spells one program at most. -/
theorem Spells.unique {body : Text} {program other : List Statement} (h : Spells body program)
    (hother : Spells body other) : program = other := by
  have htexts : program.map Statement.toText = other.map Statement.toText :=
    h.statements.symm.trans hother.statements
  have hnames := h.names
  have hnames' := hother.names
  clear h hother
  induction program generalizing other with
  | nil => exact (List.map_eq_nil_iff.mp htexts.symm).symm
  | cons s program ih =>
    cases other with
    | nil => cases htexts
    | cons r other =>
      obtain ⟨hs, hprogram⟩ := List.forall_mem_cons.mp hnames
      obtain ⟨hr, hother⟩ := List.forall_mem_cons.mp hnames'
      rw [List.map_cons, List.map_cons, List.cons.injEq] at htexts
      have hfirst : s = r := Statement.tokens_inj hs hr <| by
        rw [← Statement.tokens_toText fun n hn => (hs n hn).isWellFormed, htexts.1,
          Statement.tokens_toText fun n hn => (hr n hn).isWellFormed]
      rw [hfirst, ih htexts.2 hprogram hother]

end Unique

/-! ## The meaning of a program -/

/-- The value of a variable. There is one array, which all names for it share. -/
inductive Value where
  /-- The array. -/
  | array
  /-- A number. -/
  | number (n : ℕ)
  /-- A character, or none where no element stands. -/
  | item (c : Option CodePoint)
  deriving DecidableEq, Repr

/-- What a program works on. -/
structure State where
  /-- The values of the variables, the latest first. -/
  bindings : List (Text × Value)
  /-- The elements of the array, with gaps where none stands. -/
  elements : List (Option CodePoint)
  deriving DecidableEq, Repr

namespace State

/-- The number that a variable stands for. -/
def number? (st : State) (n : Text) : Option ℕ :=
  match st.bindings.lookup n with
  | some (.number i) => some i
  | _ => none

/-- Whether a variable stands for the array. -/
def isArray (st : State) (n : Text) : Bool :=
  st.bindings.lookup n = some .array

/-- The position of a place. A remainder by no elements is no position. -/
def index? (st : State) : Place → Option ℕ
  | .zero => some 0
  | .named n => st.number? n
  | .remainder n array =>
    if st.isArray array ∧ st.elements ≠ [] then (st.number? n).map (· % st.elements.length)
    else none

/-- A value that is read. Behind the last element of the array nothing stands. -/
def read? (st : State) : Source → Option Value
  | .named n => st.bindings.lookup n
  | .element e =>
    if st.isArray e.array then (st.index? e.place).map fun i => .item (st.elements[i]?).join
    else none

/-- The array with a character stored at a position. Behind the end it is extended with gaps. -/
def put (st : State) (i : ℕ) (c : Option CodePoint) : State :=
  if i < st.elements.length then { st with elements := st.elements.set i c }
  else { st with elements := st.elements ++ List.replicate (i - st.elements.length) none ++ [c] }

/-- The characters of the array one after the other. -/
def joined (st : State) : RawText :=
  st.elements.filterMap id

end State

/-- Call a method. -/
def Method.call? (method : Method) (st : State) : Option State :=
  match method with
  | reverse => some { st with elements := st.elements.reverse }
  | splice count => (st.number? count).map fun i => { st with elements := st.elements.drop i }

/-- Execute a statement. Anything but an element has no meaning in a place of the array. -/
def Statement.step? (st : State) : Statement → Option State
  | declare n value =>
    (st.read? value).map fun v => { st with bindings := (n, v) :: st.bindings }
  | store target value =>
    if st.isArray target.array then
      match st.index? target.place, st.read? value with
      | some i, some (.item c) => some (st.put i c)
      | _, _ => none
    else none
  | call _ array method => if st.isArray array then method.call? st else none

/-- Whether a statement ends the program. -/
def Statement.returns : Statement → Bool
  | call returns _ _ => returns
  | _ => false

/-- Execute statements in order, up to one that returns. -/
def execute? (st : State) : List Statement → Option State
  | [] => some st
  | s :: rest => if s.returns then s.step? st else (s.step? st).bind (execute? · rest)

/-- The state in which a member begins: its first parameter is the array, its second one a
number, and any other has no value. -/
def State.initial (params : List Text) (chars : RawText) (b : ℕ) : State where
  bindings :=
    (params.zip (.array :: .number b :: List.replicate params.length (.item none))).reverse
  elements := chars.map some

/-- What is left of the characters when a member has run with a number. -/
def result? (program : List Statement) (params : List Text) (chars : RawText) (b : ℕ) :
    Option RawText :=
  (execute? (State.initial params chars b) program).map State.joined

/-! ## Running a program -/

section Run

variable {a b saved n : Text} {others params : List Text} {chars : RawText} {k i : ℕ}
  {c : CodePoint} {st : State}

/-- A name that is bound by none of the parameters has no value. -/
theorem lookup_zip_reverse_of_not_mem (values : List Value) (h : n ∉ params) :
    (params.zip values).reverse.lookup n = none := by
  rw [List.lookup_eq_none_iff]
  rintro ⟨m, value⟩ hmem
  have hm : m ∈ params := (List.of_mem_zip (List.mem_reverse.mp hmem)).1
  simpa using fun heq : n = m => h (heq ▸ hm)

/-- The first parameter is the array. -/
theorem lookup_initial_first (h : a ∉ others) :
    (State.initial (a :: others) chars k).bindings.lookup a = some .array := by
  rw [State.initial, List.zip_cons_cons, List.reverse_cons, List.lookup_append,
    lookup_zip_reverse_of_not_mem _ h]
  simp

/-- The second parameter is the number. -/
theorem lookup_initial_second (h : b ∉ others) :
    (State.initial (a :: b :: others) chars k).bindings.lookup b = some (.number k) := by
  rw [State.initial, List.zip_cons_cons, List.zip_cons_cons, List.reverse_cons, List.reverse_cons,
    List.lookup_append, List.lookup_append, lookup_zip_reverse_of_not_mem _ h]
  simp

/-- Characters without gaps are joined to themselves. -/
theorem joined_map_some {bindings : List (Text × Value)} (t : RawText) :
    State.joined ⟨bindings, t.map some⟩ = t := by
  simp [State.joined, List.filterMap_map]

/-- A character inside of the array is replaced. -/
theorem put_of_lt {bindings : List (Text × Value)} {t : RawText} (h : i < t.length)
    (c : CodePoint) :
    State.put ⟨bindings, t.map some⟩ i (some c) = ⟨bindings, (t.set i c).map some⟩ := by
  rw [State.put, if_pos (by simpa using h), List.map_set]

/-- A character is stored in the place of another one, or behind all of them. -/
theorem joined_put {bindings : List (Text × Value)} (t : RawText) (i : ℕ) (c : CodePoint) :
    (State.put ⟨bindings, t.map some⟩ i (some c)).joined =
      if i < t.length then t.set i c else t ++ [c] := by
  split
  · next h => rw [put_of_lt h, joined_map_some]
  · next h =>
    rw [State.put, if_neg (by simpa using h)]
    simp [State.joined, List.filterMap_append, List.filterMap_map]

/-- A program goes on behind a statement that does not return. -/
theorem execute?_cons {s : Statement} {rest : List Statement} {next : State}
    (hreturns : s.returns = false) (hstep : s.step? st = some next) :
    execute? st (s :: rest) = execute? next rest := by
  rw [execute?, hreturns, hstep, if_neg Bool.false_ne_true, Option.bind_some]

/-- What a method call leaves is what it leaves of the array. -/
theorem result?_call (returns : Bool) {method : Method} (h : a ∉ others) :
    result? [.call returns a method] (a :: others) chars k =
      (method.call? (State.initial (a :: others) chars k)).map State.joined := by
  have harray : (State.initial (a :: others) chars k).isArray a = true :=
    decide_eq_true (lookup_initial_first h)
  cases returns <;> simp [result?, execute?, Statement.returns, Statement.step?, harray]

/-- Turning the array around. -/
theorem result?_reverse (returns : Bool) (h : a ∉ others) :
    result? [.call returns a .reverse] (a :: others) chars k = some chars.reverse := by
  rw [result?_call returns h, Method.call?, Option.map_some, State.initial, ← List.map_reverse,
    joined_map_some]

/-- Removing elements from the front. -/
theorem result?_splice (returns : Bool) (ha : a ∉ b :: others) (hb : b ∉ others) :
    result? [.call returns a (.splice b)] (a :: b :: others) chars k = some (chars.drop k) := by
  have hnumber : (State.initial (a :: b :: others) chars k).number? b = some k := by
    rw [State.number?, lookup_initial_second hb]
  rw [result?_call returns ha, Method.call?, hnumber, Option.map_some, Option.map_some,
    State.initial, ← List.map_drop, joined_map_some]

/-- The exchange of the first element with another one. -/
def exchange (a b saved : Text) (last : Place) : List Statement :=
  [.declare saved (.element ⟨a, .zero⟩), .store ⟨a, .zero⟩ (.element ⟨a, .remainder b a⟩),
    .store ⟨a, last⟩ (.named saved)]

/-- The first place is a position. -/
theorem State.index?_zero (st : State) : st.index? .zero = some 0 :=
  rfl

/-- One variable is the array and another one a number. -/
structure State.Binds (st : State) (a b : Text) (k : ℕ) : Prop where
  /-- The first variable is the array. -/
  array : st.bindings.lookup a = some .array
  /-- The second variable is the number. -/
  number : st.bindings.lookup b = some (.number k)

namespace State.Binds

/-- A member begins with its parameters bound. -/
theorem initial (ha : a ∉ b :: others) (hb : b ∉ others) :
    (State.initial (a :: b :: others) chars k).Binds a b k :=
  ⟨lookup_initial_first ha, lookup_initial_second hb⟩

/-- Another variable changes nothing about them. -/
theorem cons (h : st.Binds a b k) (ha : saved ≠ a) (hb : saved ≠ b) (value : Value)
    (elements : List (Option CodePoint)) :
    State.Binds ⟨(saved, value) :: st.bindings, elements⟩ a b k where
  array := by
    simpa [List.lookup_cons, show (a == saved) = false by simpa using ha.symm] using h.array
  number := by
    simpa [List.lookup_cons, show (b == saved) = false by simpa using hb.symm] using h.number

/-- Neither does an element that is stored. -/
theorem put (h : st.Binds a b k) (i : ℕ) (c : Option CodePoint) : (st.put i c).Binds a b k := by
  unfold State.put
  split
  · exact ⟨h.array, h.number⟩
  · exact ⟨h.array, h.number⟩

variable (h : st.Binds a b k)

include h

/-- The first variable is the array. -/
theorem isArray : st.isArray a = true :=
  decide_eq_true h.array

/-- The number itself is a position. -/
theorem index?_named : st.index? (.named b) = some k := by
  rw [State.index?, State.number?, h.number]

/-- The remainder by the length of the array is a position in it. -/
theorem index?_remainder (hne : st.elements ≠ []) :
    st.index? (.remainder b a) = some (k % st.elements.length) := by
  rw [State.index?, if_pos ⟨h.isArray, hne⟩, State.number?, h.number, Option.map_some]

/-- An element is read where it stands. -/
theorem read?_element {place : Place} (hi : st.index? place = some i) :
    st.read? (.element ⟨a, place⟩) = some (.item (st.elements[i]?).join) := by
  rw [State.read?, if_pos h.isArray, hi, Option.map_some]

/-- A character is stored where its place is. -/
theorem step?_store {place : Place} {value : Source} {c : Option CodePoint}
    (hi : st.index? place = some i) (hvalue : st.read? value = some (.item c)) :
    (Statement.store ⟨a, place⟩ value).step? st = some (st.put i c) := by
  rw [Statement.step?, if_pos h.isArray, hi, hvalue]

end State.Binds

/-- The first element is saved, and the one at the remainder of the number comes to the front. -/
theorem execute?_exchange {first : CodePoint} {last : Place} (h : st.Binds a b k)
    (ha : saved ≠ a) (hb : saved ≠ b) (helements : st.elements = chars.map some)
    (hfirst : chars.head? = some first) :
    execute? st (exchange a b saved last) =
      execute? ⟨(saved, .item (some first)) :: st.bindings,
          (chars.set 0 (chars.getD (k % chars.length) first)).map some⟩
        [.store ⟨a, last⟩ (.named saved)] := by
  obtain ⟨more, rfl⟩ : ∃ more, chars = first :: more := List.head?_eq_some_iff.mp hfirst
  set chars := first :: more with hchars
  have hlt : k % chars.length < chars.length := Nat.mod_lt _ (by simp [hchars])
  have hdeclare : (Statement.declare saved (.element ⟨a, .zero⟩)).step? st =
      some ⟨(saved, .item (some first)) :: st.bindings, chars.map some⟩ := by
    rw [Statement.step?, h.read?_element st.index?_zero]
    simp [helements, hchars]
  have hbinds := h.cons ha hb (.item (some first)) (chars.map some)
  have hindex := hbinds.index?_remainder (by simp [hchars])
  have hread : (State.read? ⟨(saved, .item (some first)) :: st.bindings, chars.map some⟩
      (.element ⟨a, .remainder b a⟩)) =
        some (.item (some (chars.getD (k % chars.length) first))) := by
    rw [hbinds.read?_element hindex]
    simp [List.getD_eq_getElem?_getD, hlt]
  have hstore := hbinds.step?_store (State.index?_zero _) hread
  rw [put_of_lt (by simp [hchars])] at hstore
  rw [exchange, execute?_cons rfl hdeclare, execute?_cons rfl hstore]

/-- What an exchange leaves: the first element is stored in the last place, inside the array or
behind it. -/
theorem result?_exchange {first : CodePoint} {last : Place} (ha : a ∉ b :: others) (hb : b ∉ others)
    (hsa : saved ≠ a) (hsb : saved ≠ b) (hfirst : chars.head? = some first)
    (hlast : last = .remainder b a ∧ i = k % chars.length ∨ last = .named b ∧ i = k) :
    result? (exchange a b saved last) (a :: b :: others) chars k =
      some (if i < chars.length then (chars.set 0 (chars.getD (k % chars.length) first)).set i first
        else chars.set 0 (chars.getD (k % chars.length) first) ++ [first]) := by
  have hbinds : (State.initial (a :: b :: others) chars k).Binds a b k := .initial ha hb
  rw [result?, execute?_exchange hbinds hsa hsb rfl hfirst]
  set front := chars.set 0 (chars.getD (k % chars.length) first) with hfront
  set st : State := ⟨(saved, .item (some first)) ::
    (State.initial (a :: b :: others) chars k).bindings, front.map some⟩ with hst
  have hlater : st.Binds a b k := hbinds.cons hsa hsb _ _
  have hsaved : st.read? (.named saved) = some (.item (some first)) := by
    simp [hst, State.read?]
  have hlength : st.elements.length = chars.length := by simp [hst, hfront]
  have hindex : st.index? last = some i := by
    rcases hlast with ⟨rfl, rfl⟩ | ⟨rfl, rfl⟩
    · have hne : st.elements ≠ [] := by
        have hpositive : 0 < chars.length :=
          List.length_pos_iff.mpr fun hnil => by simp [hnil] at hfirst
        exact List.ne_nil_of_length_pos (hlength ▸ hpositive)
      rw [hlater.index?_remainder hne, hlength]
    · exact hlater.index?_named
  rw [execute?_cons rfl (hlater.step?_store hindex hsaved), execute?, Option.map_some, hst,
    joined_put, hfront, List.length_set]

end Run

end ArrayProgram
end Playable.Script
