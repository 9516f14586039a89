import Playable.Proofs.Json.Balanced
import Playable.Proofs.Json.Number
import Playable.Proofs.Json.String
import Playable.Proofs.Register

/-!
# Written values are read back

A value is written so that reading the text gives the value again, if the fields of its objects
have different names and its integers are short enough to be read. The reader takes the text of
each part up to the comma or the closer behind it, and the length of the text bounds its steps.
The text of an object or a list is also one literal.
-/

namespace Playable.Json

open Literal Number

variable {v : Value} {values : List Value} {fields : Fields} {read : Fields} {rest s t : Text}

mutual

/-- A value that is written and that reading its text can give: integers have no more digits than
are written and read, there is one number that is no number, texts hold no halves of surrogate
pairs, and the fields of an object have different names. -/
def Value.IsReadable : Value → Prop
  | .null => True
  | .bool _ => True
  | .int i => (Text.ofNat i.natAbs).length ≤ maxDigits
  | .float x => x.isNaN = true → x = Binary64.nan
  | .text _ => True
  | .broken _ => False
  | .list values => AreReadable values
  | .object fields => (Register.names fields).Nodup ∧ FieldsReadable fields

/-- Values that reading their text can give. -/
def AreReadable : List Value → Prop
  | [] => True
  | v :: more => v.IsReadable ∧ AreReadable more

/-- Fields whose values reading their text can give. -/
def FieldsReadable : Fields → Prop
  | [] => True
  | (_, v) :: more => v.IsReadable ∧ FieldsReadable more

end

/-! ## Values without parts -/

/-- A number of the binary format that is not finite is written as a word. -/
theorem decimalText_of_not_isFinite {x : Binary64} (hx : x.isFinite = false)
    (hnan : x.isNaN = true → x = Binary64.nan) : (decimalText x, .float x) ∈ words := by
  by_cases hnumber : x.isNaN = true
  · rw [decimalText, if_pos hnumber, hnan hnumber]
    simp [words]
  · have hbits : x.magnitudeBits = Binary64.infinityBits := by
      simp only [Binary64.isFinite, Binary64.isNaN, decide_eq_true_eq,
        decide_eq_false_iff_not] at hx hnumber
      omega
    have hinfinity : x = Binary64.infinity x.isNegative := by
      rw [Binary64.infinity, ← hbits, Binary64.ofMagnitude_magnitudeBits]
    rw [decimalText, if_neg hnumber, hx]
    generalize x.isNegative = negative at hinfinity ⊢
    subst hinfinity
    cases negative <;> simp [words]

/-- A word is read, whatever stands behind it. -/
theorem scalar_of_mem_words (h : (s, v) ∈ words) (rest : Text) :
    scalar (s ++ rest) = some (v, rest) := by
  simp only [words, List.mem_cons, List.not_mem_nil, or_false, Prod.mk.injEq] at h
  rcases h with ⟨rfl, rfl⟩ | ⟨rfl, rfl⟩ | ⟨rfl, rfl⟩ | ⟨rfl, rfl⟩ | ⟨rfl, rfl⟩ | ⟨rfl, rfl⟩ <;> rfl

/-- A string is read behind its opening quote. -/
theorem scalar_quote (t : Text) :
    scalar ('"' :: t) = (stringFrom [] t).map fun r => (.ofRaw r.1, r.2) := by
  rw [scalar.eq_def, words_find?_cons (by decide)]
  rfl

/-- A string is read to its closing quote. -/
theorem scalar_writeText (t rest : Text) : scalar (writeText t ++ rest) = some (.text t, rest) := by
  have htext : writeText t ++ rest = '"' :: (t.flatMap writeChar ++ '"' :: rest) := by
    simp [writeText]
  rw [htext, scalar_quote, stringFrom_of_spells (spellsChars_flatMap_writeChar t),
    List.reverse_nil, List.nil_append, Option.map_some, Value.ofRaw_raw]

/-- What is written for a value without parts is a word, a number or a string. -/
theorem write_cases (hv : v.isCompound = false) (h : v.IsReadable) :
    (write v, v) ∈ words ∨ SpellsNumber v (write v) ∨ ∃ t, v = .text t := by
  cases v with
  | null => exact .inl (by simp [words, write])
  | bool b =>
    refine .inl ?_
    cases b <;> simp [words, write]
  | int i => exact .inr (.inl (spellsNumber_ofInt i))
  | float x =>
    rw [write]
    cases hx : x.isFinite with
    | true => exact .inr (.inl (spellsNumber_decimalText hx))
    | false => exact .inl (decimalText_of_not_isFinite hx h)
  | text t => exact .inr (.inr ⟨t, rfl⟩)
  | broken t => exact h.elim
  | list values => cases hv
  | object fields => cases hv

/-- A value without parts is read to its end. -/
theorem scalar_write (hv : v.isCompound = false) (h : v.IsReadable) (hend : EndsNumber rest) :
    scalar (write v ++ rest) = some (v, rest) := by
  rcases write_cases hv h with hword | hnumber | ⟨t, rfl⟩
  · exact scalar_of_mem_words hword rest
  · cases v with
    | int i => exact scalar_ofInt h hend
    | float x => exact scalar_of_spellsNumber hnumber hend
    | _ => cases hnumber
  · exact scalar_writeText t rest

/-! ## Tokens -/

/-- The characters that a value may begin with. -/
def IsFirst (c : Char) : Prop :=
  c.isDigit = true ∨ c ∈ ['-', 'n', 't', 'f', 'N', 'I', '"']

/-- A word begins like a value. -/
theorem exists_cons_of_mem_words (h : (s, v) ∈ words) : ∃ c more, s = c :: more ∧ IsFirst c := by
  simp only [words, List.mem_cons, List.not_mem_nil, or_false, Prod.mk.injEq] at h
  rcases h with ⟨rfl, -⟩ | ⟨rfl, -⟩ | ⟨rfl, -⟩ | ⟨rfl, -⟩ | ⟨rfl, -⟩ | ⟨rfl, -⟩ <;>
    exact ⟨_, _, rfl, .inr (by decide)⟩

/-- A spelled number begins like a value. -/
theorem exists_cons_of_spellsNumber (h : SpellsNumber v s) :
    ∃ c more, s = c :: more ∧ IsFirst c := by
  obtain ⟨c, more, rfl, hc⟩ := h.exists_cons
  refine ⟨c, more, rfl, ?_⟩
  rcases hc with rfl | hdigit
  · exact .inr (by decide)
  · exact .inl hdigit

/-- A value without parts begins with no bracket and no brace. -/
theorem exists_cons_scalar (hv : v.isCompound = false) (h : v.IsReadable) :
    ∃ c more, write v = c :: more ∧ IsFirst c := by
  rcases write_cases hv h with hword | hnumber | ⟨t, rfl⟩
  · exact exists_cons_of_mem_words hword
  · exact exists_cons_of_spellsNumber hnumber
  · exact ⟨_, _, rfl, .inr (by decide)⟩

/-- What a value may begin with is not one of the other tokens. -/
theorem IsFirst.ne {c d : Char} (h : IsFirst c) (hd : d.isDigit = false)
    (hnot : d ∉ ['-', 'n', 't', 'f', 'N', 'I', '"']) : c ≠ d := by
  rintro rfl
  rcases h with hdigit | hmem
  · rw [hd] at hdigit
    cases hdigit
  · exact hnot hmem

/-- A value begins with a character that is no blank and no closer. -/
theorem exists_cons_write (h : v.IsReadable) :
    ∃ c more, write v = c :: more ∧ isGap c = false ∧ c ≠ ']' := by
  cases hv : v.isCompound with
  | true =>
    cases v with
    | list values => exact ⟨'[', writeItems values ++ [']'], rfl, rfl, by decide⟩
    | object fields => exact ⟨'{', writeFields fields ++ ['}'], rfl, rfl, by decide⟩
    | _ => cases hv
  | false =>
    obtain ⟨c, more, hwrite, hc⟩ := exists_cons_scalar hv h
    refine ⟨c, more, hwrite, ?_, hc.ne rfl (by decide)⟩
    simp [isGap, hc.ne (d := ' ') rfl (by decide), hc.ne (d := '\t') rfl (by decide),
      hc.ne (d := '\n') rfl (by decide), hc.ne (d := '\r') rfl (by decide)]

/-- Nothing is skipped in front of a character that is no blank. -/
theorem skipGap_cons {c : Char} (hgap : isGap c = false) : skipGap (c :: rest) = c :: rest := by
  rw [skipGap, List.dropWhile_cons_of_neg (by simp [hgap])]

/-- Nothing is skipped in front of a value. -/
theorem skipGap_write (h : v.IsReadable) (rest : Text) :
    skipGap (write v ++ rest) = write v ++ rest := by
  obtain ⟨c, more, hwrite, hgap, -⟩ := exists_cons_write h
  rw [hwrite]
  exact skipGap_cons hgap

/-! ## Reading step by step -/

/-- A text that stands behind a value in a list, in an object or at the end. -/
theorem endsNumber_cons {c : Char} (hc : c ∈ [',', ']', '}']) : EndsNumber (c :: rest) := by
  rintro d hd
  obtain rfl : c = d := Option.some.inj hd
  simp only [List.mem_cons, List.not_mem_nil, or_false] at hc
  rcases hc with rfl | rfl | rfl <;> exact ⟨rfl, by decide⟩

/-- A value without parts takes one step. -/
theorem valueFrom_scalar (hv : v.isCompound = false) (h : v.IsReadable) (fuel : Nat)
    (hend : EndsNumber rest) : valueFrom (fuel + 1) (write v ++ rest) = some (v, rest) := by
  rw [← scalar_write hv h hend]
  obtain ⟨c, more, hwrite, hc⟩ := exists_cons_scalar hv h
  rw [hwrite, List.cons_append, valueFrom.eq_def]
  simp [hc.ne (d := '[') rfl (by decide), hc.ne (d := '{') rfl (by decide)]

/-- Behind an opening bracket the items of a list are read, unless it closes at once. -/
theorem valueFrom_bracket {c : Char} (hgap : isGap c = false) (hc : c ≠ ']') (fuel : Nat) :
    valueFrom (fuel + 1) ('[' :: c :: rest) =
      (itemsFrom fuel [] (c :: rest)).map fun r => (.list r.1, r.2) := by
  simp [valueFrom, skipGap, hgap, hc]

/-- Behind an opening brace the fields of an object are read, if a name comes first. -/
theorem valueFrom_brace (fuel : Nat) :
    valueFrom (fuel + 1) ('{' :: '"' :: rest) =
      (fieldsFrom fuel [] ('"' :: rest)).map fun r => (.object r.1, r.2) := by
  simp [valueFrom, skipGap, isGap]

/-- The last item of a list stands before the closing bracket. -/
theorem itemsFrom_last {fuel : Nat} {items : List Value}
    (hread : valueFrom fuel t = some (v, ']' :: rest)) :
    itemsFrom (fuel + 1) items t = some (items.reverse ++ [v], rest) := by
  rw [itemsFrom, hread, ← List.reverse_cons]
  rfl

/-- Behind a comma and a space another item of a list is read. -/
theorem itemsFrom_more {fuel : Nat} {items : List Value}
    (hread : valueFrom fuel t = some (v, ',' :: ' ' :: rest)) :
    itemsFrom (fuel + 1) items t = itemsFrom fuel (v :: items) (skipGap rest) := by
  rw [itemsFrom, hread]
  rfl

/-- A field is a name and, behind a colon, a value. -/
theorem fieldsFrom_field (fuel : Nat) (read : Fields) (name t : Text) :
    fieldsFrom (fuel + 1) read (writeText name ++ ':' :: ' ' :: t) =
      match valueFrom fuel (skipGap t) with
      | none => none
      | some (value, rest) =>
        match skipGap rest with
        | '}' :: rest => some (Register.set read name value, rest)
        | ',' :: rest => fieldsFrom fuel (Register.set read name value) (skipGap rest)
        | _ => none := by
  obtain ⟨body, hbody, hwritten⟩ := spellsText_writeText name
  have hname := stringFrom_of_spells hbody [] (':' :: ' ' :: t)
  have htext : writeText name ++ ':' :: ' ' :: t = '"' :: (body ++ '"' :: ':' :: ' ' :: t) := by
    rw [hwritten, List.append_assoc]
    rfl
  rw [htext, fieldsFrom, hname]
  simp only [List.reverse_nil, List.nil_append, Text.toText_raw]
  rfl

/-- The last field of an object stands before the closing brace. -/
theorem fieldsFrom_last {fuel : Nat} {name : Text} (hskip : skipGap t = t)
    (hread : valueFrom fuel t = some (v, '}' :: rest)) :
    fieldsFrom (fuel + 1) read (writeText name ++ ':' :: ' ' :: t) =
      some (Register.set read name v, rest) := by
  rw [fieldsFrom_field, hskip, hread]
  rfl

/-- Behind a comma and a space another field of an object is read. -/
theorem fieldsFrom_more {fuel : Nat} {name : Text} (hskip : skipGap t = t)
    (hread : valueFrom fuel t = some (v, ',' :: ' ' :: rest)) :
    fieldsFrom (fuel + 1) read (writeText name ++ ':' :: ' ' :: t) =
      fieldsFrom fuel (Register.set read name v) (skipGap rest) := by
  rw [fieldsFrom_field, hskip, hread]
  rfl

/-- Between two items of a list a comma and a space are written. -/
theorem writeItems_more (hne : values ≠ []) :
    writeItems (v :: values) = write v ++ ',' :: ' ' :: writeItems values := by
  rw [writeItems]
  exact hne

/-- Between two fields of an object a comma and a space are written. -/
theorem writeFields_more {name : Text} (hne : fields ≠ []) :
    writeFields ((name, v) :: fields) =
      writeText name ++ ':' :: ' ' :: write v ++ ',' :: ' ' :: writeFields fields := by
  rw [writeFields]
  exact hne

/-- The items of a list begin with a character that is no blank and no closer. -/
theorem exists_cons_writeItems (h : AreReadable values) (hne : values ≠ []) :
    ∃ c more, writeItems values = c :: more ∧ isGap c = false ∧ c ≠ ']' := by
  obtain ⟨v, values, rfl⟩ := List.exists_cons_of_ne_nil hne
  obtain ⟨c, more, hwrite, hfirst⟩ := exists_cons_write h.1
  cases values with
  | nil => exact ⟨c, more, hwrite, hfirst⟩
  | cons w values =>
    refine ⟨c, more ++ ',' :: ' ' :: writeItems (w :: values), ?_, hfirst⟩
    rw [writeItems_more (List.cons_ne_nil w values), hwrite, List.cons_append]

/-- The fields of an object begin with the quote of a name. -/
theorem exists_cons_writeFields (hne : fields ≠ []) : ∃ more, writeFields fields = '"' :: more := by
  match fields with
  | [] => exact absurd rfl hne
  | [(name, v)] => exact ⟨_, rfl⟩
  | (name, v) :: field :: more => exact ⟨_, rfl⟩

/-! ## Reading a whole value -/

mutual

/-- A written value is read to its end. -/
theorem valueFrom_write (v : Value) (h : v.IsReadable) (fuel : Nat) (rest : Text)
    (hfuel : 2 * (write v).length ≤ fuel) (hend : EndsNumber rest) :
    valueFrom fuel (write v ++ rest) = some (v, rest) := by
  have hpos : 0 < (write v).length := by
    obtain ⟨c, more, hwrite, -⟩ := exists_cons_write h
    rw [hwrite]
    exact Nat.succ_pos _
  match v, fuel with
  | _, 0 => omega
  | .list [], fuel + 1 => rfl
  | .list (w :: more), fuel + 1 =>
    have hread := itemsFrom_write (w :: more) h (List.cons_ne_nil w more) fuel [] rest
      (by simp only [write, List.length_append, List.length_cons] at hfuel; omega)
    obtain ⟨c, tail, hwrite, hgap, hc⟩ := exists_cons_writeItems h (List.cons_ne_nil w more)
    rw [write, List.cons_append, List.cons_append, List.append_assoc]
    rw [hwrite] at hread ⊢
    exact (valueFrom_bracket hgap hc fuel).trans (congrArg (Option.map _) hread)
  | .object [], fuel + 1 => rfl
  | .object (field :: more), fuel + 1 =>
    have hread := fieldsFrom_write (field :: more) h.2 (List.cons_ne_nil field more) fuel [] rest
      h.1 (by simp only [write, List.length_append, List.length_cons] at hfuel; omega)
    obtain ⟨tail, hwrite⟩ := exists_cons_writeFields (List.cons_ne_nil field more)
    rw [write, List.cons_append, List.cons_append, List.append_assoc]
    rw [hwrite] at hread ⊢
    exact (valueFrom_brace fuel).trans (congrArg (Option.map _) hread)
  | .null, fuel + 1 => exact valueFrom_scalar rfl h fuel hend
  | .bool _, fuel + 1 => exact valueFrom_scalar rfl h fuel hend
  | .int _, fuel + 1 => exact valueFrom_scalar rfl h fuel hend
  | .float _, fuel + 1 => exact valueFrom_scalar rfl h fuel hend
  | .text _, fuel + 1 => exact valueFrom_scalar rfl h fuel hend
  | .broken _, _ => exact h.elim

/-- The written items of a list are read up to its closing bracket. -/
theorem itemsFrom_write (values : List Value) (h : AreReadable values) (hne : values ≠ [])
    (fuel : Nat) (items : List Value) (rest : Text)
    (hfuel : 2 * (writeItems values).length + 1 ≤ fuel) :
    itemsFrom fuel items (writeItems values ++ ']' :: rest) =
      some (items.reverse ++ values, rest) := by
  match values, fuel with
  | [], _ => exact absurd rfl hne
  | [v], fuel + 1 =>
    rw [writeItems] at hfuel ⊢
    exact itemsFrom_last (valueFrom_write v h.1 fuel _ (by omega) (endsNumber_cons (by decide)))
  | v :: w :: more, fuel + 1 =>
    have hmore := List.cons_ne_nil w more
    rw [writeItems_more hmore] at hfuel ⊢
    simp only [List.length_append, List.length_cons] at hfuel
    have hread := valueFrom_write v h.1 fuel (',' :: ' ' :: (writeItems (w :: more) ++ ']' :: rest))
      (by omega) (endsNumber_cons (by decide))
    have hskip : skipGap (writeItems (w :: more) ++ ']' :: rest) =
        writeItems (w :: more) ++ ']' :: rest := by
      obtain ⟨c, tail, hwrite, hgap, -⟩ := exists_cons_writeItems h.2 hmore
      rw [hwrite]
      exact skipGap_cons hgap
    rw [List.append_assoc, List.cons_append, List.cons_append, itemsFrom_more hread,
      hskip, itemsFrom_write (w :: more) h.2 hmore fuel _ _ (by omega),
      List.reverse_cons, List.append_assoc, List.singleton_append]

/-- The written fields of an object are read up to its closing brace. -/
theorem fieldsFrom_write (fields : List (Text × Value)) (h : FieldsReadable fields)
    (hne : fields ≠ []) (fuel : Nat) (read : Fields) (rest : Text)
    (hnames : (Register.names (read ++ fields)).Nodup)
    (hfuel : 2 * (writeFields fields).length + 1 ≤ fuel) :
    fieldsFrom fuel read (writeFields fields ++ '}' :: rest) = some (read ++ fields, rest) := by
  match fields, fuel with
  | [], _ => exact absurd rfl hne
  | [(name, v)], fuel + 1 =>
    rw [writeFields] at hfuel ⊢
    simp only [List.length_append, List.length_cons] at hfuel
    have hread := valueFrom_write v h.1 fuel ('}' :: rest) (by omega) (endsNumber_cons (by decide))
    rw [List.append_assoc, List.cons_append, List.cons_append,
      fieldsFrom_last (skipGap_write h.1 _) hread,
      Register.set_of_not_mem (Register.not_mem_of_nodup hnames)]
  | (name, v) :: field :: more, fuel + 1 =>
    have hmore := List.cons_ne_nil field more
    have hsplit : read ++ (name, v) :: field :: more = read ++ [(name, v)] ++ field :: more := by
      simp
    have hnew : Register.set read name v = read ++ [(name, v)] :=
      Register.set_of_not_mem (Register.not_mem_of_nodup hnames)
    rw [writeFields_more hmore] at hfuel ⊢
    simp only [List.length_append, List.length_cons] at hfuel
    have hread := valueFrom_write v h.1 fuel
      (',' :: ' ' :: (writeFields (field :: more) ++ '}' :: rest)) (by omega)
      (endsNumber_cons (by decide))
    have hskip : skipGap (writeFields (field :: more) ++ '}' :: rest) =
        writeFields (field :: more) ++ '}' :: rest := by
      obtain ⟨tail, hwrite⟩ := exists_cons_writeFields hmore
      rw [hwrite]
      exact skipGap_cons rfl
    have hlater := fieldsFrom_write (field :: more) h.2 hmore fuel (read ++ [(name, v)]) rest
      (hsplit ▸ hnames) (by omega)
    simp only [List.append_assoc, List.cons_append] at hlater ⊢
    rw [fieldsFrom_more (skipGap_write h.1 _) hread, hskip, hnew, hlater]
    rfl

end

/-- The text that is written for a value is read as that value. -/
theorem parse?_write (h : v.IsReadable) : parse? (write v) = some v := by
  have hend : EndsNumber [] := fun c hc => by cases hc
  have hskip := skipGap_write h []
  have hread := valueFrom_write v h (2 * (write v).length + 2) [] (by omega) hend
  rw [List.append_nil] at hskip hread
  rw [parse?, hskip, hread]
  rfl

/-- A string that is not closed is no value. -/
theorem parse?_of_unclosed {t : RawText} (h : SpellsChars t s) : parse? ('"' :: s) = none := by
  have hread : valueFrom (2 * ('"' :: s).length + 2) ('"' :: s) = scalar ('"' :: s) := rfl
  rw [parse?, skipGap_cons rfl, hread, scalar_quote, stringFrom_of_unclosed h]
  rfl

/-! ## What holds of written parts -/

mutual

/-- The texts and the names in a value. -/
def Value.texts : Value → List Text
  | .null => []
  | .bool _ => []
  | .int _ => []
  | .float _ => []
  | .text t => [t]
  | .broken _ => []
  | .list values => textsOf values
  | .object fields => textsOfFields fields

/-- The texts and the names in the items of a list. -/
def textsOf : List Value → List Text
  | [] => []
  | v :: more => v.texts ++ textsOf more

/-- The texts and the names in the fields of an object. -/
def textsOfFields : Fields → List Text
  | [] => []
  | (name, v) :: more => name :: (v.texts ++ textsOfFields more)

end

/-- A property of texts that a written value has if its strings have it. -/
structure Composes (Q : Text → Prop) : Prop where
  /-- Nothing has the property. -/
  nil : Q []
  /-- Texts with the property may stand one behind the other. -/
  append {s t : Text} (hs : Q s) (ht : Q t) : Q (s ++ t)
  /-- What stands between two items has it. -/
  comma : Q [',', ' ']
  /-- What stands between a name and its value has it. -/
  colon : Q [':', ' ']
  /-- Words have it. -/
  word {s : Text} {v : Value} (h : (s, v) ∈ words) : Q s
  /-- Numbers have it. -/
  number {s : Text} {v : Value} (h : SpellsNumber v s) : Q s
  /-- A text with the property may stand in brackets. -/
  bracketed {s : Text} (hs : Q s) : Q ('[' :: s ++ [']'])
  /-- A text with the property may stand in braces. -/
  braced {s : Text} (hs : Q s) : Q ('{' :: s ++ ['}'])

namespace Composes

variable {Q : Text → Prop}

/-- A written value without parts has the property. -/
theorem scalar (hq : Composes Q) (hv : v.isCompound = false) (h : v.IsReadable)
    (htexts : ∀ t ∈ v.texts, Q (writeText t)) : Q (write v) := by
  rcases write_cases hv h with hword | hnumber | ⟨t, rfl⟩
  · exact hq.word hword
  · exact hq.number hnumber
  · exact htexts t List.mem_cons_self

/-- A written field has the property if its name and its value have it. -/
theorem field (hq : Composes Q) {name : Text} (hname : Q (writeText name)) (hvalue : Q (write v)) :
    Q (writeText name ++ ':' :: ' ' :: write v) :=
  hq.append hname (hq.append hq.colon hvalue)

mutual

/-- A written value has the property. -/
theorem value (hq : Composes Q) (v : Value) (h : v.IsReadable)
    (htexts : ∀ t ∈ v.texts, Q (writeText t)) : Q (write v) := by
  match v with
  | .list values => exact hq.bracketed (hq.items values h htexts)
  | .object fields => exact hq.braced (hq.entries fields h.2 htexts)
  | .null => exact hq.scalar rfl h htexts
  | .bool _ => exact hq.scalar rfl h htexts
  | .int _ => exact hq.scalar rfl h htexts
  | .float _ => exact hq.scalar rfl h htexts
  | .text _ => exact hq.scalar rfl h htexts
  | .broken _ => exact h.elim

/-- The written items of a list have the property. -/
theorem items (hq : Composes Q) (values : List Value) (h : AreReadable values)
    (htexts : ∀ t ∈ textsOf values, Q (writeText t)) : Q (writeItems values) := by
  match values with
  | [] => exact hq.nil
  | [v] => exact hq.value v h.1 fun t ht => htexts t (List.mem_append_left _ ht)
  | v :: w :: more =>
    have hvalue := hq.value v h.1 fun t ht => htexts t (List.mem_append_left _ ht)
    have hmore := hq.items (w :: more) h.2 fun t ht => htexts t (List.mem_append_right _ ht)
    rw [writeItems_more (List.cons_ne_nil w more)]
    exact hq.append hvalue (hq.append hq.comma hmore)

/-- The written fields of an object have the property. -/
theorem entries (hq : Composes Q) (fields : List (Text × Value)) (h : FieldsReadable fields)
    (htexts : ∀ t ∈ textsOfFields fields, Q (writeText t)) : Q (writeFields fields) := by
  match fields with
  | [] => exact hq.nil
  | [(name, v)] =>
    exact hq.field (htexts name List.mem_cons_self) (hq.value v h.1 fun t ht =>
      htexts t (List.mem_cons_of_mem _ (List.mem_append_left _ ht)))
  | (name, v) :: next :: more =>
    have hfield := hq.field (htexts name List.mem_cons_self) (hq.value v h.1 fun t ht =>
      htexts t (List.mem_cons_of_mem _ (List.mem_append_left _ ht)))
    have hmore := hq.entries (next :: more) h.2 fun t ht =>
      htexts t (List.mem_cons_of_mem _ (List.mem_append_right _ ht))
    rw [writeFields_more (List.cons_ne_nil next more)]
    exact hq.append hfield (hq.append hq.comma hmore)

end

end Composes

/-- What is a part of any literal composes. -/
theorem composes_isPart : Composes IsPart where
  nil := isPart_of_all rfl
  append hs ht := hs.append ht
  comma := isPart_of_all rfl
  colon := isPart_of_all rfl
  word h := by
    simp only [words, List.mem_cons, List.not_mem_nil, or_false, Prod.mk.injEq] at h
    rcases h with ⟨rfl, -⟩ | ⟨rfl, -⟩ | ⟨rfl, -⟩ | ⟨rfl, -⟩ | ⟨rfl, -⟩ | ⟨rfl, -⟩ <;>
      exact isPart_of_all rfl
  number h := isPart_of_quiet h.quiet
  bracketed hs := isPart_of_isLiteral hs.bracketed
  braced hs := isPart_of_isLiteral hs.braced

/-- Written fields are a part of any literal. -/
theorem isPart_writeFields (h : FieldsReadable fields) : IsPart (writeFields fields) :=
  composes_isPart.entries fields h fun t _ => (spellsText_writeText t).isPart

end Playable.Json
