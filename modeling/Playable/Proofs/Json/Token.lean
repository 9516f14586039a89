import Mathlib.Data.List.Infix
import Playable.Proofs.Json.Written

/-!
# The strings in a written value

Outside of its strings a written value is made of few characters, and inside of them every
character that is not escaped stands for itself. So a piece of a written value that begins with
a letter foreign to it lies in a string, up to a quote, and was a piece of the text there.
-/

namespace Playable.Json

variable {c d : Char} {s t u w x y rest : Text} {P : Text → Prop}

/-! ## Plain characters -/

/-- The characters that escapes are made of. -/
def escapeChars : Text :=
  "\\\"/bfnrtu0123456789abcdef".toList

/-- The last digit of a number in hexadecimal notation is found in escapes. -/
theorem digitChar_mem (n : Nat) : Nat.digitChar (n % 16) ∈ escapeChars := by
  have h : ∀ m < 16, Nat.digitChar m ∈ escapeChars := by decide
  exact h _ (Nat.mod_lt _ (by decide))

/-- The escape of a code unit is made of the characters of escapes. -/
theorem unitEscape_subset (n : Nat) : unitEscape n ⊆ escapeChars := by
  have hmark : ['\\', 'u'] ⊆ escapeChars := by decide
  intro c hc
  rw [show unitEscape n = ['\\', 'u'] ++ Text.hexDigits 4 n from rfl] at hc
  rcases List.mem_append.mp hc with hc | hc
  · exact hmark hc
  · obtain ⟨i, -, rfl⟩ := List.mem_map.mp hc
    exact digitChar_mem _

/-- A character stands for itself inside a string, or it is escaped. -/
theorem writeChar_eq_or_escaped (c : Char) :
    (writeChar c = [c] ∧ c ≠ '"' ∧ c ≠ '\\' ∧ 32 ≤ c.toNat ∧ c.toNat < 127) ∨
      (∃ more, writeChar c = '\\' :: more) ∧ writeChar c ⊆ escapeChars := by
  have hshort : '\\' :: shortLetters ⊆ escapeChars := by decide
  rcases writeChar_cases c with ⟨e, he, -, hwrite⟩ | ⟨hwrite, hlow, hhigh, hquote, hescape⟩ |
    ⟨hwrite, -⟩ | ⟨hwrite, -⟩
  · rw [hwrite]
    exact .inr ⟨⟨_, rfl⟩, List.cons_subset.mpr ⟨hshort List.mem_cons_self,
      List.cons_subset.mpr ⟨hshort (List.mem_cons_of_mem _ he), List.nil_subset _⟩⟩⟩
  · exact .inl ⟨hwrite, hquote, hescape, hlow, hhigh⟩
  · rw [hwrite]
    exact .inr ⟨⟨_, rfl⟩, unitEscape_subset _⟩
  · rw [hwrite]
    exact .inr ⟨⟨_, rfl⟩, List.append_subset.mpr ⟨unitEscape_subset _, unitEscape_subset _⟩⟩

/-- A character that escapes do not hold is written only for itself. -/
theorem writeChar_of_mem (hd : d ∉ escapeChars) (h : d ∈ writeChar c) :
    c = d ∧ writeChar c = [d] := by
  rcases writeChar_eq_or_escaped c with ⟨hwrite, -⟩ | ⟨-, hsubset⟩
  · rw [hwrite, List.mem_singleton] at h
    exact ⟨h.symm, h ▸ hwrite⟩
  · exact absurd (hsubset h) hd

/-- A character that escapes do not hold stands for itself in a written text. -/
theorem exists_split_of_mem (hd : d ∉ escapeChars) (h : t.flatMap writeChar = x ++ d :: y) :
    ∃ u w, t = u ++ d :: w ∧ y = w.flatMap writeChar := by
  induction t generalizing x with
  | nil => simp at h
  | cons c t ih =>
    rw [List.flatMap_cons] at h
    by_cases hmem : d ∈ writeChar c
    · obtain ⟨rfl, hsingle⟩ := writeChar_of_mem hd hmem
      rw [hsingle, List.singleton_append] at h
      cases x with
      | nil =>
        rw [List.nil_append, List.cons.injEq] at h
        exact ⟨[], t, rfl, h.2.symm⟩
      | cons e x =>
        rw [List.cons_append, List.cons.injEq] at h
        obtain ⟨u, w, rfl, hy⟩ := ih h.2
        exact ⟨c :: u, w, rfl, hy⟩
    · obtain ⟨z, -, hz⟩ := Text.append_cons_eq_front hmem h.symm
      obtain ⟨u, w, rfl, hy⟩ := ih hz
      exact ⟨c :: u, w, rfl, hy⟩

/-- Characters that are neither quotes nor backslashes stand for themselves in a string. -/
theorem exists_append_of_plain (hw : ∀ c ∈ w, c ≠ '"' ∧ c ≠ '\\')
    (h : w ++ y = t.flatMap writeChar ++ '"' :: rest) :
    ∃ u, t = w ++ u ∧ y = u.flatMap writeChar ++ '"' :: rest ∧
      ∀ c ∈ w, 32 ≤ c.toNat ∧ c.toNat < 127 := by
  induction w generalizing t with
  | nil => exact ⟨t, rfl, h, by simp⟩
  | cons c w ih =>
    obtain ⟨hquote, hescape⟩ := hw c List.mem_cons_self
    cases t with
    | nil =>
      rw [List.flatMap_nil, List.nil_append, List.cons_append, List.cons.injEq] at h
      exact absurd h.1 hquote
    | cons d t =>
      rw [List.flatMap_cons] at h
      rcases writeChar_eq_or_escaped d with ⟨hwrite, -, -, hrange⟩ | ⟨⟨more, hwrite⟩, -⟩
      · rw [hwrite, List.cons_append, List.singleton_append, List.cons_append, List.cons.injEq] at h
        obtain ⟨rfl, h⟩ := h
        obtain ⟨u, rfl, hy, hplain⟩ := ih (fun e he => hw e (List.mem_cons_of_mem c he)) h
        exact ⟨u, rfl, hy, List.forall_mem_cons.mpr ⟨hrange, hplain⟩⟩
      · rw [hwrite, List.cons_append, List.cons_append, List.cons_append, List.cons.injEq] at h
        exact absurd h.1 hescape

/-- A quote behind plain characters closes the string. -/
theorem eq_of_plain_quote (hw : ∀ c ∈ w, c ≠ '"' ∧ c ≠ '\\')
    (h : w ++ '"' :: y = t.flatMap writeChar ++ '"' :: rest) : t = w ∧ y = rest := by
  obtain ⟨u, rfl, hy, -⟩ := exists_append_of_plain hw h
  cases u with
  | nil =>
    rw [List.flatMap_nil, List.nil_append, List.cons.injEq] at hy
    exact ⟨List.append_nil w, hy.2⟩
  | cons c u =>
    have hhead := congrArg List.head? hy
    rw [List.flatMap_cons, List.append_assoc] at hhead
    rcases writeChar_eq_or_escaped c with ⟨hwrite, hquote, -⟩ | ⟨⟨more, hwrite⟩, -⟩
    · rw [hwrite] at hhead
      exact absurd (Option.some.inj hhead).symm hquote
    · rw [hwrite] at hhead
      cases hhead

/-! ## Tokens and strings -/

/-- The characters that a written value is made of outside of its strings. -/
def isTokenChar (c : Char) : Bool :=
  isNumberChar c || c ∈ "[]\x7b\x7d:, truefalsenullNaNInfinity".toList

/-- A text made of tokens and of strings that hold texts with a property. -/
inductive Woven (P : Text → Prop) : Text → Prop where
  /-- Nothing. -/
  | nil : Woven P []
  /-- A character of a token. -/
  | token {c : Char} {s : Text} (hc : isTokenChar c = true) (hs : Woven P s) : Woven P (c :: s)
  /-- A string. -/
  | string {t s : Text} (ht : P t) (hs : Woven P s) :
      Woven P ('"' :: (t.flatMap writeChar ++ '"' :: s))

/-- Woven texts stand one behind the other. -/
theorem Woven.append (hs : Woven P s) (ht : Woven P t) : Woven P (s ++ t) := by
  induction hs with
  | nil => exact ht
  | token hc _ ih => exact .token hc ih
  | string hp _ ih =>
    simp only [List.cons_append, List.append_assoc]
    exact .string hp ih

/-- Characters of tokens are woven. -/
theorem woven_of_tokens (h : ∀ c ∈ s, isTokenChar c = true) : Woven P s := by
  induction s with
  | nil => exact .nil
  | cons c s ih =>
    exact .token (h c List.mem_cons_self) (ih fun d hd => h d (List.mem_cons_of_mem c hd))

/-- A written text is woven of itself. -/
theorem woven_writeText (ht : P t) : Woven P (writeText t) := by
  have h := Woven.string ht Woven.nil
  rwa [← List.cons_append] at h

/-- What is woven composes. -/
theorem composes_woven : Composes (Woven P) where
  nil := .nil
  append hs ht := hs.append ht
  comma := woven_of_tokens (Text.forall_mem_of_all rfl)
  colon := woven_of_tokens (Text.forall_mem_of_all rfl)
  word h := by
    simp only [words, List.mem_cons, List.not_mem_nil, or_false, Prod.mk.injEq] at h
    rcases h with ⟨rfl, -⟩ | ⟨rfl, -⟩ | ⟨rfl, -⟩ | ⟨rfl, -⟩ | ⟨rfl, -⟩ | ⟨rfl, -⟩ <;>
      exact woven_of_tokens (Text.forall_mem_of_all rfl)
  number h := woven_of_tokens fun c hc => by rw [isTokenChar, h.isNumberChar c hc, Bool.true_or]
  bracketed hs := .token rfl (hs.append (.token rfl .nil))
  braced hs := .token rfl (hs.append (.token rfl .nil))

/-- A written value is woven of its texts and names. -/
theorem woven_write (v : Value) (h : v.IsReadable) (hp : ∀ t ∈ v.texts, P t) :
    Woven P (write v) :=
  composes_woven.value v h fun t ht => woven_writeText (hp t ht)

/-- A character foreign to tokens and escapes stands in a string, and behind its quote the text
is woven again. -/
theorem Woven.exists_string (h : Woven P s) (htoken : isTokenChar d = false) (hquote : d ≠ '"')
    (hescape : d ∉ escapeChars) (hs : s = x ++ d :: y) :
    ∃ t u w rest, P t ∧ t = u ++ d :: w ∧ y = w.flatMap writeChar ++ '"' :: rest ∧
      Woven P rest := by
  induction h generalizing x with
  | nil => simp at hs
  | @token c s hc _ ih =>
    cases x with
    | nil =>
      rw [List.nil_append, List.cons.injEq] at hs
      rw [hs.1, htoken] at hc
      cases hc
    | cons e x =>
      rw [List.cons_append, List.cons.injEq] at hs
      exact ih hs.2
  | @string t s ht hwoven ih =>
    have hne : '"' ∉ [d] := fun hmem => hquote (List.mem_singleton.mp hmem).symm
    obtain ⟨z, rfl, hrest⟩ := Text.cons_eq_append (List.cons_ne_nil d []) hne hs
    rcases Text.append_cons_eq_append hne hrest with ⟨z', hbody, rfl⟩ | ⟨z', -, hlater⟩
    · obtain ⟨u, w, rfl, rfl⟩ := exists_split_of_mem hescape hbody
      exact ⟨_, u, w, s, ht, rfl, rfl, hwoven⟩
    · exact ih hlater

/-- Up to the next quote a woven text is made of tokens. -/
theorem Woven.isTokenChar (h : Woven P s) (hs : s = w ++ y) (hw : '"' ∉ w) :
    ∀ c ∈ w, isTokenChar c = true := by
  induction h generalizing w with
  | nil =>
    obtain ⟨rfl, -⟩ := List.append_eq_nil_iff.mp hs.symm
    simp
  | @token c s hc _ ih =>
    cases w with
    | nil => simp
    | cons e w =>
      rw [List.cons_append, List.cons.injEq] at hs
      obtain ⟨rfl, rfl⟩ := hs
      rw [List.mem_cons, not_or] at hw
      exact List.forall_mem_cons.mpr ⟨hc, ih rfl hw.2⟩
  | string _ _ _ =>
    cases w with
    | nil => simp
    | cons e w =>
      rw [List.cons_append, List.cons.injEq] at hs
      rw [List.mem_cons, not_or] at hw
      exact absurd hs.1 hw.1

end Playable.Json
