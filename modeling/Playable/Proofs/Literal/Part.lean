import Playable.Proofs.Literal.Grammar
import Playable.Proofs.Text.Cut

/-!
# Parts of literals

Most texts can stand inside a literal of either kind and behind any text: they hold no
character that a literal treats specially, or they are literals or quoted strings
themselves. Such parts can be put together freely.
-/

namespace Playable.Literal

variable {s t : Text}

/-- A text that is a sequence of items in every object and every list, whatever stands
in front of it. -/
def IsPart (s : Text) : Prop :=
  ∀ closer before, closer = '}' ∨ closer = ']' → Items closer before s

/-- Parts stand one behind the other. -/
theorem IsPart.append (hs : IsPart s) (ht : IsPart t) : IsPart (s ++ t) :=
  fun closer before hcloser => (hs closer before hcloser).append (ht closer _ hcloser)

/-- A character that no literal treats specially. -/
def IsQuiet (c : Char) : Prop :=
  c ∉ ['{', '}', '[', ']', '"', '/']

instance : DecidablePred IsQuiet :=
  fun c => inferInstanceAs (Decidable (c ∉ _))

/-- Quiet characters are a part of any literal. -/
theorem isPart_of_quiet (h : ∀ c ∈ s, IsQuiet c) : IsPart s := by
  intro closer before hcloser
  refine Items.ofPlain fun c hc => ?_
  have hquiet := h c hc
  simp only [IsQuiet, List.mem_cons, List.not_mem_nil, or_false, not_or] at hquiet ⊢
  obtain ⟨hbrace, hbrace', hbracket, hbracket', hquote, hslash⟩ := hquiet
  rcases hcloser with rfl | rfl
  · exact ⟨hbrace', hbrace, hbracket, hquote, hslash⟩
  · exact ⟨hbracket', hbrace, hbracket, hquote, hslash⟩

/-- A text that is seen to be quiet is a part of any literal. -/
theorem isPart_of_all (h : s.all (IsQuiet ·) = true) : IsPart s :=
  isPart_of_quiet (Text.forall_mem_of_all h)

/-- A quiet character in front of a part belongs to the part. -/
theorem IsPart.cons {c : Char} (hc : IsQuiet c) (hs : IsPart s) : IsPart (c :: s) :=
  (isPart_of_quiet (s := [c]) (by simpa using hc)).append hs

/-- Parts joined by a part are a part. -/
theorem isPart_join {sep : Text} {ts : List Text} (hsep : IsPart sep) (h : ∀ t ∈ ts, IsPart t) :
    IsPart (Text.join sep ts) := by
  induction ts with
  | nil => exact isPart_of_quiet (by simp [Text.join])
  | cons t ts ih =>
    have ht : IsPart t := h t List.mem_cons_self
    cases ts with
    | nil => exact ht
    | cons s ts => exact (ht.append hsep).append (ih fun t ht => h t (List.mem_cons_of_mem _ ht))

/-- A part between brackets is a literal. -/
theorem IsPart.bracketed (hs : IsPart s) (before : Text) : IsLiteral before ('[' :: s ++ [']']) :=
  ⟨'[', ']', s, .brackets, hs _ _ (.inr rfl), rfl⟩

/-- A part between braces is a literal. -/
theorem IsPart.braced (hs : IsPart s) (before : Text) : IsLiteral before ('{' :: s ++ ['}']) :=
  ⟨'{', '}', s, .braces, hs _ _ (.inl rfl), rfl⟩

/-- A literal is a part of any literal. -/
theorem isPart_of_isLiteral (h : ∀ before, IsLiteral before s) : IsPart s :=
  fun _ before _ => (h before).items

/-- A part between brackets is a part again. -/
theorem IsPart.bracketed_isPart (hs : IsPart s) : IsPart ('[' :: s ++ [']']) :=
  isPart_of_isLiteral hs.bracketed

/-- Without the mark and without backslashes every character stands for itself. -/
theorem verbatim_of_forall {mark : Char} (h : ∀ c ∈ s, c ≠ mark ∧ c ≠ '\\') :
    Verbatim mark s := by
  induction s with
  | nil => exact .nil
  | cons c s ih =>
    obtain ⟨hmark, hescape⟩ := h c List.mem_cons_self
    exact .plain hmark hescape (ih fun d hd => h d (List.mem_cons_of_mem c hd))

/-- A quoted string is a part of any literal. -/
theorem isPart_of_verbatim (h : Verbatim '"' s) : IsPart ('"' :: s ++ ['"']) :=
  fun _ _ _ => Items.quoted h Items.nil

/-- A decimal digit is quiet. -/
theorem isQuiet_of_isDigit {c : Char} (h : c.isDigit = true) : IsQuiet c := by
  have hne : ∀ d : Char, d.isDigit = false → c ≠ d := fun d hd he => by simp [he, hd] at h
  simp only [IsQuiet, List.mem_cons, List.not_mem_nil, or_false, not_or]
  exact ⟨hne _ rfl, hne _ rfl, hne _ rfl, hne _ rfl, hne _ rfl, hne _ rfl⟩

end Playable.Literal
