import Playable.Json.Value
import Playable.Proofs.Sequence
import Playable.Proofs.Text.Cut

/-!
# Texts among raw texts

A raw text can be encoded exactly if it is a text, and it is then encoded as that text.
Cutting and trimming a text gives the same pieces whether it is taken as it is or as a raw
text.
-/

namespace Playable

variable {s t : Text} {r : RawText} {e : EncodingError}

/-! ## Encoding -/

/-- Behind a character the rest of a raw text is encoded. -/
theorem RawText.charactersFrom_char (place : Nat) (c : Char) (r : RawText) :
    charactersFrom place (.char c :: r) = (charactersFrom (place + 1) r).map (c :: ·) :=
  rfl

/-- A text has its own characters. -/
@[simp]
theorem Text.characters_raw (t : Text) : t.raw.characters = .ok t := by
  have hfrom : ∀ place, RawText.charactersFrom place t.raw = .ok t := by
    induction t with
    | nil => exact fun _ => rfl
    | cons c t ih =>
      intro place
      rw [raw, List.map_cons, RawText.charactersFrom_char, ← raw, ih]
      rfl
  exact hfrom 0

/-- What has characters is the text of these characters. -/
theorem RawText.eq_raw_of_charactersFrom (place : Nat) (h : charactersFrom place r = .ok t) :
    r = t.raw := by
  induction r generalizing place t with
  | nil =>
    cases h
    rfl
  | cons p r ih =>
    cases p with
    | half n => cases h
    | char c =>
      rw [charactersFrom_char] at h
      obtain ⟨more, hmore, rfl⟩ := map_eq_ok_iff.mp h
      rw [ih _ hmore]
      rfl

/-- A raw text is encoded as a text exactly if it is that text. -/
theorem RawText.characters_eq_ok_iff : r.characters = .ok t ↔ r = t.raw :=
  ⟨eq_raw_of_charactersFrom 0, fun h => h ▸ Text.characters_raw t⟩

/-- Half of a surrogate pair stands in a raw text. -/
def RawText.HasHalf (r : RawText) : Prop :=
  ∃ n, CodePoint.half n ∈ r

/-- A half is what keeps a raw text from being encoded. -/
theorem RawText.hasHalf_of_charactersFrom (place : Nat) (h : charactersFrom place r = .error e) :
    r.HasHalf := by
  induction r generalizing place with
  | nil => cases h
  | cons p r ih =>
    cases p with
    | half n => exact ⟨n, List.mem_cons_self⟩
    | char c =>
      rw [charactersFrom_char] at h
      cases hmore : charactersFrom (place + 1) r with
      | ok more =>
        rw [hmore] at h
        cases h
      | error e' =>
        rw [hmore] at h
        obtain rfl := Except.error.inj h
        obtain ⟨n, hn⟩ := ih _ hmore
        exact ⟨n, List.mem_cons_of_mem _ hn⟩

/-- No half stands in a text. -/
theorem Text.not_hasHalf_raw (t : Text) : ¬ t.raw.HasHalf := by
  rintro ⟨n, hn⟩
  obtain ⟨c, -, hc⟩ := List.mem_map.mp hn
  cases hc

/-- A raw text is a text, or a half stands in it and it is not encoded. -/
theorem RawText.text_or_hasHalf (r : RawText) :
    (∃ t : Text, r = t.raw) ∨ r.HasHalf ∧ ∃ e, r.characters = .error e := by
  cases h : r.characters with
  | ok t => exact .inl ⟨t, characters_eq_ok_iff.mp h⟩
  | error e => exact .inr ⟨hasHalf_of_charactersFrom 0 h, e, rfl⟩

/-- Different texts are different raw texts. -/
theorem Text.raw_injective : Function.Injective Text.raw :=
  List.map_injective_iff.mpr fun _ _ h => CodePoint.char.inj h

/-- A text is kept where the replacement character stands for halves. -/
@[simp]
theorem Text.toText_raw (t : Text) : t.raw.toText = t := by
  rw [RawText.toText, raw, List.map_map]
  exact List.map_id t

/-! ## Cutting -/

section Mapped

variable {α β : Type} [DecidableEq α] [DecidableEq β] {f : α → β}

/-- Different elements stay different, so the pieces are the mapped ones. -/
theorem Text.split_map (hf : Function.Injective f) (sep : α) (t : List α) :
    split (f sep) (t.map f) = (split sep t).map (List.map f) := by
  induction t with
  | nil => rfl
  | cons c t ih =>
    rw [List.map_cons, split_cons, split_cons, ih]
    by_cases hc : c = sep
    · rw [if_pos hc, if_pos (congrArg f hc)]
      rfl
    · rw [if_neg hc, if_neg (hf.ne hc)]
      cases split sep t <;> rfl

/-- A mapped text is cut where the text is. -/
theorem Text.cutFirst_map (hf : Function.Injective f) (sep : α) (t : List α) :
    cutFirst (f sep) (t.map f) =
      ((cutFirst sep t).1.map f, (cutFirst sep t).2.map (List.map f)) := by
  have hsep : (fun c => decide (f c ≠ f sep)) = fun c => decide (c ≠ sep) :=
    funext fun c => decide_eq_decide.mpr hf.ne_iff
  rw [cutFirst, List.dropWhile_map, List.takeWhile_map, cutFirst]
  simp only [Function.comp_def, hsep]
  cases t.dropWhile (· ≠ sep) <;> rfl

end Mapped

/-- The pieces of a raw text are those of the text. -/
theorem Text.split_raw (sep : Char) (t : Text) :
    split (.char sep) t.raw = (split sep t).map raw :=
  split_map (fun _ _ h => CodePoint.char.inj h) sep t

/-- The two parts of a raw text are those of the text. -/
theorem Text.cutFirst_raw (sep : Char) (t : Text) :
    cutFirst (.char sep) t.raw = (raw (cutFirst sep t).1, (cutFirst sep t).2.map raw) :=
  cutFirst_map (fun _ _ h => CodePoint.char.inj h) sep t

/-- A raw text is trimmed like the text. -/
theorem Text.trim_raw (p : Char → Bool) (t : Text) :
    trim (CodePoint.isChar p) t.raw = raw (trim p t) := by
  have hp : CodePoint.isChar p ∘ CodePoint.char = p := rfl
  rw [trim, raw, List.dropWhile_map, hp, ← List.map_reverse, List.dropWhile_map, hp,
    ← List.map_reverse]
  rfl

/-! ## Values -/

/-- A text is a value of its own. -/
@[simp]
theorem Json.Value.ofRaw_raw (t : Text) : ofRaw t.raw = .text t := by
  rw [ofRaw]
  split
  · rename_i h
    rw [Text.characters_raw] at h
    rw [Except.ok.inj h]
  · rename_i h
    rw [Text.characters_raw] at h
    cases h

/-- The value of a raw text is that raw text. -/
@[simp]
theorem Json.Value.raw?_ofRaw (r : RawText) : (ofRaw r).raw? = some r := by
  rw [ofRaw]
  split
  · rename_i h
    rw [raw?, RawText.characters_eq_ok_iff.mp h]
  · rfl

/-- The value of a raw text is a text or a broken text. -/
theorem Json.Value.ofRaw_cases (r : RawText) :
    (∃ t, r = t.raw ∧ ofRaw r = .text t) ∨ ∃ b : BrokenText, r = b.codePoints ∧
      ofRaw r = .broken b := by
  rw [ofRaw]
  split
  · rename_i h
    exact .inl ⟨_, RawText.characters_eq_ok_iff.mp h, rfl⟩
  · exact .inr ⟨_, rfl, rfl⟩

end Playable
