import Mathlib.Data.List.Forall2
import Playable.Proofs.Record.Query
import Playable.Signing

/-!
# Legacy lists

The formats of a legacy list are added one after the other, and what is no format is skipped. So
the fragments of a list do not disturb each other, and an encoded record among them is read as the
format that it describes. There is a limit on the digits of the number of the format only.
-/

namespace Playable.Signing

open Record

variable {fragments : List RawText} {fragment list : RawText} {formats : List Format}

/-- A legacy list adds these formats behind the formats of any data, and says how many they are.
Nothing else changes. -/
def Adds (list : RawText) (formats : List Format) : Prop :=
  ∀ data : StreamingData, applyLegacy data list =
    ⟨{ data with formats := data.formats ++ formats }, formats.length⟩

/-! ## Piece by piece -/

/-- A piece adds the format that it spells, or none. -/
theorem Addition.add_eq (addition : Addition) (piece : RawText) :
    addition.add piece =
      ⟨{ addition.data with
          formats := addition.data.formats ++ (legacyFormat? piece).toList },
        addition.added + (legacyFormat? piece).toList.length⟩ := by
  rw [Addition.add]
  cases legacyFormat? piece with
  | none => simp
  | some format => rfl

/-- Pieces add the formats that they spell, in order. -/
theorem foldl_add (pieces : List RawText) (addition : Addition) :
    pieces.foldl Addition.add addition =
      ⟨{ addition.data with
          formats := addition.data.formats ++ pieces.filterMap legacyFormat? },
        addition.added + (pieces.filterMap legacyFormat?).length⟩ := by
  induction pieces generalizing addition with
  | nil => simp
  | cons piece pieces ih =>
    rw [List.foldl_cons, ih, Addition.add_eq, List.filterMap_cons]
    cases legacyFormat? piece with
    | none => simp
    | some format => simp [Nat.add_assoc, Nat.add_comm 1]

/-- A legacy list adds the formats of its pieces. -/
theorem adds_legacyFormats (list : RawText) : Adds list (legacyFormats list) := by
  intro data
  rw [applyLegacy, foldl_add, Nat.zero_add, legacyFormats]

/-- Which formats a list adds can be told from any data. -/
theorem adds_iff : Adds list formats ↔ legacyFormats list = formats := by
  refine ⟨fun h => ?_, fun h => h ▸ adds_legacyFormats list⟩
  have hnone := (adds_legacyFormats list ⟨[], [], none⟩).symm.trans (h ⟨[], [], none⟩)
  exact congrArg (·.data.formats) hnone

/-- The data with a legacy list have the formats of the list behind their own. -/
theorem addLegacy_eq (data : StreamingData) (list : RawText) :
    addLegacy data list = { data with formats := data.formats ++ legacyFormats list } := by
  rw [addLegacy, adds_legacyFormats]

/-! ## Fragments -/

/-- What each fragment adds alone is what it spells. -/
theorem forall₂_adds_iff {each : List (List Format)} :
    List.Forall₂ Adds fragments each ↔ fragments.map legacyFormats = each := by
  have hadds : Adds = fun list formats => legacyFormats list = formats :=
    funext₂ fun _ _ => propext adds_iff
  rw [hadds, ← List.forall₂_map_left_iff, List.forall₂_eq_eq_eq]

/-- A fragment without a comma is a single piece. -/
theorem legacyFormats_of_not_mem (h : .char ',' ∉ fragment) :
    legacyFormats fragment = (legacyFormat? fragment).toList := by
  rw [legacyFormats, Text.split_of_not_mem h, List.filterMap_eq_flatMap_toList,
    List.flatMap_singleton]

/-- The formats of a list are those of its fragments, each taken alone. -/
theorem legacyFormats_join (h : ∀ fragment ∈ fragments, .char ',' ∉ fragment) :
    legacyFormats (Text.join [.char ','] fragments) = fragments.flatMap legacyFormats := by
  by_cases hnone : fragments = []
  · subst hnone
    rfl
  · rw [legacyFormats, Text.split_join hnone h, List.filterMap_eq_flatMap_toList]
    exact List.flatMap_congr fun fragment hfragment =>
      (legacyFormats_of_not_mem (h fragment hfragment)).symm

/-! ## Encoded records -/

/-- An encoded query holds no comma. -/
theorem not_mem_comma (pairs : List (Text × Text)) :
    .char ',' ∉ Text.raw (Url.formQuery pairs) := by
  intro hmem
  obtain ⟨c, hc, ⟨⟩⟩ := List.mem_map.mp hmem
  exact Url.not_mem_formQuery (by decide) (by decide) pairs hc

/-- An encoded record is read as the format that it describes, if its number is not too long. -/
theorem legacyFormats_of_record {record : QueryRecord} {pairs : List (Text × Text)}
    (hfilled : record.IsFilled) (h : pairs.Perm record.pairs) :
    legacyFormats (Text.raw (Url.formQuery pairs)) =
      if (Text.ofNat record.itag.natAbs).length ≤ Number.maxDigits then [record.format]
      else [] := by
  have hvisible : ∀ c ∈ Url.formQuery pairs, Text.isBlank c = false := fun c hc =>
    have hbounds := Url.bounds_of_mem_formQuery hc
    Text.isBlank_of_bounds hbounds.1 hbounds.2
  have hne : Text.raw (Url.formQuery pairs) ≠ [] := fun hnone =>
    Url.formQuery_ne_nil (fun hpairs => List.cons_ne_nil _ _ (List.nil_perm.mp (hpairs ▸ h)))
      (List.map_eq_nil_iff.mp hnone)
  have htrim : Text.trim (CodePoint.isChar Text.isBlank) (Text.raw (Url.formQuery pairs)) =
      Text.raw (Url.formQuery pairs) := by
    rw [Text.trim_raw, Text.trim_of_forall hvisible]
  rw [legacyFormats_of_not_mem (not_mem_comma pairs), legacyFormat?]
  simp only [htrim, if_neg hne, ofQuery_of_perm hfilled h]
  split <;> rfl

/-- Every legacy list adds formats behind those that are there, and changes nothing else. What it
adds is what each of its fragments adds alone, in order. An encoded record among them, with its
pairs in any order, adds the format that it describes, if its number has at most 4300 digits; if
not, it is skipped. -/
theorem legacy_fragments_add_alone :
    (∀ list, ∃ formats, Adds list formats) ∧
      (∀ fragments each, (∀ fragment ∈ fragments, .char ',' ∉ fragment) →
        List.Forall₂ Adds fragments each → Adds (Text.join [.char ','] fragments) each.flatten) ∧
      ∀ (record : QueryRecord) (pairs : List (Text × Text)),
        record.IsFilled → pairs.Perm record.pairs →
          .char ',' ∉ Text.raw (Url.formQuery pairs) ∧
          Adds (Text.raw (Url.formQuery pairs))
            (if (Text.ofNat record.itag.natAbs).length ≤ 4300 then [record.format] else []) := by
  refine ⟨fun list => ⟨_, adds_legacyFormats list⟩, fun fragments each hcomma hadds => ?_,
    fun record pairs hfilled h => ⟨not_mem_comma pairs, ?_⟩⟩
  · rw [adds_iff, legacyFormats_join hcomma, ← forall₂_adds_iff.mp hadds, List.flatMap_def]
  · exact adds_iff.mpr (legacyFormats_of_record hfilled h)

/-- A record with commas, ampersands and Unicode in its values is read as it is among blank and
broken fragments, and among fragments with a number or a place that is none. -/
theorem legacy_fragments_add_alone_among_garbage :
    let record : QueryRecord := ⟨-18, "http://h/a,b?x=1&y=ü".toList, some "s,&=%,".toList,
      some "é".toList, some "video/mp4; codecs=\"a, b\"".toList, none⟩
    let pairs := record.pairs.reverse
    let before : List RawText :=
      [Text.raw " ".toList, Text.raw "%%%=&&".toList, Text.raw "itag=x&url=u".toList]
    let behind : List RawText :=
      [Text.raw "itag=9&cipher=s%3Dx".toList, Text.raw "itag=9&fps=x".toList, [.half 0], []]
    let fragment := Text.raw (Url.formQuery pairs)
    record.IsFilled ∧ Url.formQuery pairs = ("type=video%2Fmp4%3B+codecs%3D%22a%2C+b%22&".toList ++
        "sp=%C3%A9&s=s%2C%26%3D%25%2C&url=http%3A%2F%2Fh%2Fa%2Cb%3Fx%3D1%26y%3D%C3%BC&".toList ++
        "itag=-18".toList) ∧
      Adds (Text.join [.char ','] (before ++ fragment :: behind)) [record.format] := by
  intro record pairs before behind fragment
  have hfilled : record.IsFilled := by decide +kernel
  have hspelled : Url.formQuery pairs =
      ("type=video%2Fmp4%3B+codecs%3D%22a%2C+b%22&".toList ++
        "sp=%C3%A9&s=s%2C%26%3D%25%2C&url=http%3A%2F%2Fh%2Fa%2Cb%3Fx%3D1%26y%3D%C3%BC&".toList ++
        "itag=-18".toList) := by decide +kernel
  refine ⟨hfilled, hspelled, ?_⟩
  obtain ⟨-, hjoin, hrecord⟩ := legacy_fragments_add_alone
  obtain ⟨hcomma, hadds⟩ := hrecord record pairs hfilled (List.reverse_perm _)
  have hshort : (Text.ofNat record.itag.natAbs).length ≤ 4300 := by decide +kernel
  rw [if_pos hshort] at hadds
  have hbefore : List.Forall₂ Adds before [[], [], []] :=
    forall₂_adds_iff.mpr (by decide +kernel)
  have hbehind : List.Forall₂ Adds behind [[], [], [], []] :=
    forall₂_adds_iff.mpr (by decide +kernel)
  exact hjoin (before ++ fragment :: behind) _
    (List.forall_mem_append.mpr ⟨by decide, List.forall_mem_cons.mpr ⟨hcomma, by decide⟩⟩)
    (List.rel_append hbefore (.cons hadds hbehind))

end Playable.Signing
