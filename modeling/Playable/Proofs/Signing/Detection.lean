import Playable.Proofs.Signing.Parameter

/-!
# Finding a signature in a URL

Whether a URL carries a signature is decided by the names of its parameters. Encoded names and
values hold no mark of a URL and no separator, so neither the values nor the other names can be
taken for a signature, and neither can the path or the fragment, whatever they hold.
-/

namespace Playable.Signing

variable {base : Text} {parts : Url.Parts}

/-- A URL with encoded parameters, and perhaps a fragment, behind its path. -/
def withParameters (base : Text) (pairs : List (Text × Text)) (fragment : Option Text) : Text :=
  base ++ Url.queryText (Url.formQuery pairs) fragment

section Base

variable (h : Url.split base = .ok parts) (hquery : '?' ∉ base) (hfragment : '#' ∉ base)
include h hquery hfragment

/-- The fields of a URL with parameters are these parameters. -/
theorem exists_split_withParameters (pairs : List (Text × Text)) (fragment : Option Text) :
    ∃ longer, Url.split (withParameters base pairs fragment) = .ok longer ∧
      Url.formFields true longer.query = pairs := by
  have hplain := isPlain_formQuery pairs
  refine ⟨_, Url.split_append_queryText h hfragment hquery hplain.number fragment, ?_⟩
  dsimp only
  rw [hplain.filter_eq_self, Url.formFields_formQuery]
  simp only [Bool.true_or, List.filter_true]

/-- A URL with parameters carries a signature exactly if one of the parameters has the name of a
signature, wherever it stands and whatever its value, the other parameters, the path and the
fragment are. -/
theorem hasSignature_iff_named (pairs : List (Text × Text)) (fragment : Option Text) :
    ∃ found, hasSignature (withParameters base pairs fragment) = .ok found ∧
      (found = true ↔ ∃ pair ∈ pairs,
        pair.1 ∈ ["signature".toList, "sig".toList, "lsig".toList]) := by
  obtain ⟨longer, hlonger, hfields⟩ :=
    exists_split_withParameters h hquery hfragment pairs fragment
  refine ⟨_, hasSignature_eq hlonger, ?_⟩
  rw [hfields, List.any_eq_true]
  refine exists_congr fun pair => and_congr_right fun _ => ?_
  rw [Text.isOneOf, List.any_eq_true]
  simp [signatureNames]

end Base

/-- The user, the path, other names, values and the fragment look like signatures; only a parameter
with one of the names is one, even if its value is blank. -/
theorem hasSignature_iff_named_lookalikes :
    let base : Text := "Ftp://sig=1@h:8/lsig=1&sig".toList
    let parts : Url.Parts := ⟨"ftp".toList, "sig=1@h:8".toList, "/lsig=1&sig".toList, [], []⟩
    let lookalikes : List (Text × Text) := [("x&sig".toList, "sig=1".toList), ("Sig".toList, []),
      (" sig".toList, "?signature=1".toList)]
    let fragment : Option Text := some ":/\t/?sig=1#".toList
    (Url.split base = .ok parts ∧ '?' ∉ base ∧ '#' ∉ base) ∧
      withParameters base lookalikes fragment = ("Ftp://sig=1@h:8/lsig=1&sig?".toList ++
        "x%26sig=sig%3D1&Sig=&+sig=%3Fsignature%3D1#:/\t/?sig=1#".toList) ∧
      hasSignature (withParameters base lookalikes fragment) = .ok false ∧
      hasSignature (withParameters base (lookalikes ++ [("lsig".toList, [])]) fragment) =
        .ok true := by
  intro base parts lookalikes fragment
  have hsplit : Url.split base = .ok parts := by decide +kernel
  have hquery : '?' ∉ base := by decide
  have hfragment : '#' ∉ base := by decide
  have hspelled : withParameters base lookalikes fragment =
      ("Ftp://sig=1@h:8/lsig=1&sig?".toList ++
        "x%26sig=sig%3D1&Sig=&+sig=%3Fsignature%3D1#:/\t/?sig=1#".toList) := by decide +kernel
  refine ⟨⟨hsplit, hquery, hfragment⟩, hspelled, ?_, ?_⟩
  · obtain ⟨found, hfound, hiff⟩ :=
      hasSignature_iff_named hsplit hquery hfragment lookalikes fragment
    have hnone : found ≠ true := mt hiff.mp (by decide)
    rw [hfound, Bool.eq_false_iff.mpr hnone]
  · obtain ⟨found, hfound, hiff⟩ := hasSignature_iff_named hsplit hquery hfragment
      (lookalikes ++ [("lsig".toList, [])]) fragment
    rw [hfound, hiff.mpr ⟨("lsig".toList, []), by decide, by decide⟩]

end Playable.Signing
