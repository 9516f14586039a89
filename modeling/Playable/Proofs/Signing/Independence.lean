import Mathlib.Data.List.Perm.Basic
import Playable.Proofs.Number.Printed
import Playable.Proofs.Record.Written
import Playable.Proofs.Signing.Isolation

/-!
# Formats are signed one by one

Whether a format is kept, and what becomes of it, depends on the format and the engine
alone. So the signed formats of a list are those of its parts in order, and a list in
another order gives the same formats in that order. Workers may take up the formats in any
order, because each result is put in the place of its format. But a format that is neither
signed nor left out stops the list, and with it the formats beside it.
-/

namespace Playable.Signing

open Cipher Record

variable {engine : Option Engine} {format : Format} {formats more : List Format}

/-- What workers leave behind when they finish their tasks in the given order: the result of
a task is put in the place of the task. -/
def collect {α β : Type} (work : α → β) (tasks : List α) (order : List Nat) : List (Option β) :=
  order.foldl (fun places i => places.set i (tasks[i]?.map work))
    (List.replicate tasks.length none)

/-- The signed formats of a list that workers take up one by one and finish in the given
order. -/
def signFormatsBy (engine : Option Engine) (formats : List Format) (order : List Nat) :
    Except Obstacle (List Format) := do
  let signed ← ((collect (signOrDrop engine) formats order).filterMap id).mapM id
  return signed.filterMap id

/-- A place holds the result of its task once a worker has finished it, and stays as it is
otherwise. -/
theorem getElem?_foldl_set {α β : Type} (work : α → β) (tasks : List α) (order : List Nat)
    (places : List (Option β)) {j : Nat} (hj : j < places.length) :
    (order.foldl (fun places i => places.set i (tasks[i]?.map work)) places)[j]? =
      if j ∈ order then some (tasks[j]?.map work) else places[j]? := by
  induction order generalizing places with
  | nil => simp
  | cons i order ih =>
    rw [List.foldl_cons, ih _ (by simpa using hj)]
    by_cases hlater : j ∈ order
    · simp [hlater]
    · by_cases hnow : i = j
      · subst hnow
        simp [hlater, hj]
      · simp [hlater, hnow, Ne.symm hnow]

/-- There are as many places as tasks at any time. -/
theorem length_collect {α β : Type} (work : α → β) (tasks : List α) (order : List Nat) :
    (collect work tasks order).length = tasks.length := by
  have hkept : ∀ places : List (Option β),
      (order.foldl (fun places i => places.set i (tasks[i]?.map work)) places).length =
        places.length := by
    induction order with
    | nil => exact fun places => rfl
    | cons i order ih => exact fun places => by rw [List.foldl_cons, ih, List.length_set]
  rw [collect, hkept, List.length_replicate]

/-- Once all tasks are finished, in whatever order, their results stand in the order of the
tasks. -/
theorem collect_eq_map {α β : Type} {work : α → β} {tasks : List α} {order : List Nat}
    (h : ∀ i < tasks.length, i ∈ order) :
    collect work tasks order = tasks.map fun task => some (work task) := by
  refine List.ext_getElem? fun j => ?_
  by_cases hj : j < tasks.length
  · rw [collect, getElem?_foldl_set _ _ _ _ (by simpa using hj), if_pos (h j hj)]
    simp [hj]
  · have hnone : (collect work tasks order)[j]? = none := by
      rw [List.getElem?_eq_none_iff, length_collect]
      omega
    rw [hnone, List.getElem?_eq_none_iff.mpr (by simpa using hj)]

/-- Workers sign a list of formats as one alone does. -/
theorem signFormatsBy_eq {order : List Nat} (h : ∀ i < formats.length, i ∈ order) :
    signFormatsBy engine formats order = signFormats engine formats := by
  have hresults : ((collect (signOrDrop engine) formats order).filterMap id) =
      formats.map (signOrDrop engine) := by
    rw [collect_eq_map h, List.filterMap_map]
    exact congrFun List.filterMap_eq_map formats
  rw [signFormatsBy, signFormats, hresults, List.mapM_map]
  rfl

/-- What becomes of each format under an engine. -/
structure SignsEach (engine : Option Engine) (sign : Format → Option Format) : Prop where
  /-- A format that does not stop the signing is kept exactly if there is a way to a signature. -/
  isSome_iff : ∀ format, ¬ StopsSigning engine format →
    ((sign format).isSome ↔ HasWay engine format)
  /-- A format whose URL carries a signature is kept as it is. -/
  already : ∀ format cipher, format.cipher = some cipher → hasSignature cipher.url = .ok true →
    sign format = some format
  /-- In any other format that is kept, the valid signature is appended to the URL and the
  scrambled one is gone. -/
  unscrambled : ∀ format cipher parts scrambled e, format.cipher = some cipher →
    hasSignature cipher.url = .ok false → Url.split cipher.url = .ok parts →
    cipher.scrambled = some scrambled → engine = some e →
    ∃ signature, e.decrypt scrambled = .ok signature ∧
      ∀ name value : Text, cipher.parameter = name.raw → signature = value.raw →
        sign format = some (withSignature format cipher parts.query name value)

/-- The signed form of a format, if it is kept. -/
def signed? (engine : Option Engine) (format : Format) : Option Format :=
  match signOrDrop engine format with
  | .ok signed => signed
  | .error _ => none

/-- A format that does not stop the signing is signed or left out. -/
theorem signOrDrop_eq_ok (hengine : ∀ e ∈ engine, e.IsRunnable)
    (h : ¬ StopsSigning engine format) :
    signOrDrop engine format = .ok (signed? engine format) := by
  by_cases hway : HasWay engine format
  · obtain ⟨cipher, hcipher⟩ := exists_signOrDrop_of_way hengine h hway
    rw [signed?, hcipher]
  · rw [signed?, signOrDrop_eq_none h hway]

/-- What becomes of a format is said by how its URL and its signature are. -/
theorem signsEach_signed? (hengine : ∀ e ∈ engine, e.IsRunnable) :
    SignsEach engine (signed? engine) where
  isSome_iff format h := by
    by_cases hway : HasWay engine format
    · obtain ⟨cipher, hcipher⟩ := exists_signOrDrop_of_way hengine h hway
      simp [signed?, hcipher, hway]
    · simp [signed?, signOrDrop_eq_none h hway, hway]
  already format cipher hcipher hsigned := by
    simp only [signed?, signOrDrop, signFormat, hcipher, hsigned]
    rfl
  unscrambled format cipher parts scrambled e hcipher hunsigned hsplit hscrambled he := by
    subst he
    obtain ⟨signature, hsignature⟩ := (hengine e rfl).exists_decrypt scrambled
    refine ⟨signature, hsignature, ?_⟩
    rintro name value hname rfl
    rw [signed?, signOrDrop,
      signFormat_eq_withSignature hcipher hunsigned hsplit hscrambled hsignature hname]

/-- The signed formats of a list are the signed forms of its formats in order. -/
theorem signFormats_eq_ok (hengine : ∀ e ∈ engine, e.IsRunnable)
    (h : ∀ format ∈ formats, ¬ StopsSigning engine format) :
    signFormats engine formats = .ok (formats.filterMap (signed? engine)) := by
  have hmarks : formats.mapM (signOrDrop engine) = .ok (formats.map (signed? engine)) :=
    mapM_eq_ok_iff.mpr (List.forall₂_map_right_iff.mpr
      (List.forall₂_same.mpr fun format hmem => signOrDrop_eq_ok hengine (h format hmem)))
  have hkept : (formats.map (signed? engine)).filterMap id =
      formats.filterMap (signed? engine) := by
    rw [List.filterMap_map]
    rfl
  exact signFormats_eq_ok_iff.mpr ⟨_, hmarks, hkept⟩

/-- A format that stops the signing stops that of every list it stands in. -/
theorem not_stopsSigning_of_mem {signed : List Format}
    (h : signFormats engine formats = .ok signed) (hmem : format ∈ formats) :
    ¬ StopsSigning engine format := by
  intro hstops
  obtain ⟨o, ho⟩ := exists_signOrDrop_of_stopsSigning hstops
  obtain ⟨marks, hmarks, -⟩ := signFormats_eq_ok_iff.mp h
  obtain ⟨mark, hmark⟩ := mapM_succeeds_iff.mp ⟨marks, hmarks⟩ format hmem
  cases ho.symm.trans hmark

/-- Every format of a list is signed or left out on its own, unless one of them stops the signing:
its URL is refused, its signature cannot be encoded, or its number is too long to be named where
there is no way to a signature. Under an engine whose plan can be run there is one way of signing
that does not depend on the list: it keeps exactly the formats with a way to a signature, it leaves
signed ones as they are, and of the others it changes nothing but the place, where the valid
signature is appended and the scrambled one dropped. A list is signed exactly if none of its
formats stops the signing, in whatever order workers finish them. Then the signed formats are those
of its formats in order, so two lists one behind the other, and the same list in another order,
give the signed formats accordingly. -/
theorem signs_formats_one_by_one (engine : Option Engine)
    (hengine : ∀ e ∈ engine, e.IsRunnable) :
    ∃ sign, SignsEach engine sign ∧ ∀ formats,
      ((∃ signed, signFormats engine formats = .ok signed) ↔
        ∀ format ∈ formats, ¬ StopsSigning engine format) ∧
      (∀ order, (∀ i < formats.length, i ∈ order) →
        signFormatsBy engine formats order = signFormats engine formats) ∧
      ((∀ format ∈ formats, ¬ StopsSigning engine format) →
        signFormats engine formats = .ok (formats.filterMap sign) ∧
        (∀ front back, formats = front ++ back → ∃ signed signed',
          signFormats engine front = .ok signed ∧ signFormats engine back = .ok signed' ∧
            signFormats engine formats = .ok (signed ++ signed')) ∧
        ∀ others, formats.Perm others → ∃ signed signed',
          signFormats engine formats = .ok signed ∧ signFormats engine others = .ok signed' ∧
            signed.Perm signed') := by
  refine ⟨signed? engine, signsEach_signed? hengine, fun formats =>
    ⟨⟨?_, fun h => ⟨_, signFormats_eq_ok hengine h⟩⟩, fun order => signFormatsBy_eq,
      fun h => ?_⟩⟩
  · rintro ⟨signed, hsigned⟩ format hmem
    exact not_stopsSigning_of_mem hsigned hmem
  · have hlist := signFormats_eq_ok hengine h
    refine ⟨hlist, ?_, fun others hperm => ?_⟩
    · rintro front back rfl
      obtain ⟨hfront, hback⟩ := List.forall_mem_append.mp h
      refine ⟨_, _, signFormats_eq_ok hengine hfront, signFormats_eq_ok hengine hback, ?_⟩
      rw [hlist, List.filterMap_append]
    · have hothers : ∀ format ∈ others, ¬ StopsSigning engine format := fun format hmem =>
        h format (hperm.mem_iff.mpr hmem)
      exact ⟨_, _, hlist, signFormats_eq_ok hengine hothers, hperm.filterMap _⟩

/-- Three workers finish a format that carries a signature, one with a scrambled signature and
one without a place, from the last to the first. -/
theorem signs_formats_from_last_to_first :
    let engine : Engine := ⟨⟨[⟨"reverse".toList, none⟩], List.cons_ne_nil _ _⟩, Catalog.standard⟩
    let parameter := Text.raw ['s']
    let ready := sampleFormat 1 (some ⟨"u?lsig=x".toList, some [.half 0], parameter⟩) none
    let scrambled :=
      sampleFormat 2 (some ⟨"v?a".toList, some (Text.raw "c+a".toList), parameter⟩) (some 25)
    let formats := [ready, scrambled, sampleFormat 3 none none]
    let signed := [ready,
      sampleFormat 2 (some ⟨"v?a&s=a%2Bc".toList, none, parameter⟩) (some 25)]
    (∀ e ∈ some engine, e.IsRunnable) ∧
      (∀ format ∈ formats, ¬ StopsSigning (some engine) format) ∧
      signFormatsBy (some engine) formats [2, 1, 0] = .ok signed ∧
      ∃ sign, SignsEach (some engine) sign ∧ formats.filterMap sign = signed := by
  intro engine parameter ready scrambled formats signed
  have hengine : ∀ e ∈ some engine, e.IsRunnable := Engine.isRunnable_of_all rfl
  have hworkers : signFormatsBy (some engine) formats [2, 1, 0] = .ok signed := by
    decide +kernel
  obtain ⟨sign, hsign, hall⟩ := signs_formats_one_by_one (some engine) hengine
  obtain ⟨hiff, horder, hkept⟩ := hall formats
  have hsigned : signFormats (some engine) formats = .ok signed := by
    rw [← horder [2, 1, 0] (by decide), hworkers]
  have hgood := hiff.mp ⟨signed, hsigned⟩
  exact ⟨hengine, hgood, hworkers, sign, hsign,
    Except.ok.inj ((hkept hgood).1.symm.trans hsigned)⟩

/-- A format that is signed on its own is lost in front of one whose signature is half of a
surrogate pair, and in front of one without a place whose number has more than 4300 digits,
although all of them are valid records and no URL is refused. -/
theorem signed_format_lost_in_front :
    let engine : Engine := ⟨⟨[⟨"reverse".toList, none⟩], List.cons_ne_nil _ _⟩, Catalog.standard⟩
    let first := sampleFormat 18 (some ⟨"v?sig=x".toList, none, defaultParameter.raw⟩) none
    let broken := sampleFormat 22 (some ⟨['v'], some [.half 0], defaultParameter.raw⟩) none
    let long (digits : ℕ) := sampleFormat (Int.ofNat (Nat.pow 10 digits)) none none
    (∀ e ∈ some engine, e.IsRunnable) ∧
      (∀ format ∈ [first, broken], ¬ HasBadUrl format) ∧
      Format.read broken.toValue = .valid broken ∧
      signFormats (some engine) [first] = .ok [first] ∧
      signFormats (some engine) [first, broken] = .error (.encoding ⟨0, 0, 1⟩) ∧
      ∀ digits, 4300 ≤ digits → Format.read (long digits).toValue = .valid (long digits) ∧
        signFormats (some engine) [first, long digits] = .error .number := by
  intro engine first broken long
  have hengine : ∀ e ∈ some engine, e.IsRunnable := Engine.isRunnable_of_all rfl
  have hsplit : ∀ format ∈ [first, broken], ∀ cipher ∈ format.cipher,
      (Url.split cipher.url).isOk = true := by decide +kernel
  have hurl : ∀ format ∈ [first, broken], ¬ HasBadUrl format := fun format hmem =>
    not_hasBadUrl (hsplit format hmem)
  refine ⟨hengine, hurl, readsBack_format.reads broken, by decide +kernel, by decide +kernel,
    fun digits hdigits => ⟨readsBack_format.reads (long digits), ?_⟩⟩
  have hfirst : signOrDrop (some engine) first = .ok (some first) := by decide +kernel
  have hurl : ¬ HasBadUrl (long digits) := not_hasBadUrl nofun
  have hway : ¬ HasWay (some engine) (long digits) := by
    rintro ⟨cipher, hcipher, -⟩
    cases hcipher
  have hlong : signOrDrop (some engine) (long digits) = .error .number := by
    rw [signOrDrop_of_no_way hurl hway]
    exact if_neg (ne_true_of_eq_false (Number.isWritable_pow hdigits))
  rw [signFormats, List.mapM_cons, List.mapM_cons, hfirst, hlong]
  rfl

end Playable.Signing
