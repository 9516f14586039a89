import Playable.Proofs.Cipher.Run
import Playable.Proofs.Sequence
import Playable.Proofs.Signing.Parameter
import Playable.Session

/-!
# Formats beside each other

The streams of a list of formats are those of its formats one by one, in order, and a
format without a way to a signature leaves out nothing but itself. Four kinds of formats
give up the whole list: those whose delivery URL is refused, those whose unscrambled
signature cannot be encoded, those without a way to a signature whose number is too long to
be named, and those whose frame rate is beyond what a stream can hold.
-/

namespace Playable.Signing

open Cipher Record

/-- The formats of a video that are signed, those of the legacy list behind the formats
with picture and sound. -/
def recorded (legacyList : Option RawText) (data : StreamingData) : List Format :=
  let data := Session.withLegacy legacyList data
  data.formats ++ data.adaptiveFormats

/-- The streams of the formats of a video. -/
def formatStreams (engine : Option Engine) (legacyList : Option RawText) (data : StreamingData) :
    Except Obstacle (List Stream) :=
  streamsOf engine (recorded legacyList data)

/-- The delivery URL of a format is refused. -/
def HasBadUrl (format : Format) : Prop :=
  ∃ cipher e, format.cipher = some cipher ∧ Url.split cipher.url = .error e

/-- There is a way to a signature for a format: its URL carries one, or an engine can
unscramble the one beside the URL. -/
def HasWay (engine : Option Engine) (format : Format) : Prop :=
  ∃ cipher, format.cipher = some cipher ∧
    (hasSignature cipher.url = .ok true ∨ cipher.scrambled.isSome ∧ engine.isSome)

/-- The signature that the engine unscrambles for a format cannot be encoded under the name of
its parameter: half of a surrogate pair stands in one of them. -/
def HasBadSignature (engine : Option Engine) (format : Format) : Prop :=
  ∃ cipher scrambled e signature, format.cipher = some cipher ∧
    hasSignature cipher.url = .ok false ∧
    (cipher.scrambled = some scrambled ∧ engine = some e ∧ e.decrypt scrambled = .ok signature) ∧
    (cipher.parameter.HasHalf ∨ signature.HasHalf)

/-- The number of a format is too long to be named. -/
def HasLongNumber (format : Format) : Prop :=
  Number.isWritable format.itag = false

/-- A format that is neither signed nor left out. -/
def StopsSigning (engine : Option Engine) (format : Format) : Prop :=
  HasBadUrl format ∨ HasBadSignature engine format ∨
    ¬ HasWay engine format ∧ HasLongNumber format

/-- The frame rate of a format is beyond what a stream can hold. -/
def HasBadRate (format : Format) : Prop :=
  ∃ rate, format.fps = some rate ∧ Binary64.ofInt? rate = none

/-- A format that gives up the whole list it stands in. -/
def Stops (engine : Option Engine) (format : Format) : Prop :=
  StopsSigning engine format ∨ HasWay engine format ∧ HasBadRate format

/-- What a format delivers when it stands alone: one stream if there is a way to a
signature, and nothing otherwise. -/
structure Delivers (engine : Option Engine) (format : Format) (part : List Stream) : Prop where
  /-- These are the streams of the format alone. -/
  alone : streamsOf engine [format] = .ok part
  /-- There is at most one stream. -/
  length_le : part.length ≤ 1
  /-- There is no stream exactly if there is no way to a signature. -/
  eq_nil_iff : part = [] ↔ ¬ HasWay engine format

/-- A format with a valid signature appended to its URL, in place of the scrambled one. -/
def withSignature (format : Format) (cipher : SignatureCipher) (query name signature : Text) :
    Format :=
  let url := withParameter cipher.url query name signature
  { format with cipher := some { cipher with url, scrambled := none } }

variable {engine : Option Engine} {format : Format} {formats more : List Format}
  {streams : List Stream} {cipher : SignatureCipher} {url : Text} {parts : Url.Parts}
  {e : Url.UrlError}

/-- A refused URL cannot be searched for a signature. -/
theorem hasSignature_of_refused (h : Url.split url = .error e) : hasSignature url = .error e := by
  rw [hasSignature, h]
  rfl

/-- A URL that is not refused carries a signature or does not. -/
theorem exists_hasSignature (h : Url.split url = .ok parts) :
    ∃ signed, hasSignature url = .ok signed :=
  ⟨_, hasSignature_eq h⟩

/-- A format is not bad if its URL, where there is one, can be cut into its parts. -/
theorem not_hasBadUrl (h : ∀ cipher ∈ format.cipher, (Url.split cipher.url).isOk = true) :
    ¬ HasBadUrl format := by
  rintro ⟨cipher, e, hcipher, hrefused⟩
  have hok := h cipher hcipher
  rw [hrefused] at hok
  cases hok

/-- A URL that is not bad can be cut into its parts. -/
theorem exists_split (hcipher : format.cipher = some cipher) (h : ¬ HasBadUrl format) :
    ∃ parts, Url.split cipher.url = .ok parts := by
  cases hsplit : Url.split cipher.url with
  | ok parts => exact ⟨parts, rfl⟩
  | error e => exact absurd ⟨cipher, e, hcipher, hsplit⟩ h

/-- A format is signed with what the engine unscrambles, if it can be appended to the URL. -/
theorem signFormat_of_decrypt {scrambled signature : RawText} {e : Engine}
    (hcipher : format.cipher = some cipher) (hunsigned : hasSignature cipher.url = .ok false)
    (hscrambled : cipher.scrambled = some scrambled)
    (hsignature : e.decrypt scrambled = .ok signature) :
    signFormat (some e) format =
      ((appendParameter cipher.url cipher.parameter signature).mapError
        (.obstacle ∘ AppendError.obstacle)).map fun url =>
          { format with cipher := some { cipher with url, scrambled := none } } := by
  simp only [signFormat, hcipher, hunsigned, hscrambled]
  change ((e.decrypt scrambled).mapError _ >>= _) = _
  rw [hsignature]
  change ((appendParameter cipher.url cipher.parameter signature).mapError _ >>= _) = _
  cases appendParameter cipher.url cipher.parameter signature <;> rfl

/-- A format whose signature can be encoded is signed with it. -/
theorem signFormat_eq_withSignature {scrambled : RawText} {name signature : Text} {e : Engine}
    (hcipher : format.cipher = some cipher) (hunsigned : hasSignature cipher.url = .ok false)
    (hsplit : Url.split cipher.url = .ok parts) (hscrambled : cipher.scrambled = some scrambled)
    (hsignature : e.decrypt scrambled = .ok signature.raw)
    (hname : cipher.parameter = name.raw) :
    signFormat (some e) format = .ok (withSignature format cipher parts.query name signature) := by
  have happend : appendParameter cipher.url cipher.parameter signature.raw =
      .ok (withParameter cipher.url parts.query name signature) := by
    rw [hname, appendParameter_eq hsplit]
  rw [signFormat_of_decrypt hcipher hunsigned hscrambled hsignature, happend]
  rfl

/-- A format with a bad URL is not just left out. -/
theorem exists_signOrDrop_of_badUrl (engine : Option Engine) (h : HasBadUrl format) :
    ∃ o, signOrDrop engine format = .error o := by
  obtain ⟨cipher, e, hcipher, hsplit⟩ := h
  refine ⟨.url e, ?_⟩
  simp only [signOrDrop, signFormat, hcipher, hasSignature_of_refused hsplit]
  rfl

/-- Neither is one whose signature cannot be encoded. -/
theorem exists_signOrDrop_of_badSignature (h : HasBadSignature engine format) :
    ∃ o, signOrDrop engine format = .error o := by
  obtain ⟨cipher, scrambled, e, signature, hcipher, hunsigned, ⟨hscrambled, rfl, hsignature⟩,
    hhalf⟩ := h
  cases hsplit : Url.split cipher.url with
  | error e => cases (hasSignature_of_refused hsplit).symm.trans hunsigned
  | ok parts =>
    obtain ⟨e, happend⟩ := exists_appendParameter_error hsplit hhalf
    refine ⟨.encoding e, ?_⟩
    rw [signOrDrop, signFormat_of_decrypt hcipher hunsigned hscrambled hsignature, happend]
    rfl

/-- A format without a way to a signature is to be left out, with its number as the reason. -/
theorem signFormat_of_no_way (hurl : ¬ HasBadUrl format) (h : ¬ HasWay engine format) :
    ∃ m, m.itag = format.itag ∧ signFormat engine format = .error (leaveOut m) := by
  cases hcipher : format.cipher with
  | none => exact ⟨.noPlace format.itag, rfl, by simp only [signFormat, hcipher]⟩
  | some cipher =>
    obtain ⟨parts, hsplit⟩ := exists_split hcipher hurl
    obtain ⟨signed, hsigned⟩ := exists_hasSignature hsplit
    have hfalse : signed = false := by
      refine Bool.eq_false_iff.mpr ?_
      rintro rfl
      exact h ⟨cipher, hcipher, .inl hsigned⟩
    subst hfalse
    cases hscrambled : cipher.scrambled with
    | none =>
      refine ⟨.noSignature format.itag, rfl, ?_⟩
      simp only [signFormat, hcipher, hsigned, hscrambled]
      rfl
    | some scrambled =>
      cases engine with
      | none =>
        refine ⟨.noEngine format.itag, rfl, ?_⟩
        simp only [signFormat, hcipher, hsigned, hscrambled]
        rfl
      | some engine => exact absurd ⟨cipher, hcipher, .inr (by simp [hscrambled])⟩ h

/-- A format without a way to a signature is left out if its number can be named, and stops the
signing if not. -/
theorem signOrDrop_of_no_way (hurl : ¬ HasBadUrl format) (h : ¬ HasWay engine format) :
    signOrDrop engine format = if Number.isWritable format.itag then .ok none else
      .error .number := by
  obtain ⟨m, hitag, hsign⟩ := signFormat_of_no_way hurl h
  rw [signOrDrop, hsign, leaveOut, hitag]
  cases Number.isWritable format.itag <;> rfl

/-- A format that stops the signing is neither signed nor left out. -/
theorem exists_signOrDrop_of_stopsSigning (h : StopsSigning engine format) :
    ∃ o, signOrDrop engine format = .error o := by
  by_cases hurl : HasBadUrl format
  · exact exists_signOrDrop_of_badUrl engine hurl
  · rcases h.resolve_left hurl with hsignature | ⟨hway, hnumber⟩
    · exact exists_signOrDrop_of_badSignature hsignature
    · exact ⟨.number, by rw [signOrDrop_of_no_way hurl hway, if_neg (ne_true_of_eq_false hnumber)]⟩

/-- Any other format without a way to a signature is left out. -/
theorem signOrDrop_eq_none (hstops : ¬ StopsSigning engine format) (h : ¬ HasWay engine format) :
    signOrDrop engine format = .ok none := by
  obtain ⟨hurl, -, hnumber⟩ := by simpa only [StopsSigning, not_or, not_and] using hstops
  rw [signOrDrop_of_no_way hurl h, if_pos (eq_true_of_ne_false (hnumber h))]

/-- What is unscrambled for a format that does not stop the signing can be encoded. -/
theorem exists_raw_of_not_stops {scrambled signature : RawText} {e : Engine}
    (hstops : ¬ StopsSigning (some e) format) (hcipher : format.cipher = some cipher)
    (hunsigned : hasSignature cipher.url = .ok false)
    (hscrambled : cipher.scrambled = some scrambled)
    (hsignature : e.decrypt scrambled = .ok signature) :
    ∃ name value : Text, cipher.parameter = name.raw ∧ signature = value.raw := by
  have hgood : ¬ (cipher.parameter.HasHalf ∨ signature.HasHalf) := fun hhalf =>
    hstops (.inr (.inl ⟨cipher, scrambled, e, signature, hcipher, hunsigned,
      ⟨hscrambled, rfl, hsignature⟩, hhalf⟩))
  obtain ⟨hname, hvalue⟩ := not_or.mp hgood
  obtain ⟨name, hname⟩ := cipher.parameter.text_or_hasHalf.resolve_right fun h => hname h.1
  obtain ⟨value, hvalue⟩ := signature.text_or_hasHalf.resolve_right fun h => hvalue h.1
  exact ⟨name, value, hname, hvalue⟩

/-- A format with a way to a signature that does not stop the signing is signed, and nothing but
its place changes. -/
theorem exists_signOrDrop_of_way (hengine : ∀ e ∈ engine, e.IsRunnable)
    (hstops : ¬ StopsSigning engine format) (h : HasWay engine format) :
    ∃ cipher, signOrDrop engine format = .ok (some { format with cipher := some cipher }) := by
  obtain ⟨cipher, hcipher, hway⟩ := h
  obtain ⟨parts, hsplit⟩ := exists_split hcipher fun hurl => hstops (.inl hurl)
  obtain ⟨signed, hsigned⟩ := exists_hasSignature hsplit
  cases signed with
  | true =>
    refine ⟨cipher, ?_⟩
    simp only [signOrDrop, signFormat, hcipher, hsigned]
    rw [← hcipher]
    rfl
  | false =>
    obtain ⟨hscrambled, hsome⟩ := hway.resolve_left (by simp [hsigned])
    obtain ⟨scrambled, hscrambled⟩ := Option.isSome_iff_exists.mp hscrambled
    obtain ⟨engine, rfl⟩ := Option.isSome_iff_exists.mp hsome
    obtain ⟨signature, hsignature⟩ := (hengine engine rfl).exists_decrypt scrambled
    obtain ⟨name, value, hname, rfl⟩ :=
      exists_raw_of_not_stops hstops hcipher hsigned hscrambled hsignature
    rw [signOrDrop,
      signFormat_eq_withSignature hcipher hsigned hsplit hscrambled hsignature hname]
    exact ⟨_, rfl⟩

/-- A format with a bad frame rate has no stream. -/
theorem streamOf_of_badRate (h : HasBadRate format) :
    streamOf format = .error (.record [["fps".toList]]) := by
  obtain ⟨rate, hfps, hrate⟩ := h
  simp only [streamOf, Stream.ofFormat, hfps, hrate]
  rfl

/-- A format without a bad frame rate has a stream. -/
theorem exists_streamOf (h : ¬ HasBadRate format) : ∃ stream, streamOf format = .ok stream := by
  cases hfps : format.fps with
  | none => exact ⟨_, by simp only [streamOf, Stream.ofFormat, hfps]; rfl⟩
  | some rate =>
    cases hrate : Binary64.ofInt? rate with
    | none => exact absurd ⟨rate, hfps, hrate⟩ h
    | some x => exact ⟨_, by simp only [streamOf, Stream.ofFormat, hfps, hrate]; rfl⟩

/-- A list is signed exactly if each of its formats is signed or left out. -/
theorem signFormats_eq_ok_iff {signed : List Format} : signFormats engine formats = .ok signed ↔
    ∃ marks, formats.mapM (signOrDrop engine) = .ok marks ∧ marks.filterMap id = signed := by
  rw [signFormats, bind_eq_ok_iff]
  refine exists_congr fun marks => and_congr_right fun _ => ?_
  exact ⟨Except.ok.inj, congrArg Except.ok⟩

/-- The streams of a list are those of its signed formats. -/
theorem streamsOf_eq_ok_iff : streamsOf engine formats = .ok streams ↔
    ∃ marks, formats.mapM (signOrDrop engine) = .ok marks ∧
      (marks.filterMap id).mapM streamOf = .ok streams := by
  rw [streamsOf, bind_eq_ok_iff]
  constructor
  · rintro ⟨signed, hsigned, hstreams⟩
    obtain ⟨marks, hmarks, rfl⟩ := signFormats_eq_ok_iff.mp hsigned
    exact ⟨marks, hmarks, hstreams⟩
  · rintro ⟨marks, hmarks, hstreams⟩
    exact ⟨_, signFormats_eq_ok_iff.mpr ⟨marks, hmarks, rfl⟩, hstreams⟩

/-- Two lists one behind the other deliver exactly if each does alone. -/
theorem streamsOf_append_eq_ok_iff : streamsOf engine (formats ++ more) = .ok streams ↔
    ∃ front back, streamsOf engine formats = .ok front ∧ streamsOf engine more = .ok back ∧
      streams = front ++ back := by
  constructor
  · intro h
    obtain ⟨marks, hmarks, hstreams⟩ := streamsOf_eq_ok_iff.mp h
    obtain ⟨first, second, hfirst, hsecond, rfl⟩ := mapM_append_eq_ok_iff.mp hmarks
    rw [List.filterMap_append] at hstreams
    obtain ⟨front, back, hfront, hback, rfl⟩ := mapM_append_eq_ok_iff.mp hstreams
    exact ⟨front, back, streamsOf_eq_ok_iff.mpr ⟨first, hfirst, hfront⟩,
      streamsOf_eq_ok_iff.mpr ⟨second, hsecond, hback⟩, rfl⟩
  · rintro ⟨front, back, hfront, hback, rfl⟩
    obtain ⟨first, hfirst, hfront⟩ := streamsOf_eq_ok_iff.mp hfront
    obtain ⟨second, hsecond, hback⟩ := streamsOf_eq_ok_iff.mp hback
    refine streamsOf_eq_ok_iff.mpr
      ⟨first ++ second, mapM_append_eq_ok_iff.mpr ⟨first, second, hfirst, hsecond, rfl⟩, ?_⟩
    rw [List.filterMap_append]
    exact mapM_append_eq_ok_iff.mpr ⟨front, back, hfront, hback, rfl⟩

/-- The stream of a single format. -/
theorem streamsOf_singleton (engine : Option Engine) (format : Format) :
    streamsOf engine [format] =
      (signOrDrop engine format).bind fun signed => signed.toList.mapM streamOf := by
  rw [streamsOf, signFormats, List.mapM_cons]
  cases signOrDrop engine format with
  | error o => rfl
  | ok signed => cases signed <;> rfl

/-- A format that stops a list delivers nothing on its own. -/
theorem streamsOf_singleton_of_stops (hengine : ∀ e ∈ engine, e.IsRunnable)
    (h : Stops engine format) : ∃ o, streamsOf engine [format] = .error o := by
  rw [streamsOf_singleton]
  by_cases hstops : StopsSigning engine format
  · obtain ⟨o, ho⟩ := exists_signOrDrop_of_stopsSigning hstops
    exact ⟨o, by rw [ho]; rfl⟩
  · obtain ⟨hway, hrate⟩ := h.resolve_left hstops
    obtain ⟨cipher, hcipher⟩ := exists_signOrDrop_of_way hengine hstops hway
    have hsigned : HasBadRate { format with cipher := some cipher } := hrate
    refine ⟨.record [["fps".toList]], ?_⟩
    rw [hcipher]
    simp only [Except.bind, Option.toList_some, List.mapM_cons, streamOf_of_badRate hsigned]
    rfl

/-- A format that does not stop a list delivers its stream or nothing. -/
theorem exists_delivers (hengine : ∀ e ∈ engine, e.IsRunnable) (h : ¬ Stops engine format) :
    ∃ part, Delivers engine format part := by
  have hstops : ¬ StopsSigning engine format := fun hstops => h (.inl hstops)
  by_cases hway : HasWay engine format
  · obtain ⟨cipher, hcipher⟩ := exists_signOrDrop_of_way hengine hstops hway
    have hrate : ¬ HasBadRate { format with cipher := some cipher } :=
      fun hbad => h (.inr ⟨hway, hbad⟩)
    obtain ⟨stream, hstream⟩ := exists_streamOf hrate
    refine ⟨[stream], ?_, Nat.le_refl 1, by simp [hway]⟩
    rw [streamsOf_singleton, hcipher]
    simp only [Except.bind, Option.toList_some, List.mapM_cons, hstream]
    rfl
  · refine ⟨[], ?_, Nat.zero_le 1, by simp [hway]⟩
    rw [streamsOf_singleton, signOrDrop_eq_none hstops hway]
    rfl

/-- Formats that do not stop a list deliver side by side what each delivers alone. -/
theorem exists_parts (hengine : ∀ e ∈ engine, e.IsRunnable)
    (h : ∀ format ∈ formats, ¬ Stops engine format) :
    ∃ parts, List.Forall₂ (Delivers engine) formats parts ∧
      streamsOf engine formats = .ok parts.flatten := by
  induction formats with
  | nil => exact ⟨[], .nil, rfl⟩
  | cons format formats ih =>
    obtain ⟨hformat, hmore⟩ := List.forall_mem_cons.mp h
    obtain ⟨part, hpart⟩ := exists_delivers hengine hformat
    obtain ⟨parts, hparts, hstreams⟩ := ih hmore
    exact ⟨part :: parts, .cons hpart hparts,
      streamsOf_append_eq_ok_iff.mpr ⟨part, parts.flatten, hpart.alone, hstreams, rfl⟩⟩

/-- No format of a list that delivers stops it. -/
theorem not_stops_of_mem (hengine : ∀ e ∈ engine, e.IsRunnable)
    (h : streamsOf engine formats = .ok streams) (hmem : format ∈ formats) :
    ¬ Stops engine format := by
  intro hstops
  obtain ⟨o, ho⟩ := streamsOf_singleton_of_stops hengine hstops
  obtain ⟨before, after, rfl⟩ := List.append_of_mem hmem
  obtain ⟨-, back, -, hback, -⟩ := streamsOf_append_eq_ok_iff.mp h
  have hfirst : streamsOf engine ([format] ++ after) = .ok back := hback
  obtain ⟨part, -, hpart, -, -⟩ := streamsOf_append_eq_ok_iff.mp hfirst
  cases hpart.symm.trans ho

/-- What resolving a video that is no broadcast makes of the streams of its formats: they
come in front of those of the manifest, and without them there is no video. -/
theorem resolve_result_eq (site : Network.Site) {fetched : Fetched} {data : StreamingData}
    (hdata : fetched.info.response.streamingData = some data)
    (hlive : fetched.info.response.videoDetails.isLive = false) (log : List Text) :
    (Session.resolve site fetched log).result =
      (formatStreams fetched.engine fetched.info.legacyList data).mapError .obstacle >>=
        fun streams => ((Session.manifestStreams site data.hlsManifestUrl log).1).mapError .url >>=
          fun hls => .ok (Session.videoOf fetched.info (streams ++ hls)) := by
  simp only [Session.resolve, hdata, hlive, Bool.false_eq_true, if_false, formatStreams, recorded]
  cases streamsOf fetched.engine _ with
  | error o => rfl
  | ok streams => cases (Session.manifestStreams site data.hlsManifestUrl log).1 <;> rfl

/-- A single format that stops the list leaves a video without any stream. -/
theorem exists_obstacle_of_stops (site : Network.Site) {fetched : Fetched}
    {data : StreamingData} (hdata : fetched.info.response.streamingData = some data)
    (hlive : fetched.info.response.videoDetails.isLive = false)
    (hengine : ∀ e ∈ fetched.engine, e.IsRunnable)
    (hmem : format ∈ recorded fetched.info.legacyList data)
    (hstops : Stops fetched.engine format) (log : List Text) :
    ∃ o, (Session.resolve site fetched log).result = .error (.obstacle o) := by
  rw [resolve_result_eq site hdata hlive log]
  cases hformats : formatStreams fetched.engine fetched.info.legacyList data with
  | ok streams => exact absurd hstops (not_stops_of_mem hengine hformats hmem)
  | error o => exact ⟨o, rfl⟩

/-- The formats of a video are delivered exactly if none of them stops the delivery: none has a
bad URL, a signature that cannot be encoded, a number that is too long to be named where there
is no way to a signature, or a bad frame rate where there is one. Then they deliver side by
side, in order, what each of them delivers alone. -/
theorem delivers_unless_stopped (engine : Option Engine)
    (hengine : ∀ e ∈ engine, e.IsRunnable) (legacyList : Option RawText) (data : StreamingData) :
    ((∃ streams, formatStreams engine legacyList data = .ok streams) ↔
      ∀ format ∈ recorded legacyList data, ¬ Stops engine format) ∧
    ∀ streams, formatStreams engine legacyList data = .ok streams →
      ∃ parts, List.Forall₂ (Delivers engine) (recorded legacyList data) parts ∧
        streams = parts.flatten := by
  constructor
  · constructor
    · rintro ⟨streams, hstreams⟩ format hmem
      exact not_stops_of_mem hengine hstreams hmem
    · intro h
      obtain ⟨parts, -, hstreams⟩ := exists_parts hengine h
      exact ⟨_, hstreams⟩
  · intro streams hstreams
    obtain ⟨parts, hparts, hall⟩ :=
      exists_parts hengine fun format hmem => not_stops_of_mem hengine hstreams hmem
    exact ⟨parts, hparts, Except.ok.inj (hstreams.symm.trans hall)⟩

/-- A format about which little more is known than where it is fetched from. -/
def sampleFormat (itag : Int) (cipher : Option SignatureCipher) (fps : Option Int) : Format :=
  ⟨itag, cipher, none, none, none, none, none, none, fps, none, none, none⟩

/-- A format without a place does not disturb the signed one behind it. -/
theorem delivers_behind_placeless_format :
    let engine : Engine := ⟨⟨[⟨"reverse".toList, none⟩], List.cons_ne_nil _ _⟩, Catalog.standard⟩
    let formats := [sampleFormat 1 none none,
      sampleFormat 2 (some ⟨['v'], some (Text.raw "cba".toList), Text.raw ['s']⟩) none]
    let streams : List Stream := [⟨2, "v?s=abc".toList, none, none, none, none, none, none, false⟩]
    (∀ e ∈ some engine, e.IsRunnable) ∧
      formatStreams (some engine) none ⟨formats, [], none⟩ = .ok streams ∧
      ∃ parts, List.Forall₂ (Delivers (some engine)) formats parts ∧ streams = parts.flatten := by
  intro engine formats streams
  have hengine : ∀ e ∈ some engine, e.IsRunnable := Engine.isRunnable_of_all rfl
  have hstreams : formatStreams (some engine) none ⟨formats, [], none⟩ = .ok streams := by
    decide +kernel
  exact ⟨hengine, hstreams,
    (delivers_unless_stopped (some engine) hengine none ⟨formats, [], none⟩).2 _ hstreams⟩

/-- A format that is delivered on its own is not delivered in front of one with a lone
bracket in its URL, nor in front of one with too large a frame rate, although all of them
are valid records. -/
theorem stopped_by_second_format :
    let place : Text := "v?sig=x".toList
    let first := sampleFormat 18 (some ⟨place, none, defaultParameter.raw⟩) none
    let bracket := sampleFormat 22 (some ⟨"//[".toList, none, defaultParameter.raw⟩) none
    let rate := Int.ofNat (Nat.pow 10 310)
    let fast := sampleFormat 22 (some ⟨place, none, defaultParameter.raw⟩) (some rate)
    let read (formats : List Format) :=
      (StreamingData.read (StreamingData.toValue ⟨formats, [], none⟩)).toOption
    (read [first, bracket] = some ⟨[first, bracket], [], none⟩ ∧
      read [first, fast] = some ⟨[first, fast], [], none⟩) ∧
    streamsOf none [first] = .ok [⟨18, place, none, none, none, none, none, none, false⟩] ∧
    formatStreams none none ⟨[first, bracket], [], none⟩ = .error (.url .misplacedBracket) ∧
    formatStreams none none ⟨[first, fast], [], none⟩ = .error (.record [["fps".toList]]) := by
  decide +kernel

end Playable.Signing
