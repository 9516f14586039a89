import Playable.Proofs.Signing.Independence
import Playable.Proofs.Signing.Parameter

/-!
# Signing once

A format whose URL carries a signature is final: signing it again, with whatever engine or with
none, leaves it as it is. A format that is signed becomes final where the decrypted signature is
read as a parameter of its URL. Where the URL loses the parameter, the signature is not found, the
scrambled one is gone, and signing again leaves the format out.
-/

namespace Playable.Signing

open Cipher Record

variable {engine : Option Engine} {format signed : Format} {cipher : SignatureCipher}

/-- Signing is over for a format. -/
structure IsFinal (format : Format) : Prop where
  /-- The URL of the format carries a signature. -/
  carries : ∃ cipher, format.cipher = some cipher ∧ hasSignature cipher.url = .ok true
  /-- Signing leaves the format as it is, with whatever engine or with none. -/
  kept : ∀ engine, signFormat engine format = .ok format

/-- The signed format has the decrypted signature as the last parameter of its URL, behind those
that were there already. -/
def CarriesDecrypted (engine : Option Engine) (cipher : SignatureCipher) (signed : Format) : Prop :=
  ∃ e scrambled name signature place before after,
    (engine = some e ∧ cipher.scrambled = some scrambled ∧
      e.decrypt scrambled = .ok signature.raw ∧ cipher.parameter = name.raw) ∧
    signed.cipher = some place ∧
    (Url.split cipher.url = .ok before ∧ Url.split place.url = .ok after) ∧
    Url.formFields true after.query =
      Url.formFields true before.query ++ [(name, signature)]

/-- A format whose URL carries a signature is kept. -/
theorem signFormat_of_carries (hcipher : format.cipher = some cipher)
    (h : hasSignature cipher.url = .ok true) (engine : Option Engine) :
    signFormat engine format = .ok format := by
  simp only [signFormat, hcipher, h]
  rfl

/-- A format whose URL carries a signature is final. -/
theorem isFinal_of_carries (hcipher : format.cipher = some cipher)
    (h : hasSignature cipher.url = .ok true) : IsFinal format :=
  ⟨⟨cipher, hcipher, h⟩, signFormat_of_carries hcipher h⟩

/-- A format without any signature is to be left out. -/
theorem signFormat_of_unsigned (hcipher : format.cipher = some cipher)
    (h : hasSignature cipher.url = .ok false) (hscrambled : cipher.scrambled = none)
    (engine : Option Engine) :
    signFormat engine format = .error (leaveOut (.noSignature format.itag)) := by
  simp only [signFormat, hcipher, h, hscrambled]
  rfl

/-- A format that is signed does not stop the signing. -/
theorem not_stopsSigning_of_signed (h : signFormat engine format = .ok signed) :
    ¬ StopsSigning engine format := by
  intro hstops
  obtain ⟨o, ho⟩ := exists_signOrDrop_of_stopsSigning hstops
  rw [signOrDrop, h] at ho
  cases ho

/-- A format that is signed is kept, or has the decrypted signature appended to its URL. -/
theorem signFormat_cases (hcipher : format.cipher = some cipher)
    (h : signFormat engine format = .ok signed) :
    (hasSignature cipher.url = .ok true ∧ signed = format) ∨
      ∃ e scrambled name signature parts,
        (engine = some e ∧ cipher.scrambled = some scrambled ∧
          e.decrypt scrambled = .ok signature.raw ∧ cipher.parameter = name.raw) ∧
        hasSignature cipher.url = .ok false ∧ Url.split cipher.url = .ok parts ∧
        signed = withSignature format cipher parts.query name signature := by
  cases hsplit : Url.split cipher.url with
  | error e =>
    simp only [signFormat, hcipher, hasSignature_of_refused hsplit] at h
    cases h
  | ok parts =>
    obtain ⟨carries, hcarries⟩ := exists_hasSignature hsplit
    cases carries with
    | true =>
      rw [signFormat_of_carries hcipher hcarries] at h
      exact .inl ⟨hcarries, (Except.ok.inj h).symm⟩
    | false =>
      cases hscrambled : cipher.scrambled with
      | none =>
        rw [signFormat_of_unsigned hcipher hcarries hscrambled] at h
        cases h
      | some scrambled =>
        cases engine with
        | none =>
          simp only [signFormat, hcipher, hcarries, hscrambled] at h
          cases h
        | some e =>
          cases hdecrypt : e.decrypt scrambled with
          | error missing =>
            simp only [signFormat, hcipher, hcarries, hscrambled, hdecrypt] at h
            cases h
          | ok signature =>
            obtain ⟨name, value, hname, rfl⟩ := exists_raw_of_not_stops
              (not_stopsSigning_of_signed h) hcipher hcarries hscrambled hdecrypt
            have hsigned :=
              signFormat_eq_withSignature hcipher hcarries hsplit hscrambled hdecrypt hname
            exact .inr ⟨e, scrambled, name, value, parts, ⟨rfl, rfl, hdecrypt, hname⟩, hcarries,
              rfl, Except.ok.inj (h.symm.trans hsigned)⟩

section Appended

variable {parts : Url.Parts} {name signature : Text}

/-- Where a format with an appended signature is fetched from. -/
theorem cipher_withSignature (query : Text) :
    (withSignature format cipher query name signature).cipher =
      some ⟨withParameter cipher.url query name signature, none, cipher.parameter⟩ :=
  rfl

/-- A format whose URL keeps the appended signature is final. -/
theorem isFinal_withSignature (hsplit : Url.split cipher.url = .ok parts)
    (hname : name ∈ signatureNames) (hkept : ¬ LosesParameter cipher.url) :
    IsFinal (withSignature format cipher parts.query name signature) :=
  isFinal_of_carries (cipher_withSignature parts.query)
    (hasSignature_withParameter hsplit hkept hname signature)

/-- A format whose URL loses the appended signature is not found to be signed. -/
theorem unsigned_withSignature (hsplit : Url.split cipher.url = .ok parts)
    (hunsigned : hasSignature cipher.url = .ok false) (hloses : LosesParameter cipher.url)
    (engine : Option Engine) :
    signFormat engine (withSignature format cipher parts.query name signature) =
      .error (leaveOut (.noSignature format.itag)) :=
  signFormat_of_unsigned (cipher_withSignature parts.query)
    (hasSignature_of_loses hsplit hloses hunsigned name signature) rfl engine

end Appended

/-- A format that is signed under the name of a signature is final exactly if its URL carried a
signature before, or does not lose an appended one. In the first case it is the format as it was,
in the second the decrypted signature is the last parameter of its URL. A signed format that is not
final is to be left out when it is signed again, with whatever engine or with none. -/
theorem signed_is_final_unless_lost {name : Text} (hcipher : format.cipher = some cipher)
    (hparameter : cipher.parameter = name.raw) (hname : name ∈ signatureNames)
    (h : signFormat engine format = .ok signed) :
    (IsFinal signed ↔ hasSignature cipher.url = .ok true ∨ ¬ LosesParameter cipher.url) ∧
    (hasSignature cipher.url = .ok true → signed = format) ∧
    (hasSignature cipher.url = .ok false → ¬ LosesParameter cipher.url →
      CarriesDecrypted engine cipher signed) ∧
    (¬ IsFinal signed → ∀ other,
      signFormat other signed = .error (leaveOut (.noSignature signed.itag))) := by
  obtain ⟨hcarries, rfl⟩ | ⟨e, scrambled, found, signature, parts, hdecrypt, hunsigned, hsplit,
    rfl⟩ := signFormat_cases hcipher h
  · have hfinal : IsFinal signed := isFinal_of_carries hcipher hcarries
    refine ⟨iff_of_true hfinal (.inl hcarries), fun _ => rfl, fun hunsigned => ?_,
      absurd hfinal⟩
    cases hcarries.symm.trans hunsigned
  · obtain rfl : found = name := Text.raw_injective (hdecrypt.2.2.2.symm.trans hparameter)
    have hnot : hasSignature cipher.url ≠ .ok true := fun hcarries => by
      cases hcarries.symm.trans hunsigned
    by_cases hloses : LosesParameter cipher.url
    · have hagain (other : Option Engine) :
          signFormat other (withSignature format cipher parts.query found signature) =
            .error (leaveOut (.noSignature format.itag)) :=
        unsigned_withSignature hsplit hunsigned hloses other
      have hopen : ¬ IsFinal (withSignature format cipher parts.query found signature) :=
        fun hfinal => by cases (hagain none).symm.trans (hfinal.kept none)
      exact ⟨iff_of_false hopen (not_or.mpr ⟨hnot, not_not.mpr hloses⟩), (absurd · hnot),
        fun _ => absurd hloses, fun _ => hagain⟩
    · have hfinal : IsFinal (withSignature format cipher parts.query found signature) :=
        isFinal_withSignature hsplit hname hloses
      obtain ⟨longer, hlonger, hfields⟩ :=
        exists_split_withParameter hsplit hloses found signature
      exact ⟨iff_of_true hfinal (.inr hloses), (absurd · hnot),
        fun _ _ => ⟨e, scrambled, found, signature, _, parts, longer, hdecrypt,
          cipher_withSignature parts.query, ⟨hsplit, hlonger⟩, hfields⟩, absurd hfinal⟩

/-- Behind a query the reversed signature is the last parameter, escaped where it has to be. -/
theorem signed_behind_query :
    let engine : Engine := ⟨⟨[⟨"reverse".toList, none⟩], List.cons_ne_nil _ _⟩, Catalog.standard⟩
    let name : Text := "lsig".toList
    let cipher : SignatureCipher :=
      ⟨"//h/p?x=%23&y".toList, some (Text.raw "b&a".toList), Text.raw name⟩
    let format := sampleFormat 18 (some cipher) (some 25)
    let place : SignatureCipher := ⟨"//h/p?x=%23&y&lsig=a%26b".toList, none, Text.raw name⟩
    let signed := sampleFormat 18 (some place) (some 25)
    format.cipher = some cipher ∧ cipher.parameter = name.raw ∧ name ∈ signatureNames ∧
      signFormat (some engine) format = .ok signed ∧
      IsFinal signed ∧ CarriesDecrypted (some engine) cipher signed := by
  intro engine name cipher format place signed
  have hname : name ∈ signatureNames := by decide
  have hsigned : signFormat (some engine) format = .ok signed := by decide +kernel
  have hkept : ¬ LosesParameter cipher.url := by decide +kernel
  have hunsigned : hasSignature cipher.url = .ok false := by decide +kernel
  obtain ⟨hfinal, -, hcarried, -⟩ := signed_is_final_unless_lost rfl rfl hname hsigned
  exact ⟨rfl, rfl, hname, hsigned, hfinal.mpr (.inr hkept), hcarried hunsigned hkept⟩

/-- Neither behind a fragment nor behind a question mark that only a line end follows is the
decrypted signature a parameter of the URL: such a format is signed, but not found to be signed, and
left out when it is signed again. -/
theorem signed_behind_fragment_not_final :
    let engine : Engine := ⟨⟨[⟨"reverse".toList, none⟩], List.cons_ne_nil _ _⟩, Catalog.standard⟩
    let format (url : Text) :=
      sampleFormat 18 (some ⟨url, some (Text.raw ['a', 'b']), defaultParameter.raw⟩) none
    let signed (url : Text) := sampleFormat 18 (some ⟨url, none, defaultParameter.raw⟩) none
    let lost (url longer : Text) := signFormat (some engine) (format url) = .ok (signed longer) ∧
      hasSignature longer = .ok false ∧
      signFormat (some engine) (signed longer) = .error (.missing (.noSignature 18)) ∧
      signFormat none (signed longer) = .error (.missing (.noSignature 18))
    defaultParameter ∈ signatureNames ∧ lost "v#f".toList "v#f?sig=ba".toList ∧
      lost "v?\n".toList "v?\n?sig=ba".toList := by
  decide +kernel

end Playable.Signing
