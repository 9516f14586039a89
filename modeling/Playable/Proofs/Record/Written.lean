import Playable.Proofs.Record.Reading
import Playable.Record.Response

/-!
# Records read back

A record that has been read is written under one name for each field, with its place as an object.
What is written this way is read as the same record: no name is missed, no place is put together
anew, and no format of a list is dropped.
-/

namespace Playable.Record

open Json (Value)

/-- A place is read back. -/
theorem readsBack_signatureCipher : ReadsBack SignatureCipher.read SignatureCipher.toValue where
  reads place := by
    rw [SignatureCipher.read, SignatureCipher.toValue, objectValue, object,
      readsBack_text.required (firstField?_map_toList _ _),
      readsBack_rawText.optional (firstField?_map_toList _ _),
      readsBack_rawText.withDefault _ (firstField?_map_toList _ _)]
    rfl
  present _ := objectValue_ne_null _

/-- A record with a place in one field is left alone, whatever the place is. -/
theorem foldCipher_map_toList {entries : List (String × Value)} {place : Value}
    (h : entries.lookup "signature_cipher" = some place) :
    foldCipher (entries.map fun f => (f.1.toList, f.2)) =
      entries.map fun f => (f.1.toList, f.2) := by
  rw [← get?_map_toList] at h
  exact if_pos (Register.has_eq_true_iff.mpr
    (Register.mem_names_iff.mpr ⟨place, Register.mem_of_get? h⟩))

/-- The place of a written format is not put together anew. -/
theorem foldCipher_toValue (format : Format) :
    ∃ fields, format.toValue = .object fields ∧ foldCipher fields = fields :=
  ⟨_, rfl, foldCipher_map_toList rfl⟩

/-- A format is read back. -/
theorem readsBack_format : ReadsBack Format.read Format.toValue where
  reads format := by
    rw [Format.read, Format.toValue, objectValue, object]
    dsimp only
    rw [foldCipher_map_toList rfl,
      readsBack_integer.required (firstField?_map_toList _ _),
      readsBack_signatureCipher.optional (firstField?_map_toList _ _),
      readsBack_text.optional (firstField?_map_toList _ _),
      readsBack_text.optional (firstField?_map_toList _ _),
      readsBack_text.optional (firstField?_map_toList _ _),
      readsBack_integer.optional (firstField?_map_toList _ _),
      readsBack_integer.optional (firstField?_map_toList _ _),
      readsBack_integer.optional (firstField?_map_toList _ _),
      readsBack_integer.optional (firstField?_map_toList _ _),
      readsBack_integer.optional (firstField?_map_toList _ _),
      readsBack_integer.optional (firstField?_map_toList _ _),
      readsBack_text.optional (firstField?_map_toList _ _)]
    rfl
  present _ := objectValue_ne_null _

/-- No format of a written list is dropped. -/
theorem readsBack_formatList :
    ReadsBack formatList fun formats => .list (formats.map Format.toValue) where
  reads formats := by
    have hread (format : Format) : (Format.read format.toValue).toOption = some format := by
      rw [readsBack_format.reads]
      rfl
    simp only [formatList, List.filterMap_map, Function.comp_def, hread, List.filterMap_some]
  present := nofun

/-- The formats of a video are read back. -/
theorem readsBack_streamingData : ReadsBack StreamingData.read StreamingData.toValue where
  reads data := by
    rw [StreamingData.read, StreamingData.toValue, objectValue, object,
      readsBack_formatList.withDefault _ (firstField?_map_toList _ _),
      readsBack_formatList.withDefault _ (firstField?_map_toList _ _),
      readsBack_text.optional (firstField?_map_toList _ _)]
    rfl
  present _ := objectValue_ne_null _

/-- What a video is, is read back. -/
theorem readsBack_videoDetails : ReadsBack VideoDetails.read VideoDetails.toValue where
  reads details := by
    rw [VideoDetails.read, VideoDetails.toValue, objectValue, object,
      readsBack_text.required (firstField?_map_toList _ _),
      readsBack_text.withDefault _ (firstField?_map_toList _ _),
      readsBack_text.optional (firstField?_map_toList _ _),
      readsBack_integer.optional (firstField?_map_toList _ _),
      readsBack_truth.withDefault _ (firstField?_map_toList _ _)]
    rfl
  present _ := objectValue_ne_null _

/-- A player response is read back. -/
theorem readsBack_playerResponse : ReadsBack PlayerResponse.read PlayerResponse.toValue where
  reads response := by
    rw [PlayerResponse.read, PlayerResponse.toValue, objectValue, object,
      readsBack_videoDetails.required (firstField?_map_toList _ _),
      readsBack_streamingData.optional (firstField?_map_toList _ _)]
    rfl
  present _ := objectValue_ne_null _

/-- Records are fixed once they have been read: each of them is written as a value that is read as
the same record, whatever it was read from the first time. No place is put together anew, and no
format of a list is dropped. -/
theorem records_read_back :
    ReadsBack Format.read Format.toValue ∧
    ReadsBack StreamingData.read StreamingData.toValue ∧
    ReadsBack VideoDetails.read VideoDetails.toValue ∧
    ReadsBack PlayerResponse.read PlayerResponse.toValue ∧
    (∀ format : Format, ∃ fields, format.toValue = .object fields ∧ foldCipher fields = fields) ∧
    ReadsBack formatList fun formats => .list (formats.map Format.toValue) :=
  ⟨readsBack_format, readsBack_streamingData, readsBack_videoDetails, readsBack_playerResponse,
    foldCipher_toValue, readsBack_formatList⟩

end Playable.Record
