/-!
# UTF-8

The bytes of a text and the text of bytes.  Decoding succeeds on exactly the bytes that encode a text
(`decodeUtf8?_eq_some_iff`).
-/

namespace StackMachine

/-- The UTF-8 bytes of a text. -/
def encodeUtf8 (text : String) : List UInt8 :=
  text.toList.flatMap String.utf8EncodeChar

/-- The text that bytes encode, if they are UTF-8. -/
def decodeUtf8? (bytes : List UInt8) : Option String :=
  String.fromUTF8? bytes.toByteArray

private theorem toByteArray_encodeUtf8 (text : String) : (encodeUtf8 text).toByteArray = text.toByteArray := by
  have h : (String.ofList text.toList).toByteArray = text.toList.utf8Encode := String.toByteArray_ofList
  rw [String.ofList_toList] at h
  exact h.symm

/-- A text is read back from its bytes. -/
@[simp] theorem decodeUtf8?_encodeUtf8 (text : String) : decodeUtf8? (encodeUtf8 text) = some text := by
  rw [decodeUtf8?, toByteArray_encodeUtf8, String.fromUTF8?, dif_pos text.isValidUTF8]
  rfl

private theorem toByteArray_injective {a b : List UInt8} (h : a.toByteArray = b.toByteArray) : a = b := by
  have hd := congrArg (fun bytes => bytes.data.toList) h
  simpa using hd

/-- Bytes decode to a text exactly if they are its encoding. -/
theorem decodeUtf8?_eq_some_iff {bytes : List UInt8} {text : String} :
    decodeUtf8? bytes = some text ↔ bytes = encodeUtf8 text := by
  constructor
  · intro h
    rw [decodeUtf8?, String.fromUTF8?] at h
    split at h
    · apply toByteArray_injective
      rw [toByteArray_encodeUtf8, ← Option.some.inj h]
      rfl
    · cases h
  · rintro rfl
    exact decodeUtf8?_encodeUtf8 text

end StackMachine
