import Mathlib.Data.List.Basic

def encodeUtf8 (text : List Char) : List UInt8 := text.flatMap String.utf8EncodeChar

theorem encodeUtf8_append (left right : List Char) :
    encodeUtf8 (left ++ right) = encodeUtf8 left ++ encodeUtf8 right := by
  simp [encodeUtf8]

theorem encodeUtf8_injective : Function.Injective encodeUtf8 := by
  intro left right equal
  have bytes : left.utf8Encode = right.utf8Encode := congrArg List.toByteArray equal
  have decoded := congrArg ByteArray.utf8Decode? bytes
  rw [List.utf8Decode?_utf8Encode, List.utf8Decode?_utf8Encode] at decoded
  simpa using decoded
