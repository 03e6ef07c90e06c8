/-!
# UTF-8 sequences

The shape of a UTF-8 sequence as its first byte announces it, and the decoding of one
whole sequence. `Utf8.decode?_encode` reads every character back, and
`Utf8.encode_of_decode?` says that nothing else is read: overlong forms, surrogates and
values beyond the last code point are refused.
-/

namespace NumNum.Utf8

/-- How many bytes the sequence has that starts with `lead`, if one can start with it. -/
def sequenceLength? (lead : UInt8) : Option Nat :=
  if lead < 0x80 then some 1
  else if 0xc2 ≤ lead ∧ lead ≤ 0xdf then some 2
  else if 0xe0 ≤ lead ∧ lead ≤ 0xef then some 3
  else if 0xf0 ≤ lead ∧ lead ≤ 0xf4 then some 4
  else none

/-- Bytes that continue a sequence. -/
def isContinuation (b : UInt8) : Bool :=
  0x80 ≤ b && b ≤ 0xbf

/-- The bytes of a character. -/
def encode (c : Char) : List UInt8 :=
  String.utf8EncodeChar c

/-- The bytes of a text. -/
def encodeText (s : String) : List UInt8 :=
  s.toList.flatMap encode

/-- The character whose sequence the bytes are. -/
def decode? (bytes : List UInt8) : Option Char :=
  match bytes.toByteArray.utf8DecodeChar? 0 with
  | some c => if c.utf8Size = bytes.length then some c else none
  | none => none

/-- The text whose bytes these are. -/
def decodeText? (bytes : List UInt8) : Option String :=
  String.fromUTF8? bytes.toByteArray

theorem encodeText_append (s t : String) : encodeText (s ++ t) = encodeText s ++ encodeText t := by
  simp only [encodeText, String.toList_append, List.flatMap_append]

/-! ## Decoding inverts encoding -/

theorem length_encode (c : Char) : (encode c).length = c.utf8Size :=
  String.length_utf8EncodeChar c

theorem decode?_encode (c : Char) : decode? (encode c) = some c := by
  have h : (encode c).toByteArray.utf8DecodeChar? 0 = some c := by
    simpa [encode] using
      ByteArray.utf8DecodeChar?_utf8EncodeChar_append (b := ByteArray.empty) (c := c)
  simp [decode?, h, length_encode]

theorem encode_of_decode? {bytes : List UInt8} {c : Char} (h : decode? bytes = some c) :
    encode c = bytes := by
  simp only [decode?] at h
  split at h
  case h_2 => simp at h
  case h_1 d hd =>
    split at h
    case isFalse => simp at h
    case isTrue hlen =>
      cases h
      have := String.toByteArray_utf8EncodeChar_of_utf8DecodeChar?_eq_some hd
      have harr : (encode c).toByteArray = bytes.toByteArray := by
        rw [encode, this, hlen, ← List.size_toByteArray, ByteArray.extract_zero_size]
      simpa using congrArg (fun a => a.data.toList) harr

end NumNum.Utf8
