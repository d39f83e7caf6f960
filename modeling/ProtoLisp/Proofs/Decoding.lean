import ProtoLisp.Source

/-!
# Decoding line by line

A newline is a character of its own wherever it stands among the bytes: no longer character holds its
byte.  So bytes that end in a stray byte do so whatever stands on the next line, and otherwise the next
line is decoded on its own.
-/

namespace ProtoLisp.Source

/-- The byte of a newline. -/
def newline : ByteArray := "\n".toUTF8

theorem newline_eq_encoded : newline = (String.utf8EncodeChar '\n').toByteArray := rfl

/-! ### Steps of the decoder -/

section Steps

variable {bytes : ByteArray} {i : Nat}

theorem decodeFrom_of_some {c : Char} (hchar : bytes.utf8DecodeChar? i = some c) :
    decodeFrom bytes i =
      (c :: (decodeFrom bytes (i + c.utf8Size)).1, (decodeFrom bytes (i + c.utf8Size)).2) := by
  have hlt : i < bytes.size :=
    ByteArray.lt_size_of_isSome_utf8DecodeChar? (Option.isSome_of_eq_some hchar)
  rw [decodeFrom, dif_pos hlt, hchar]

theorem decodeFrom_of_none (hlt : i < bytes.size) (hchar : bytes.utf8DecodeChar? i = none) :
    decodeFrom bytes i = ([], some bytes[i]) := by
  rw [decodeFrom, dif_pos hlt, hchar]

theorem decodeFrom_of_size_le (hle : bytes.size ≤ i) : decodeFrom bytes i = ([], none) := by
  rw [decodeFrom, dif_neg (Nat.not_lt.mpr hle)]

theorem decodeFrom_empty : decodeFrom .empty 0 = ([], none) :=
  decodeFrom_of_size_le (Nat.le_refl 0)

end Steps

/-! ### Bytes in front -/

theorem utf8DecodeChar?_append_size (a b : ByteArray) (j : Nat) :
    (a ++ b).utf8DecodeChar? (a.size + j) = b.utf8DecodeChar? j := by
  rw [ByteArray.utf8DecodeChar?_eq_utf8DecodeChar?_extract, ByteArray.size_append,
    ByteArray.extract_append_size_add, ← ByteArray.utf8DecodeChar?_eq_utf8DecodeChar?_extract]

/-- Bytes in front do not matter to the rest. -/
theorem decodeFrom_append_size (a b : ByteArray) (j : Nat) :
    decodeFrom (a ++ b) (a.size + j) = decodeFrom b j := by
  fun_induction decodeFrom b j with
  | case1 j hlt c hchar cs stray hrest ih =>
      rw [decodeFrom_of_some ((utf8DecodeChar?_append_size a b j).trans hchar), Nat.add_assoc, ih,
        hrest]
  | case2 j hlt hchar =>
      have hlt' : a.size + j < (a ++ b).size := by
        rw [ByteArray.size_append]
        omega
      rw [decodeFrom_of_none hlt' ((utf8DecodeChar?_append_size a b j).trans hchar),
        ByteArray.getElem_append_right (Nat.le_add_right _ _)]
      simp only [Nat.add_sub_cancel_left]
  | case3 j hle =>
      apply decodeFrom_of_size_le
      rw [ByteArray.size_append]
      omega

/-- A character that is written out in front is read first. -/
theorem decodeFrom_encoded_append (c : Char) (rest : ByteArray) :
    decodeFrom ((String.utf8EncodeChar c).toByteArray ++ rest) 0 =
      (c :: (decodeFrom rest 0).1, (decodeFrom rest 0).2) := by
  have hsize : (String.utf8EncodeChar c).toByteArray.size = c.utf8Size := by
    rw [List.size_toByteArray, String.length_utf8EncodeChar]
  have hrest := decodeFrom_append_size (String.utf8EncodeChar c).toByteArray rest 0
  rw [hsize, Nat.add_zero] at hrest
  rw [decodeFrom_of_some ByteArray.utf8DecodeChar?_utf8EncodeChar_append, Nat.zero_add, hrest]

/-- A text that is written out is read back. -/
theorem decodeFrom_utf8Encode (cs : List Char) : decodeFrom cs.utf8Encode 0 = (cs, none) := by
  induction cs with
  | nil => exact decodeFrom_empty
  | cons c cs ih =>
      have hcons : (c :: cs).utf8Encode =
          (String.utf8EncodeChar c).toByteArray ++ cs.utf8Encode := by
        simp [List.utf8Encode, List.toByteArray_append]
      rw [hcons, decodeFrom_encoded_append, ih]

theorem decodeFrom_toUTF8 (text : String) : decodeFrom text.toUTF8 0 = (text.toList, none) := by
  rw [← decodeFrom_utf8Encode text.toList, String.utf8Encode_toList]
  rfl

/-! ### Bytes behind -/

/-- The bytes of a character are where it is found. -/
theorem encoded_eq_extract {bytes : ByteArray} {i : Nat} {c : Char}
    (hchar : bytes.utf8DecodeChar? i = some c) :
    (String.utf8EncodeChar c).toByteArray = bytes.extract i (i + c.utf8Size) := by
  have hle := ByteArray.le_size_of_utf8DecodeChar?_eq_some hchar
  rw [ByteArray.utf8DecodeChar?_eq_utf8DecodeChar?_extract] at hchar
  rw [String.toByteArray_utf8EncodeChar_of_utf8DecodeChar?_eq_some hchar,
    ByteArray.extract_extract, Nat.add_zero, Nat.min_eq_left hle]

/-- A character that ends within the bytes in front is there without the bytes behind. -/
theorem utf8DecodeChar?_of_append {a b : ByteArray} {i : Nat} {c : Char}
    (hchar : (a ++ b).utf8DecodeChar? i = some c) (hle : i + c.utf8Size ≤ a.size) :
    a.utf8DecodeChar? i = some c := by
  have hencoded : (String.utf8EncodeChar c).toByteArray = a.extract i (i + c.utf8Size) := by
    rw [encoded_eq_extract hchar, ByteArray.extract_append, Nat.sub_eq_zero_of_le hle,
      Nat.sub_eq_zero_of_le (by omega), ByteArray.extract_same, ByteArray.append_empty]
  rw [ByteArray.utf8DecodeChar?_eq_utf8DecodeChar?_extract,
    ByteArray.extract_eq_extract_append_extract (i + c.utf8Size) (Nat.le_add_right _ _) hle,
    ← hencoded]
  exact ByteArray.utf8DecodeChar?_utf8EncodeChar_append

/-- The byte of a newline is inside no character, so it completes none. -/
theorem utf8DecodeChar?_append_newline {s : ByteArray} {i : Nat} (hlt : i < s.size)
    (hchar : s.utf8DecodeChar? i = none) (t : ByteArray) :
    (s ++ (newline ++ t)).utf8DecodeChar? i = none := by
  cases hlonger : (s ++ (newline ++ t)).utf8DecodeChar? i with
  | none => rfl
  | some c =>
      by_cases hle : i + c.utf8Size ≤ s.size
      · rw [utf8DecodeChar?_of_append hlonger hle] at hchar
        cases hchar
      · -- The newline would be a later byte of the character, but it can only be a first one.
        have hj : s.size - i < (String.utf8EncodeChar c).length := by
          rw [String.length_utf8EncodeChar]
          omega
        have hbyte : (String.utf8EncodeChar c)[s.size - i] = 10 := by
          rw [List.getElem_eq_getElem_toByteArray]
          simp only [encoded_eq_extract hlonger, ByteArray.getElem_extract]
          have hzero : i + (s.size - i) - s.size = 0 := by omega
          rw [ByteArray.getElem_append_right (by omega),
            ByteArray.getElem_append_left (hzero ▸ Nat.zero_lt_one)]
          simp only [hzero]
          rfl
        have hfirst : (String.utf8EncodeChar c)[s.size - i].IsUTF8FirstByte := by
          rw [hbyte]
          decide
        rw [UInt8.isUTF8FirstByte_getElem_utf8EncodeChar] at hfirst
        omega

/-- What stands on the next line is decoded on its own, unless a stray byte stands in front of it. -/
theorem decodeFrom_append_newline {s : ByteArray} {i : Nat} (hle : i ≤ s.size) (t : ByteArray) :
    decodeFrom (s ++ (newline ++ t)) i =
      match (decodeFrom s i).2 with
      | none => ((decodeFrom s i).1 ++ '\n' :: (decodeFrom t 0).1, (decodeFrom t 0).2)
      | some byte => ((decodeFrom s i).1, some byte) := by
  fun_induction decodeFrom s i with
  | case1 i hlt c hchar cs stray hrest ih =>
      have hchar' := ByteArray.utf8DecodeChar?_append_eq_some hchar (newline ++ t)
      rw [decodeFrom_of_some hchar',
        ih (ByteArray.le_size_of_utf8DecodeChar?_eq_some hchar), hrest]
      cases stray <;> rfl
  | case2 i hlt hchar =>
      have hlt' : i < (s ++ (newline ++ t)).size := by
        rw [ByteArray.size_append]
        omega
      rw [decodeFrom_of_none hlt' (utf8DecodeChar?_append_newline hlt hchar t),
        ByteArray.getElem_append_left hlt]
  | case3 i hge =>
      have hi : i = s.size + 0 := by omega
      rw [hi, decodeFrom_append_size, newline_eq_encoded, decodeFrom_encoded_append]
      rfl

end ProtoLisp.Source
