import Frontend.Text.Utf8

/-!
Decoding undoes encoding. What a byte list begins with is decoded from its first bytes alone, the
readable part of a byte list is the encoding of what is read, and a lossy decoding loses nothing
of an encoded text.
-/
namespace Frontend.Utf8

@[simp] theorem encode_nil : encode [] = [] := rfl

@[simp] theorem encode_cons (c : Char) (text : List Char) :
    encode (c :: text) = String.utf8EncodeChar c ++ encode text := rfl

theorem encode_append (a b : List Char) : encode (a ++ b) = encode a ++ encode b := by
  simp [encode]

theorem length_encodeChar_pos (c : Char) : 0 < (String.utf8EncodeChar c).length := by
  rw [String.length_utf8EncodeChar]
  exact c.utf8Size_pos

/-- A character is decoded whatever follows it. -/
theorem decodeHead_encodeChar (c : Char) (rest : List UInt8) :
    decodeHead (String.utf8EncodeChar c ++ rest) = some c := by
  have short : (String.utf8EncodeChar c).length ≤ 4 := by
    rw [String.length_utf8EncodeChar]
    exact c.utf8Size_le_four
  rw [decodeHead, List.take_append, List.take_of_length_le short, List.toByteArray_append]
  exact ByteArray.utf8DecodeChar?_utf8EncodeChar_append

/-- A character that is decoded stands encoded at the head. -/
theorem eq_of_decodeHead {bytes : List UInt8} {c : Char} (h : decodeHead bytes = some c) :
    bytes = String.utf8EncodeChar c ++ bytes.drop c.utf8Size := by
  have head : (String.utf8EncodeChar c) <+: bytes.take 4 := by
    obtain ⟨tail, eq⟩ := ByteArray.exists_of_utf8DecodeChar?_eq_some h
    have data := congrArg (fun b => b.data.toList) eq
    exact ⟨tail.data.toList, by simpa using data.symm⟩
  obtain ⟨tail, whole⟩ := head.trans (List.take_prefix 4 bytes)
  rw [← whole, ← String.length_utf8EncodeChar c, List.drop_left]

/-- The bytes behind a character that leads a byte list. -/
theorem drop_encodeChar {c : Char} {b : UInt8} {rest more : List UInt8}
    (h : String.utf8EncodeChar c ++ more = b :: rest) : rest.drop (c.utf8Size - 1) = more := by
  have positive := c.utf8Size_pos
  have whole : (b :: rest).drop c.utf8Size = more := by
    rw [← h, ← String.length_utf8EncodeChar c, List.drop_left]
  obtain ⟨n, size⟩ := Nat.exists_eq_succ_of_ne_zero (Nat.ne_of_gt positive)
  rw [size] at whole ⊢
  exact whole

/-- An encoded character is a leading byte and more; it is decoded, and behind it is what follows. -/
theorem exists_cons_encodeChar (c : Char) (more : List UInt8) :
    ∃ b rest, String.utf8EncodeChar c ++ more = b :: rest ∧ decodeHead (b :: rest) = some c ∧
      rest.drop (c.utf8Size - 1) = more := by
  have decoded := decodeHead_encodeChar c more
  cases bytes : String.utf8EncodeChar c ++ more with
  | nil =>
    have positive := length_encodeChar_pos c
    simp [(List.append_eq_nil_iff.mp bytes).1] at positive
  | cons b rest =>
    rw [bytes] at decoded
    exact ⟨b, rest, rfl, decoded, drop_encodeChar bytes⟩

/-- Lossy decoding of an encoded character goes on behind it. -/
theorem decodeLossy_encodeChar (c : Char) (more : List UInt8) :
    decodeLossy (String.utf8EncodeChar c ++ more) = c :: decodeLossy more := by
  obtain ⟨b, rest, bytes, decoded, behind⟩ := exists_cons_encodeChar c more
  rw [bytes, decodeLossy]
  simp only [decoded, behind]

/-- Lossy decoding loses nothing of an encoded text. -/
theorem decodeLossy_encode (text : List Char) : decodeLossy (encode text) = text := by
  induction text with
  | nil => simp [decodeLossy]
  | cons c text ih => rw [encode_cons, decodeLossy_encodeChar, ih]

/-- All of an encoded text can be read. -/
theorem readable_encode (text : List Char) : readable (encode text) = (text, none) := by
  induction text with
  | nil => simp [readable]
  | cons c text ih =>
    obtain ⟨b, rest, bytes, decoded, behind⟩ := exists_cons_encodeChar c (encode text)
    rw [encode_cons, bytes, readable]
    simp only [decoded, behind, ih]

/-- A byte list is the encoding of its readable part and a rest, which is empty or begins with the
byte that ends the readable part. -/
theorem readable_append (bytes : List UInt8) :
    ∃ tail, bytes = encode (readable bytes).1 ++ tail ∧ (readable bytes).2 = tail.head? := by
  fun_induction readable bytes with
  | case1 => exact ⟨[], rfl, rfl⟩
  | case2 b rest c decoded text stop read ih =>
    obtain ⟨tail, whole, ends⟩ := ih
    rw [read] at whole ends
    refine ⟨tail, ?_, ends⟩
    have split := eq_of_decodeHead decoded
    rw [split, encode_cons, List.append_assoc, ← whole,
      drop_encodeChar split.symm]
  | case3 b rest _ => exact ⟨b :: rest, rfl, rfl⟩

/-- What cuts off the readable part of a byte list is no character. -/
theorem readable_stops (bytes : List UInt8) :
    ∃ tail, bytes = encode (readable bytes).1 ++ tail ∧ decodeHead tail = none := by
  fun_induction readable bytes with
  | case1 => exact ⟨[], rfl, by decide⟩
  | case2 b rest c decoded text stop read ih =>
    obtain ⟨tail, whole, ends⟩ := ih
    rw [read] at whole
    have split := eq_of_decodeHead decoded
    refine ⟨tail, ?_, ends⟩
    rw [split, encode_cons, List.append_assoc, ← whole, drop_encodeChar split.symm]
  | case3 b rest ends => exact ⟨b :: rest, rfl, ends⟩

/-- A text whose bytes lead a byte list is the beginning of what can be read of that list. -/
theorem prefix_of_encode_prefix {word text : List Char} {tail : List UInt8}
    (ends : decodeHead tail = none) (h : encode word <+: encode text ++ tail) : word <+: text := by
  induction word generalizing text with
  | nil => exact List.nil_prefix
  | cons c word ih =>
    obtain ⟨more, whole⟩ := h
    rw [encode_cons, List.append_assoc] at whole
    have head := decodeHead_encodeChar c (encode word ++ more)
    rw [whole] at head
    cases text with
    | nil => rw [encode_nil, List.nil_append, ends] at head; cases head
    | cons d text =>
      rw [encode_cons, List.append_assoc] at head whole
      rw [decodeHead_encodeChar] at head
      obtain rfl : d = c := Option.some.inj head
      have rest : encode word ++ more = encode text ++ tail := List.append_cancel_left whole
      exact (List.prefix_cons_inj d).mpr (ih ⟨more, rest⟩)

/-- The byte of a newline is part of no other character. -/
theorem newline_mem_encodeChar {c : Char} (h : 10 ∈ String.utf8EncodeChar c) : c = '\n' := by
  have bytes {n : Nat} (small : n < 256) (same : (10 : UInt8) = UInt8.ofNat n) : n = 10 := by
    have same : 10 = n % 256 := by simpa using congrArg UInt8.toNat same
    omega
  simp only [String.utf8EncodeChar] at h
  by_cases ascii : c.val.toNat ≤ 127
  · rw [if_pos ascii, List.mem_singleton] at h
    exact Char.ext (UInt32.toNat_inj.mp (bytes (by omega) h))
  · exfalso
    rw [if_neg ascii] at h
    split at h
    · obtain h | h := by simpa only [List.mem_cons, List.not_mem_nil, or_false] using h
      all_goals
        have := bytes (by omega) h
        omega
    · split at h
      · obtain h | h | h := by simpa only [List.mem_cons, List.not_mem_nil, or_false] using h
        all_goals
          have := bytes (by omega) h
          omega
      · obtain h | h | h | h := by simpa only [List.mem_cons, List.not_mem_nil, or_false] using h
        all_goals
          have := bytes (by omega) h
          omega

/-- A text that nothing cuts off is the whole byte list. -/
theorem encode_readable {bytes : List UInt8} (h : (readable bytes).2 = none) :
    encode (readable bytes).1 = bytes := by
  obtain ⟨tail, whole, ends⟩ := readable_append bytes
  rw [h] at ends
  have nothing : tail = [] := List.head?_eq_none_iff.mp ends.symm
  rw [nothing, List.append_nil] at whole
  exact whole.symm

/-- An encoded text is well-formed UTF-8. -/
theorem isValidUTF8_encode (text : List Char) : (encode text).toByteArray.IsValidUTF8 :=
  ⟨text, rfl⟩

end Frontend.Utf8
