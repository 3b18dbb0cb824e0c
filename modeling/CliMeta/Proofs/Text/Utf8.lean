import CliMeta.Text.Latin1
import CliMeta.Text.Utf8

/-!
The bytes of a text. Decoding is strict, so a text is decoded from its own bytes and from no others,
and only the character NUL has a zero byte. A text in ASCII has one byte for each character, so it
is its own Latin-1 reading.
-/

namespace CliMeta.Utf8

variable {text : String}

/-- The bytes of a text in UTF-8. -/
def encode (text : String) : List UInt8 :=
  text.toByteArray.data.toList

@[simp] theorem encode_length (text : String) : (encode text).length = text.utf8ByteSize := rfl

@[simp] theorem encode_append (front back : String) :
    encode (front ++ back) = encode front ++ encode back := by
  simp [encode, String.toByteArray_append]

theorem decode?_eq_some {bytes : Bytes} :
    decode? bytes = some text ↔ bytes.toList = encode text := by
  rw [decode?, String.fromUTF8?, encode]
  constructor
  · intro h
    split at h
    · cases h
      rfl
    · cases h
  · intro h
    have hbytes : (⟨bytes⟩ : ByteArray) = text.toByteArray := by
      apply ByteArray.ext
      exact Array.toList_inj.1 h
    rw [hbytes, dif_pos text.isValidUTF8]
    rfl

theorem decode?_encode (text : String) : decode? (encode text).toArray = some text :=
  decode?_eq_some.2 rfl

theorem decodeLossy_encode (text : String) : decodeLossy (encode text).toArray = text := by
  rw [decodeLossy, decode?_encode]

theorem encode_eq_flatMap (text : String) :
    encode text = text.toList.flatMap String.utf8EncodeChar := by
  have htext : text.toByteArray = text.toList.utf8Encode := by
    rw [← String.toByteArray_ofList, String.ofList_toList]
  rw [encode, htext, List.utf8Encode, List.data_toByteArray]

/-- The lead byte and the bytes behind it have bits of their own, unless the character is ASCII. -/
theorem zero_mem_utf8EncodeChar {c : Char} (h : 0 ∈ String.utf8EncodeChar c) : c = '\x00' := by
  have hpart {offset value : Nat} (hoffset : 0 < offset) (hfits : offset + value < 256) :
      (0 : UInt8) ≠ UInt8.ofNat (value + offset) := by
    intro hzero
    have hnat := congrArg UInt8.toNat hzero
    rw [UInt8.toNat_ofNat_of_lt' (by omega : value + offset < 256)] at hnat
    exact absurd hnat (by simp; omega)
  unfold String.utf8EncodeChar at h
  simp only at h
  split at h
  · rename_i hascii
    have hnat := congrArg UInt8.toNat (List.mem_singleton.1 h)
    rw [UInt8.toNat_ofNat_of_lt' (by omega : c.val.toNat < 256)] at hnat
    apply Char.ext
    exact UInt32.toNat_inj.1 hnat.symm
  · split at h
    · simp only [List.mem_cons, List.not_mem_nil, or_false] at h
      rcases h with h | h
      · exact absurd h (hpart (by decide) (by omega))
      · exact absurd h (hpart (by decide) (by omega))
    · split at h
      · simp only [List.mem_cons, List.not_mem_nil, or_false] at h
        rcases h with h | h | h
        all_goals exact absurd h (hpart (by decide) (by omega))
      · simp only [List.mem_cons, List.not_mem_nil, or_false] at h
        rcases h with h | h | h | h
        all_goals exact absurd h (hpart (by decide) (by omega))

/-- A text has a zero byte for every NUL and no others. -/
theorem zero_mem_encode : 0 ∈ encode text ↔ '\x00' ∈ text.toList := by
  rw [encode_eq_flatMap, List.mem_flatMap]
  constructor
  · rintro ⟨c, hc, hbyte⟩
    rwa [zero_mem_utf8EncodeChar hbyte] at hc
  · intro h
    exact ⟨_, h, by decide⟩

/-! ### ASCII -/

/-- All characters are in the ASCII range. -/
def IsAscii (text : String) : Prop :=
  ∀ c ∈ text.toList, c.toNat < 0x80

-- by way of the characters of the text; a search could come upon all the characters that there are
instance (text : String) : Decidable (IsAscii text) :=
  List.decidableBAll (fun c : Char => c.toNat < 0x80) text.toList

theorem flatMap_utf8EncodeChar {chars : List Char} (h : ∀ c ∈ chars, c.toNat < 0x80) :
    chars.flatMap String.utf8EncodeChar = chars.map fun c => UInt8.ofNat c.toNat := by
  induction chars with
  | nil => rfl
  | cons c chars ih =>
      have hfirst : c.val.toNat ≤ 127 := Nat.le_of_lt_succ (h c List.mem_cons_self)
      have hothers := ih fun other hother => h other (List.mem_cons_of_mem c hother)
      rw [List.flatMap_cons, hothers, String.utf8EncodeChar]
      simp only [hfirst, if_true, List.map_cons, List.cons_append, List.nil_append]
      rfl

theorem encode_of_ascii (h : IsAscii text) :
    encode text = text.toList.map fun c => UInt8.ofNat c.toNat := by
  rw [encode_eq_flatMap, flatMap_utf8EncodeChar h]

theorem encode_length_of_ascii (h : IsAscii text) : (encode text).length = text.length := by
  rw [encode_of_ascii h, List.length_map, String.length_toList]

/-- Every byte of an ASCII text is the number of its character. -/
theorem latin1_encode (h : IsAscii text) : latin1 (encode text).toArray = text := by
  have hchar (c : Char) (hc : c ∈ text.toList) :
      Char.ofNat (UInt8.ofNat c.toNat).toNat = c := by
    have hlt : c.toNat < 256 := Nat.lt_trans (h c hc) (by decide)
    rw [UInt8.toNat_ofNat_of_lt' hlt, Char.ofNat_toNat]
  have hchars : (text.toList.map fun c => Char.ofNat (UInt8.ofNat c.toNat).toNat) = text.toList :=
    (List.map_congr_left hchar).trans (List.map_id' text.toList)
  rw [latin1, encode_of_ascii h, List.map_map]
  show String.ofList (text.toList.map fun c => Char.ofNat (UInt8.ofNat c.toNat).toNat) = text
  rw [hchars, String.ofList_toList]

end CliMeta.Utf8
