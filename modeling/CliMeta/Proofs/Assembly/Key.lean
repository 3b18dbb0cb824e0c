import CliMeta.Assembly.Identity
import CliMeta.Proofs.Outcome
import CliMeta.Proofs.Text.Utf8

/-!
The keys of display names. A key is accepted if pairs of characters spell its bytes, from the left
to the right. The pairs are two hexadecimal digits, or a plus sign and one digit. The digits that a
key is displayed with spell its bytes.
-/

namespace CliMeta

variable {signs : Bool} {text : List Char} {bytes : List UInt8}

/-! ### Digits -/

theorem hexDigit?_bounds {c : Char} {value : Nat} (h : hexDigit? c = some value) :
    value < 16 ∧ c.toNat < 0x80 := by
  have hlow (low : Char) : low ≤ c ↔ low.toNat ≤ c.toNat := UInt32.le_iff_toNat_le
  have hhigh (high : Char) : c ≤ high ↔ c.toNat ≤ high.toNat := UInt32.le_iff_toNat_le
  simp only [hexDigit?, hlow, hhigh, Char.reduceToNat] at h
  grind

theorem hexDigit?_digitChar : ∀ value < 16, hexDigit? value.digitChar = some value := by
  decide

/-! ### Pairs -/

/-- The value of the first character of a pair. With `signs`, it may be a plus sign, which counts as
a zero. -/
def IsFirstDigit (signs : Bool) (c : Char) (value : Nat) : Prop :=
  hexDigit? c = some value ∨ signs = true ∧ c = '+' ∧ value = 0

/-- Pairs of characters, from the left to the right, and the bytes that they spell. -/
inductive HexPairs (signs : Bool) : List Char → List UInt8 → Prop where
  | nil : HexPairs signs [] []
  | pair {high low : Char} {h l : Nat} {text : List Char} {bytes : List UInt8}
      (first : IsFirstDigit signs high h) (second : hexDigit? low = some l)
      (others : HexPairs signs text bytes) :
      HexPairs signs (high :: low :: text) (UInt8.ofNat (h * 16 + l) :: bytes)

theorem IsFirstDigit.ascii {c : Char} {value : Nat} (h : IsFirstDigit signs c value) :
    c.toNat < 0x80 := by
  obtain h | ⟨-, rfl, -⟩ := h
  · exact (hexDigit?_bounds h).2
  · decide

theorem isFirstDigit_false_iff {c : Char} {value : Nat} :
    IsFirstDigit false c value ↔ IsFirstDigit true c value ∧ c ≠ '+' := by
  constructor
  · rintro (h | ⟨h, -⟩)
    · refine ⟨.inl h, ?_⟩
      rintro rfl
      exact nomatch h
    · cases h
  · rintro ⟨h | ⟨-, h, -⟩, hsign⟩
    · exact .inl h
    · exact absurd h hsign

namespace HexPairs

theorem length (h : HexPairs signs text bytes) : text.length = 2 * bytes.length := by
  induction h with
  | nil => rfl
  | pair first second others ih =>
      simp only [List.length_cons, ih]
      omega

theorem ascii (h : HexPairs signs text bytes) : ∀ c ∈ text, c.toNat < 0x80 := by
  induction h with
  | nil => simp
  | pair first second others ih =>
      rw [List.forall_mem_cons, List.forall_mem_cons]
      exact ⟨first.ascii, (hexDigit?_bounds second).2, ih⟩

end HexPairs

theorem hexPairs_false_iff :
    HexPairs false text bytes ↔ HexPairs true text bytes ∧ '+' ∉ text := by
  constructor
  · intro h
    induction h with
    | nil => exact ⟨.nil, List.not_mem_nil⟩
    | pair first second others ih =>
        obtain ⟨hfirst, hsign⟩ := isFirstDigit_false_iff.1 first
        refine ⟨.pair hfirst second ih.1, ?_⟩
        simp only [List.mem_cons, not_or]
        refine ⟨hsign.symm, ?_, ih.2⟩
        rintro rfl
        exact nomatch second
  · rintro ⟨h, hsign⟩
    induction h with
    | nil => exact .nil
    | pair first second others ih =>
        simp only [List.mem_cons, not_or] at hsign
        exact .pair (isFirstDigit_false_iff.2 ⟨first, Ne.symm hsign.1⟩) second (ih hsign.2.2)

theorem hexPair?_eq_some_iff {high low : Char} {byte : UInt8} :
    hexPair? high low = some byte ↔ ∃ h l, IsFirstDigit true high h ∧ hexDigit? low = some l ∧
      byte = UInt8.ofNat (h * 16 + l) := by
  have hfirst (h : Nat) :
      (if high = '+' then some 0 else hexDigit? high) = some h ↔ IsFirstDigit true high h := by
    split
    · rename_i hsign
      subst hsign
      have hnot : hexDigit? '+' = none := rfl
      simp [IsFirstDigit, hnot, eq_comm]
    · rename_i hsign
      simp [IsFirstDigit, hsign]
  simp only [hexPair?, ← hfirst]
  split
  · rename_i h l hh hl
    simp [hh, hl, eq_comm]
  · rename_i hnot
    simp only [reduceCtorEq, false_iff]
    rintro ⟨h, l, hh, hl, -⟩
    exact hnot h l hh hl

theorem hexPairs?_eq_some_iff : hexPairs? text = some bytes ↔ HexPairs true text bytes := by
  induction text using hexPairs?.induct generalizing bytes with
  | case1 =>
      rw [hexPairs?, Option.some.injEq]
      refine ⟨fun h => h ▸ .nil, fun h => ?_⟩
      cases h
      rfl
  | case2 c =>
      refine ⟨nofun, fun h => ?_⟩
      cases h
  | case3 high low rest ih =>
      simp only [hexPairs?, Option.bind_eq_bind, Option.bind_eq_some_iff, Option.pure_def,
        Option.some.injEq, ih, hexPair?_eq_some_iff]
      constructor
      · rintro ⟨byte, ⟨h, l, hh, hl, rfl⟩, others, hothers, rfl⟩
        exact .pair hh hl hothers
      · intro h
        cases h with
        | pair first second others => exact ⟨_, ⟨_, _, first, second, rfl⟩, _, others, rfl⟩

/-! ### Keys -/

theorem parseKey_eq_ok_iff : parseKey text = .ok bytes ↔ HexPairs true text bytes := by
  rw [← hexPairs?_eq_some_iff, parseKey]
  constructor
  · intro h
    split at h
    · cases h
    · cases hpairs : hexPairs? text with
      | none => simp [hpairs] at h
      | some found => simpa [hpairs] using h
  · intro h
    -- pairs are in ASCII, so there are two bytes for each
    have hpairs := hexPairs?_eq_some_iff.1 h
    have hascii : Utf8.IsAscii (String.ofList text) := by
      simpa only [Utf8.IsAscii, String.toList_ofList] using hpairs.ascii
    have hsize : (String.ofList text).utf8ByteSize = 2 * bytes.length := by
      rw [← Utf8.encode_length, Utf8.encode_length_of_ascii hascii, String.length_ofList,
        hpairs.length]
    rw [hsize, if_neg (by omega), h]

theorem parseKey_malformed {e : Error} (h : parseKey text = .error e) :
    ∃ defect, e = .malformed defect := by
  simp only [parseKey] at h
  split at h
  · exact ⟨_, (Except.error.inj h).symm⟩
  · split at h
    · cases h
    · exact ⟨_, (Except.error.inj h).symm⟩

/-- A value of a key component and the key that it stands for. -/
def IsKey (signs : Bool) (value : List Char) (key : Option (List UInt8)) : Prop :=
  value = "null".toList ∧ key = none ∨ ∃ bytes, HexPairs signs value bytes ∧ key = some bytes

theorem isKey_false_iff {key : Option (List UInt8)} :
    IsKey false text key ↔ IsKey true text key ∧ '+' ∉ text := by
  have hnull : text = "null".toList → '+' ∉ text := by
    rintro rfl
    decide
  simp only [IsKey, hexPairs_false_iff]
  constructor
  · rintro (⟨htext, hkey⟩ | ⟨bytes, ⟨hbytes, hsign⟩, hkey⟩)
    · exact ⟨.inl ⟨htext, hkey⟩, hnull htext⟩
    · exact ⟨.inr ⟨bytes, hbytes, hkey⟩, hsign⟩
  · rintro ⟨h | ⟨bytes, hbytes, hkey⟩, hsign⟩
    · exact .inl h
    · exact .inr ⟨bytes, ⟨hbytes, hsign⟩, hkey⟩

namespace AssemblyIdentity

theorem parsePublicKey_eq_ok_iff {key : Option (List UInt8)} :
    parsePublicKey text = .ok key ↔ IsKey true text key := by
  unfold parsePublicKey IsKey
  split
  · rename_i hnull
    subst hnull
    have hnot (bytes : List UInt8) : ¬HexPairs true "null".toList bytes := by
      rw [← hexPairs?_eq_some_iff]
      exact nofun
    simp only [hnot, true_and, false_and, exists_false, or_false, Except.ok.injEq, eq_comm]
  · rename_i hnull
    simp only [hnull, false_and, false_or, ← parseKey_eq_ok_iff]
    cases parseKey text with
    | error e => simp [Except.map]
    | ok bytes => simp [Except.map, eq_comm]

theorem parsePublicKey_malformed {e : Error} (h : parsePublicKey text = .error e) :
    ∃ defect, e = .malformed defect := by
  unfold parsePublicKey at h
  split at h
  · cases h
  · exact parseKey_malformed (map_eq_error_iff.1 h)

end AssemblyIdentity

/-! ### Displayed keys -/

theorem toList_hexLower_two {value : Nat} (h : value < 256) :
    (hexLower 2 value).toList = [(value / 16).digitChar, (value % 16).digitChar] := by
  unfold hexLower
  by_cases hsmall : value < 16
  · rw [Nat.toDigits_of_lt_base hsmall, Nat.div_eq_of_lt hsmall, Nat.mod_eq_of_lt hsmall]
    simp
  · rw [Nat.toDigits_of_base_le (by decide) (Nat.le_of_not_lt hsmall),
      Nat.toDigits_of_lt_base (by omega)]
    simp

theorem toList_hexOfBytes_cons (byte : UInt8) (bytes : List UInt8) :
    (hexOfBytes (byte :: bytes)).toList =
      (byte.toNat / 16).digitChar :: (byte.toNat % 16).digitChar :: (hexOfBytes bytes).toList := by
  rw [hexOfBytes, List.map_cons, String.join_cons, String.toList_append,
    toList_hexLower_two byte.toNat_lt]
  rfl

theorem hexPairs_hexOfBytes (bytes : List UInt8) :
    HexPairs signs (hexOfBytes bytes).toList bytes := by
  induction bytes with
  | nil => exact .nil
  | cons byte bytes ih =>
      have hbyte : byte = UInt8.ofNat (byte.toNat / 16 * 16 + byte.toNat % 16) := by
        rw [Nat.div_add_mod', UInt8.ofNat_toNat]
      have hlt := byte.toNat_lt
      have hhigh := hexDigit?_digitChar (byte.toNat / 16) (by omega)
      have hlow := hexDigit?_digitChar (byte.toNat % 16) (by omega)
      have hpair : HexPairs signs _ (UInt8.ofNat _ :: bytes) := .pair (.inl hhigh) hlow ih
      rwa [← hbyte, ← toList_hexOfBytes_cons] at hpair

theorem digitChar_of_mem_hexOfBytes {c : Char} (h : c ∈ (hexOfBytes bytes).toList) :
    ∃ value < 16, c = Nat.digitChar value := by
  induction bytes with
  | nil => exact nomatch h
  | cons byte bytes ih =>
      have hlt := byte.toNat_lt
      rw [toList_hexOfBytes_cons, List.mem_cons, List.mem_cons] at h
      obtain h | h | h := h
      · exact ⟨_, by omega, h⟩
      · exact ⟨_, by omega, h⟩
      · exact ih h

end CliMeta
