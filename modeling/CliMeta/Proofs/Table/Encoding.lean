import CliMeta.Proofs.Table.Coded
import Mathlib.Algebra.Group.Nat.Defs
import Mathlib.Data.List.Basic
import Mathlib.Order.Basic

/-!
Encoding and decoding of coded references. A tag is found by searching the members of a category
and undone by looking the place up; the row is put above it. Within 32 bits each of the two undoes
the other, so a reference to a row and its number determine each other in every category, whatever
tags the category leaves out.
-/

namespace CliMeta

namespace CodedCategory

variable {c : CodedCategory} {table : TableId} {tag row raw : Nat}

/-! ### Members and tags -/

/-- The table has this place among the members. -/
def HasTag (c : CodedCategory) (table : TableId) (tag : Nat) : Prop :=
  c.members[tag]? = some (some table)

instance (c : CodedCategory) (table : TableId) (tag : Nat) : Decidable (c.HasTag table tag) :=
  inferInstanceAs (Decidable (_ = _))

theorem member?_eq_some_iff : c.member? tag = some table ↔ c.HasTag table tag := by
  rw [member?, Option.join_eq_some_iff, HasTag]

theorem tag?_eq_some_iff : c.tag? table = some tag ↔ c.HasTag table tag := by
  rw [← member?_eq_some_iff]
  exact ⟨fun h => (member?_of_tag? h).1, tag?_of_member?⟩

theorem HasTag.lt (h : c.HasTag table tag) : tag < 2 ^ c.tagBits := by
  rw [← Nat.one_shiftLeft]
  exact (member?_of_tag? (tag?_eq_some_iff.2 h)).2

theorem mem_tables_iff : table ∈ c.tables ↔ ∃ tag, c.HasTag table tag := by
  simp only [tables, HasTag, List.mem_filterMap, id_eq, exists_eq_right]
  exact List.mem_iff_getElem?

theorem tag?_eq_none_iff : c.tag? table = none ↔ table ∉ c.tables := by
  rw [mem_tables_iff, Option.eq_none_iff_forall_ne_some]
  simp only [ne_eq, tag?_eq_some_iff, not_exists]

/-! ### Encoding -/

theorem encode?_of_hasTag (h : c.HasTag table tag) (row : Nat) :
    c.encode? table row = some ((row <<< c.tagBits) % 2 ^ 32 + tag) := by
  rw [encode?, tag?_eq_some_iff.2 h]
  rfl

theorem encode?_eq_none_iff : c.encode? table row = none ↔ table ∉ c.tables := by
  rw [encode?, Option.map_eq_none_iff, tag?_eq_none_iff]

/-- A word is a tag with the bits that are left for the row. -/
theorem word_eq (c : CodedCategory) : 2 ^ 32 = 2 ^ (32 - c.tagBits) * 2 ^ c.tagBits := by
  have hbits := c.tagBits_le
  rw [← Nat.pow_add, Nat.sub_add_cancel (by omega)]

theorem shiftLeft_lt (h : row < 2 ^ (32 - c.tagBits)) : row <<< c.tagBits < 2 ^ 32 := by
  calc
    row <<< c.tagBits = row * 2 ^ c.tagBits := Nat.shiftLeft_eq ..
    _ < 2 ^ (32 - c.tagBits) * 2 ^ c.tagBits :=
      Nat.mul_lt_mul_of_pos_right h (Nat.two_pow_pos _)
    _ = 2 ^ 32 := c.word_eq.symm

/-- Whatever bits of the row are lost, the result is a word: the tag stays below the row. -/
theorem encode?_lt (h : c.encode? table row = some raw) : raw < 2 ^ 32 := by
  obtain ⟨tag, htag, rfl⟩ := Option.map_eq_some_iff.1 h
  have hlt := (tag?_eq_some_iff.1 htag).lt
  have hword := c.word_eq
  have hrow : row % 2 ^ (32 - c.tagBits) + 1 ≤ 2 ^ (32 - c.tagBits) :=
    Nat.mod_lt _ (Nat.two_pow_pos _)
  calc
    (row <<< c.tagBits) % 2 ^ 32 + tag
        = row % 2 ^ (32 - c.tagBits) * 2 ^ c.tagBits + tag := by
      rw [Nat.shiftLeft_eq, hword, Nat.mul_mod_mul_right]
    _ < row % 2 ^ (32 - c.tagBits) * 2 ^ c.tagBits + 2 ^ c.tagBits := Nat.add_lt_add_left hlt _
    _ = (row % 2 ^ (32 - c.tagBits) + 1) * 2 ^ c.tagBits := (Nat.succ_mul _ _).symm
    _ ≤ 2 ^ 32 := by
      rw [hword]
      exact Nat.mul_le_mul_right _ hrow

theorem encode?_eq_raw? (h : row < 2 ^ (32 - c.tagBits)) (hrow : 1 ≤ row) :
    c.encode? table row = RowReference.raw? ⟨c, some ⟨table, row - 1⟩⟩ := by
  have hkept : (row <<< c.tagBits) % 0x100000000 = row <<< c.tagBits :=
    Nat.mod_eq_of_lt (shiftLeft_lt h)
  simp only [encode?, RowReference.raw?, hkept, Nat.sub_add_cancel hrow]

/-! ### Decoding -/

/-- What is decoded to a row has the tag of its table and the row above it. -/
theorem target_of_decode {r : RowReference} {target : RowId} (h : c.decode raw = .ok r)
    (htarget : r.target = some target) :
    r.category = c ∧ raw >>> c.tagBits = target.index + 1 ∧
      c.HasTag target.table (raw % 2 ^ c.tagBits) := by
  rw [decode, Nat.one_shiftLeft] at h
  split at h
  case isTrue =>
    cases h
    cases htarget
  case isFalse hrow =>
    split at h
    case h_1 table hmember =>
      cases h
      cases htarget
      have hback := Nat.sub_add_cancel (Nat.pos_of_ne_zero hrow)
      exact ⟨rfl, hback.symm, member?_eq_some_iff.1 hmember⟩
    case h_2 => cases h

theorem decode_null_iff :
    (∃ r, c.decode raw = .ok r ∧ r.isNull = true) ↔ raw >>> c.tagBits = 0 := by
  constructor
  · rintro ⟨r, h, hnull⟩
    by_contra hrow
    rw [decode] at h
    simp only [hrow, if_false] at h
    split at h <;> cases h
    cases hnull
  · intro hrow
    exact ⟨.null c, c.decode_null hrow, rfl⟩

theorem decode_error_iff {e : Error} :
    c.decode raw = .error e ↔ raw >>> c.tagBits ≠ 0 ∧
      (∀ table, ¬c.HasTag table (raw % 2 ^ c.tagBits)) ∧
      e = .unknownCodedTag c (raw % 2 ^ c.tagBits) := by
  have hunknown : (∀ table, ¬c.HasTag table (raw % 2 ^ c.tagBits)) ↔
      c.member? (raw % 2 ^ c.tagBits) = none := by
    simp only [← member?_eq_some_iff, Option.eq_none_iff_forall_ne_some, ne_eq]
  rw [hunknown, decode, Nat.one_shiftLeft]
  by_cases hrow : raw >>> c.tagBits = 0
  · simp [hrow]
  · cases hmember : c.member? (raw % 2 ^ c.tagBits) with
    | none => simp [hrow, eq_comm]
    | some table => simp [hrow]

/-! ### Both ways -/

/-- Encoding and decoding undo each other, and each of them fails where it has to and nowhere
else. -/
structure EncodesExactly (c : CodedCategory) : Prop where
  decode_encode : ∀ table ∈ c.tables, ∀ row, 1 ≤ row → row < 2 ^ (32 - c.tagBits) →
    ∃ raw < 2 ^ 32, c.encode? table row = some raw ∧
      c.decode raw = .ok ⟨c, some ⟨table, row - 1⟩⟩
  encode_decode : ∀ raw < 2 ^ 32, ∀ (r : RowReference) (target : RowId),
    c.decode raw = .ok r → r.target = some target →
      r.category = c ∧ c.encode? target.table (target.index + 1) = some raw
  null_iff : ∀ raw < 2 ^ 32,
    (∃ r, c.decode raw = .ok r ∧ r.isNull = true) ↔ raw >>> c.tagBits = 0
  error_iff : ∀ raw < 2 ^ 32, ∀ e, c.decode raw = .error e ↔ raw >>> c.tagBits ≠ 0 ∧
    (∀ table, ¬c.HasTag table (raw % 2 ^ c.tagBits)) ∧
    e = .unknownCodedTag c (raw % 2 ^ c.tagBits)
  none_iff : ∀ table row, c.encode? table row = none ↔ table ∉ c.tables

/-- In every category a reference to a row and its number determine each other. -/
theorem references_encodeExactly (c : CodedCategory) : c.EncodesExactly where
  decode_encode table htable row hpos hrow := by
    obtain ⟨tag, htag⟩ := mem_tables_iff.1 htable
    have hencode := encode?_of_hasTag htag row
    refine ⟨_, encode?_lt hencode, hencode, ?_⟩
    rw [encode?_eq_raw? hrow hpos] at hencode
    exact decode_raw hencode
  encode_decode raw hraw r target h htarget := by
    obtain ⟨hcategory, hrow, htag⟩ := target_of_decode h htarget
    have hjoin := join_parts c.tagBits raw
    rw [Nat.one_shiftLeft] at hjoin
    refine ⟨hcategory, ?_⟩
    rw [encode?_of_hasTag htag, ← hrow, Nat.mod_eq_of_lt (by omega), hjoin]
  null_iff raw _ := decode_null_iff
  error_iff raw _ e := decode_error_iff
  none_iff table row := encode?_eq_none_iff

/-- The last row that fits, no row, a tag without a table and a table without a tag. -/
theorem references_encodeExactly_lastMember :
    (∃ raw < 2 ^ 32, customAttributeType.encode? .memberRef 0x1FFFFFFF = some raw ∧
      customAttributeType.decode raw =
        .ok ⟨.customAttributeType, some ⟨.memberRef, 0x1FFFFFFE⟩⟩) ∧
    customAttributeType.encode? .memberRef 0x1FFFFFFF = some 0xFFFFFFFB ∧
    (∃ r, customAttributeType.decode 3 = .ok r ∧ r.isNull = true) ∧
    customAttributeType.decode 8 = .error (.unknownCodedTag .customAttributeType 0) ∧
    customAttributeType.encode? .field 1 = none := by
  have hexact := references_encodeExactly .customAttributeType
  refine ⟨hexact.decode_encode .memberRef (by decide) 0x1FFFFFFF (by decide) (by decide),
    ?_, (hexact.null_iff 3 (by decide)).2 (by decide), ?_,
    (hexact.none_iff .field 1).2 (by decide)⟩
  · have hdecode : customAttributeType.decode 0xFFFFFFFB =
        .ok ⟨.customAttributeType, some ⟨.memberRef, 0x1FFFFFFE⟩⟩ := by decide
    exact (hexact.encode_decode 0xFFFFFFFB (by decide) _ _ hdecode rfl).2
  · refine (hexact.error_iff 8 (by decide) _).2 ⟨by decide, fun table htag => ?_, rfl⟩
    rw [← member?_eq_some_iff] at htag
    cases htag

end CodedCategory

end CliMeta
