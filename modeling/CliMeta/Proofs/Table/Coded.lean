import CliMeta.Table.Reference

/-!
Coded references as exact numbers. A reference whose table belongs to its category has one number
that stands for it, and every number that is decoded stands, up to the tag of a null reference, for
what it is decoded to.
-/

namespace CliMeta

namespace CodedCategory

variable {c : CodedCategory} {table : TableId} {tag : Nat}

theorem member?_of_tag? (h : c.tag? table = some tag) :
    c.member? tag = some table ∧ tag < 1 <<< c.tagBits := by
  obtain ⟨hlt, hfound, -⟩ := List.findIdx?_eq_some_iff_getElem.1 h
  have hmember : c.members[tag] = some table := by simpa using hfound
  constructor
  · rw [member?, List.getElem?_eq_getElem hlt, hmember]
    rfl
  · exact Nat.lt_of_lt_of_le hlt c.members_length_le

theorem members_length_le_22 (c : CodedCategory) : c.members.length ≤ 22 := by
  cases c <;> decide

theorem tagBits_le (c : CodedCategory) : c.tagBits ≤ 5 := by
  cases c <;> decide

theorem tag?_of_member? (h : c.member? tag = some table) : c.tag? table = some tag := by
  have hbound : tag < 22 := by
    obtain hlt | hge := Nat.lt_or_ge tag c.members.length
    · exact Nat.lt_of_lt_of_le hlt c.members_length_le_22
    · simp [member?, List.getElem?_eq_none hge] at h
  -- so few tags, and no table comes twice among the members
  have hall : ∀ tag < 22, ∀ table ∈ c.member? tag, c.tag? table = some tag := by
    cases c <;> decide +kernel
  exact hall tag hbound table h

end CodedCategory

/-- The exact number of a reference whose table belongs to the category. -/
def RowReference.raw? (r : RowReference) : Option Nat :=
  match r.target with
  | none => some 0
  | some row =>
      (r.category.tag? row.table).map fun tag => (row.index + 1) <<< r.category.tagBits + tag

namespace CodedCategory

/-- The two parts of a number whose low bits hold a tag. -/
theorem split_parts {bits tag : Nat} (row : Nat) (h : tag < 1 <<< bits) :
    (row <<< bits + tag) % (1 <<< bits) = tag ∧ (row <<< bits + tag) >>> bits = row := by
  rw [Nat.shiftRight_eq_div_pow, Nat.shiftLeft_eq]
  rw [Nat.one_shiftLeft] at h ⊢
  constructor
  · rw [Nat.mul_add_mod_of_lt h]
  · rw [Nat.mul_comm, Nat.mul_add_div (Nat.two_pow_pos bits), Nat.div_eq_of_lt h, Nat.add_zero]

theorem join_parts (bits raw : Nat) :
    (raw >>> bits) <<< bits + raw % (1 <<< bits) = raw := by
  rw [Nat.shiftRight_eq_div_pow, Nat.shiftLeft_eq, Nat.one_shiftLeft, Nat.mul_comm]
  exact Nat.div_add_mod raw (2 ^ bits)

theorem decode_raw {r : RowReference} {raw : Nat} (h : r.raw? = some raw) :
    r.category.decode raw = .ok r := by
  obtain ⟨c, target⟩ := r
  cases target with
  | none =>
      obtain rfl : 0 = raw := Option.some.inj h
      exact c.decode_null (Nat.zero_shiftRight _)
  | some row =>
      obtain ⟨tag, htag, rfl⟩ := Option.map_eq_some_iff.1 h
      obtain ⟨hmember, hlt⟩ := member?_of_tag? htag
      obtain ⟨hlow, hhigh⟩ := split_parts (row.index + 1) hlt
      simp only [decode, hlow, hhigh, hmember, Nat.add_one_ne_zero, if_false, Nat.add_sub_cancel]

theorem raw?_of_decode {c : CodedCategory} {raw : Nat} {r : RowReference}
    (h : c.decode raw = .ok r) :
    r.category = c ∧ ∃ exact, r.raw? = some exact ∧ exact ≤ raw := by
  unfold decode at h
  by_cases hrow : raw >>> c.tagBits = 0
  · simp only [hrow, if_true, Except.ok.injEq] at h
    subst h
    exact ⟨rfl, 0, rfl, Nat.zero_le _⟩
  · simp only [hrow, if_false] at h
    cases hmember : c.member? (raw % (1 <<< c.tagBits)) with
    | none => simp [hmember] at h
    | some table =>
        simp only [hmember, Except.ok.injEq] at h
        subst h
        refine ⟨rfl, raw, ?_, Nat.le_refl _⟩
        simp only [RowReference.raw?, tag?_of_member? hmember, Option.map_some,
          Nat.sub_add_cancel (Nat.pos_of_ne_zero hrow), join_parts]

end CodedCategory

end CliMeta
