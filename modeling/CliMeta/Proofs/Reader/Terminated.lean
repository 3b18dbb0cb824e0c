import CliMeta.Proofs.Reader.Inversion

/-!
Text up to a zero byte, by the place where it stands. A search for a zero byte stops at a place
exactly if what stands in front of it, up to where the search began, has none.
-/

namespace CliMeta.Bytes

open Reader

variable {b : Bytes} {place stop : Nat} {name : List UInt8}

/-- A text and the zero byte behind it stand together. -/
theorem standsAt_cons {rest : List UInt8} (h : place < b.size)
    (hrest : StandsAt b (place + 1) name rest) : StandsAt b place (b[place] :: name) rest := by
  have hlist : place < b.toList.length := by rwa [Array.length_toList]
  refine ⟨Nat.le_of_lt h, ?_⟩
  rw [List.drop_eq_getElem_cons hlist, hrest.2, Array.getElem_toList, List.cons_append]

theorem nulFrom?_eq_some {position : Nat} :
    b.nulFrom? position = some stop ↔
      position ≤ stop ∧ b[stop]? = some 0 ∧ ∀ k, position ≤ k → k < stop → b[k]? ≠ some 0 := by
  fun_induction nulFrom? b position with
  | case1 position inside hzero =>
      constructor
      · intro h
        cases h
        exact ⟨Nat.le_refl _, by simp [inside, hzero], fun k _ _ => by omega⟩
      · rintro ⟨hle, -, hnone⟩
        rcases Nat.lt_or_eq_of_le hle with hlt | rfl
        · exact absurd (by simp [inside, hzero]) (hnone position (Nat.le_refl _) hlt)
        · rfl
  | case2 position inside hother ih =>
      rw [ih]
      constructor
      · rintro ⟨hle, hzero, hnone⟩
        refine ⟨by omega, hzero, fun k hk hstop => ?_⟩
        rcases Nat.lt_or_eq_of_le hk with hlt | rfl
        · exact hnone k hlt hstop
        · simp [inside, hother]
      · rintro ⟨hle, hzero, hnone⟩
        rcases Nat.lt_or_eq_of_le hle with hlt | rfl
        · exact ⟨hlt, hzero, fun k hk => hnone k (by omega)⟩
        · simp [inside, hother] at hzero
  | case3 position outside =>
      constructor
      · intro h
        cases h
      · rintro ⟨hle, hzero, -⟩
        obtain ⟨hstop, -⟩ := Array.getElem?_eq_some_iff.1 hzero
        omega

/-- The search stops behind a text without a zero byte. -/
theorem nulFrom?_eq_some_iff :
    b.nulFrom? place = some stop ↔
      ∃ name, 0 ∉ name ∧ stop = place + name.length ∧
        StandsAt b place (name ++ [0]) (b.toList.drop (stop + 1)) := by
  rw [nulFrom?_eq_some]
  constructor
  · rintro ⟨hle, hzero, hnone⟩
    obtain ⟨hinside, hbyte⟩ := Array.getElem?_eq_some_iff.1 hzero
    have hcount : place + (stop - place) = stop := by omega
    have hname : StandsAt b place ((b.toList.drop place).take (stop - place))
        (b.toList.drop (place + (stop - place))) := .of_drop (by omega)
    have hlength : ((b.toList.drop place).take (stop - place)).length = stop - place := by
      rw [List.length_take, List.length_drop, Array.length_toList]
      omega
    have hlast : StandsAt b stop [0] (b.toList.drop (stop + 1)) := by
      rw [← hbyte]
      exact standsAt_cons hinside (.nil hinside)
    refine ⟨_, fun hmem => ?_, by rw [hlength, hcount], ?_⟩
    · obtain ⟨k, hk, hvalue⟩ := List.mem_iff_getElem.1 hmem
      rw [hlength] at hk
      refine hnone (place + k) (by omega) (by omega) ?_
      rw [List.getElem_take, List.getElem_drop, Array.getElem_toList] at hvalue
      exact Array.getElem?_eq_some_iff.2 ⟨by omega, hvalue⟩
    · refine .append ?_ ?_
      · rwa [hlength]
      · rwa [hlength, hcount]
  · rintro ⟨name, hname, rfl, hstands⟩
    refine ⟨Nat.le_add_right .., hstands.behind.getElem?, fun k hle hlt hzero => ?_⟩
    obtain ⟨i, rfl⟩ := Nat.exists_eq_add_of_le hle
    have hi : i < name.length := by omega
    rw [hstands.getElem?_add, List.append_assoc, List.getElem?_append_left hi] at hzero
    exact hname (List.mem_of_getElem? hzero)

/-- A text that ends is what stands in front of the first zero byte. -/
theorem untilNul_eq_ended :
    b.untilNul = (name.toArray, true) ↔ 0 ∉ name ∧ ∃ rest, b.toList = name ++ 0 :: rest := by
  constructor
  · intro h
    rw [untilNul] at h
    split at h
    next stop hstop =>
      obtain ⟨front, hfront, rfl, hstands⟩ := nulFrom?_eq_some_iff.1 hstop
      have hname := (Prod.mk.inj h).1
      rw [extract_of_standsAt hstands.front] at hname
      obtain rfl : front = name := List.toArray_inj hname
      exact ⟨hfront, _, by simpa using hstands.2⟩
    next => cases h
  · rintro ⟨hname, rest, hb⟩
    have hstop : b.nulFrom? 0 = some name.length := nulFrom?_eq_some_iff.2
      ⟨name, hname, (Nat.zero_add _).symm, Nat.zero_le _, by simp [hb]⟩
    have hfront : StandsAt b 0 name (0 :: rest) := ⟨Nat.zero_le _, hb⟩
    have hextract := extract_of_standsAt hfront
    rw [Nat.zero_add] at hextract
    rw [untilNul, hstop]
    simp only [hextract]

/-- A text without a zero byte is found up to the one behind it, or else to its end. -/
theorem untilNul_fst {padding : List UInt8} (hname : 0 ∉ name) (hpadding : ∀ x ∈ padding, x = 0) :
    (untilNul (name ++ padding).toArray).1 = name.toArray := by
  cases padding with
  | nil =>
      rw [List.append_nil, untilNul]
      cases hstop : nulFrom? name.toArray 0 with
      | none => rfl
      | some stop =>
          obtain ⟨-, hzero, -⟩ := nulFrom?_eq_some.1 hstop
          exact absurd (List.mem_of_getElem? (by simpa using hzero)) hname
  | cons x padding =>
      obtain rfl := hpadding x List.mem_cons_self
      rw [untilNul_eq_ended.2 ⟨hname, padding, rfl⟩]

end CliMeta.Bytes
