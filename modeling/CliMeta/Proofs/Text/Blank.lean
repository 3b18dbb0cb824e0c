import CliMeta.Text.Blank
import Mathlib.Data.List.DropRight

/-!
Texts that are cut at a separator and trimmed. The parts of a text are the ones that make it up with
the separator between them and do not contain it. A text is its own trim if it has no blank at
either end, so trimming twice is trimming once, and a part that is put together from trimmed texts
comes back as it was.
-/

namespace CliMeta

variable {text front back : List Char} {separator : Char}

/-! ### Trimming -/

theorem trimBlanks_isPrefix (text : List Char) : trimBlanks text <+: text.dropWhile isBlank :=
  List.rdropWhile_prefix isBlank _

theorem mem_of_mem_trimBlanks {c : Char} (h : c ∈ trimBlanks text) : c ∈ text :=
  (List.dropWhile_suffix isBlank).mem ((trimBlanks_isPrefix text).mem h)

/-- What is not blank is not lost. -/
theorem mem_trimBlanks_iff {c : Char} (h : isBlank c = false) :
    c ∈ trimBlanks text ↔ c ∈ text := by
  have hdrop (text : List Char) : c ∈ text.dropWhile isBlank ↔ c ∈ text := by
    induction text with
    | nil => rfl
    | cons d text ih =>
        rw [List.dropWhile_cons]
        split
        · rename_i hd
          have hne : c ≠ d := by
            rintro rfl
            rw [h] at hd
            cases hd
          simp [ih, hne]
        · rfl
  rw [trimBlanks, List.mem_reverse, hdrop, List.mem_reverse, hdrop]

theorem trimBlanks_eq_self_iff :
    trimBlanks text = text ↔
      ∀ h : text ≠ [], isBlank (text.head h) = false ∧ isBlank (text.getLast h) = false := by
  constructor
  · intro htrim hne
    -- nothing is lost at the front, so nothing is lost at the end either
    have hdrop : text.dropWhile isBlank = text := by
      refine (List.dropWhile_suffix isBlank).eq_of_length_le ?_
      exact (congrArg List.length htrim).symm.le.trans (trimBlanks_isPrefix text).length_le
    have hhead := List.head_dropWhile_not isBlank (hdrop ▸ hne)
    have hlast : text.rdropWhile isBlank = text := by
      rwa [trimBlanks, hdrop] at htrim
    refine ⟨by simpa only [hdrop] using hhead, ?_⟩
    exact eq_false_of_ne_true (List.rdropWhile_eq_self_iff.1 hlast hne)
  · intro h
    have hdrop : text.dropWhile isBlank = text := by
      refine List.dropWhile_eq_self_iff.2 fun hpos => ?_
      have hhead := (h (List.ne_nil_of_length_pos hpos)).1
      rwa [List.head_eq_getElem, ← Bool.not_eq_true] at hhead
    rw [trimBlanks, hdrop]
    exact List.rdropWhile_eq_self_iff.2 fun hne => Bool.not_eq_true _ ▸ (h hne).2

theorem trimBlanks_trimBlanks (text : List Char) :
    trimBlanks (trimBlanks text) = trimBlanks text := by
  refine trimBlanks_eq_self_iff.2 fun h => ⟨?_, ?_⟩
  · rw [(trimBlanks_isPrefix text).head h]
    exact List.head_dropWhile_not isBlank _
  · exact eq_false_of_ne_true (List.rdropWhile_last_not isBlank _ h)

theorem trimBlanks_of_forall (h : ∀ c ∈ text, isBlank c = false) : trimBlanks text = text :=
  trimBlanks_eq_self_iff.2 fun _ => ⟨h _ (List.head_mem _), h _ (List.getLast_mem _)⟩

/-- Trimmed texts of which the first is not empty are trimmed together. -/
theorem trimBlanks_append (hne : front ≠ []) (hfront : trimBlanks front = front)
    (hback : trimBlanks back = back) : trimBlanks (front ++ back) = front ++ back := by
  have hends := trimBlanks_eq_self_iff.1 hfront hne
  refine trimBlanks_eq_self_iff.2 fun h => ⟨?_, ?_⟩
  · rw [List.head_append_of_ne_nil hne]
    exact hends.1
  · by_cases hnil : back = []
    · subst hnil
      simpa only [List.append_nil] using hends.2
    · rw [List.getLast_append_of_ne_nil _ hnil]
      exact (trimBlanks_eq_self_iff.1 hback hnil).2

theorem trimBlanks_cons {c : Char} (h : isBlank c = true) :
    trimBlanks (c :: text) = trimBlanks text := by
  rw [trimBlanks, List.dropWhile_cons_of_pos h, trimBlanks]

/-! ### Parts -/

theorem splitParts_eq_splitOn (separator : Char) (text : List Char) :
    splitParts separator text = text.splitOn separator := by
  induction text with
  | nil => rfl
  | cons c rest ih =>
      rw [splitParts, List.splitOn_cons_eq_if_modifyHead, ih]
      simp only [beq_iff_eq]
      refine if_congr Iff.rfl rfl ?_
      cases hparts : rest.splitOn separator with
      | nil => exact absurd hparts (List.splitOn_ne_nil separator rest)
      | cons part parts => rfl

theorem splitParts_intercalate {parts : List (List Char)} (h : ∀ part ∈ parts, separator ∉ part)
    (hne : parts ≠ []) : splitParts separator ([separator].intercalate parts) = parts := by
  rw [splitParts_eq_splitOn]
  exact List.splitOn_intercalate separator h hne

theorem exists_mem_splitParts_iff {c : Char} (h : c ≠ separator) :
    (∃ part ∈ splitParts separator text, c ∈ part) ↔ c ∈ text := by
  induction text with
  | nil => simp [splitParts]
  | cons d rest ih =>
      rw [splitParts]
      split
      · rename_i hd
        subst hd
        simp [ih, h]
      · cases hparts : splitParts separator rest with
        | nil => exact absurd hparts (splitParts_ne_nil separator rest)
        | cons first parts =>
            rw [hparts, List.exists_mem_cons_iff] at ih
            rw [List.exists_mem_cons_iff, List.mem_cons, List.mem_cons, ← ih, or_assoc]

theorem not_mem_of_mem_splitParts {part : List Char} (h : part ∈ splitParts separator text) :
    separator ∉ part := by
  induction text generalizing part with
  | nil =>
      rw [List.mem_singleton.1 h]
      exact List.not_mem_nil
  | cons c rest ih =>
      rw [splitParts] at h
      split at h
      · obtain rfl | h := List.mem_cons.1 h
        · exact List.not_mem_nil
        · exact ih h
      · rename_i hc
        cases hparts : splitParts separator rest with
        | nil => exact absurd hparts (splitParts_ne_nil separator rest)
        | cons first parts =>
            rw [hparts] at h ih
            obtain rfl | h := List.mem_cons.1 h
            · exact List.not_mem_cons_of_ne_of_not_mem (Ne.symm hc) (ih List.mem_cons_self)
            · exact ih (List.mem_cons_of_mem first h)

/-- A text with the separator in it is cut at the first one. -/
theorem splitFirst_eq_some_iff {before after : List Char} :
    splitFirst separator text = some (before, after) ↔
      separator ∉ before ∧ text = before ++ separator :: after := by
  induction text generalizing before with
  | nil => simp [splitFirst]
  | cons c rest ih =>
      rw [splitFirst]
      split
      · rename_i hc
        subst hc
        cases before with
        | nil => simp
        | cons d before => grind
      · rename_i hc
        cases before with
        | nil => simp [hc]
        | cons d before =>
            simp only [Option.map_eq_some_iff, Prod.mk.injEq, Prod.exists, List.cons.injEq,
              List.mem_cons, not_or, List.cons_append]
            grind

theorem splitFirst_eq_none_iff : splitFirst separator text = none ↔ separator ∉ text := by
  induction text with
  | nil => simp [splitFirst]
  | cons c rest ih =>
      rw [splitFirst]
      split
      · rename_i hc
        simp [hc]
      · rename_i hc
        simp [ih, Ne.symm hc]

end CliMeta
