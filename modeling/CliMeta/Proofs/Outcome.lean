import CliMeta.Error
import Mathlib.Data.List.Forall2

/-!
Outcomes of steps that are taken one after another over a list. If all of them succeed, there is a
value for each item, and an error is the error of one of the steps.
-/

namespace CliMeta

variable {α β γ : Type}

theorem map_eq_error_iff {outcome : Except Error α} {f : α → β} {e : Error} :
    outcome.map f = .error e ↔ outcome = .error e := by
  cases outcome with
  | error e' => simp [Except.map]
  | ok a => simp [Except.map]

theorem mapM_eq_ok_iff {f : α → Except Error β} {items : List α} {values : List β} :
    items.mapM f = .ok values ↔
      List.Forall₂ (fun item value => f item = .ok value) items values := by
  induction items generalizing values with
  | nil => simp [pure, Except.pure, eq_comm]
  | cons item items ih =>
      rw [List.mapM_cons, List.forall₂_cons_left_iff]
      simp only [← ih]
      cases hitem : f item with
      | error e => simp [bind, Except.bind]
      | ok value =>
          cases hitems : items.mapM f with
          | error e => simp [bind, Except.bind]
          | ok others => simp [bind, Except.bind, pure, Except.pure, eq_comm]

theorem exists_of_mapM_error {f : α → Except Error β} {items : List α} {e : Error}
    (h : items.mapM f = .error e) : ∃ item ∈ items, f item = .error e := by
  induction items with
  | nil => cases h
  | cons item items ih =>
      rw [List.mapM_cons] at h
      cases hitem : f item with
      | error e' =>
          rw [hitem] at h
          cases h
          exact ⟨item, List.mem_cons_self, hitem⟩
      | ok value =>
          rw [hitem] at h
          cases hitems : items.mapM f with
          | error e' =>
              rw [hitems] at h
              cases h
              obtain ⟨other, hother, herror⟩ := ih hitems
              exact ⟨other, List.mem_cons_of_mem item hother, herror⟩
          | ok others =>
              rw [hitems] at h
              cases h

theorem exists_of_foldlM_error {f : γ → α → Except Error γ} {items : List α} {c : γ} {e : Error}
    (h : items.foldlM f c = .error e) : ∃ c', ∃ item ∈ items, f c' item = .error e := by
  induction items generalizing c with
  | nil => cases h
  | cons item items ih =>
      rw [List.foldlM_cons] at h
      cases hitem : f c item with
      | error e' =>
          rw [hitem] at h
          cases h
          exact ⟨c, item, List.mem_cons_self, hitem⟩
      | ok c' =>
          rw [hitem] at h
          obtain ⟨last, other, hother, herror⟩ := ih h
          exact ⟨last, other, List.mem_cons_of_mem item hother, herror⟩

end CliMeta
