import CliMeta.Bytes
import CliMeta.Entries
import CliMeta.Error
import Mathlib.Algebra.Group.Int.Defs
import Mathlib.Algebra.Group.Nat.Defs

/-!
Computing with machine words. Numbers of a machine have a width and are never negative, indices have
to be inside, and divisors must not be zero; an operation for which this does not hold ends in a
trap. A checked computation comes to a value, to an error that it returns, or to a trap. It agrees
with an outcome over the natural numbers if it comes to the same value or error, so one that agrees
with any outcome at all goes through no trap.
-/

namespace CliMeta.Machine

variable {α β : Type}

/-- What an operation is refused for. -/
inductive Trap where
  /-- The result is no number of its width. -/
  | overflow
  /-- An index or the end of a slice is not inside. -/
  | outOfRange
  | zeroDivisor
  /-- The lower bound of a clamp is above the upper one. -/
  | crossedBounds
  deriving DecidableEq, Repr

/-- How a computation ends without a value. -/
inductive Stop where
  | error (e : Error)
  | trap (t : Trap)
  deriving DecidableEq, Repr

abbrev Checked := Except Stop

def fail (e : Error) : Checked α := .error (.error e)

def trap (t : Trap) : Checked α := .error (.trap t)

/-- An outcome over the natural numbers as one of the machine. -/
def lift : Except Error α → Checked α
  | .ok a => .ok a
  | .error e => fail e

@[simp] theorem lift_ok (a : α) : lift (.ok a) = .ok a := rfl

@[simp] theorem lift_error (e : Error) : (lift (.error e) : Checked α) = fail e := rfl

@[simp] theorem ok_bind (a : α) (f : α → Checked β) : (Except.ok a >>= f) = f a := rfl

theorem lift_map (f : α → β) (outcome : Except Error α) :
    lift (outcome.map f) = (lift outcome).map f := by
  cases outcome <;> rfl

/-- Steps that agree one by one agree one after the other. The second step has to agree only for
the value that the first one comes to. -/
theorem bind_agrees {m : Checked α} {outcome : Except Error α} {f : α → Checked β}
    {g : α → Except Error β} (hm : m = lift outcome)
    (hf : ∀ a, outcome = .ok a → f a = lift (g a)) : m >>= f = lift (outcome >>= g) := by
  subst hm
  cases outcome with
  | ok a => exact hf a rfl
  | error e => rfl

theorem map_agrees {m : Checked α} {outcome : Except Error α} (hm : m = lift outcome)
    (f : α → β) : m.map f = lift (outcome.map f) := by
  rw [hm, lift_map]

theorem ite_agrees {p : Prop} [Decidable p] {m m' : Checked α} {outcome outcome' : Except Error α}
    (hthen : p → m = lift outcome) (helse : ¬p → m' = lift outcome') :
    (if p then m else m') = lift (if p then outcome else outcome') := by
  by_cases hp : p
  · rw [if_pos hp, if_pos hp, hthen hp]
  · rw [if_neg hp, if_neg hp, helse hp]

/-! ### Operations

Each is followed by the condition under which it is not trapped. -/

/-- A number that has to fit a width. -/
def ofWidth (bits value : Nat) : Checked Nat :=
  if value < 2 ^ bits then .ok value else trap .overflow

def add (bits a b : Nat) : Checked Nat := ofWidth bits (a + b)

def mul (bits a b : Nat) : Checked Nat := ofWidth bits (a * b)

def sub (a b : Nat) : Checked Nat :=
  if b ≤ a then .ok (a - b) else trap .overflow

/-- The sum of two signed numbers. -/
def addSigned (bits : Nat) (a b : Int) : Checked Int :=
  if -2 ^ (bits - 1) ≤ a + b ∧ a + b < 2 ^ (bits - 1) then .ok (a + b) else trap .overflow

def quotient (a b : Nat) : Checked Nat :=
  if b = 0 then trap .zeroDivisor else .ok (a / b)

def remainder (a b : Nat) : Checked Nat :=
  if b = 0 then trap .zeroDivisor else .ok (a % b)

/-- The bits that leave the width are lost, but the amount has to be below the width. -/
def shiftLeft (bits value amount : Nat) : Checked Nat :=
  if amount < bits then .ok ((value <<< amount) % 2 ^ bits) else trap .overflow

def shiftRight (bits value amount : Nat) : Checked Nat :=
  if amount < bits then .ok (value >>> amount) else trap .overflow

def clamp (value low high : Nat) : Checked Nat :=
  if low ≤ high then .ok (min (max value low) high) else trap .crossedBounds

/-- Passes if an index is inside so many places. -/
def checkIndex (places index : Nat) : Checked Unit :=
  if index < places then .ok () else trap .outOfRange

/-- The element of a list at an index. -/
def elementAt (elements : List α) (index : Nat) : Checked α :=
  match elements[index]? with
  | some a => .ok a
  | none => trap .outOfRange

/-- The byte of a buffer at an index. -/
def byteAt (data : Bytes) (index : Nat) : Checked Nat := do
  checkIndex data.size index
  return data.byteAt index

def slice (data : Bytes) (start stop : Nat) : Checked Bytes :=
  if start ≤ stop ∧ stop ≤ data.size then .ok (data.extract start stop) else trap .outOfRange

section

variable {bits a b : Nat}

theorem add_eq (h : a + b < 2 ^ bits) : add bits a b = .ok (a + b) := if_pos h

theorem mul_eq (h : a * b < 2 ^ bits) : mul bits a b = .ok (a * b) := if_pos h

theorem sub_eq (h : b ≤ a) : sub a b = .ok (a - b) := if_pos h

theorem addSigned_eq {a b : Int} (h : -2 ^ (bits - 1) ≤ a + b ∧ a + b < 2 ^ (bits - 1)) :
    addSigned bits a b = .ok (a + b) := if_pos h

theorem quotient_eq (h : 0 < b) : quotient a b = .ok (a / b) := if_neg (Nat.ne_of_gt h)

theorem remainder_eq (h : 0 < b) : remainder a b = .ok (a % b) := if_neg (Nat.ne_of_gt h)

theorem shiftLeft_eq {value amount : Nat} (hamount : amount < bits)
    (h : value <<< amount < 2 ^ bits) : shiftLeft bits value amount = .ok (value <<< amount) := by
  rw [shiftLeft, if_pos hamount, Nat.mod_eq_of_lt h]

theorem shiftRight_eq {value amount : Nat} (h : amount < bits) :
    shiftRight bits value amount = .ok (value >>> amount) := if_pos h

theorem clamp_eq {value low high : Nat} (h : low ≤ high) :
    clamp value low high = .ok (min (max value low) high) := if_pos h

theorem checkIndex_eq {places index : Nat} (h : index < places) :
    checkIndex places index = .ok () := if_pos h

theorem elementAt_eq {elements : List α} {index : Nat} {element : α}
    (h : elements[index]? = some element) : elementAt elements index = .ok element := by
  rw [elementAt, h]

theorem byteAt_eq {data : Bytes} {index : Nat} (h : index < data.size) :
    byteAt data index = .ok (data.byteAt index) := by
  rw [byteAt, checkIndex_eq h]
  rfl

theorem slice_eq {data : Bytes} {start stop : Nat} (h : start ≤ stop ∧ stop ≤ data.size) :
    slice data start stop = .ok (data.extract start stop) := if_pos h

end

/-! ### Outcomes that are kept

A failed item of a sequence is an item all the same; only a trap ends the computation. -/

/-- Takes an error as a result. -/
def attempt : Checked α → Checked (Except Error α)
  | .ok a => .ok (.ok a)
  | .error (.error e) => .ok (.error e)
  | .error (.trap t) => trap t

@[simp] theorem attempt_lift (outcome : Except Error α) :
    attempt (lift outcome) = .ok outcome := by
  cases outcome <;> rfl

/-- What comes of each of the items. -/
def collect (f : α → Checked β) : List α → Checked (List (Except Error β))
  | [] => .ok []
  | a :: items => do
      let first ← attempt (f a)
      let others ← collect f items
      return first :: others

theorem collect_eq {f : α → Checked β} {g : α → Except Error β} {items : List α}
    (h : ∀ a ∈ items, f a = lift (g a)) : collect f items = .ok (items.map g) := by
  induction items with
  | nil => rfl
  | cons a items ih =>
      have hfirst : f a = lift (g a) := h a List.mem_cons_self
      have hothers := ih fun b hb => h b (List.mem_cons_of_mem a hb)
      rw [collect, hfirst, attempt_lift, ok_bind, hothers, ok_bind]
      rfl

theorem mapM_agrees {f : α → Checked β} {g : α → Except Error β} {items : List α}
    (h : ∀ a ∈ items, f a = lift (g a)) : items.mapM f = lift (items.mapM g) := by
  induction items with
  | nil => rfl
  | cons a items ih =>
      rw [List.mapM_cons, List.mapM_cons]
      refine bind_agrees (h a List.mem_cons_self) fun first _ => ?_
      exact bind_agrees (ih fun b hb => h b (List.mem_cons_of_mem a hb)) fun others _ => rfl

/-- What comes of each item of a sequence, where nothing fails. -/
theorem mapM_filterMap {f : α → Checked β} {g : α → Option β} {items : List α}
    (h : ∀ a ∈ items, ∃ b, f a = .ok b ∧ g a = some b) :
    items.mapM f = .ok (items.filterMap g) := by
  induction items with
  | nil => rfl
  | cons a items ih =>
      obtain ⟨b, hfirst, hsome⟩ := h a List.mem_cons_self
      have hothers := ih fun c hc => h c (List.mem_cons_of_mem a hc)
      rw [List.mapM_cons, hfirst, ok_bind, hothers, ok_bind, List.filterMap_cons_some hsome]
      rfl

theorem mapM_eq {f : α → Checked β} {g : α → β} {items : List α}
    (h : ∀ a ∈ items, f a = .ok (g a)) : items.mapM f = .ok (items.map g) := by
  rw [← List.filterMap_eq_map]
  exact mapM_filterMap fun a ha => ⟨g a, h a ha, rfl⟩

/-! ### Sequences of entries -/

/-- The entries from a position on, each with its place. `step` gives an entry and the place behind
it; an error ends the list, and a trap ends the computation. -/
def walk (step : Nat → Checked (α × Nat)) (done : Nat → Checked Bool) :
    (fuel position : Nat) → Checked (List (Except Error (Nat × α)))
  | 0, _ => .ok []
  | fuel + 1, position => do
      if ← done position then return []
      match ← attempt (step position) with
      | .ok (value, next) =>
          let others ← walk step done fuel next
          return .ok (position, value) :: others
      | .error e => return [.error e]

/-- Entries that are read without a trap wherever the sequence is not done are walked through
without one. -/
theorem walk_eq {step : Nat → Checked (α × Nat)} {done : Nat → Checked Bool}
    {entry : Nat → Except Error (α × Nat)} {isDone : Nat → Bool}
    (hdone : ∀ position, done position = .ok (isDone position))
    (hstep : ∀ position, isDone position = false →
      step position = lift ((entry position).map fun found => (found.1, position + found.2)))
    (fuel position : Nat) :
    walk step done fuel position = .ok (walkEntries entry isDone fuel position) := by
  induction fuel generalizing position with
  | zero => rfl
  | succ fuel ih =>
      rw [walk, walkEntries, hdone, ok_bind]
      cases hend : isDone position with
      | true => rfl
      | false =>
          rw [hstep position hend, attempt_lift]
          cases entry position with
          | ok found =>
              simp only [Except.map, ih, ok_bind]
              rfl
          | error e => rfl

end CliMeta.Machine
