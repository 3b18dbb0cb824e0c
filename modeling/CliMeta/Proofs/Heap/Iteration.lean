import CliMeta.Entries
import CliMeta.Proofs.Reader.Inversion

/-!
Entries asked for one after the other. A stream of entries keeps the place that it has come to, and
what it hands out, call by call, is the list of all entries of its heap. A stream finds a format in
the bytes if it takes for an entry exactly what the format writes for one; then its entries tile the
bytes, up to the padding at the end or to the first entry that cannot be read.
-/

namespace CliMeta

open Reader

variable {α : Type}

/-! ### Written entries -/

/-- How the entries of a heap are written, and what may stand behind the last of them. -/
structure HeapFormat (α : Type) where
  Stored : α → List UInt8 → Prop
  IsPadding : List UInt8 → Prop

structure WrittenEntry (α : Type) where
  value : α
  bytes : List UInt8

namespace WrittenEntry

/-- Entries one behind the other from a place on, each with the place where it begins. -/
def placed (place : Nat) : List (WrittenEntry α) → List (Nat × α)
  | [] => []
  | e :: others => (place, e.value) :: placed (place + e.bytes.length) others

def stop (place : Nat) (written : List (WrittenEntry α)) : Nat :=
  place + (written.flatMap bytes).length

@[simp] theorem stop_cons (place : Nat) (e : WrittenEntry α) (others : List (WrittenEntry α)) :
    stop place (e :: others) = stop (place + e.bytes.length) others := by
  simp [stop, Nat.add_assoc]

/-- What is handed out for entries and for the error behind them, if there is one. -/
def outcomes (place : Nat) (written : List (WrittenEntry α)) (last : Option Error) :
    List (Except Error (Nat × α)) :=
  (placed place written).map .ok ++ last.toList.map .error

end WrittenEntry

open WrittenEntry

/-! ### Streams -/

/-- The entries of a heap, asked for one after the other. -/
structure EntryStream (α : Type) where
  entry : Nat → Except Error (α × Nat)
  done : Nat → Bool
  /-- The end of the heap, where a stream goes that has failed. -/
  size : Nat
  position : Nat

namespace EntryStream

/-- The entry at a place, whatever it takes up. -/
def lookup (s : EntryStream α) (place : Nat) : Except Error α :=
  (s.entry place).map Prod.fst

/-- The stream, come to another place. -/
def moved (s : EntryStream α) (place : Nat) : EntryStream α :=
  { s with position := place }

/-- The next entry and what is left of the stream. -/
def next (s : EntryStream α) : Option (Except Error (Nat × α)) × EntryStream α :=
  if s.done s.position then (none, s)
  else
    match s.entry s.position with
    | .ok (value, consumed) => (some (.ok (s.position, value)), s.moved (s.position + consumed))
    | .error e => (some (.error e), s.moved s.size)

/-- The outcome of a call, counted from 0. -/
def outcome (s : EntryStream α) : (call : Nat) → Option (Except Error (Nat × α))
  | 0 => s.next.1
  | call + 1 => s.next.2.outcome call

theorem outcome_of_done {s : EntryStream α} (h : s.done s.position = true) (call : Nat) :
    s.outcome call = none := by
  have hnext : s.next = (none, s) := if_pos h
  induction call with
  | zero => rw [outcome, hnext]
  | succ call ih => rw [outcome, hnext, ih]

/-- One entry and the entries behind it. -/
theorem walkEntries_inside {s : EntryStream α} {place : Nat} (fuel : Nat)
    (hdone : s.done place = false) :
    walkEntries s.entry s.done (fuel + 1) place =
      match s.entry place with
      | .ok (value, consumed) =>
          .ok (place, value) :: walkEntries s.entry s.done fuel (place + consumed)
      | .error e => [.error e] := by
  rw [walkEntries, hdone]
  rfl

theorem walkEntries_of_done {s : EntryStream α} {place : Nat} (hdone : s.done place = true)
    (fuel : Nat) :
    walkEntries s.entry s.done fuel place = [] := by
  cases fuel with
  | zero => rfl
  | succ fuel => rw [walkEntries, if_pos hdone]

/-- The stream hands out these outcomes, call by call, and then nothing. -/
def HandsOut (s : EntryStream α) (all : List (Except Error (Nat × α))) : Prop :=
  ∀ call, s.outcome call = all[call]?

/-- The stream finds the entries of a format in the data: where nothing but padding is left it is
done, and an entry is found exactly where it is written. -/
structure Finds (s : EntryStream α) (data : Bytes) (f : HeapFormat α) : Prop where
  size_eq : s.size = data.size
  isPadding_nil : f.IsPadding []
  done_iff : ∀ place, s.done place = true ↔ f.IsPadding (data.toList.drop place)
  length_pos : ∀ {value written}, f.Stored value written → 0 < written.length
  entry_eq_ok : ∀ {place value consumed}, 0 < place →
    (s.entry place = .ok (value, consumed) ↔
      ∃ written, f.Stored value written ∧ consumed = written.length ∧
        StandsAt data place written (data.toList.drop (place + written.length)))

namespace Finds

variable {s : EntryStream α} {data : Bytes} {f : HeapFormat α} {place fuel : Nat}

theorem done_at_end (hs : s.Finds data f) (h : data.size ≤ place) : s.done place = true := by
  rw [hs.done_iff, List.drop_eq_nil_of_le (by rwa [Array.length_toList])]
  exact hs.isPadding_nil

/-- Call by call the stream hands out the list of its entries from its place on. -/
theorem handsOut_walkEntries (hs : s.Finds data f) (hplace : 0 < place)
    (hfuel : data.size - place ≤ fuel) :
    (s.moved place).HandsOut (walkEntries s.entry s.done fuel place) := by
  intro call
  induction fuel generalizing place call with
  | zero =>
      have hdone := hs.done_at_end (by omega : data.size ≤ place)
      rw [outcome_of_done hdone, walkEntries_of_done hdone, List.getElem?_nil]
  | succ fuel ih =>
      cases hdone : s.done place with
      | true => rw [outcome_of_done hdone, walkEntries_of_done hdone, List.getElem?_nil]
      | false =>
          have hnext : (s.moved place).next = _ := if_neg (ne_true_of_eq_false hdone)
          rw [walkEntries_inside _ hdone]
          simp only [moved] at hnext
          cases hentry : s.entry place with
          | error e =>
              rw [hentry] at hnext
              cases call with
              | zero =>
                  rw [outcome, moved, hnext]
                  rfl
              -- the error has been handed out, and the stream has gone to the end
              | succ call =>
                  rw [outcome, moved, hnext]
                  refine outcome_of_done ?_ call
                  exact hs.done_at_end (Nat.le_of_eq hs.size_eq.symm)
          | ok found =>
              obtain ⟨value, consumed⟩ := found
              obtain ⟨written, hstored, rfl, -⟩ := (hs.entry_eq_ok hplace).1 hentry
              have hpos := hs.length_pos hstored
              rw [hentry] at hnext
              cases call with
              | zero =>
                  rw [outcome, moved, hnext]
                  rfl
              | succ call =>
                  rw [outcome, moved, hnext]
                  exact ih (by omega) (by omega) call

end Finds

end EntryStream

/-! ### Tilings -/

/-- Entries of the data from a place on, and the error behind them, if there is one. -/
structure HeapTiling (get : Nat → Except Error α) (data : Bytes) (f : HeapFormat α) (place : Nat)
    (written : List (WrittenEntry α)) (last : Option Error) : Prop where
  /-- Each entry is written in the format. -/
  stored : ∀ e ∈ written, f.Stored e.value e.bytes
  /-- The entries stand one behind the other, with nothing between them. -/
  covered : data.toList.drop place =
    written.flatMap bytes ++ data.toList.drop (stop place written)
  /-- Each is found at its place, and what is left of the data there is not all padding. -/
  found : ∀ item ∈ placed place written, get item.1 = .ok item.2 ∧
    ¬f.IsPadding (data.toList.drop item.1)
  /-- The error is that of a lookup behind the last entry. -/
  failed : ∀ e, last = some e → get (stop place written) = .error e ∧
    ¬f.IsPadding (data.toList.drop (stop place written))
  /-- Without an error nothing but padding is left. -/
  ended : last = none → f.IsPadding (data.toList.drop (stop place written))

namespace HeapTiling

variable {get : Nat → Except Error α} {data : Bytes} {f : HeapFormat α} {place : Nat}
  {written : List (WrittenEntry α)} {last : Option Error}

theorem nil (h : f.IsPadding (data.toList.drop place)) : HeapTiling get data f place [] none where
  stored := List.forall_mem_nil _
  covered := rfl
  found := List.forall_mem_nil _
  failed _ he := nomatch he
  ended _ := h

theorem error {e : Error} (hget : get place = .error e)
    (h : ¬f.IsPadding (data.toList.drop place)) : HeapTiling get data f place [] (some e) where
  stored := List.forall_mem_nil _
  covered := rfl
  found := List.forall_mem_nil _
  failed e' he := by
    cases he
    exact ⟨hget, h⟩
  ended hlast := nomatch hlast

theorem cons {e : WrittenEntry α} (hget : get place = .ok e.value)
    (hstored : f.Stored e.value e.bytes)
    (hstands : StandsAt data place e.bytes (data.toList.drop (place + e.bytes.length)))
    (h : ¬f.IsPadding (data.toList.drop place))
    (hothers : HeapTiling get data f (place + e.bytes.length) written last) :
    HeapTiling get data f place (e :: written) last where
  stored := List.forall_mem_cons.2 ⟨hstored, hothers.stored⟩
  covered := by
    rw [hstands.2, hothers.covered, List.flatMap_cons, stop_cons, List.append_assoc]
  found := List.forall_mem_cons.2 ⟨⟨hget, h⟩, hothers.found⟩
  failed := by
    rw [stop_cons]
    exact hothers.failed
  ended := by
    rw [stop_cons]
    exact hothers.ended

end HeapTiling

namespace EntryStream

namespace Finds

variable {s : EntryStream α} {data : Bytes} {f : HeapFormat α} {place fuel : Nat}

/-- Whatever the data, the entries from a place on tile them. -/
theorem exists_tiling (hs : s.Finds data f) (hplace : 0 < place)
    (hfuel : data.size - place ≤ fuel) :
    ∃ written last, walkEntries s.entry s.done fuel place = outcomes place written last ∧
      HeapTiling s.lookup data f place written last := by
  induction fuel generalizing place with
  | zero =>
      have hdone := hs.done_at_end (by omega : data.size ≤ place)
      exact ⟨[], none, walkEntries_of_done hdone 0, .nil ((hs.done_iff place).1 hdone)⟩
  | succ fuel ih =>
      cases hdone : s.done place with
      | true =>
          exact ⟨[], none, walkEntries_of_done hdone _, .nil ((hs.done_iff place).1 hdone)⟩
      | false =>
          have hleft : ¬f.IsPadding (data.toList.drop place) := by
            rw [← hs.done_iff, hdone]
            exact Bool.false_ne_true
          rw [walkEntries_inside _ hdone]
          cases hentry : s.entry place with
          | error e =>
              have hget : s.lookup place = .error e := by rw [lookup, hentry]; rfl
              exact ⟨[], some e, rfl, .error hget hleft⟩
          | ok found =>
              obtain ⟨value, consumed⟩ := found
              obtain ⟨bytes, hstored, rfl, hstands⟩ := (hs.entry_eq_ok hplace).1 hentry
              have hpos := hs.length_pos hstored
              obtain ⟨written, last, hlist, htiling⟩ :=
                @ih (place + bytes.length) (by omega) (by omega)
              have hget : s.lookup place = .ok value := by rw [lookup, hentry]; rfl
              refine ⟨⟨value, bytes⟩ :: written, last, ?_, .cons hget hstored hstands hleft htiling⟩
              simp only [hlist, outcomes, placed, List.map_cons, List.cons_append]

/-- Entries that stand one behind the other in front of padding are handed out, all of them and in
order, and each is found at its place. -/
theorem walkEntries_written (hs : s.Finds data f) (hplace : 0 < place)
    (hfuel : data.size - place ≤ fuel) {written : List (WrittenEntry α)} {padding : List UInt8}
    (hstored : ∀ e ∈ written, f.Stored e.value e.bytes)
    (hbegun : ∀ e ∈ written, ∀ rest, ¬f.IsPadding (e.bytes ++ rest))
    (hpadding : f.IsPadding padding)
    (hstands : StandsAt data place (written.flatMap bytes) padding) :
    walkEntries s.entry s.done fuel place = (placed place written).map .ok ∧
      ∀ item ∈ placed place written, s.lookup item.1 = .ok item.2 := by
  induction written generalizing place fuel with
  | nil =>
      have hdone : s.done place = true := by
        rw [hs.done_iff, hstands.2]
        exact hpadding
      exact ⟨walkEntries_of_done hdone fuel, List.forall_mem_nil _⟩
  | cons e written ih =>
      obtain ⟨hfirst, hothers⟩ := List.forall_mem_cons.1 hstored
      obtain ⟨hbegins, hbegunOthers⟩ := List.forall_mem_cons.1 hbegun
      rw [List.flatMap_cons] at hstands
      have hsize := hstands.size_eq
      have hpos := hs.length_pos hfirst
      have hdone : s.done place = false := by
        refine eq_false_of_ne_true fun hdone => ?_
        rw [hs.done_iff, hstands.front.2] at hdone
        exact hbegins _ hdone
      have hentry : s.entry place = .ok (e.value, e.bytes.length) := by
        refine (hs.entry_eq_ok hplace).2 ⟨e.bytes, hfirst, rfl, hstands.1, ?_⟩
        rw [← List.drop_drop, hstands.front.2, List.drop_left]
      rw [List.length_append] at hsize
      obtain ⟨less, rfl⟩ : ∃ less, fuel = less + 1 := ⟨fuel - 1, by omega⟩
      obtain ⟨hlist, hfound⟩ :=
        @ih (place + e.bytes.length) less (by omega) (by omega) hothers hbegunOthers hstands.behind
      constructor
      · rw [walkEntries_inside _ hdone, hentry]
        simp only [hlist, placed, List.map_cons]
      · refine List.forall_mem_cons.2 ⟨?_, hfound⟩
        rw [lookup, hentry]
        rfl

end Finds

end EntryStream

end CliMeta
