import CliMeta.Instruction.Operand
import CliMeta.Proofs.Instruction.Outcome
import Mathlib.Algebra.GroupWithZero.Nat

/-!
Instructions asked for one after the other. A stream keeps the place that it has come to and whether
it has failed; what it hands out, call by call, is the listing of the code. The instructions in
front of the first error tile the code: each begins where the one before it ends, and unless there
is an error the last one ends with the code.
-/

namespace CliMeta

/-! ### Single instructions -/

/-- How a raw listing ends that has come to a place: an opcode without meaning stands right there,
and where the code gives out is between there and its end. -/
structure EndsAt (code : Bytes) (stop : Nat) (last : Option Error) : Prop where
  unsupported : ∀ offset number, last = some (.unsupportedOpcode offset number) → offset = stop
  truncated : ∀ offset, last = some (.bodyTruncated offset) → stop ≤ offset ∧ offset ≤ code.size

namespace Resolver

variable {r : Resolver} {code : Bytes} {position : Nat}

/-- The instruction at a place with its operand looked up, and the place where reading stops. -/
def decodeAt (r : Resolver) (code : Bytes) (place : Nat) :
    Except Error (Instruction Operand) × Nat :=
  match RawInstruction.reader code place with
  | .ok raw stop => (r.instruction raw, stop)
  | .error e stop => (.error e, stop)

theorem instruction_eq_ok {raw : RawInstruction} {i : Instruction Operand}
    (h : r.instruction raw = .ok i) : i.offset = raw.offset ∧ i.size = raw.size := by
  unfold instruction at h
  split at h
  · cases h
    exact ⟨rfl, rfl⟩
  · cases h
  · cases h

theorem raw_instruction_ne_error (raw : RawInstruction) (e : Error) :
    Resolver.raw.instruction raw ≠ .error e := by
  obtain ⟨offset, number, opcode, size, operand⟩ := raw
  cases operand <;> exact fun h => nomatch h

theorem decodeAt_ok {i : Instruction Operand} {stop : Nat} (h : position < code.size)
    (hdecode : r.decodeAt code position = (.ok i, stop)) :
    i.offset = position ∧ 0 < i.size ∧ i.next = stop ∧ stop ≤ code.size := by
  have hout := RawInstruction.reader_outcome h
  rw [decodeAt] at hdecode
  generalize RawInstruction.reader code position = result at hout hdecode
  cases hout with
  | @read raw hoffset hsize hinside =>
      obtain ⟨hresolve, rfl⟩ := Prod.mk.inj hdecode
      obtain ⟨hsameOffset, hsameSize⟩ := instruction_eq_ok hresolve
      rw [Instruction.next] at *
      rw [hsameOffset, hsameSize]
      exact ⟨hoffset, hsize, rfl, hinside⟩
  | _ => cases hdecode

theorem decodeAt_raw_error {e : Error} {stop : Nat} (h : position < code.size)
    (hdecode : Resolver.raw.decodeAt code position = (.error e, stop)) :
    EndsAt code position (some e) := by
  have hout := RawInstruction.reader_outcome h
  rw [decodeAt] at hdecode
  generalize RawInstruction.reader code position = result at hout hdecode
  cases hout with
  | @read raw => exact absurd (congrArg Prod.fst hdecode) (raw_instruction_ne_error raw e)
  | unsupported =>
      cases hdecode
      exact ⟨by simp +contextual, by simp⟩
  | truncated hpast hinside =>
      cases hdecode
      refine ⟨by simp, fun offset heq => ?_⟩
      cases heq
      exact ⟨hpast, hinside⟩
  | branchOutside =>
      cases hdecode
      exact ⟨by simp, by simp⟩

/-! ### Listings from a place on -/

def listingFrom (r : Resolver) (code : Bytes) (fuel position : Nat) :
    List (Except Error (Instruction Operand)) :=
  r.listing ((walkEntries (RawInstruction.decode code) (fun place => code.size ≤ place) fuel
    position).map fun outcome => outcome.map Prod.snd)

theorem listing_eq (r : Resolver) (code : Bytes) :
    r.listing (RawInstruction.listing code) = r.listingFrom code code.size 0 := rfl

theorem listingFrom_at_end (h : code.size ≤ position) (fuel : Nat) :
    r.listingFrom code fuel position = [] := by
  cases fuel with
  | zero => rfl
  | succ fuel => simp [listingFrom, walkEntries, h, listing]

theorem listingFrom_inside (h : position < code.size) (fuel : Nat) :
    r.listingFrom code (fuel + 1) position =
      match r.decodeAt code position with
      | (.ok i, stop) => .ok i :: r.listingFrom code fuel stop
      | (.error e, _) => [.error e] := by
  have hnot : ¬code.size ≤ position := by omega
  simp only [listingFrom, walkEntries, hnot, RawInstruction.decode, decodeAt, decide_false,
    Bool.false_eq_true, if_false]
  cases hread : RawInstruction.reader code position with
  | error e stop => rfl
  | ok raw stop =>
      have hout := RawInstruction.reader_outcome h
      rw [hread] at hout
      cases hout with
      -- the listing goes on by sizes, the reader by places
      | read hoffset hsize =>
          have hplace : position + (raw.next - position) = raw.next := by
            rw [Instruction.next] at *
            omega
          simp only [List.map_cons, Except.map, listing, hplace]
          cases r.instruction raw <;> rfl

/-! ### Whole listings -/

/-- All instructions of the code, or the first error. -/
def decodeStream (r : Resolver) (code : Bytes) : Except Error (List (Instruction Operand)) :=
  (r.listing (RawInstruction.listing code)).mapM id

theorem mapM_id_eq_ok {α : Type} {outcomes : List (Except Error α)} {all : List α} :
    outcomes.mapM id = .ok all ↔ outcomes = all.map .ok := by
  induction outcomes generalizing all with
  | nil => cases all <;> simp [pure, Except.pure]
  | cons outcome others ih =>
      rw [List.mapM_cons]
      cases outcome with
      | error e => cases all <;> simp [bind, Except.bind]
      | ok a =>
          cases hothers : others.mapM id with
          | error e => cases all <;> simp [bind, Except.bind, ← ih, hothers]
          | ok rest => cases all <;> simp [bind, Except.bind, pure, Except.pure, ← ih, hothers]

theorem mapM_id_error {α : Type} (all : List α) (e : Error) :
    (all.map Except.ok ++ [Except.error e]).mapM id = .error e := by
  induction all with
  | nil => rfl
  | cons a all ih =>
      rw [List.map_cons, List.cons_append, List.mapM_cons, ih]
      rfl

theorem decodeStream_eq_ok {items : List (Instruction Operand)} :
    r.decodeStream code = .ok items ↔ r.listingFrom code code.size 0 = items.map .ok :=
  mapM_id_eq_ok

theorem decodeStream_eq_error (items : List (Instruction Operand)) {e : Error}
    (h : r.listingFrom code code.size 0 = items.map .ok ++ [.error e]) :
    r.decodeStream code = .error e := by
  rw [decodeStream, listing_eq, h]
  exact mapM_id_error items e

end Resolver

/-! ### Streams -/

/-- A stream of instructions over code. -/
structure InstructionStream where
  resolver : Resolver
  code : Bytes
  position : Nat
  failed : Bool

namespace InstructionStream

def start (r : Resolver) (code : Bytes) : InstructionStream :=
  ⟨r, code, 0, false⟩

/-- The next instruction and what is left of the stream. There is none behind the code, and none
behind an error. -/
def next (s : InstructionStream) :
    Option (Except Error (Instruction Operand)) × InstructionStream :=
  if s.failed ∨ s.code.size ≤ s.position then (none, s)
  else
    let (result, stop) := s.resolver.decodeAt s.code s.position
    (some result, { s with position := stop, failed := result matches .error _ })

/-- The outcome of a call, counted from 0. -/
def outcome (s : InstructionStream) : (call : Nat) → Option (Except Error (Instruction Operand))
  | 0 => s.next.1
  | call + 1 => s.next.2.outcome call

theorem next_of_stopped {s : InstructionStream} (h : s.failed ∨ s.code.size ≤ s.position) :
    s.next = (none, s) :=
  if_pos h

/-- A stream that has failed or come to the end of the code hands out nothing any more. -/
theorem outcome_of_stopped {s : InstructionStream} (h : s.failed ∨ s.code.size ≤ s.position)
    (call : Nat) : s.outcome call = none := by
  induction call with
  | zero => rw [outcome, next_of_stopped h]
  | succ call ih =>
      rw [outcome, next_of_stopped h]
      exact ih

theorem next_inside (r : Resolver) {code : Bytes} {position : Nat} (h : position < code.size) :
    next ⟨r, code, position, false⟩ =
      (some (r.decodeAt code position).1,
        ⟨r, code, (r.decodeAt code position).2, (r.decodeAt code position).1 matches .error _⟩) :=
  if_neg (by simp [h])

/-- Call by call the stream hands out the listing from its place on. -/
theorem outcome_eq_listingFrom (r : Resolver) (code : Bytes) {fuel position : Nat}
    (hfuel : code.size - position ≤ fuel) (call : Nat) :
    outcome ⟨r, code, position, false⟩ call = (r.listingFrom code fuel position)[call]? := by
  induction fuel generalizing position call with
  | zero =>
      have hend : code.size ≤ position := by omega
      rw [outcome_of_stopped (.inr hend), Resolver.listingFrom_at_end hend]
      rfl
  | succ fuel ih =>
      obtain hend | hinside : code.size ≤ position ∨ position < code.size := by omega
      · rw [outcome_of_stopped (.inr hend), Resolver.listingFrom_at_end hend]
        rfl
      have hnext := next_inside r hinside
      rw [Resolver.listingFrom_inside hinside]
      rcases hdecode : r.decodeAt code position with ⟨result, stop⟩
      rw [hdecode] at hnext
      cases result with
      | error e =>
          cases call with
          | zero => rw [outcome, hnext, List.getElem?_cons_zero]
          -- the error has been handed out, and the stream has failed
          | succ call =>
              rw [outcome, hnext, outcome_of_stopped (.inl rfl), List.getElem?_cons_succ]
              rfl
      | ok i =>
          obtain ⟨hoffset, hsize, hstop, -⟩ := Resolver.decodeAt_ok hinside hdecode
          cases call with
          | zero => rw [outcome, hnext, List.getElem?_cons_zero]
          | succ call =>
              rw [outcome, hnext, List.getElem?_cons_succ]
              refine ih ?_ call
              rw [Instruction.next] at hstop
              omega

end InstructionStream

/-! ### Tilings -/

/-- Instructions that stand one behind the other from a place up to another, none of them empty. -/
inductive Tiles {α : Type} : Nat → List (Instruction α) → Nat → Prop where
  | nil (place : Nat) : Tiles place [] place
  | cons {i : Instruction α} {others : List (Instruction α)} {stop : Nat} (hsize : 0 < i.size)
      (hothers : Tiles i.next others stop) : Tiles i.offset (i :: others) stop

/-- Exactly one of the instructions, with those in front of it and behind it, takes up the byte at a
place. -/
def CoversOnce {α : Type} (items : List (Instruction α)) (place : Nat) : Prop :=
  ∃ front i back, items = front ++ i :: back ∧ (i.offset ≤ place ∧ place < i.next) ∧
    ∀ j ∈ front ++ back, ¬(j.offset ≤ place ∧ place < j.next)

namespace Tiles

variable {α : Type} {start stop : Nat} {items : List (Instruction α)}

theorem sum_sizes (h : Tiles start items stop) :
    start + (items.map Instruction.size).sum = stop := by
  induction h with
  | nil place => rfl
  | cons hsize hothers ih =>
      rw [Instruction.next] at ih
      rw [List.map_cons, List.sum_cons, ← ih, Nat.add_assoc]

theorem offset_ge (h : Tiles start items stop) : ∀ i ∈ items, start ≤ i.offset := by
  induction h with
  | nil place => exact List.forall_mem_nil _
  | cons hsize hothers ih =>
      refine List.forall_mem_cons.2 ⟨Nat.le_refl _, fun j hmem => ?_⟩
      have hafter := ih j hmem
      rw [Instruction.next] at hafter
      omega

/-- Everything that is tiled ends where the tiling does or before. -/
theorem next_le (h : Tiles start items stop) : start ≤ stop ∧ ∀ i ∈ items, i.next ≤ stop := by
  induction h with
  | nil place => exact ⟨Nat.le_refl place, List.forall_mem_nil _⟩
  | @cons i others stop hsize hothers ih =>
      obtain ⟨hstop, hlater⟩ := ih
      refine ⟨?_, List.forall_mem_cons.2 ⟨hstop, hlater⟩⟩
      rw [Instruction.next] at hstop
      omega

/-- Every byte that is tiled belongs to one of the instructions and to no other. -/
theorem coversOnce (h : Tiles start items stop) {place : Nat} (hstart : start ≤ place)
    (hstop : place < stop) : CoversOnce items place := by
  induction h with
  | nil place' => omega
  | @cons i others stop hsize hothers ih =>
      obtain hfirst | hlater : place < i.next ∨ i.next ≤ place := by omega
      · refine ⟨[], i, others, rfl, ⟨hstart, hfirst⟩, fun j hmem hcovers => ?_⟩
        have hafter := hothers.offset_ge j hmem
        omega
      · obtain ⟨front, j, back, rfl, hcovers, honly⟩ := ih hlater hstop
        refine ⟨i :: front, j, back, rfl, hcovers, List.forall_mem_cons.2 ⟨?_, honly⟩⟩
        omega

end Tiles

/-! ### Listings tile the code -/

theorem Resolver.listingFrom_tiles (r : Resolver) (code : Bytes) {fuel position : Nat}
    (hposition : position ≤ code.size) (hfuel : code.size - position ≤ fuel) :
    ∃ items last stop,
      r.listingFrom code fuel position = items.map .ok ++ last.toList.map .error ∧
      Tiles position items stop ∧ stop ≤ code.size ∧ (last = none → stop = code.size) ∧
      (r = .raw → EndsAt code stop last) := by
  have hended : EndsAt code code.size none := ⟨by simp, by simp⟩
  induction fuel generalizing position with
  | zero =>
      obtain rfl : position = code.size := by omega
      exact ⟨[], none, _, rfl, .nil _, hposition, fun _ => rfl, fun _ => hended⟩
  | succ fuel ih =>
      obtain rfl | hinside : position = code.size ∨ position < code.size := by omega
      · refine ⟨[], none, _, ?_, .nil _, hposition, fun _ => rfl, fun _ => hended⟩
        rw [listingFrom_at_end hposition]
        rfl
      rw [listingFrom_inside hinside]
      rcases hdecode : r.decodeAt code position with ⟨result, stop⟩
      cases result with
      | error e =>
          refine ⟨[], some e, position, rfl, .nil _, hposition, fun h => (nomatch h), ?_⟩
          rintro rfl
          exact decodeAt_raw_error hinside hdecode
      | ok i =>
          obtain ⟨hoffset, hsize, rfl, hstop⟩ := decodeAt_ok hinside hdecode
          have hmoved : code.size - i.next ≤ fuel := by
            rw [Instruction.next]
            omega
          obtain ⟨items, last, stop, hlisting, htiles, hrest⟩ := ih hstop hmoved
          refine ⟨i :: items, last, stop, ?_, ?_, hrest⟩
          · simp only [hlisting, List.map_cons, List.cons_append]
          · rw [← hoffset]
            exact .cons hsize htiles

/-- Code that is taken apart into instructions up to a place, where an error may stand. -/
structure Disassembly (r : Resolver) (code : Bytes) (items : List (Instruction Operand))
    (last : Option Error) (stop : Nat) : Prop where
  listing : r.listing (RawInstruction.listing code) = items.map .ok ++ last.toList.map .error
  /-- A stream hands out the instructions, then the error if there is one, then nothing. -/
  outcome : ∀ call, (InstructionStream.start r code).outcome call =
    (items.map .ok ++ last.toList.map .error)[call]?
  tiles : Tiles 0 items stop
  inside : stop ≤ code.size
  covered : ∀ place < stop, CoversOnce items place
  whole : last = none → (items.map Instruction.size).sum = code.size
  /-- Without lookups the error tells where it stands. -/
  ends : r = .raw → EndsAt code stop last

/-- Whatever the code and the lookups, a stream hands out instructions that tile the code from its
start on, then at most one error, and nothing behind that. -/
theorem InstructionStream.tiles_code (r : Resolver) (code : Bytes) :
    ∃ items last stop, Disassembly r code items last stop := by
  obtain ⟨items, last, stop, hlisting, htiles, hstop, hwhole, hends⟩ :=
    r.listingFrom_tiles code (Nat.zero_le _) (Nat.le_refl (code.size - 0))
  refine ⟨items, last, stop, ?_⟩
  constructor
  case listing => exact hlisting
  case outcome =>
    intro call
    rw [← hlisting]
    exact outcome_eq_listingFrom r code (Nat.le_refl _) call
  case tiles => exact htiles
  case inside => exact hstop
  case covered => exact fun place hplace => htiles.coversOnce (Nat.zero_le _) hplace
  case whole =>
    intro hlast
    have hsum := htiles.sum_sizes
    rw [hwhole hlast, Nat.zero_add] at hsum
    exact hsum
  case ends => exact hends

end CliMeta
