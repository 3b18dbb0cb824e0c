import CliMeta.Proofs.Machine.Basic
import CliMeta.Proofs.Reader.Compressed
import CliMeta.Proofs.Reader.Contained
import CliMeta.Proofs.Reader.Inversion

/-!
Checked readers. They move a position through a buffer as readers do and compute with machine words.
`Follows data start m r` says that `m` comes to the same end as `r` in a buffer wherever they begin
behind `start`, provided that the positions of the buffer are 32-bit words; `start` is what is known
of the position, and so of how often a counter has been raised. The rules for it take a checked
reader apart step by step, and leave the conditions of its operations.
-/

namespace CliMeta.Machine

abbrev CheckedReader := ReaderT Bytes (EStateM Stop Nat)

variable {α β : Type}

/-- An outcome of a reader as one of a checked reader. -/
def liftOutcome : EStateM.Result Error Nat α → EStateM.Result Stop Nat α
  | .ok a next => .ok a next
  | .error e next => .error (.error e) next

/-- A reader that does not compute with words, or guards what it computes. -/
def liftReader (r : Reader α) : CheckedReader α := fun data position =>
  liftOutcome (r data position)

/-- A computation that leaves the position where it is. -/
def compute (c : Checked α) : CheckedReader α := fun _ position =>
  match c with
  | .ok a => .ok a position
  | .error s => .error s position

/-- What a checked reader finds from a position of a buffer on. -/
def valueAt (m : CheckedReader α) (data : Bytes) (position : Nat) : Checked α :=
  match m data position with
  | .ok a _ => .ok a
  | .error s _ => .error s

theorem bind_apply (m : CheckedReader α) (f : α → CheckedReader β) (data : Bytes)
    (position : Nat) :
    (m >>= f) data position =
      match m data position with
      | .ok a next => f a data next
      | .error s next => .error s next := by
  show EStateM.bind (m data) (fun a => f a data) position = _
  unfold EStateM.bind
  cases m data position <;> rfl

theorem compute_bind {c : Checked α} {a : α} (h : c = .ok a) (f : α → CheckedReader β) :
    compute c >>= f = f a := by
  funext data position
  rw [bind_apply, h]
  rfl

/-! ### Following a reader -/

/-- The number of positions that buffers are taken to have. -/
def positions : Nat := 0x100000000

def Follows (data : Bytes) (start : Nat) (m : CheckedReader α) (r : Reader α) : Prop :=
  data.size < positions → ∀ position, start ≤ position → position ≤ data.size →
    m data position = liftOutcome (r data position) ∧
      ∀ a next, r data position = .ok a next → start ≤ next ∧ next ≤ data.size

namespace Follows

variable {data : Bytes} {start : Nat} {m : CheckedReader α} {r : Reader α}
  {f : α → CheckedReader β} {g : α → Reader β}

theorem valueAt_eq (h : Follows data 0 m r) (hsize : data.size < positions) {position : Nat}
    (hposition : position ≤ data.size) :
    Machine.valueAt m data position = lift (r.valueAt data position) := by
  rw [Machine.valueAt, Reader.valueAt, (h hsize position (Nat.zero_le _) hposition).1]
  cases r data position <;> rfl

/-- Positions are words, and nothing has to be shown where there are none. -/
theorem of_words (h : start ≤ data.size → data.size < positions → Follows data start m r) :
    Follows data start m r :=
  fun hsize position hstart hposition =>
    h (Nat.le_trans hstart hposition) hsize hsize position hstart hposition

theorem lift (h : r.Forward) : Follows data start (liftReader r) r := by
  intro hsize position hstart hposition
  refine ⟨rfl, fun a next hout => ?_⟩
  have hmoved := h.of_ok hposition hout
  exact ⟨Nat.le_trans hstart hmoved.1, hmoved.2⟩

theorem pure (a : α) : Follows data start (pure a) (pure a) := by
  intro hsize position hstart hposition
  refine ⟨rfl, fun b next hout => ?_⟩
  cases hout
  exact ⟨hstart, hposition⟩

theorem throw (e : Error) : Follows (α := α) data start (throw (.error e)) (throw e) := by
  intro hsize position hstart hposition
  refine ⟨rfl, fun a next hout => ?_⟩
  cases hout

theorem malformed (defect : Defect) :
    Follows (α := α) data start (liftReader (Reader.malformed defect))
      (Reader.malformed defect) :=
  throw _

theorem seek (target : Nat) :
    Follows data 0 (liftReader (Reader.seek target)) (Reader.seek target) := by
  intro hsize position hstart hposition
  refine ⟨rfl, fun a next hout => ?_⟩
  obtain ⟨hinside, rfl⟩ := Reader.seek_eq_ok.1 hout
  exact ⟨Nat.zero_le _, hinside⟩

/-- What follows a value is looked at from the place where the value ends. -/
theorem bind_at (hr : Follows data start m r)
    (hf : ∀ position a next, start ≤ position → position ≤ data.size →
      r data position = .ok a next → next ≤ data.size →
      ∃ least, start ≤ least ∧ least ≤ next ∧ Follows data least (f a) (g a)) :
    Follows data start (m >>= f) (r >>= g) := by
  intro hsize position hstart hposition
  obtain ⟨hsame, hmoved⟩ := hr hsize position hstart hposition
  rw [bind_apply, hsame, Reader.bind_apply]
  cases hout : r data position with
  | error e next => exact ⟨rfl, fun b stop hthen => nomatch hthen⟩
  | ok a next =>
      have hnext := (hmoved a next hout).2
      obtain ⟨least, hleast, hbefore, hthen⟩ := hf position a next hstart hposition hout hnext
      obtain ⟨hagrees, hbounds⟩ := hthen hsize next hbefore hnext
      refine ⟨hagrees, fun b stop hstop => ?_⟩
      have hstopped := hbounds b stop hstop
      exact ⟨Nat.le_trans hleast hstopped.1, hstopped.2⟩

/-- What is known of a value is known to what follows it. -/
theorem bind_where {P : α → Prop} (hr : Follows data start m r) (hvalue : Reader.Ensures r P)
    (hf : ∀ a, P a → Follows data start (f a) (g a)) : Follows data start (m >>= f) (r >>= g) := by
  intro hsize position hstart hposition
  obtain ⟨hsame, hmoved⟩ := hr hsize position hstart hposition
  rw [bind_apply, hsame, Reader.bind_apply]
  cases hout : r data position with
  | error e next => exact ⟨rfl, fun b stop hthen => nomatch hthen⟩
  | ok a next =>
      have hnext := hmoved a next hout
      exact hf a (hvalue data position a next hout) hsize next hnext.1 hnext.2

theorem bind (hr : Follows data start m r) (hf : ∀ a, Follows data start (f a) (g a)) :
    Follows data start (m >>= f) (r >>= g) :=
  hr.bind_where (.trivial r) fun a _ => hf a

/-- Where the first part fails, it does not matter what comes after it. -/
theorem malformed_bind (defect : Defect) :
    Follows data start (liftReader (Reader.malformed defect) >>= f)
      (Reader.malformed defect >>= g) :=
  (malformed defect).bind_where (.malformed (P := fun _ => False) defect) fun _ hfalse =>
    hfalse.elim

theorem compute {c : Checked α} {a : α} {r : Reader β} (hc : c = .ok a)
    (h : Follows data start (f a) r) : Follows data start (Machine.compute c >>= f) r := by
  rw [compute_bind hc]
  exact h

theorem computed {c : Checked α} {outcome : Except Error α} (hc : c = Machine.lift outcome) :
    Follows data start (Machine.compute c) (Reader.ofExcept outcome) := by
  subst hc
  cases outcome with
  | ok a => exact pure a
  | error e => exact throw e

theorem ite {p : Prop} [Decidable p] {m' : CheckedReader α} {r' : Reader α}
    (hthen : p → Follows data start m r) (helse : ¬p → Follows data start m' r') :
    Follows data start (if p then m else m') (if p then r else r') := by
  by_cases hp : p
  · rw [if_pos hp, if_pos hp]
    exact hthen hp
  · rw [if_neg hp, if_neg hp]
    exact helse hp

/-- A position that is asked for is behind everything that is known to be behind. -/
theorem position {f : Nat → CheckedReader β} {g : Nat → Reader β}
    (hf : ∀ place, start ≤ place → place ≤ data.size → place < positions →
      Follows data place (f place) (g place)) :
    Follows data start (liftReader Reader.position >>= f) (Reader.position >>= g) := by
  intro hsize place hstart hplace
  have hword : place < positions := Nat.lt_of_le_of_lt hplace hsize
  obtain ⟨hsame, hbounds⟩ := hf place hstart hplace hword hsize place (Nat.le_refl _) hplace
  refine ⟨hsame, fun b stop hout => ?_⟩
  have hstop := hbounds b stop hout
  exact ⟨Nat.le_trans hstart hstop.1, hstop.2⟩

theorem remaining {f : Nat → CheckedReader β} {g : Nat → Reader β}
    (hf : ∀ count, count ≤ data.size → Follows data start (f count) (g count)) :
    Follows data start (liftReader Reader.remaining >>= f) (Reader.remaining >>= g) := by
  intro hsize place hstart hplace
  exact hf (data.size - place) (Nat.sub_le ..) hsize place hstart hplace

theorem buffer {f : Bytes → CheckedReader β} {g : Bytes → Reader β}
    (hf : Follows data start (f data) (g data)) :
    Follows data start (liftReader Reader.buffer >>= f) (Reader.buffer >>= g) :=
  hf

end Follows

/-! ### Numbers and bytes -/

/-- The next bytes as a number. They are cut out of the buffer once they are known to be there. -/
def unsigned (width : Nat) : CheckedReader Nat := fun data position =>
  if position + width ≤ data.size then
    match slice data position (position + width) with
    | .ok bytes => .ok (bytes.littleEndian 0 width) (position + width)
    | .error s => .error s position
  else .error (.error .outOfBounds) position

def byte : CheckedReader Nat := unsigned 1

/-- The number at the front of the slice that begins at a position. -/
def unsignedFrom (width : Nat) (data : Bytes) (position : Nat) : Checked Nat := do
  let rest ← slice data position data.size
  valueAt (unsigned width) rest 0

def signed (width : Nat) : CheckedReader Int := do
  return twosComplement (8 * width) (← unsigned width)

/-- Moves to the next multiple of `alignment`. -/
def align (alignment : Nat) : CheckedReader Unit := do
  let position ← liftReader Reader.position
  let excess ← compute (remainder position alignment)
  let short ← compute (sub alignment excess)
  let padding ← compute (remainder short alignment)
  liftReader (Reader.skip padding)

def compressed : CheckedReader Nat := do
  let lead ← byte
  if lead < 0x80 then
    return lead
  else if lead < 0xC0 then
    return lead % 0x40 * 0x100 + (← byte)
  else if lead < 0xE0 then
    let rest ← liftReader (Reader.bytes 3)
    let high ← compute (byteAt rest 0)
    let middle ← compute (byteAt rest 1)
    let low ← compute (byteAt rest 2)
    return lead % 0x20 * 0x1000000 + high * 0x10000 + middle * 0x100 + low
  else
    liftReader (Reader.malformed (.compressedLead lead))

/-- A compressed signed integer. A set sign bit stands for the least number of the width. -/
def compressedSigned : CheckedReader Int := do
  let start ← liftReader Reader.position
  let value ← compressed
  let stop ← liftReader Reader.position
  let width ← compute (sub stop start)
  if value % 2 = 0 then
    return (value / 2 : Nat)
  else
    compute (addSigned 32 (-(1 <<< (Reader.payloadBits width - 1) : Nat)) (value / 2 : Nat))

/-- Runs a checked reader `count` times. -/
def times (m : CheckedReader α) : (count : Nat) → CheckedReader (List α)
  | 0 => pure []
  | count + 1 => do
      let first ← m
      let others ← times m count
      return first :: others

variable {data : Bytes} {start : Nat}

theorem unsigned_eq (width : Nat) : unsigned width = liftReader (Reader.unsigned width) := by
  funext data position
  rw [unsigned, liftReader, Reader.unsigned]
  by_cases hfits : position + width ≤ data.size
  · have hcut : position ≤ position + width ∧ position + width ≤ data.size := ⟨by omega, hfits⟩
    have hvalue := Bytes.littleEndian_extract hfits
      (show position + 0 + width ≤ position + width from Nat.le_refl _)
    rw [if_pos hfits, if_pos hfits, slice_eq hcut]
    show EStateM.Result.ok _ _ = _
    rw [hvalue]
    rfl
  · rw [if_neg hfits, if_neg hfits]
    rfl

theorem unsigned_valueAt {data : Bytes} {width position : Nat}
    (h : position + width ≤ data.size) :
    valueAt (unsigned width) data position = .ok (data.littleEndian position width) := by
  rw [unsigned_eq, valueAt, liftReader, Reader.unsigned, if_pos h]
  rfl

theorem unsigned_valueAt_outside {data : Bytes} {width position : Nat}
    (h : data.size < position + width) :
    valueAt (unsigned width) data position = fail .outOfBounds := by
  rw [unsigned_eq, valueAt, liftReader, Reader.unsigned, if_neg (Nat.not_le.2 h)]
  rfl

theorem unsignedFrom_eq {data : Bytes} {width position : Nat}
    (h : position + width ≤ data.size) :
    unsignedFrom width data position = .ok (data.littleEndian position width) := by
  have hcut : position ≤ data.size ∧ data.size ≤ data.size := by omega
  have hsize : 0 + width ≤ (data.extract position data.size).size := by
    rw [Array.size_extract]
    omega
  have hvalue : Bytes.littleEndian (data.extract position data.size) 0 width =
      data.littleEndian (position + 0) width :=
    Bytes.littleEndian_extract (Nat.le_refl data.size) h
  rw [unsignedFrom, slice_eq hcut, ok_bind, unsigned_valueAt hsize, hvalue, Nat.add_zero]

theorem follows_unsigned (width : Nat) :
    Follows data start (unsigned width) (Reader.unsigned width) := by
  rw [unsigned_eq]
  exact .lift (Reader.Sequential.unsigned width).forward

theorem follows_peek : Follows data start (liftReader Reader.peek) Reader.peek :=
  .lift Reader.Sequential.peek.forward

theorem follows_skip (count : Nat) :
    Follows data start (liftReader (Reader.skip count)) (Reader.skip count) :=
  .lift (Reader.Sequential.skip count).forward

theorem follows_bytes (count : Nat) :
    Follows data start (liftReader (Reader.bytes count)) (Reader.bytes count) :=
  .lift (Reader.Sequential.bytes count).forward

theorem follows_byte : Follows data start byte Reader.byte := follows_unsigned 1

theorem follows_signed (width : Nat) : Follows data start (signed width) (Reader.signed width) :=
  (follows_unsigned width).bind fun _ => .pure _

/-- A byte moves the position on. -/
theorem Follows.byte_bind {f : Nat → CheckedReader β} {g : Nat → Reader β}
    (hf : ∀ value, Follows data (start + 1) (f value) (g value)) :
    Follows data start (byte >>= f) (Reader.byte >>= g) := by
  refine follows_byte.bind_at fun position value next hstart hposition hout _ => ?_
  obtain ⟨rfl, -⟩ := Reader.Consumes.byte data position value next hposition hout
  exact ⟨start + 1, by omega, by omega, hf value⟩

theorem follows_align {alignment : Nat} (h : 0 < alignment) :
    Follows data start (align alignment) (Reader.align alignment) := by
  have hpadding : Follows data start (align alignment) (Reader.position >>= fun position =>
      Reader.skip ((alignment - position % alignment) % alignment)) := by
    refine .position fun place _ _ _ => ?_
    refine .compute (remainder_eq h) (.compute (sub_eq (Nat.le_of_lt (Nat.mod_lt _ h))) ?_)
    exact .compute (remainder_eq h) (follows_skip _)
  exact hpadding

theorem follows_compressed : Follows data start compressed Reader.compressed := by
  refine follows_byte.bind fun lead => ?_
  refine .ite (fun _ => .pure _) fun _ => ?_
  refine .ite (fun _ => follows_byte.bind fun _ => .pure _) fun _ => ?_
  refine .ite (fun _ => ?_) fun _ => .malformed _
  have hthree : Reader.Ensures (Reader.bytes 3) (·.size = 3) := by
    intro data position taken next hout
    obtain ⟨hinside, rfl, -⟩ := Reader.bytes_eq_ok.1 hout
    rw [Array.size_extract]
    omega
  refine (follows_bytes 3).bind_where hthree fun rest hsize => ?_
  have hindex (index : Nat) (h : index < 3) : byteAt rest index = .ok (rest.byteAt index) :=
    byteAt_eq (by omega)
  refine .compute (hindex 0 (by decide)) (.compute (hindex 1 (by decide)) ?_)
  exact .compute (hindex 2 (by decide)) (.pure _)

theorem follows_compressedSigned :
    Follows data start compressedSigned Reader.compressedSigned := by
  refine .position fun first _ _ _ => ?_
  refine follows_compressed.bind_where .compressed fun value hvalue => ?_
  refine .position fun stop hstop _ _ => .compute (sub_eq hstop) ?_
  have hbits : 1 <<< (Reader.payloadBits (stop - first) - 1) ≤ 0x10000000 := by
    unfold Reader.payloadBits
    split <;> decide
  rw [Reader.unrotate]
  generalize 1 <<< (Reader.payloadBits (stop - first) - 1) = half at hbits
  unfold maxCompressed at hvalue
  by_cases heven : value % 2 = 0
  · rw [if_pos heven, if_pos heven]
    exact .pure _
  · rw [if_neg heven, if_neg heven]
    have hfits : -2 ^ (32 - 1) ≤ -(half : Int) + (value / 2 : Nat) ∧
        -(half : Int) + (value / 2 : Nat) < 2 ^ (32 - 1) := by omega
    have hsum : ((value / 2 : Nat) : Int) - half = -half + (value / 2 : Nat) := by omega
    rw [hsum]
    have hword : addSigned 32 (-(half : Int)) (value / 2 : Nat) =
        Machine.lift (.ok (-(half : Int) + (value / 2 : Nat))) := addSigned_eq hfits
    exact .computed hword

theorem follows_times {m : CheckedReader α} {r : Reader α} (h : Follows data start m r)
    (count : Nat) : Follows data start (times m count) (Reader.times r count) := by
  induction count with
  | zero => exact .pure _
  | succ count ih => exact h.bind fun _ => ih.bind fun _ => .pure _

end CliMeta.Machine
