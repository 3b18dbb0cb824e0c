import CliMeta.Proofs.Image.Headers
import CliMeta.Proofs.Image.Loaded
import Mathlib.Tactic.Common

/-!
The address space of an executable. A read looks up where its first address is in the file and then
takes bytes of the file. Within what is mapped with one displacement a read is therefore the reads
of its parts; at the end of a section it goes on in the file, where the next address may be
elsewhere or nowhere.
-/

namespace CliMeta

open Reader

namespace Section

/-- What is added to an address to get its position in the file. -/
def displacement (s : Section) : Int :=
  (s.rawPointer : Int) - s.virtualAddress

/-- The address lies in what the section claims. -/
def Covers (s : Section) (rva : Nat) : Prop :=
  s.virtualAddress ≤ rva ∧ rva < s.virtualAddress + s.extent

instance (s : Section) (rva : Nat) : Decidable (s.Covers rva) :=
  inferInstanceAs (Decidable (_ ∧ _))

/-- The section ends at an address of 32 bits. -/
def EndsInside (s : Section) : Prop :=
  s.virtualAddress + s.extent < 0x100000000

instance (s : Section) : Decidable s.EndsInside :=
  inferInstanceAs (Decidable (_ < _))

theorem positionOf_eq {s : Section} {rva : Nat} (h : s.Covers rva) :
    (s.positionOf rva : Int) = rva + s.displacement := by
  have hstart := h.1
  simp only [positionOf, displacement]
  omega

end Section

namespace Executable

/-! ### The section of an address -/

/-- The section that maps an address: the first one that covers it, unless one in front of it does
not end inside the address space. -/
def sectionIn? (rva : Nat) : List Section → Option Section
  | [] => none
  | s :: sections =>
      if ¬s.EndsInside then none
      else if s.Covers rva then some s
      else sectionIn? rva sections

def sectionAt? (e : Executable) (rva : Nat) : Option Section :=
  sectionIn? rva e.sections

/-- The displacement of an address that is mapped. -/
def displacement? (e : Executable) (rva : Nat) : Option Int :=
  (e.sectionAt? rva).map Section.displacement

theorem sectionIn?_cons {rva : Nat} {s : Section} {sections : List Section} (h : s.EndsInside) :
    sectionIn? rva (s :: sections) = if s.Covers rva then some s else sectionIn? rva sections := by
  rw [sectionIn?, if_neg (not_not_intro h)]

theorem covers_of_sectionIn? {rva : Nat} {s : Section} {sections : List Section}
    (h : sectionIn? rva sections = some s) : s ∈ sections ∧ s.Covers rva := by
  induction sections with
  | nil => cases h
  | cons first sections ih =>
      rw [sectionIn?] at h
      split at h
      · cases h
      · split at h
        next hcovers =>
          cases h
          exact ⟨List.mem_cons_self, hcovers⟩
        next =>
          obtain ⟨hmem, hcovers⟩ := ih h
          exact ⟨List.mem_cons_of_mem _ hmem, hcovers⟩

/-- The position of an address is that in its section, and without a section there is none. -/
theorem positionIn_eq_ok {rva position : Nat} {sections : List Section} :
    positionIn rva sections = .ok position ↔
      ∃ s, sectionIn? rva sections = some s ∧ position = s.positionOf rva := by
  induction sections with
  | nil => simp [positionIn, sectionIn?]
  | cons first sections ih =>
      by_cases hend : first.EndsInside
      · have hinside : ¬0x100000000 ≤ first.virtualAddress + first.extent := Nat.not_le.2 hend
        rw [positionIn, sectionIn?_cons hend]
        simp only [if_neg hinside]
        by_cases hcovers : first.Covers rva
        · rw [if_pos hcovers, if_pos (show _ ∧ _ from hcovers)]
          simp [eq_comm]
        · rw [if_neg hcovers, if_neg (show ¬(_ ∧ _) from hcovers)]
          exact ih
      · have houtside : 0x100000000 ≤ first.virtualAddress + first.extent := Nat.not_lt.1 hend
        simp [positionIn, sectionIn?, houtside, hend]

variable {e : Executable} {rva length k m : Nat} {bytes : Bytes} {s : Section}

theorem position_eq_ok {position : Nat} :
    e.position rva = .ok position ↔
      ∃ displacement, e.displacement? rva = some displacement ∧
        (position : Int) = rva + displacement := by
  simp only [Executable.position, positionIn_eq_ok, displacement?, sectionAt?,
    Option.map_eq_some_iff]
  constructor
  · rintro ⟨s, hs, rfl⟩
    exact ⟨s.displacement, ⟨s, hs, rfl⟩, Section.positionOf_eq (covers_of_sectionIn? hs).2⟩
  · rintro ⟨_, ⟨s, hs, rfl⟩, hposition⟩
    refine ⟨s, hs, ?_⟩
    rw [← Section.positionOf_eq (covers_of_sectionIn? hs).2] at hposition
    exact Int.ofNat_inj.1 hposition

/-! ### Reads -/

theorem read_eq_ok :
    e.space.read rva length = .ok bytes ↔
      ∃ position, e.position rva = .ok position ∧ position + length ≤ e.data.size ∧
        bytes = e.data.extract position (position + length) := by
  simp only [space]
  cases hposition : e.position rva with
  | error error => simp
  | ok position =>
      by_cases hinside : position + length ≤ e.data.size
      · simp [Bytes.slice?, hinside, eq_comm]
      · simp [Bytes.slice?, hinside]

theorem position_add {position : Nat} (hmapped : e.displacement? (rva + k) = e.displacement? rva)
    (hposition : e.position rva = .ok position) : e.position (rva + k) = .ok (position + k) := by
  obtain ⟨displacement, hdisplacement, hsum⟩ := position_eq_ok.1 hposition
  refine position_eq_ok.2 ⟨displacement, ?_, ?_⟩
  · rw [hmapped, hdisplacement]
  · push_cast
    omega

/-- A read gives at each of its addresses what a read there gives, as long as the address is mapped
with the displacement of the first one. -/
theorem read_coherent (hread : e.space.read rva length = .ok bytes) (hend : k + m ≤ length)
    (hmapped : e.displacement? (rva + k) = e.displacement? rva) :
    e.space.read (rva + k) m = .ok (bytes.extract k (k + m)) := by
  obtain ⟨position, hposition, hinside, rfl⟩ := read_eq_ok.1 hread
  refine read_eq_ok.2 ⟨position + k, position_add hmapped hposition, by omega, ?_⟩
  rw [Array.extract_extract, Nat.min_eq_left (by omega), Nat.add_assoc]

/-- An executable with two sections. The first one is mapped at `0x2000` and ends in the file where
the second one begins, which is mapped at `0x4000`. The header of the runtime and the metadata are
in the first. -/
def neighbours : Bytes :=
  let fileHeader := [0x50, 0x45, 0, 0, 0x4C, 1, 2, 0] ++ zeros 12 ++ [0xE0, 0, 2, 0x21]
  let optionalHeader := [0x0B, 1, 8, 0, 0, 6] ++ zeros 15 ++ [0x20] ++ zeros 9 ++
    [0x10, 0, 0x20, 0, 0, 0, 2, 0, 0, 4, 0, 0, 0, 0, 0, 0, 0, 4] ++ zeros 8 ++
    [0x60, 0, 0, 0, 4, 0, 0, 0, 0, 0, 0, 3, 0, 0x40, 0x85, 0, 0, 0x10, 0, 0, 0x10, 0, 0, 0, 0, 0x10,
      0, 0, 0x10, 0, 0, 0, 0, 0, 0, 0x10, 0, 0, 0]
  let directories := zeros 112 ++ [0, 0x20, 0, 0, 0x48, 0, 0, 0] ++ zeros 8
  let first := [0x2E, 0x74, 0x65, 0x78, 0x74, 0, 0, 0] ++
    [0, 2, 0, 0, 0, 0x20, 0, 0, 0, 2, 0, 0, 0, 4] ++ zeros 14 ++ [0x20, 0, 0, 0x60]
  let second := [0x2E, 0x72, 0x73, 0x72, 0x63, 0, 0, 0] ++
    [0, 2, 0, 0, 0, 0x40, 0, 0, 0, 2, 0, 0, 0, 6] ++ zeros 14 ++ [0x40, 0, 0, 0x40]
  let clrHeader := [0x48, 0, 0, 0, 2, 0, 5, 0, 0x48, 0x20, 0, 0, 0x18, 0, 0, 0] ++ zeros 56
  let metadata := [0x42, 0x53, 0x4A, 0x42, 1, 0, 1, 0, 0, 0, 0, 0, 4, 0, 0, 0, 0x76, 0x34] ++
    zeros 6
  ([0x4D, 0x5A] ++ zeros 58 ++ [0x80, 0, 0, 0] ++ zeros 64 ++ fileHeader ++ optionalHeader ++
    directories ++ first ++ second ++ zeros 568 ++ clrHeader ++ metadata ++ zeros 415 ++ [0x11] ++
    [0x22] ++ zeros 511).toArray
where
  /-- A run of zero bytes. -/
  zeros (count : Nat) : List UInt8 := List.replicate count 0

theorem neighbours_reads :
    ∃ e, Executable.parse .plain neighbours = .ok e ∧
      e.space.read 0x2048 4 = .ok #[0x42, 0x53, 0x4A, 0x42] ∧
      e.displacement? 0x2049 = e.displacement? 0x2048 ∧
      e.space.read 0x21FF 2 = .ok #[0x11, 0x22] ∧
      e.space.read 0x2200 1 = .error (.imageRead 0x2200 1) := by
  have hruns : (Executable.parse .plain neighbours).map (fun e =>
      (e.space.read 0x2048 4, decide (e.displacement? 0x2049 = e.displacement? 0x2048),
        e.space.read 0x21FF 2, e.space.read 0x2200 1)) =
        .ok (.ok #[0x42, 0x53, 0x4A, 0x42], true, .ok #[0x11, 0x22],
          .error (.imageRead 0x2200 1)) := by
    decide +kernel
  obtain ⟨e, he, hvalues⟩ := exists_of_map_ok hruns
  simp only [Prod.mk.injEq, decide_eq_true_eq] at hvalues
  exact ⟨e, he, hvalues⟩

/-- The signature of the metadata lies inside a section, so that its last bytes are found alone. -/
theorem read_coherent_neighbours :
    ∃ e, Executable.parse .plain neighbours = .ok e ∧
      e.space.read 0x2048 4 = .ok #[0x42, 0x53, 0x4A, 0x42] ∧
      e.displacement? (0x2048 + 1) = e.displacement? 0x2048 ∧
      e.space.read (0x2048 + 1) 3 = .ok (#[0x42, 0x53, 0x4A, 0x42].extract 1 (1 + 3)) := by
  obtain ⟨e, he, hread, hmapped, -⟩ := neighbours_reads
  exact ⟨e, he, hread, hmapped, read_coherent hread (by decide) hmapped⟩

/-- A read that crosses the end of a section gives bytes that are not at the addresses it covers. -/
theorem neighbours_incoherent :
    ¬∀ parser : ExecutableParser, parser.YieldsSectionTable →
      ∀ (data : Bytes) (e : Executable) (rva length k m : Nat) (bytes : Bytes),
        Executable.parse parser data = .ok e → e.space.read rva length = .ok bytes → 1 ≤ m →
          k + m ≤ length → e.space.read (rva + k) m = .ok (bytes.extract k (k + m)) := by
  intro hcoherent
  obtain ⟨e, he, -, -, hread, hunmapped⟩ := neighbours_reads
  have hpart := hcoherent .plain ExecutableParser.plain_yieldsSectionTable neighbours e 0x21FF 2
    1 1 _ he hread (by decide) (by decide)
  rw [hunmapped] at hpart
  cases hpart

end Executable

end CliMeta
