import CliMeta.Proofs.Body.Extent
import CliMeta.Proofs.Reader.Written
import Mathlib.Algebra.Group.Nat.Defs
import Mathlib.Data.List.Chain

/-!
Loops over data sections. Both the search for the end of a body and the reading of its sections go
from section to section as the data tell them to. Here each is taken for what it is, a round that is
repeated until it gives a result, and it is shown to end whatever the data are: a round moves on by
four or more, in the search below the bound of 32-bit words, in the reading inside of the bytes. The
functions that are defined by recursion come to the results of these loops.
-/

namespace CliMeta

open Reader

/-! ### Loops -/

section

variable {σ ρ : Type} {round : σ → σ ⊕ ρ} {s : σ} {r : ρ} {states : List σ}

/-- A loop goes from a state through other states, one for each further round, to a result. A round
gives the state for the next one or the result. -/
inductive LoopRuns (round : σ → σ ⊕ ρ) : σ → List σ → ρ → Prop
  | last {s : σ} {r : ρ} (h : round s = .inr r) : LoopRuns round s [] r
  | next {s t : σ} {states : List σ} {r : ρ} (h : round s = .inl t)
      (others : LoopRuns round t states r) : LoopRuns round s (t :: states) r

/-- A loop ends if each round that is not the last lowers a number. -/
theorem LoopRuns.exists_of_measure (measure : σ → Nat)
    (h : ∀ s t, round s = .inl t → measure t < measure s) (s : σ) :
    ∃ states r, LoopRuns round s states r := by
  generalize hmeasure : measure s = bound
  induction bound using Nat.strongRecOn generalizing s with
  | ind bound ih =>
      cases hround : round s with
      | inr r => exact ⟨[], r, .last hround⟩
      | inl t =>
          obtain ⟨states, r, hothers⟩ := ih (measure t) (hmeasure ▸ h s t hround) t rfl
          exact ⟨t :: states, r, .next hround hothers⟩

/-- A function that is the same before and after a round comes to the result of the loop. -/
theorem LoopRuns.eq_result {f : σ → ρ}
    (hf : ∀ s, f s = (round s).elim f id) (h : LoopRuns round s states r) : f s = r := by
  induction h with
  | last h => rw [hf, h, Sum.elim_inr, id]
  | next h _ ih => rw [hf, h, Sum.elim_inl, ih]

theorem LoopRuns.isChain (h : LoopRuns round s states r) :
    (s :: states).IsChain fun before after => round before = .inl after := by
  induction h with
  | last h => exact .singleton _
  | next h _ ih => exact ih.cons_cons h

theorem LoopRuns.round_last (h : LoopRuns round s states r) :
    round (states.getLastD s) = .inr r := by
  induction h with
  | last h => exact h
  | next h _ ih => rwa [List.getLastD_cons]

end

namespace MethodBody

/-! ### The search for the end -/

section

variable {a : AddressSpace} {rva length next stop : Nat}

/-- One round of the search for the end of the sections. -/
def extentRound (a : AddressSpace) (rva length : Nat) : Nat ⊕ Except Error Nat :=
  if 0x100000000 ≤ length + 3 then .inr (.error (.malformed (.bodyTooLarge rva)))
  else
    match (readBehind a rva (alignedFrom length) SectionHeader.length).map SectionHeader.ofWord with
    | .error e => .inr (.error e)
    | .ok header =>
        if header.size < SectionHeader.length then
          .inr (checkLength rva (alignedFrom length + SectionHeader.length))
        else if 0x100000000 ≤ alignedFrom length + header.size then
          .inr (.error (.malformed (.bodyTooLarge rva)))
        else if header.hasMore then .inl (alignedFrom length + header.size)
        else .inr (.ok (alignedFrom length + header.size))

theorem sectionsExtent_eq_round (a : AddressSpace) (rva length : Nat) :
    sectionsExtent a rva length =
      (extentRound a rva length).elim (sectionsExtent a rva) id := by
  have haligned : (length + 3) / 4 * 4 = alignedFrom length := rfl
  rw [sectionsExtent, extentRound, haligned]
  split
  · rfl
  cases (readBehind a rva (alignedFrom length) SectionHeader.length).map SectionHeader.ofWord with
  | error e => rfl
  | ok header => dsimp only; split_ifs <;> rfl

theorem extentRound_next (h : extentRound a rva length = .inl next) :
    length + 4 ≤ next ∧ next < 2 ^ 32 := by
  have haligned := le_alignedFrom length
  rw [extentRound] at h
  split at h
  · cases h
  split at h
  · cases h
  rename_i header _
  split_ifs at h with hsmall hlarge hmore
  cases h
  rw [SectionHeader.length] at hsmall
  omega

theorem extentRound_ended (h : extentRound a rva length = .inr (.ok stop)) :
    length + 4 ≤ stop ∧ stop < 2 ^ 32 := by
  have haligned := le_alignedFrom length
  rw [extentRound] at h
  split at h
  · cases h
  split at h
  · cases h
  rename_i header _
  split_ifs at h with hsmall hlarge hmore
  · obtain ⟨hword, rfl⟩ := checkLength_eq_ok.1 (Sum.inr.inj h)
    rw [SectionHeader.length] at hword ⊢
    omega
  · cases h
  · cases h
    rw [SectionHeader.length] at hsmall
    omega

/-- A search from length to length that gives an outcome. -/
structure ExtentRun (a : AddressSpace) (rva length : Nat) (lengths : List Nat)
    (outcome : Except Error Nat) : Prop where
  runs : LoopRuns (extentRound a rva) length lengths outcome
  grows : (length :: lengths).IsChain fun before after => before + 4 ≤ after ∧ after < 2 ^ 32
  ends : ∀ stop, outcome = .ok stop → lengths.getLastD length + 4 ≤ stop ∧ stop < 2 ^ 32

theorem sectionsExtent_run (a : AddressSpace) (rva length : Nat) :
    ∃ lengths, ExtentRun a rva length lengths (sectionsExtent a rva length) := by
  -- what is left of the 32-bit words gets less with each round
  have hmeasure (before after : Nat) (h : extentRound a rva before = .inl after) :
      2 ^ 32 - after < 2 ^ 32 - before := by
    have hnext := extentRound_next h
    omega
  obtain ⟨lengths, outcome, hruns⟩ := LoopRuns.exists_of_measure _ hmeasure length
  obtain rfl := hruns.eq_result (sectionsExtent_eq_round a rva)
  refine ⟨lengths, hruns, List.IsChain.imp (fun _ _ => extentRound_next) hruns.isChain, ?_⟩
  intro stop hstop
  exact extentRound_ended (hstop ▸ hruns.round_last)

theorem extent_lt (h : extent a rva = .ok stop) : stop < 2 ^ 32 := by
  obtain ⟨first, -, h⟩ := exists_of_bind_ok h
  dsimp only at h
  split at h
  · cases h
    have hbyte := Bytes.byteAt_lt first 0
    omega
  · obtain ⟨header, -, h⟩ := exists_of_bind_ok h
    obtain ⟨length, hlength, h⟩ := exists_of_bind_ok h
    split at h
    · obtain ⟨lengths, hrun⟩ := sectionsExtent_run a rva length
      exact (hrun.ends stop h).2
    · cases h
      obtain ⟨hword, rfl⟩ := checkLength_eq_ok.1 hlength
      exact hword
  · cases h

end

end MethodBody

/-! ### The reading of the sections -/

namespace SectionHeader

/-- The number of clauses that are read in a section. -/
def clauseCount (h : SectionHeader) : Nat :=
  if h.holdsClauses then (h.size - length) / h.form.size else 0

theorem clausesReader_count (h : SectionHeader) :
    Ensures h.clausesReader fun clauses => clauses.length = h.clauseCount := by
  refine .ite (fun hholds => ?_) fun hholds => ?_
  · refine .bind ((Ensures.trivial _).times _) fun clauses hclauses => ?_
    refine .bind (.trivial _) fun _ _ => .pure ?_
    rw [clauseCount, if_pos hholds, hclauses.1]
  · refine .bind (.trivial _) fun _ _ => .pure ?_
    rw [clauseCount, if_neg hholds, List.length_nil]

theorem clauseCount_le (h : SectionHeader) : 12 * h.clauseCount ≤ h.size - length := by
  have hform : 12 ≤ h.form.size := by
    rw [form]
    split <;> decide
  rw [clauseCount]
  split
  · exact Nat.le_trans (Nat.mul_le_mul_right _ hform) (Nat.mul_div_le _ _)
  · exact Nat.zero_le _

end SectionHeader

namespace MethodBody

/-- What the reading has come to: the clauses so far, and the place. -/
structure SectionsState where
  clauses : List ExceptionClause
  position : Nat

section

variable {data : Bytes} {position stop : Nat} {clauses : List ExceptionClause}
  {header : SectionHeader} {s t : SectionsState}

/-- One round of the reading of sections. -/
def sectionRound (data : Bytes) (s : SectionsState) :
    SectionsState ⊕ EStateM.Result Error Nat (List ExceptionClause) :=
  match sectionReader data s.position with
  | .error e stop => .inr (.error e stop)
  | .ok (header, clauses) next =>
      if header.hasMore then .inl ⟨s.clauses ++ clauses, next⟩
      else .inr (.ok (s.clauses ++ clauses) next)

/-- The reading has moved over one section, up to the size that its header declares. -/
structure SectionRead (data : Bytes) (header : SectionHeader) (s t : SectionsState) : Prop where
  standing : SectionAt data (alignedFrom s.position) header
  position_eq : t.position = alignedFrom s.position + header.size
  length_eq : t.clauses.length = s.clauses.length + header.clauseCount

theorem sectionReader_count
    (h : sectionReader data position = .ok (header, clauses) stop) :
    clauses.length = header.clauseCount := by
  obtain ⟨_, _, -, h⟩ := bind_eq_ok.1 h
  obtain ⟨header', _, -, h⟩ := bind_eq_ok.1 h
  split at h
  · cases h
  obtain ⟨_, _, hclauses, h⟩ := bind_eq_ok.1 h
  cases h
  exact header.clausesReader_count _ _ _ _ hclauses

theorem SectionRead.of_reader
    (h : sectionReader data s.position = .ok (header, clauses) stop) :
    SectionRead data header s ⟨s.clauses ++ clauses, stop⟩ := by
  obtain ⟨hat, hstop⟩ := sectionReader_eq_ok.1 ⟨clauses, h⟩
  refine ⟨hat, hstop, ?_⟩
  rw [List.length_append, sectionReader_count h]

theorem sectionRound_next (h : sectionRound data s = .inl t) :
    ∃ header, SectionRead data header s t ∧ header.hasMore = true := by
  rw [sectionRound] at h
  split at h
  · cases h
  rename_i header clauses next hread
  split at h
  · rename_i hmore
    cases h
    exact ⟨header, .of_reader hread, hmore⟩
  · cases h

theorem sectionRound_ended (h : sectionRound data s = .inr (.ok clauses stop)) :
    ∃ header, SectionRead data header s ⟨clauses, stop⟩ ∧ header.hasMore = false := by
  rw [sectionRound] at h
  split at h
  · cases h
  rename_i header clauses next hread
  split at h
  · cases h
  · rename_i hmore
    cases h
    exact ⟨header, .of_reader hread, by simpa using hmore⟩

theorem SectionRead.bounds (h : SectionRead data header s t) :
    s.position + 4 ≤ t.position ∧ t.position ≤ data.size := by
  have haligned := le_alignedFrom s.position
  have hcovers := h.standing.covers
  have hinside := h.standing.inside
  rw [SectionHeader.length] at hcovers
  rw [h.position_eq]
  omega

theorem SectionRead.clauses_le (h : SectionRead data header s t) :
    12 * t.clauses.length + s.position ≤ 12 * s.clauses.length + t.position := by
  have haligned := le_alignedFrom s.position
  have hclauses := header.clauseCount_le
  rw [h.length_eq, h.position_eq]
  omega

/-- What the reading from a state on comes to, with a number of sections allowed. -/
def sectionsFrom (fuel : Nat) (data : Bytes) (s : SectionsState) :
    EStateM.Result Error Nat (List ExceptionClause) :=
  (sectionsReader fuel >>= fun others => pure (s.clauses ++ others)) data s.position

theorem sectionsFrom_succ (fuel : Nat) (data : Bytes) (s : SectionsState) :
    sectionsFrom (fuel + 1) data s = (sectionRound data s).elim (sectionsFrom fuel data) id := by
  rw [sectionsFrom, sectionsReader_succ, bind_assoc, bind_apply, sectionRound]
  cases sectionReader data s.position with
  | error e stop => rfl
  | ok first next =>
      obtain ⟨header, clauses⟩ := first
      dsimp only
      split
      · simp only [sectionsFrom, bind_assoc, pure_bind, Sum.elim_inl, List.append_assoc]
      · rw [pure_bind, pure_apply, Sum.elim_inr, id]

end

section

variable {data : Bytes} {position stop : Nat} {clauses : List ExceptionClause}
  {s : SectionsState} {states : List SectionsState}
  {outcome : EStateM.Result Error Nat (List ExceptionClause)}

/-- The bytes that are left are fuel enough to come to the result of the loop. -/
theorem sectionsFrom_eq_outcome (h : LoopRuns (sectionRound data) s states outcome) {fuel : Nat}
    (hfuel : data.size - s.position < fuel) : sectionsFrom fuel data s = outcome := by
  induction h generalizing fuel with
  | last h =>
      obtain ⟨fuel, rfl⟩ : ∃ n, fuel = n + 1 := ⟨fuel - 1, by omega⟩
      rw [sectionsFrom_succ, h, Sum.elim_inr, id]
  | next h _ ih =>
      obtain ⟨fuel, rfl⟩ : ∃ n, fuel = n + 1 := ⟨fuel - 1, by omega⟩
      obtain ⟨header, hread, -⟩ := sectionRound_next h
      have hbounds := hread.bounds
      rw [sectionsFrom_succ, h, Sum.elim_inl]
      exact ih (by omega)

/-- Each section that is begun has four bytes of its own. -/
theorem four_mul_sections_le (h : LoopRuns (sectionRound data) s states outcome) :
    4 * (s :: states).countP (fun s => alignedFrom s.position + 4 ≤ data.size) ≤
      data.size - s.position := by
  induction h with
  | @last s _ _ =>
      have haligned := le_alignedFrom s.position
      rw [List.countP_cons, List.countP_nil]
      simp only [decide_eq_true_eq]
      split <;> omega
  | @next s t states _ h _ ih =>
      obtain ⟨header, hread, -⟩ := sectionRound_next h
      have hbounds := hread.bounds
      have hone : (s :: t :: states).countP (fun s => alignedFrom s.position + 4 ≤ data.size) ≤
          (t :: states).countP (fun s => alignedFrom s.position + 4 ≤ data.size) + 1 := by
        rw [List.countP_cons]
        split <;> omega
      omega

theorem twelve_mul_clauses_le (h : LoopRuns (sectionRound data) s states outcome)
    (houtcome : outcome = .ok clauses stop) :
    12 * clauses.length + s.position ≤ 12 * s.clauses.length + data.size := by
  induction h with
  | last h =>
      obtain ⟨header, hread, -⟩ := sectionRound_ended (houtcome ▸ h)
      have hbounds := hread.bounds
      have hclauses := hread.clauses_le
      dsimp only at hbounds hclauses
      omega
  | next h _ ih =>
      obtain ⟨header, hread, -⟩ := sectionRound_next h
      have hclauses := hread.clauses_le
      have hothers := ih houtcome
      omega

/-- A reading from section to section that gives an outcome. -/
structure SectionsRun (data : Bytes) (position : Nat) (states : List SectionsState)
    (outcome : EStateM.Result Error Nat (List ExceptionClause)) : Prop where
  runs : LoopRuns (sectionRound data) ⟨[], position⟩ states outcome
  consumes : (⟨[], position⟩ :: states).IsChain fun s t =>
    ∃ header, SectionRead data header s t ∧ header.hasMore = true
  sections_le : 4 * (⟨[], position⟩ :: states).countP
    (fun s => alignedFrom s.position + 4 ≤ data.size) ≤ data.size - position
  ends : ∀ clauses stop, outcome = .ok clauses stop →
    (∃ header, SectionRead data header (states.getLastD ⟨[], position⟩) ⟨clauses, stop⟩ ∧
      header.hasMore = false) ∧
    12 * clauses.length ≤ data.size - position

theorem sectionsReader_run (data : Bytes) (position : Nat) :
    ∃ states, SectionsRun data position states
      (sectionsReader (data.size - position + 1) data position) := by
  have hmeasure (s t : SectionsState) (h : sectionRound data s = .inl t) :
      data.size - t.position < data.size - s.position := by
    obtain ⟨header, hread, -⟩ := sectionRound_next h
    have hbounds := hread.bounds
    omega
  obtain ⟨states, outcome, hruns⟩ := LoopRuns.exists_of_measure _ hmeasure ⟨[], position⟩
  have houtcome : sectionsReader (data.size - position + 1) data position = outcome := by
    rw [← sectionsFrom_eq_outcome hruns (Nat.lt_succ_self _), sectionsFrom]
    simp
  rw [houtcome]
  refine ⟨states, hruns, List.IsChain.imp (fun _ _ => sectionRound_next) hruns.isChain,
    four_mul_sections_le hruns, ?_⟩
  rintro clauses stop rfl
  have hclauses := twelve_mul_clauses_le hruns rfl
  simp only [List.length_nil] at hclauses
  exact ⟨sectionRound_ended hruns.round_last, by omega⟩

end

/-- The search for the end of a body and the reading of its sections come to an end over whatever
an image holds. The lengths in the search grow by four or more and stay 32-bit words; the sections
are read one by one, each over the size that it declares, and there are no more sections and clauses
than the bytes have room for. -/
theorem sections_end (a : AddressSpace) (rva : Nat) (data : Bytes) :
    (∀ length, ∃ lengths, ExtentRun a rva length lengths (sectionsExtent a rva length)) ∧
    (∀ stop, extent a rva = .ok stop → stop < 2 ^ 32) ∧
    (∀ position, ∃ states, SectionsRun data position states
      (sectionsReader (data.size - position + 1) data position)) ∧
    ∀ position header next,
      (∃ clauses, clauses.length = header.clauseCount ∧
        sectionReader data position = .ok (header, clauses) next) ↔
      SectionAt data (alignedFrom position) header ∧
        next = alignedFrom position + header.size := by
  refine ⟨sectionsExtent_run a rva, fun stop => extent_lt, sectionsReader_run data, ?_⟩
  intro position header next
  rw [← sectionReader_eq_ok]
  exact exists_congr fun clauses => and_iff_right_of_imp sectionReader_count

/-- A body with two sections. The first one begins behind three bytes that fill up a word, and five
bytes are left in it behind its clause; the second one is of another kind. -/
def bodyWithRest : Bytes :=
  #[0x0B, 0x30, 0x08, 0x00, 0x01, 0x00, 0x00, 0x00, 0x00, 0x00, 0x00, 0x00] ++ #[0x2A] ++
    #[0x00, 0x00, 0x00] ++ #[0x81, 0x15, 0x00, 0x00] ++
    #[0x00, 0x00, 0x00, 0x00, 0x01, 0x00, 0x00, 0x01, 0x01, 0x00, 0x00, 0x01] ++
    #[0x55, 0x55, 0x55, 0x55, 0x55] ++ #[0x00, 0x00, 0x00] ++ #[0x02, 0x06, 0x00, 0x00] ++
    #[0x55, 0x55]

theorem sections_end_bodyWithRest :
    (extent (.ofBuffer bodyWithRest) 0 = .ok 46 ∧ 46 < 2 ^ 32) ∧
    (∃ lengths, ExtentRun (.ofBuffer bodyWithRest) 0 13 lengths (.ok 46) ∧
      lengths.getLastD 13 + 4 ≤ 46) ∧
    (∃ states clauses, SectionsRun bodyWithRest 13 states (.ok clauses 46) ∧
      clauses.length = 1 ∧ 12 * clauses.length ≤ bodyWithRest.size - 13) ∧
    SectionAt bodyWithRest 16 ⟨⟨0x81⟩, 21⟩ ∧
      ∃ clauses, clauses.length = 1 ∧
        sectionReader bodyWithRest 13 = .ok (⟨⟨0x81⟩, 21⟩, clauses) 37 := by
  obtain ⟨hsearch, hextent, hreading, hsection⟩ :=
    sections_end (.ofBuffer bodyWithRest) 0 bodyWithRest
  have hfirst : extentRound (.ofBuffer bodyWithRest) 0 13 = .inl 37 := by decide +kernel
  have hsecond : extentRound (.ofBuffer bodyWithRest) 0 37 = .inr (.ok 46) := by decide +kernel
  have hlength : sectionsExtent (.ofBuffer bodyWithRest) 0 13 = .ok 46 := by
    rw [sectionsExtent_eq_round, hfirst, Sum.elim_inl, sectionsExtent_eq_round, hsecond]
    rfl
  have hwhole : extent (.ofBuffer bodyWithRest) 0 = .ok 46 := hlength
  have hat : SectionAt bodyWithRest 16 ⟨⟨0x81⟩, 21⟩ := ⟨by decide +kernel, by decide, by decide⟩
  have hread : sectionsReader (bodyWithRest.size - 13 + 1) bodyWithRest 13 =
      .ok [⟨⟨0⟩, ⟨0, 1⟩, ⟨0, 1⟩, 0x01000001⟩] 46 := by rfl
  refine ⟨⟨hwhole, hextent 46 hwhole⟩, ?_, ?_, hat, (hsection 13 _ _).2 ⟨hat, rfl⟩⟩
  · obtain ⟨lengths, hrun⟩ := hsearch 13
    rw [hlength] at hrun
    exact ⟨lengths, hrun, (hrun.ends 46 rfl).1⟩
  · obtain ⟨states, hrun⟩ := hreading 13
    rw [hread] at hrun
    exact ⟨states, _, hrun, rfl, (hrun.ends _ _ rfl).2⟩

end MethodBody

end CliMeta
