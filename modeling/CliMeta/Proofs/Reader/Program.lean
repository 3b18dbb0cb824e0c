import CliMeta.Proofs.Reader.Cursor

/-!
Programs over a cursor. A program asks a reader for one thing after the other, and what it asks for
next may depend on all that it has been told; parts of it can be attempts, one inside the other,
which go back to where they began if they fail. Whatever a program does, no step takes the position
out of the buffer. A request is answered exactly where the buffer has what it asks for, and a read
moves over the bytes that it takes its value from. A step that fails does not move, except for a
compressed integer, which may stay behind its lead byte.
-/

namespace CliMeta

namespace Reader

/-! ### Requests -/

inductive Answer where
  | done
  | flag (value : Bool)
  | number (value : Int)
  | bytes (value : Bytes)
  | text (value : String)
  deriving DecidableEq, Repr

/-- What a program can ask for. -/
inductive Request where
  | unsigned (width : Nat)
  | signed (width : Nat)
  | bytes (count : Nat)
  | compressed
  | compressedSigned
  | text
  | seek (target : Nat)
  | skip (count : Nat)
  | align (alignment : Nat)
  | peek
  | position
  | remaining
  | atEnd
  | buffer
  deriving DecidableEq, Repr

namespace Request

def reader : Request → Reader Answer
  | unsigned width => do return .number (← Reader.unsigned width)
  | signed width => do return .number (← Reader.signed width)
  | bytes count => do return .bytes (← Reader.bytes count)
  | compressed => do return .number (← Reader.compressed)
  | compressedSigned => do return .number (← Reader.compressedSigned)
  | text => do return .text (← Reader.text)
  | seek target => do let _ ← Reader.seek target; return .done
  | skip count => do let _ ← Reader.skip count; return .done
  | align alignment => do let _ ← Reader.align alignment; return .done
  | peek => do return .number (← Reader.peek)
  | position => do return .number (← Reader.position)
  | remaining => do return .number (← Reader.remaining)
  | atEnd => do return .flag (← Reader.atEnd)
  | buffer => do return .bytes (← Reader.buffer)

/-- The requests that read bytes and move over them. -/
def isRead : Request → Bool
  | unsigned _ | signed _ | bytes _ | compressed | compressedSigned | text => true
  | _ => false

def isCompressed : Request → Bool
  | compressed | compressedSigned => true
  | _ => false

/-- Where a request leaves the position, if the buffer has what it asks for. -/
def Lands (data : Bytes) (start next : Nat) : Request → Prop
  | unsigned count | signed count | bytes count | skip count => next = start + count
  | compressed | compressedSigned =>
      ∃ width, announcedWidth? (data.byteAt start) = some width ∧ next = start + width
  | text => ∃ name value, TextAt data start name next ∧ Utf8.decode name.toArray = .ok value
  | seek target => next = target
  | align alignment => start ≤ next ∧ next < start + alignment ∧ alignment ∣ next
  | peek => next = start ∧ start < data.size
  | position | remaining | atEnd | buffer => next = start

variable {data : Bytes} {start next : Nat}

theorem reader_inside (request : Request) : request.reader.Inside := by
  cases request with
  | unsigned width => exact (Sequential.unsigned width).forward.inside.map _
  | signed width => exact (Sequential.signed width).forward.inside.map _
  | bytes count => exact (Sequential.bytes count).forward.inside.map _
  | compressed => exact Sequential.compressed.forward.inside.map _
  | compressedSigned => exact Sequential.compressedSigned.forward.inside.map _
  | text => exact Inside.text.map _
  | seek target => exact (Inside.seek target).map _
  | skip count => exact (Sequential.skip count).forward.inside.map _
  | align alignment => exact (Contained.align alignment).forward.inside.map _
  | peek => exact Sequential.peek.forward.inside.map _
  | position | remaining | atEnd | buffer => exact fun data position h => h

theorem reader_readsAlone {request : Request} (h : request.isRead = true) :
    request.reader.ReadsAlone := by
  cases request with
  | unsigned width => exact (ReadsAlone.unsigned width).map _
  | signed width => exact ((ReadsAlone.unsigned width).map _).map _
  | bytes count => exact (ReadsAlone.bytes count).map _
  | compressed => exact ReadsAlone.compressed.map _
  | compressedSigned => exact ReadsAlone.compressedSigned.map _
  | text => exact ReadsAlone.text.map _
  | _ => cases h

theorem reader_rewinds {request : Request} (h : request.isCompressed = false) :
    request.reader.Rewinds := by
  cases request with
  | unsigned width => exact (Rewinds.unsigned width).map _
  | signed width => exact ((Rewinds.unsigned width).map _).map _
  | bytes count => exact (Rewinds.bytes count).map _
  | text => exact Rewinds.text.map _
  | seek target => exact (Rewinds.seek target).map _
  | skip count => exact (Rewinds.skip count).map _
  | align alignment => exact (Rewinds.align alignment).map _
  | peek => exact Rewinds.peek.map _
  | position | remaining | atEnd | buffer =>
      intro data position e next hfailed
      cases hfailed
  | compressed | compressedSigned => cases h

/-- A request that fails does not move, or it is for a compressed integer and stays behind the lead
byte. -/
theorem reader_failed {request : Request} {e : Error}
    (h : request.reader data start = .error e next) :
    next = start ∨ request.isCompressed = true ∧ next = start + 1 := by
  cases hcompressed : request.isCompressed with
  | false => exact .inl (reader_rewinds hcompressed data start e next h)
  | true =>
      cases request with
      | compressed =>
          exact ((announced_compressed data start).failed (map_eq_error.1 h)).imp_right (⟨rfl, ·⟩)
      | compressedSigned =>
          exact ((announced_compressedSigned data start).failed (map_eq_error.1 h)).imp_right
            (⟨rfl, ·⟩)
      | _ => cases hcompressed

/-- A request is answered exactly where it can leave the position inside of the buffer. -/
theorem reader_lands_iff {request : Request} (hstart : start ≤ data.size)
    (hrequest : request ≠ .align 0) :
    (∃ answer, request.reader data start = .ok answer next) ↔
      request.Lands data start next ∧ next ≤ data.size := by
  have hsized {count : Nat} :
      start + count ≤ data.size ∧ next = start + count ↔
        next = start + count ∧ next ≤ data.size := by
    omega
  cases request with
  | unsigned width =>
      refine exists_map_eq_ok.trans (Iff.trans ?_ hsized)
      simp [unsigned_eq_ok]
  | signed width =>
      refine exists_map_eq_ok.trans (exists_map_eq_ok.trans (Iff.trans ?_ hsized))
      simp [unsigned_eq_ok]
  | bytes count =>
      refine exists_map_eq_ok.trans (Iff.trans ?_ hsized)
      simp [bytes_eq_ok]
  | compressed => exact exists_map_eq_ok.trans (announced_compressed data start).lands_iff
  | compressedSigned =>
      exact exists_map_eq_ok.trans (announced_compressedSigned data start).lands_iff
  | text =>
      refine exists_map_eq_ok.trans ?_
      simp only [text_eq_ok hstart]
      constructor
      · rintro ⟨value, name, hname, hdecode⟩
        exact ⟨⟨name, value, hname, hdecode⟩, hname.le_size.2⟩
      · rintro ⟨⟨name, value, hname, hdecode⟩, -⟩
        exact ⟨value, name, hname, hdecode⟩
  | seek target =>
      refine exists_map_eq_ok.trans ?_
      simp only [seek_eq_ok, exists_const, Lands]
      omega
  | skip count =>
      refine exists_map_eq_ok.trans (Iff.trans ?_ hsized)
      simp [skip_eq_ok]
  | align alignment =>
      have hpos : 0 < alignment := Nat.pos_of_ne_zero fun h => hrequest (h ▸ rfl)
      refine exists_map_eq_ok.trans ?_
      simp only [align_lands_iff hpos, exists_const]
      rfl
  | peek =>
      refine exists_map_eq_ok.trans (peek_lands_iff.trans ?_)
      simp only [Lands]
      omega
  | position | remaining | atEnd | buffer =>
      constructor
      · rintro ⟨answer, hout⟩
        cases hout
        exact ⟨rfl, hstart⟩
      · rintro ⟨rfl, -⟩
        exact ⟨_, rfl⟩

end Request

/-! ### Programs -/

/-- A program goes on with what has come of its last request or attempt, an error included. -/
inductive Program where
  | finish (outcome : Except Error Answer)
  | ask (request : Request) (rest : Except Error Answer → Program)
  | attempt (block : Program) (rest : Except Error Answer → Program)

inductive Action where
  | request (request : Request)
  | attempt
  deriving DecidableEq, Repr

/-- A step of a run: what is done, where the position is before it and what comes of it. -/
structure Step where
  action : Action
  start : Nat
  outcome : EStateM.Result Error Nat Answer

namespace Program

def reader : Program → Reader Answer
  | finish outcome => ofExcept outcome
  | ask request rest => fun data position =>
      (rest (request.reader.valueAt data position)).reader data
        (stop (request.reader data position))
  | attempt block rest => fun data position =>
      (rest (block.reader.attempt.valueAt data position)).reader data
        (stop (block.reader.attempt data position))

/-- The steps of a run, those of an attempt in front of the attempt as a whole. -/
def steps (data : Bytes) : Program → (position : Nat) → List Step
  | finish _, _ => []
  | ask request rest, position =>
      ⟨.request request, position, request.reader data position⟩ ::
        (rest (request.reader.valueAt data position)).steps data
          (stop (request.reader data position))
  | attempt block rest, position =>
      block.steps data position ++
        ⟨.attempt, position, block.reader.attempt data position⟩ ::
          (rest (block.reader.attempt.valueAt data position)).steps data
            (stop (block.reader.attempt data position))

/-- A run ends where its last step has ended. -/
theorem stop_reader (data : Bytes) (program : Program) (position : Nat) :
    stop (program.reader data position) =
      ((program.steps data position).getLast?.map fun s => stop s.outcome).getD position := by
  induction program generalizing position with
  | finish outcome => cases outcome <;> rfl
  | ask request rest ih =>
      rw [reader, steps, ih, List.getLast?_cons]
      cases (steps data _ _).getLast? <;> rfl
  | attempt block rest _ ih =>
      rw [reader, steps, ih, List.getLast?_append, List.getLast?_cons]
      cases (steps data _ _).getLast? <;> rfl

theorem reader_inside (program : Program) : program.reader.Inside := by
  induction program with
  | finish outcome => exact (Sequential.ofExcept outcome).forward.inside
  | ask request rest ih =>
      intro data position h
      exact ih _ data _ (request.reader_inside data position h)
  | attempt block rest ihBlock ihRest =>
      intro data position h
      exact ihRest _ data _ (ihBlock.attempt data position h)

end Program

/-! ### The discipline -/

/-- What every step keeps to. -/
structure Step.Disciplined (data : Bytes) (s : Step) : Prop where
  begun : s.start ≤ data.size
  inside : stop s.outcome ≤ data.size
  /-- The position and what is left make up the buffer. -/
  left : ∃ left, Reader.remaining data (stop s.outcome) = .ok left (stop s.outcome) ∧
    stop s.outcome + left = data.size
  /-- A request is answered exactly where the buffer has what it asks for. -/
  lands : ∀ request next, s.action = .request request → request ≠ .align 0 →
    ((∃ answer, s.outcome = .ok answer next) ↔ request.Lands data s.start next ∧ next ≤ data.size)
  /-- A read moves over the bytes that it takes, and these alone give the same answer. -/
  taken : ∀ request answer next, s.action = .request request → request.isRead = true →
    s.outcome = .ok answer next → s.start ≤ next ∧
      request.reader (data.extract s.start next) 0 = .ok answer (next - s.start)
  failed : ∀ e next, s.outcome = .error e next → next = s.start ∨
    (∃ request, s.action = .request request ∧ request.isCompressed = true) ∧ next = s.start + 1

theorem exists_remaining {data : Bytes} {position : Nat} (h : position ≤ data.size) :
    ∃ left, Reader.remaining data position = .ok left position ∧ position + left = data.size :=
  ⟨data.size - position, rfl, Nat.add_sub_cancel' h⟩

theorem Request.disciplined {data : Bytes} {start : Nat} (request : Request)
    (h : start ≤ data.size) :
    Step.Disciplined data ⟨.request request, start, request.reader data start⟩ where
  begun := h
  inside := request.reader_inside data start h
  left := exists_remaining (request.reader_inside data start h)
  lands := by
    rintro _ next ⟨⟩ hrequest
    exact reader_lands_iff h hrequest
  taken := by
    rintro _ answer next ⟨⟩ hread hout
    exact reader_readsAlone hread data start answer next h hout
  failed := by
    intro e next hout
    exact (reader_failed hout).imp_right fun hlead => ⟨⟨request, rfl, hlead.1⟩, hlead.2⟩

theorem Program.attempt_disciplined {data : Bytes} {start : Nat} (block : Program)
    (h : start ≤ data.size) :
    Step.Disciplined data ⟨.attempt, start, block.reader.attempt data start⟩ where
  begun := h
  inside := block.reader_inside.attempt data start h
  left := exists_remaining (block.reader_inside.attempt data start h)
  lands := nofun
  taken := nofun
  failed e next hout := .inl (Rewinds.attempt block.reader data start e next hout)

/-- From a position in the buffer on, every step of a run keeps to the discipline, and so does every
step inside of its attempts. -/
theorem Program.disciplined_from {data : Bytes} (program : Program) {position : Nat}
    (h : position ≤ data.size) : ∀ s ∈ program.steps data position, s.Disciplined data := by
  induction program generalizing position with
  | finish outcome => exact List.forall_mem_nil _
  | ask request rest ih =>
      exact List.forall_mem_cons.2 ⟨request.disciplined h, ih _ (request.reader_inside _ _ h)⟩
  | attempt block rest ihBlock ihRest =>
      refine List.forall_mem_append.2 ⟨ihBlock h, List.forall_mem_cons.2 ⟨?_, ?_⟩⟩
      · exact block.attempt_disciplined h
      · exact ihRest _ (block.reader_inside.attempt _ _ h)

/-- Every step of a program that is run from the front of a buffer keeps to the discipline, and the
run ends where the last of them has ended. -/
theorem Program.steps_disciplined (data : Bytes) (program : Program) :
    (∀ s ∈ program.steps data 0, s.Disciplined data) ∧
      stop (program.reader data 0) =
        ((program.steps data 0).getLast?.map fun s => stop s.outcome).getD 0 :=
  ⟨program.disciplined_from (Nat.zero_le _), program.stop_reader data 0⟩

def nestedBytes : Bytes := #[0x2A, 0x81, 0x02, 0x41, 0x00, 0xE0]

/-- A program with an attempt inside of another one. The inner attempt fails behind a text, the outer
one behind a lead byte without a meaning. -/
def nestedAttempts : Program :=
  .ask (.unsigned 1) fun _ =>
    .attempt
      (.ask .compressed fun _ =>
        .attempt (.ask .text fun _ => .ask (.unsigned 4) .finish) fun _ =>
          .ask .text fun _ => .ask .compressed .finish)
      fun _ => .ask (.bytes 2) .finish

theorem Program.steps_disciplined_nestedAttempts :
    ((nestedAttempts.steps nestedBytes 0).map fun s => (s.start, stop s.outcome)) =
        [(0, 1), (1, 3), (3, 5), (5, 5), (3, 3), (3, 5), (5, 6), (1, 1), (1, 3)] ∧
      stop (nestedAttempts.reader nestedBytes 0) = 3 ∧
      ∃ s ∈ nestedAttempts.steps nestedBytes 0, s.action = .request .compressed ∧ s.start = 5 ∧
        stop s.outcome = 6 ∧ s.Disciplined nestedBytes := by
  obtain ⟨hsteps, hstop⟩ := steps_disciplined nestedBytes nestedAttempts
  have hplaces : ((nestedAttempts.steps nestedBytes 0).map fun s => (s.start, stop s.outcome)) =
      [(0, 1), (1, 3), (3, 5), (5, 5), (3, 3), (3, 5), (5, 6), (1, 1), (1, 3)] := by
    decide +kernel
  have hlead : (nestedAttempts.steps nestedBytes 0)[6]?.map
      (fun s => (s.action, s.start, stop s.outcome)) = some (.request .compressed, 5, 6) := by
    decide +kernel
  obtain ⟨s, hs, hfacts⟩ := Option.map_eq_some_iff.1 hlead
  simp only [Prod.mk.injEq] at hfacts
  obtain ⟨haction, hstart, hend⟩ := hfacts
  have hmem := List.mem_of_getElem? hs
  exact ⟨hplaces, by rw [hstop]; decide +kernel, s, hmem, haction, hstart, hend, hsteps s hmem⟩

end Reader

end CliMeta
