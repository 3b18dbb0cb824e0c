import CliMeta.Proofs.Body.Sections

/-!
The written form of a method body. A tiny body is its code behind one byte. A fat one has a header,
which may be longer than its known fields, then the code, and then data sections, each of them
filled up in front to a multiple of four and each but the last with the mark that another follows.
-/

namespace CliMeta

/-! ### Clauses -/

namespace CodeRegion

structure Fits (f : ClauseForm) (r : CodeRegion) : Prop where
  offset : r.offset < 1 <<< (8 * f.offset)
  length : r.length < 1 <<< (8 * f.length)

instance (f : ClauseForm) (r : CodeRegion) : Decidable (r.Fits f) :=
  decidable_of_iff (r.offset < 1 <<< (8 * f.offset) ∧ r.length < 1 <<< (8 * f.length))
    ⟨fun ⟨hoffset, hlength⟩ => ⟨hoffset, hlength⟩, fun h => ⟨h.offset, h.length⟩⟩

def encode (f : ClauseForm) (r : CodeRegion) : List UInt8 :=
  littleEndianBytes r.offset f.offset ++ littleEndianBytes r.length f.length

end CodeRegion

namespace ExceptionClause

/-- The form has room for the clause, whose flags all have a meaning. -/
structure Fits (f : ClauseForm) (c : ExceptionClause) : Prop where
  flags : c.flags.bits < 0x10
  tryRegion : c.tryRegion.Fits f
  handler : c.handler.Fits f
  subject : c.subject < 1 <<< (8 * 4)

instance (f : ClauseForm) (c : ExceptionClause) : Decidable (c.Fits f) :=
  decidable_of_iff (c.flags.bits < 0x10 ∧ c.tryRegion.Fits f ∧ c.handler.Fits f ∧
      c.subject < 1 <<< (8 * 4))
    ⟨fun ⟨hflags, htry, hhandler, hsubject⟩ => ⟨hflags, htry, hhandler, hsubject⟩,
      fun h => ⟨h.flags, h.tryRegion, h.handler, h.subject⟩⟩

def encode (f : ClauseForm) (c : ExceptionClause) : List UInt8 :=
  littleEndianBytes c.flags.bits f.flags ++
    (c.tryRegion.encode f ++ (c.handler.encode f ++ littleEndianBytes c.subject 4))

theorem encode_length (f : ClauseForm) (c : ExceptionClause) : (c.encode f).length = f.size := by
  simp only [encode, CodeRegion.encode, List.length_append, littleEndianBytes_length,
    ClauseForm.size]
  omega

theorem encodeAll_length (f : ClauseForm) (clauses : List ExceptionClause) :
    (clauses.flatMap (encode f)).length = clauses.length * f.size := by
  induction clauses with
  | nil => simp
  | cons c clauses ih =>
      rw [List.flatMap_cons, List.length_append, encode_length, ih, List.length_cons, Nat.succ_mul,
        Nat.add_comm]

end ExceptionClause

/-! ### Data sections -/

/-- The two forms of a section. Behind its one byte of size, a small one has two without a
meaning. -/
inductive SectionForm where
  | small (unused unused' : UInt8)
  | fat

namespace SectionForm

def isFat : SectionForm → Bool
  | .small _ _ => false
  | .fat => true

/-- The form of the clauses that a section of this form may hold. -/
def clauses : SectionForm → ClauseForm
  | .small _ _ => .small
  | .fat => .fat

/-- The bytes that the size takes up. -/
def sizeWidth : SectionForm → Nat
  | .small _ _ => 1
  | .fat => 3

end SectionForm

/-- What a section holds behind its header. -/
inductive SectionContent where
  /-- Clauses, and bytes that are too few for one more. -/
  | clauses (all : List ExceptionClause) (leftover : List UInt8)
  /-- Bytes of another kind of section. -/
  | other (payload : List UInt8)

namespace SectionContent

def holdsClauses : SectionContent → Bool
  | .clauses _ _ => true
  | .other _ => false

/-- The clauses that are found in the section. -/
def listed : SectionContent → List ExceptionClause
  | .clauses all _ => all
  | .other _ => []

def encode (f : ClauseForm) : SectionContent → List UInt8
  | .clauses all leftover => all.flatMap (ExceptionClause.encode f) ++ leftover
  | .other payload => payload

def Fits (f : ClauseForm) : SectionContent → Prop
  | .clauses all leftover => (∀ c ∈ all, c.Fits f) ∧ leftover.length < f.size
  | .other _ => True

instance (f : ClauseForm) : (content : SectionContent) → Decidable (content.Fits f)
  | .clauses all leftover =>
      inferInstanceAs (Decidable ((∀ c ∈ all, c.Fits f) ∧ leftover.length < f.size))
  | .other _ => inferInstanceAs (Decidable True)

end SectionContent

structure DataSection where
  form : SectionForm
  content : SectionContent
  /-- The flags between that of clauses and that of the form, of which none counts. -/
  unused : Fin 32
  fits : content.Fits form.clauses
  size_lt : SectionHeader.length + (content.encode form.clauses).length <
    1 <<< (8 * form.sizeWidth)

/-- The byte of the flags of a section. -/
def SectionHeader.flagByte (holdsClauses isFat hasMore : Bool) (unused : Fin 32) : Nat :=
  holdsClauses.toNat + 2 * unused + 0x40 * isFat.toNat + 0x80 * hasMore.toNat

namespace DataSection

def payload (s : DataSection) : List UInt8 :=
  s.content.encode s.form.clauses

def size (s : DataSection) : Nat :=
  SectionHeader.length + s.payload.length

def flagByte (s : DataSection) (hasMore : Bool) : Nat :=
  SectionHeader.flagByte s.content.holdsClauses s.form.isFat hasMore s.unused

/-- The bytes of the header behind the flags. -/
def sizeBytes (s : DataSection) : List UInt8 :=
  match s.form with
  | .small unused unused' => littleEndianBytes s.size 1 ++ [unused, unused']
  | .fat => littleEndianBytes s.size 3

def headerBytes (s : DataSection) (hasMore : Bool) : List UInt8 :=
  UInt8.ofNat (s.flagByte hasMore) :: s.sizeBytes

/-- The bytes that fill up to a multiple of four from a position on. -/
def fillBytes (fill : Nat → UInt8) (position : Nat) : List UInt8 :=
  (List.range' position (alignedFrom position - position)).map fill

/-- Sections one behind the other, the first of them to be written at a position. -/
def encodeFrom (fill : Nat → UInt8) : (position : Nat) → List DataSection → List UInt8
  | _, [] => []
  | position, s :: others =>
      fillBytes fill position ++ (s.headerBytes (!others.isEmpty) ++
        (s.payload ++ encodeFrom fill (alignedFrom position + s.size) others))

theorem headerBytes_length (s : DataSection) (hasMore : Bool) :
    (s.headerBytes hasMore).length = SectionHeader.length := by
  rw [headerBytes, sizeBytes]
  cases s.form <;> simp [SectionHeader.length]

theorem fillBytes_length (fill : Nat → UInt8) (position : Nat) :
    position + (fillBytes fill position).length = alignedFrom position := by
  have hle := le_alignedFrom position
  simp [fillBytes]
  omega

/-- Every section takes up bytes. -/
theorem length_le_encodeFrom (fill : Nat → UInt8) (position : Nat) (sections : List DataSection) :
    sections.length ≤ (encodeFrom fill position sections).length := by
  induction sections generalizing position with
  | nil => exact Nat.zero_le _
  | cons s others ih =>
      have hothers := ih (alignedFrom position + s.size)
      have hheader := s.headerBytes_length (!others.isEmpty)
      simp only [encodeFrom, List.length_append, List.length_cons, hheader, SectionHeader.length]
      omega

end DataSection

/-! ### Bodies -/

/-- A body with a fat header, as it is stored. -/
structure FatBody where
  flags : Flags .methodBodyFlags
  /-- Flags without a meaning. -/
  unused : Nat
  maxStack : UInt16
  locals : UInt32
  /-- What the header holds behind its known fields. -/
  extra : List UInt8
  code : List UInt8
  sections : List DataSection
  /-- What the gaps in front of the sections are filled with, by position. -/
  fill : Nat → UInt8
  flags_fat : flags.bits % 4 = 3
  flags_named : flags.truncate = flags
  flags_sections : MethodBody.hasSections flags = !sections.isEmpty
  unused_lt : unused < 0x1000
  unused_apart : (⟨unused⟩ : Flags .methodBodyFlags).truncate = ⟨0⟩
  extra_words : extra.length % 4 = 0
  extra_le : extra.length ≤ 48
  code_lt : code.length < 0x100000000

namespace FatBody

def headerSize (b : FatBody) : Nat :=
  MethodBody.fatHeaderSize + b.extra.length

/-- The flags and, in the highest four bits, the size of the header in words of four bytes. -/
def word (b : FatBody) : Nat :=
  (b.flags.bits ||| b.unused) + b.headerSize / 4 * 0x1000

def headerBytes (b : FatBody) : List UInt8 :=
  littleEndianBytes b.word 2 ++ (littleEndianBytes b.maxStack.toNat 2 ++
    (littleEndianBytes b.code.length 4 ++ (littleEndianBytes b.locals.toNat 4 ++ b.extra)))

/-- The sections, which begin at the first multiple of four behind the code. -/
def sectionBytes (b : FatBody) : List UInt8 :=
  DataSection.encodeFrom b.fill (b.headerSize + b.code.length) b.sections

def encode (b : FatBody) : List UInt8 :=
  b.headerBytes ++ (b.code ++ b.sectionBytes)

theorem headerBytes_length (b : FatBody) : b.headerBytes.length = b.headerSize := by
  simp only [headerBytes, List.length_append, littleEndianBytes_length, headerSize,
    MethodBody.fatHeaderSize]
  omega

/-- The clauses of all sections in their order. -/
def clauses (b : FatBody) : List ExceptionClause :=
  b.sections.flatMap (·.content.listed)

end FatBody

/-- Three bytes of code behind a header of four words, and behind them a section of no known kind
and one with a clause and a byte left over. -/
def FatBody.guarded : FatBody where
  flags := ⟨0x1B⟩
  unused := 0x20
  maxStack := 2
  locals := 0x11000001
  extra := [0xA0, 0xA1, 0xA2, 0xA3]
  code := [0x00, 0xDC, 0x2A]
  sections :=
    [⟨.small 0xB0 0xB1, .other [0xC0], 1, by decide, by decide⟩,
      ⟨.fat, .clauses [⟨⟨2⟩, ⟨0, 1⟩, ⟨1, 1⟩, 0⟩] [0xC1], 0, by decide, by decide⟩]
  fill _ := 0xFF
  flags_fat := rfl
  flags_named := rfl
  flags_sections := rfl
  unused_lt := by decide
  unused_apart := rfl
  extra_words := rfl
  extra_le := by decide
  code_lt := by decide

example : FatBody.guarded.encode =
    [0x3B, 0x40, 2, 0, 3, 0, 0, 0, 0x01, 0, 0, 0x11, 0xA0, 0xA1, 0xA2, 0xA3, 0x00, 0xDC, 0x2A] ++
      [0xFF, 0x82, 5, 0xB0, 0xB1, 0xC0] ++
      [0xFF, 0xFF, 0xFF, 0x41, 29, 0, 0, 2, 0, 0, 0, 0, 0, 0, 0, 1, 0, 0, 0, 1, 0, 0, 0,
        1, 0, 0, 0, 0, 0, 0, 0, 0xC1] := by
  decide

/-- A body as it is stored. -/
inductive StoredBody where
  | tiny (code : List UInt8) (code_lt : code.length < 64)
  | fat (body : FatBody)

namespace StoredBody

def code : StoredBody → List UInt8
  | .tiny code _ => code
  | .fat body => body.code

def encode : StoredBody → List UInt8
  | .tiny code _ => UInt8.ofNat (4 * code.length + 2) :: code
  | .fat body => body.encode

/-- What is to be read from a stored body. -/
def body : StoredBody → MethodBody
  | .tiny code _ => ⟨.tiny, ⟨2⟩, 1, code.length, MethodBody.tinyMaxStack, ⟨0⟩, []⟩
  | .fat b =>
      ⟨.fat, b.flags, b.headerSize, b.code.length, b.maxStack.toNat, ⟨b.locals.toNat⟩, b.clauses⟩

end StoredBody

end CliMeta
