import CliMeta.Flags
import CliMeta.Reader

/-!
Exception clauses: a protected region of the code and the region that handles what leaves it. A
clause is stored in a small form or in a fat one, which differ in the widths of their fields.
-/

namespace CliMeta

inductive ClauseKind where
  /-- Catches exceptions of a type. -/
  | typed
  /-- Catches exceptions that a filter accepts. -/
  | filter
  /-- Runs whenever control leaves the region. -/
  | final
  /-- Runs when an exception leaves the region. -/
  | fault
  deriving DecidableEq, Repr

def ClauseKind.name : ClauseKind → String
  | .typed => "Catch"
  | .filter => "Filter"
  | .final => "Finally"
  | .fault => "Fault"

structure CodeRegion where
  offset : Nat
  length : Nat
  deriving DecidableEq, Repr

namespace CodeRegion

def contains (r : CodeRegion) (place : Nat) : Bool :=
  r.offset ≤ place && place < r.offset + r.length

def within (r : CodeRegion) (codeSize : Nat) : Bool :=
  r.offset + r.length ≤ codeSize

theorem within_iff {r : CodeRegion} {codeSize : Nat} :
    r.within codeSize = true ↔ r.offset + r.length ≤ codeSize := by
  simp [within]

end CodeRegion

structure ExceptionClause where
  flags : Flags .exceptionHandlerFlags
  tryRegion : CodeRegion
  handler : CodeRegion
  /-- The token of the caught type, or the place of the filter. -/
  subject : Nat
  deriving DecidableEq, Repr

namespace ExceptionClause

/-- The kind, for which the lowest flag counts. -/
def kind (c : ExceptionClause) : ClauseKind :=
  if c.flags.has 1 then .filter
  else if c.flags.has 2 then .final
  else if c.flags.has 4 then .fault
  else .typed

def classToken? (c : ExceptionClause) : Option Token :=
  if c.kind = .typed then some ⟨c.subject⟩ else none

def filterOffset? (c : ExceptionClause) : Option Nat :=
  if c.kind = .filter then some c.subject else none

def protects (c : ExceptionClause) (place : Nat) : Bool :=
  c.tryRegion.contains place

end ExceptionClause

structure ClauseForm where
  flags : Nat
  offset : Nat
  length : Nat
  deriving DecidableEq, Repr

namespace ClauseForm

def small : ClauseForm := ⟨2, 2, 1⟩

def fat : ClauseForm := ⟨4, 4, 4⟩

def size (f : ClauseForm) : Nat :=
  f.flags + 2 * (f.offset + f.length) + 4

@[simp] theorem size_small : small.size = 12 := rfl

@[simp] theorem size_fat : fat.size = 24 := rfl

def regionReader (f : ClauseForm) : Reader CodeRegion := do
  let offset ← Reader.unsigned f.offset
  let length ← Reader.unsigned f.length
  return ⟨offset, length⟩

/-- Reads a clause. Flags without a meaning are dropped. -/
def reader (f : ClauseForm) : Reader ExceptionClause := do
  let flags ← Reader.unsigned f.flags
  let tryRegion ← f.regionReader
  let handler ← f.regionReader
  let subject ← Reader.unsigned 4
  return ⟨(⟨flags⟩ : Flags .exceptionHandlerFlags).truncate, tryRegion, handler, subject⟩

end ClauseForm

end CliMeta
