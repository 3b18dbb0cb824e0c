/-!
How strictly an image is loaded.
-/

namespace CliMeta

structure LoadOptions where
  /-- Refuse streams of unknown names. -/
  strictStreamNames : Bool
  /-- Accept a tables stream in the uncompressed form. -/
  allowUncompressedTables : Bool
  /-- How deeply the types of a signature may be nested. -/
  maxSignatureDepth : Nat
  /-- Check the locals and the exception clauses of method bodies. -/
  validateMethodBodies : Bool
  deriving DecidableEq, Repr

namespace LoadOptions

def default : LoadOptions := ⟨false, true, 50, true⟩

def strict : LoadOptions := ⟨true, false, 50, true⟩

def lenient : LoadOptions := ⟨false, true, 128, false⟩

end LoadOptions

end CliMeta
