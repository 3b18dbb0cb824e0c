/-!
The kinds of signatures, as the low four bits of a signature's first byte give them.
-/

namespace CliMeta

inductive SignatureKind where
  | default | c | stdCall | thisCall | fastCall | varArg | field | localSig | property
  | unmanaged | genericInst
  deriving DecidableEq, Repr, Inhabited

namespace SignatureKind

/-- Every kind, in the order of the numbers. -/
def all : List SignatureKind :=
  [.default, .c, .stdCall, .thisCall, .fastCall, .varArg, .field, .localSig, .property,
    .unmanaged, .genericInst]

def number (k : SignatureKind) : Nat :=
  k.ctorIdx

def ofNumber? (number : Nat) : Option SignatureKind :=
  all[number]?

def name : SignatureKind → String
  | .default => "Default"
  | .c => "C"
  | .stdCall => "StdCall"
  | .thisCall => "ThisCall"
  | .fastCall => "FastCall"
  | .varArg => "VarArg"
  | .field => "Field"
  | .localSig => "LocalSig"
  | .property => "Property"
  | .unmanaged => "Unmanaged"
  | .genericInst => "GenericInst"

@[simp] theorem ofNumber?_number (k : SignatureKind) : ofNumber? k.number = some k := by
  cases k <;> rfl

end SignatureKind

end CliMeta
