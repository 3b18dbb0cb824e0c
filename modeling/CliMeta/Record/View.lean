import CliMeta.Assembly.Identity
import CliMeta.Record.Basic

/-!
What particular records say beyond their fields: the name of a type, the place and the parameters of
a method, the identity of an assembly, and which blob is the signature.
-/

namespace CliMeta

structure Method where
  token : Token
  /-- The address of the body, zero if there is none. -/
  rva : Nat
  flags : Flags .methodAttributes
  params : RowRange
  deriving DecidableEq, Repr

structure Parameter where
  /-- The place in the signature, counted from 1; zero stands for the returned value. -/
  sequence : Nat
  /-- The row of the declaration, counted from 0. -/
  row : Nat
  name : String
  deriving DecidableEq, Repr

namespace Record

def method (r : Record .methodDef) : Method :=
  let (rva, _, flags, _, _, params, ()) := r.values
  ⟨r.token, rva, flags, params⟩

def parameter (r : Record .param) (row : Nat) : Parameter :=
  let (_, sequence, name, ()) := r.values
  ⟨sequence, row, name⟩

/-- A name with its namespace in front, unless that is empty. -/
def qualifiedName (namespaceName name : String) : String :=
  if namespaceName = "" then name else s!"{namespaceName}.{name}"

def fullName (r : Record .typeDef) : String :=
  let (_, name, namespaceName, _) := r.values
  qualifiedName namespaceName name

/-- An identity of which an empty culture and an empty key are left out. -/
def identityOf (name : String) (version : AssemblyVersion) (culture : String) (key : Bytes) :
    AssemblyIdentity where
  name
  version
  culture := if culture = "" then none else some culture
  publicKeyOrToken := if key.isEmpty then none else some key.toList

def assemblyIdentity (r : Record .assembly) : AssemblyIdentity :=
  let (_, version, _, publicKey, name, culture, ()) := r.values
  identityOf name version culture publicKey

def referencedIdentity (r : Record .assemblyRef) : AssemblyIdentity :=
  let (version, _, key, name, culture, _, ()) := r.values
  identityOf name version culture key

/-! ### Signature blobs -/

def fieldSignature (r : Record .field) : Bytes :=
  let (_, _, signature, ()) := r.values
  signature

def methodSignature (r : Record .methodDef) : Bytes :=
  let (_, _, _, _, signature, _) := r.values
  signature

def memberSignature (r : Record .memberRef) : Bytes :=
  let (_, _, signature, ()) := r.values
  signature

def propertySignature (r : Record .property) : Bytes :=
  let (_, _, signature, ()) := r.values
  signature

def typeSignature (r : Record .typeSpec) : Bytes :=
  let (signature, ()) := r.values
  signature

def instantiation (r : Record .methodSpec) : Bytes :=
  let (_, instantiation, ()) := r.values
  instantiation

def standaloneSignature (r : Record .standAloneSig) : Bytes :=
  let (signature, ()) := r.values
  signature

end Record

def isFieldSignature (signature : Bytes) : Bool :=
  0 < signature.size && signature.byteAt 0 % 16 == 6

end CliMeta
