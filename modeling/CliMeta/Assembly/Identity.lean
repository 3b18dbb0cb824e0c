import CliMeta.Assembly.Version

/-!
Assembly identities and their display names: a name, and then components with a label and a value
between commas.
-/

namespace CliMeta

structure AssemblyIdentity where
  name : String
  version : AssemblyVersion
  culture : Option String
  /-- The public key, or the eight bytes of its token. -/
  publicKeyOrToken : Option (List UInt8)
  deriving DecidableEq, Repr

def hexDigit? (c : Char) : Option Nat :=
  if '0' ≤ c ∧ c ≤ '9' then some (c.toNat - '0'.toNat)
  else if 'a' ≤ c ∧ c ≤ 'f' then some (c.toNat - 'a'.toNat + 10)
  else if 'A' ≤ c ∧ c ≤ 'F' then some (c.toNat - 'A'.toNat + 10)
  else none

/-- The byte that two characters spell; a plus sign in front of one digit counts as a zero. -/
def hexPair? (high low : Char) : Option UInt8 :=
  match (if high = '+' then some 0 else hexDigit? high), hexDigit? low with
  | some h, some l => some (UInt8.ofNat (h * 16 + l))
  | _, _ => none

def hexPairs? : List Char → Option (List UInt8)
  | [] => some []
  | [_] => none
  | high :: low :: rest => do
      let byte ← hexPair? high low
      let bytes ← hexPairs? rest
      return byte :: bytes

/-- The bytes of a key. An odd length, measured in UTF-8, is reported before any wrong digit. -/
def parseKey (text : List Char) : Except Error (List UInt8) :=
  let spelled := String.ofList text
  if spelled.utf8ByteSize % 2 = 1 then .error (.malformed (.oddHexDigits spelled))
  else
    match hexPairs? text with
    | some bytes => .ok bytes
    | none => .error (.malformed (.hexDigits spelled))

namespace AssemblyIdentity

def isStrongNamed (a : AssemblyIdentity) : Bool :=
  a.publicKeyOrToken.isSome

/-- The culture that a value names: none, if it is empty or `neutral`. -/
def parseCulture (value : List Char) : Option String :=
  if value = [] ∨ value = "neutral".toList then none else some (String.ofList value)

/-- The key that a value spells: none, if it is `null`. -/
def parsePublicKey (value : List Char) : Except Error (Option (List UInt8)) :=
  if value = "null".toList then .ok none else (parseKey value).map some

/-- Takes over one component of a display name. A component of another label only has to have an
equals sign. -/
def addComponent (a : AssemblyIdentity) (part : List Char) : Except Error AssemblyIdentity :=
  match splitFirst '=' part with
  | none => .error (.malformed (.displayComponent (String.ofList part)))
  | some (label, value) =>
      let label := String.ofList (trimBlanks label)
      if label = "Version" then do
        return { a with version := ← AssemblyVersion.parse value }
      else if label = "Culture" then
        .ok { a with culture := parseCulture (trimBlanks value) }
      else if label = "PublicKeyToken" ∨ label = "PublicKey" then do
        return { a with publicKeyOrToken := ← parsePublicKey (trimBlanks value) }
      else .ok a

/-- Reads a display name. Of a component that is repeated, the last one holds. -/
def parse (display : String) : Except Error AssemblyIdentity :=
  match (splitParts ',' display.toList).map trimBlanks with
  | [] | [] :: _ => .error (.malformed (.emptyAssemblyName display))
  | name :: parts => parts.foldlM addComponent ⟨String.ofList name, .zero, none, none⟩

/-- The component for the public key. A key of eight bytes is a token. -/
def keyText : Option (List UInt8) → String
  | none => "PublicKeyToken=null"
  | some key =>
      (if key.length = 8 then "PublicKeyToken=" else "PublicKey=") ++ hexOfBytes key

def display (a : AssemblyIdentity) : String :=
  let culture := a.culture.getD "neutral"
  s!"{a.name}, Version={a.version.text}, Culture={culture}, " ++ keyText a.publicKeyOrToken

end AssemblyIdentity

end CliMeta
