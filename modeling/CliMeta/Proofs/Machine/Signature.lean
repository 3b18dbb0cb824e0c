import CliMeta.Proofs.Machine.Rows
import CliMeta.Proofs.Signature.Nesting

/-!
Signatures, read with words. Dimensions and pointer levels are counted one by one, and so is the
depth of the type that is read. Each of them is counted for a byte of the blob, at most two levels
of depth for one byte, so none of the counters leaves its width before the blob ends.
-/

namespace CliMeta.Machine

variable {α : Type} {data : Bytes} {start : Nat}

/-! ### Prefixes -/

/-- The reference of a modifier whose tag has been read. -/
def modifier (tag : Nat) : CheckedReader CustomModifier := do
  let raw ← compressed
  let type ← compute (decodeReference .typeDefOrRef raw)
  return ⟨tag == ElementTag.requiredModifier, type⟩

/-- Reads modifiers while there are any. -/
def modifiers : (fuel : Nat) → CheckedReader (List CustomModifier)
  | 0 => pure []
  | fuel + 1 => do
      if ← liftReader Reader.atEnd then return []
      let tag ← liftReader Reader.peek
      if CustomModifier.isTag tag then
        liftReader (Reader.skip 1)
        let first ← modifier tag
        let others ← modifiers fuel
        return first :: others
      else return []

/-- Adds one prefix other than a modifier, if it comes in order. -/
def addPrefix (p : TypePrefixes) (tag : Nat) : Checked (Option TypePrefixes) := do
  if tag = ElementTag.ptr then
    let pointers ← add 32 p.pointerDepth 1
    return some { p with pointerDepth := pointers }
  else if tag = ElementTag.szArray then
    if p.pointerDepth = 0 then
      let rank ← add 32 p.arrayRank 1
      return some { p with arrayRank := rank }
    else return none
  else if p.byRef = false ∧ p.arrayRank = 0 ∧ p.pointerDepth = 0 then
    return some { p with byRef := true }
  else return none

/-- Reads prefixes after those already read, and the tag behind them. -/
def prefixes (p : TypePrefixes) : (fuel : Nat) → CheckedReader (TypePrefixes × Nat)
  | 0 => throw (.error .outOfBounds)
  | fuel + 1 => do
      let offset ← liftReader Reader.position
      let tag ← byte
      if CustomModifier.isTag tag then
        let modifier ← modifier tag
        prefixes { p with modifiers := p.modifiers ++ [modifier] } fuel
      else if TypePrefixes.isTag tag then
        match ← compute (addPrefix p tag) with
        | some p => prefixes p fuel
        | none => liftReader (Reader.malformed (.typePrefixOrder tag offset))
      else return (p, tag)

/-- Reads the kind of a generic type. The pointers behind the tag are counted together with those
in front of it. -/
def namedKind (front pointers : Nat) : (fuel : Nat) → CheckedReader (NamedKind × Nat)
  | 0 => throw (.error .outOfBounds)
  | fuel + 1 => do
      let tag ← byte
      if tag = ElementTag.ptr then
        let _ ← compute (add 32 (front + pointers) 1)
        namedKind front (pointers + 1) fuel
      else
        match NamedKind.ofTag? tag with
        | some kind => return (kind, pointers)
        | none => liftReader (Reader.malformed (.genericBase tag))

/-- The dimensions and pointer levels that prefixes have counted. -/
def counted (p : TypePrefixes) : Nat :=
  p.arrayRank + p.pointerDepth

theorem follows_modifier (tag : Nat) :
    Follows data start (modifier tag) (CustomModifier.reader tag) :=
  follows_compressed.bind fun raw => (Follows.computed (decodeReference_eq _ raw)).bind fun _ =>
    .pure _

theorem follows_modifiers (fuel : Nat) :
    Follows data start (modifiers fuel) (CustomModifier.listReader fuel) := by
  induction fuel with
  | zero => exact .pure _
  | succ fuel ih =>
      have hended : Follows data start (liftReader Reader.atEnd) Reader.atEnd :=
        .lift fun _ _ h => ⟨Nat.le_refl _, h⟩
      refine hended.bind fun ended => .ite (fun _ => .pure _) fun _ => ?_
      refine follows_peek.bind fun tag => .ite (fun _ => ?_) fun _ => .pure _
      refine (follows_skip 1).bind fun _ => (follows_modifier tag).bind fun _ => ?_
      exact ih.bind fun _ => .pure _

theorem addPrefix_eq {p : TypePrefixes} (tag : Nat) (h : counted p + 1 < 2 ^ 32) :
    addPrefix p tag = .ok (p.add? tag) := by
  unfold counted at h
  rw [addPrefix, TypePrefixes.add?, add_eq (by omega), add_eq (by omega)]
  split
  · rfl
  · split
    · split <;> rfl
    · split <;> rfl

/-- A prefix counts at most once. -/
theorem counted_add? {p p' : TypePrefixes} {tag : Nat} (h : p.add? tag = some p') :
    counted p' ≤ counted p + 1 := by
  unfold counted
  rw [TypePrefixes.add?] at h
  split at h
  · cases h
    exact Nat.le_refl _
  · split at h
    · split at h
      · cases h
        simp only
        omega
      · cases h
    · split at h
      · cases h
        exact Nat.le_succ _
      · cases h

/-- As much as has been counted has been read, and then the tag behind the prefixes. -/
theorem counted_lt {p p' : TypePrefixes} {fuel position tag next : Nat}
    (hcounted : counted p ≤ position) (hposition : position ≤ data.size)
    (h : p.reader fuel data position = .ok (p', tag) next) :
    counted p' < next ∧ position < next := by
  induction fuel generalizing p position with
  | zero => cases h
  | succ fuel ih =>
      obtain hend | hinside : data.size ≤ position ∨ position < data.size := by omega
      · rw [TypePrefixes.reader_at_end p _ hend] at h
        cases h
      rw [TypePrefixes.reader_inside p fuel hinside] at h
      split at h
      · obtain ⟨modifier, behind, hmodifier, hthen⟩ := Reader.bind_eq_ok.1 h
        have hmoved := (CustomModifier.reader_sequential _).forward.of_ok hinside hmodifier
        have hsame : counted { p with modifiers := p.modifiers ++ [modifier] } ≤ behind :=
          Nat.le_trans hcounted (by omega)
        have hlater := ih hsame hmoved.2 hthen
        omega
      · split at h
        · cases hadd : p.add? (data.byteAt position) with
          | none =>
              rw [hadd] at h
              cases h
          | some added =>
              rw [hadd] at h
              have hcount := counted_add? hadd
              have hread : counted added ≤ position + 1 := by omega
              have hlater := ih hread hinside h
              omega
        · cases h
          omega

theorem follows_prefixes {p : TypePrefixes} (fuel : Nat) (h : counted p ≤ start) :
    Follows data start (prefixes p fuel) (p.reader fuel) := by
  induction fuel generalizing p start with
  | zero => exact .throw _
  | succ fuel ih =>
      refine .position fun offset hoffset _ _ => .byte_bind fun tag => ?_
      refine .of_words fun hinside hsize => ?_
      have hword : data.size < 2 ^ 32 := hsize
      refine .ite (fun _ => ?_) fun _ => .ite (fun _ => ?_) fun _ => .pure _
      · refine (follows_modifier tag).bind fun modifier => ih ?_
        exact Nat.le_trans h (by omega)
      · refine .compute (addPrefix_eq tag (by omega)) ?_
        cases hadd : p.add? tag with
        | none => exact .malformed _
        | some added =>
            have hcount := counted_add? hadd
            exact ih (by omega)

theorem follows_namedKind {front pointers : Nat} (fuel : Nat) (h : front + pointers ≤ start) :
    Follows data start (namedKind front pointers fuel) (NamedKind.reader pointers fuel) := by
  induction fuel generalizing pointers start with
  | zero => exact .throw _
  | succ fuel ih =>
      refine .byte_bind fun tag => .of_words fun hinside hsize => ?_
      have hword : data.size < 2 ^ 32 := hsize
      have hcount : add 32 (front + pointers) 1 = .ok (front + pointers + 1) := add_eq (by omega)
      refine .ite (fun _ => ?_) fun _ => ?_
      · exact .compute hcount (ih (by omega))
      · cases NamedKind.ofTag? tag with
        | none => exact .malformed _
        | some kind => exact .pure _

/-! ### Types and members -/

/-- Counts a level back behind a reader, also where that fails. -/
def leaving (depth : Nat) (m : CheckedReader α) : CheckedReader α := fun data position =>
  let outcome := m data position
  match sub depth 1 with
  | .ok _ => outcome
  | .error s => .error s position

def arrayShape : CheckedReader ArrayShape := do
  let rank ← compressed
  let sizes ← times compressed (← compressed)
  let lowerBounds ← times compressedSigned (← compressed)
  return ⟨rank, sizes, lowerBounds⟩

/-- Reads parameters; `behind` tells that a sentinel has been read. -/
def params (type : CheckedReader TypeSig) :
    (count : Nat) → (behind : Bool) → CheckedReader (List TypeSig × List TypeSig)
  | 0, _ => pure ([], [])
  | count + 1, behind => do
      let isSentinel := (← liftReader Reader.peek) == ElementTag.sentinel
      if isSentinel then liftReader (Reader.skip 1)
      let param ← type
      let (others, varargs) ← params type count (behind || isSentinel)
      return if behind || isSentinel then (others, param :: varargs)
        else (param :: others, varargs)

def member (type : CheckedReader TypeSig) : CheckedReader MemberSig := do
  let convention ← liftReader (Reader.ofExcept (CallingConvention.ofByte (← byte)))
  match convention.kind with
  | .field => return ⟨convention, 0, 0, ← type, [], []⟩
  | .localSig | .genericInst =>
      liftReader (Reader.malformed (.notMemberSignature convention.kind))
  | _ =>
      let genericParamCount ← if convention.isGeneric then compressed else pure 0
      let count ← compressed
      let returnType ← type
      let (others, varargs) ← params type count false
      return ⟨convention, genericParamCount, count, returnType, others, varargs⟩

/-- Reads what belongs to a base whose tag has been read. `typeAt` reads a type at a depth, and
`front` pointers are in front of the tag. A function pointer is a level of its own. -/
def typeBase (typeAt : Nat → CheckedReader TypeSig) (depth front tag : Nat) :
    CheckedReader (TypeBase × Nat) := do
  if tag = ElementTag.genericInstance then
    let (kind, pointers) ← namedKind front 0 (← liftReader Reader.remaining)
    let type ← compute (decodeReference .typeDefOrRef (← compressed))
    let arguments ← times (typeAt depth) (← compressed)
    return (.genericInstance kind type arguments, pointers)
  else if let some p := Primitive.ofTag? tag then
    return (.primitive p, 0)
  else if let some kind := NamedKind.ofTag? tag then
    let type ← compute (decodeReference .typeDefOrRef (← compressed))
    return (.named kind type, 0)
  else if tag = ElementTag.typeParameter then
    return (.typeParameter (← compressed), 0)
  else if tag = ElementTag.methodParameter then
    return (.methodParameter (← compressed), 0)
  else if tag = ElementTag.array then
    let element ← typeAt depth
    let shape ← arrayShape
    return (.array element shape, 0)
  else if tag = ElementTag.functionPointer then
    let deeper ← compute (add 64 depth 1)
    return (.functionPointer (← leaving deeper (member (typeAt deeper))), 0)
  else
    let position ← liftReader Reader.position
    let offset ← compute (sub position 1)
    liftReader (Reader.malformed (.elementType tag offset))

/-- Reads what a type consists of, at its depth. -/
def typeParts (typeAt : Nat → CheckedReader TypeSig) (depth : Nat) : CheckedReader TypeSig := do
  let (found, tag) ← prefixes .none (← liftReader Reader.remaining)
  let (base, pointers) ← typeBase typeAt depth found.pointerDepth tag
  return ⟨found.modifiers, found.byRef, found.arrayRank, found.pointerDepth + pointers, base⟩

/-- Reads a type inside so many others. The depth is compared with the limit once it has been
counted; `levels` bounds the recursion. -/
def type (limit : Nat) : (levels depth : Nat) → CheckedReader TypeSig
  | 0, depth => do
      let _ ← compute (add 64 depth 1)
      throw (.error (.nestingLimit limit))
  | levels + 1, depth => do
      let deeper ← compute (add 64 depth 1)
      if limit < deeper then throw (.error (.nestingLimit limit))
      else leaving deeper (typeParts (type limit levels) deeper)

theorem leaving_eq {depth : Nat} (h : 1 ≤ depth) (m : CheckedReader α) : leaving depth m = m := by
  funext data position
  rw [leaving, sub_eq h]

theorem follows_arrayShape : Follows data start arrayShape ArrayShape.reader := by
  refine follows_compressed.bind fun rank => follows_compressed.bind fun sizes => ?_
  refine (follows_times follows_compressed sizes).bind fun _ => ?_
  refine follows_compressed.bind fun bounds => ?_
  exact (follows_times follows_compressedSigned bounds).bind fun _ => .pure _

section

variable {m : CheckedReader TypeSig} {r : Reader TypeSig}

theorem follows_params (h : Follows data start m r) (count : Nat) (behind : Bool) :
    Follows data start (params m count behind) (MemberSig.paramsReader r count behind) := by
  induction count generalizing behind with
  | zero => exact .pure _
  | succ count ih =>
      refine follows_peek.bind fun next => .ite (fun _ => ?_) fun _ => ?_
      · refine (follows_skip 1).bind fun _ => h.bind fun param => ?_
        exact (ih _).bind fun _ => .pure _
      · exact h.bind fun param => (ih _).bind fun _ => .pure _

theorem follows_member (h : ∀ least, start < least → Follows data least m r) :
    Follows data start (member m) (MemberSig.reader r) := by
  refine .byte_bind fun first => ?_
  have hconvention : Follows data (start + 1)
      (liftReader (Reader.ofExcept (CallingConvention.ofByte first)))
      (Reader.ofExcept (CallingConvention.ofByte first)) :=
    .lift (Reader.Sequential.ofExcept _).forward
  have htype := h (start + 1) (Nat.lt_succ_self start)
  refine hconvention.bind fun convention => ?_
  cases convention.kind with
  | field => exact htype.bind fun _ => .pure _
  | localSig => exact .malformed _
  | genericInst => exact .malformed _
  | _ =>
      refine .ite (fun _ => ?_) fun _ => ?_
      · refine follows_compressed.bind fun generic => follows_compressed.bind fun count => ?_
        exact htype.bind fun _ => (follows_params htype count false).bind fun _ => .pure _
      · refine Follows.bind (.pure 0) fun generic => follows_compressed.bind fun count => ?_
        exact htype.bind fun _ => (follows_params htype count false).bind fun _ => .pure _

end

section

variable {typeAt : Nat → CheckedReader TypeSig} {inner pointed : Reader TypeSig} {depth : Nat}

theorem follows_typeBase {front : Nat} (tag : Nat)
    (hinner : ∀ least, start ≤ least → Follows data least (typeAt depth) inner)
    (hpointed : ∀ least, start < least → Follows data least (typeAt (depth + 1)) pointed)
    (hpos : 0 < start) (hfront : front ≤ start) (hdepth : depth ≤ 2 * start) :
    Follows data start (typeBase typeAt depth front tag) (TypeBase.reader inner pointed tag) := by
  have htype := hinner start (Nat.le_refl start)
  unfold typeBase TypeBase.reader
  refine .ite (fun _ => ?_) fun _ => ?_
  · refine .remaining fun fuel _ => (follows_namedKind fuel hfront).bind fun found => ?_
    refine follows_compressed.bind fun raw => (Follows.computed (decodeReference_eq _ raw)).bind ?_
    intro named
    refine follows_compressed.bind fun count => ?_
    exact (follows_times htype count).bind fun _ => .pure _
  cases Primitive.ofTag? tag with
  | some p => exact .pure _
  | none =>
      cases NamedKind.ofTag? tag with
      | some kind =>
          refine follows_compressed.bind fun raw => ?_
          exact (Follows.computed (decodeReference_eq _ raw)).bind fun _ => .pure _
      | none =>
          refine .ite (fun _ => follows_compressed.bind fun _ => .pure _) fun _ => ?_
          refine .ite (fun _ => follows_compressed.bind fun _ => .pure _) fun _ => ?_
          refine .ite (fun _ => htype.bind fun _ => ?_) fun _ => ?_
          · exact follows_arrayShape.bind fun _ => .pure _
          refine .ite (fun _ => ?_) fun _ => ?_
          · refine .of_words fun hstart hsize => ?_
            have hword : data.size < 2 ^ 32 := hsize
            refine .compute (add_eq (by omega)) ?_
            rw [leaving_eq (Nat.le_add_left 1 depth)]
            exact (follows_member hpointed).bind fun _ => .pure _
          · refine .position fun place hplace _ _ => ?_
            exact .compute (sub_eq (by omega)) (.malformed _)

/-- Types inside are read behind the tag of the type. -/
theorem follows_typeParts
    (hinner : ∀ least, start < least → Follows data least (typeAt depth) inner)
    (hpointed : ∀ least, start < least → Follows data least (typeAt (depth + 1)) pointed)
    (hdepth : depth ≤ 2 * start + 1) :
    Follows data start (typeParts typeAt depth) (TypeSig.readerWith inner pointed) := by
  refine .remaining fun fuel _ => ?_
  refine (follows_prefixes fuel (Nat.zero_le start)).bind_at ?_
  intro position found next hstart hposition hout hnext
  obtain ⟨p, tag⟩ := found
  have hbehind := counted_lt (Nat.zero_le position) hposition hout
  have hfront : p.pointerDepth ≤ counted p := Nat.le_add_left ..
  refine ⟨next, by omega, Nat.le_refl next, ?_⟩
  refine Follows.bind (follows_typeBase tag (fun least hleast => hinner least (by omega))
    (fun least hleast => hpointed least (by omega)) (by omega) (by omega) (by omega)) ?_
  exact fun _ => .pure _

end

/-- A type is as deep as at most two levels for each byte in front of it. -/
theorem follows_type {limit levels depth : Nat} (hlevels : limit ≤ depth + levels)
    (hdepth : depth ≤ 2 * start) :
    Follows data start (type limit levels depth) (TypeSig.reader limit (limit - depth)) := by
  induction levels generalizing start depth with
  | zero =>
      refine .of_words fun hstart hsize => ?_
      have hword : data.size < 2 ^ 32 := hsize
      have hnone : limit - depth = 0 := by omega
      rw [hnone]
      exact .compute (add_eq (by omega)) (.throw _)
  | succ levels ih =>
      refine .of_words fun hstart hsize => ?_
      have hword : data.size < 2 ^ 32 := hsize
      refine .compute (add_eq (by omega)) ?_
      by_cases hlimit : limit < depth + 1
      · rw [if_pos hlimit, Nat.sub_eq_zero_of_le (by omega)]
        exact .throw _
      obtain ⟨rest, hrest⟩ : ∃ rest, limit - depth = rest + 1 := ⟨limit - depth - 1, by omega⟩
      have hinner : limit - (depth + 1) = rest := by omega
      have hpointed : limit - (depth + 1 + 1) = rest - 1 := by omega
      rw [if_neg hlimit, leaving_eq (Nat.le_add_left 1 depth), hrest, TypeSig.reader_succ]
      refine follows_typeParts (fun least hleast => ?_) (fun least hleast => ?_) (by omega)
      · rw [← hinner]
        exact ih (by omega) (by omega)
      · rw [← hpointed]
        exact ih (by omega) (by omega)

/-! ### Whole signatures -/

/-- Reads a whole signature, and tells a blob that ends inside it from other damage. -/
def complete (m : CheckedReader α) (blob : Bytes) : Checked α :=
  match m blob 0 with
  | .ok a position =>
      if position < blob.size then fail (.signatureTrailing position blob.size) else .ok a
  | .error (.error .outOfBounds) position => fail (.signatureTruncated position)
  | .error s _ => .error s

def localVariable (type : CheckedReader TypeSig) : CheckedReader LocalVariable := do
  let front ← modifiers (← liftReader Reader.remaining)
  let pinned := (← liftReader Reader.peek) == ElementTag.pinned
  if pinned then liftReader (Reader.skip 1)
  let type ← type
  return ⟨pinned, { type with modifiers := front ++ type.modifiers }⟩

def localVariables (type : CheckedReader TypeSig) : CheckedReader (List LocalVariable) := do
  let first ← byte
  if first ≠ 0x07 then liftReader (Reader.malformed (.notLocals first))
  times (localVariable type) (← compressed)

def instantiation (type : CheckedReader TypeSig) : CheckedReader (List TypeSig) := do
  let first ← byte
  if first ≠ 0x0A then liftReader (Reader.malformed (.notInstantiation first))
  times type (← compressed)

def decodeMember (limit : Nat) : Bytes → Checked MemberSig :=
  complete (member (type limit limit 0))

def decodeLocals (limit : Nat) : Bytes → Checked (List LocalVariable) :=
  complete (localVariables (type limit limit 0))

def decodeType (limit : Nat) : Bytes → Checked TypeSig :=
  complete (type limit limit 0)

def decodeInstantiation (limit : Nat) : Bytes → Checked (List TypeSig) :=
  complete (instantiation (type limit limit 0))

def decodeStandalone (limit : Nat) (blob : Bytes) : Checked StandaloneSig :=
  if blob.size ≠ 0 ∧ blob.byteAt 0 % 16 = 7 then (decodeLocals limit blob).map .locals
  else (decodeMember limit blob).map .method

theorem complete_eq {blob : Bytes} {m : CheckedReader α} {r : Reader α} (h : Follows blob 0 m r)
    (hsize : blob.size < positions) : complete m blob = lift (r.complete blob) := by
  rw [complete, Reader.complete, (h hsize 0 (Nat.le_refl 0) (Nat.zero_le _)).1]
  cases hout : r blob 0 with
  | ok a position =>
      simp only [liftOutcome]
      split <;> rfl
  | error e position => cases e <;> rfl

theorem follows_outerType {limit : Nat} :
    Follows data start (type limit limit 0) (TypeSig.reader limit limit) :=
  follows_type (by omega) (Nat.zero_le _)

theorem follows_localVariable {m : CheckedReader TypeSig} {r : Reader TypeSig}
    (h : Follows data start m r) :
    Follows data start (localVariable m) (Signature.localReader r) := by
  refine .remaining fun fuel _ => (follows_modifiers fuel).bind fun front => ?_
  refine follows_peek.bind fun next => .ite (fun _ => ?_) fun _ => h.bind fun _ => .pure _
  exact (follows_skip 1).bind fun _ => h.bind fun _ => .pure _

section

variable {limit : Nat} {blob : Bytes}

theorem decodeMember_eq (hsize : blob.size < positions) :
    decodeMember limit blob = lift (Signature.decodeMember limit blob) :=
  complete_eq (follows_member fun _ _ => follows_outerType) hsize

theorem decodeLocals_eq (hsize : blob.size < positions) :
    decodeLocals limit blob = lift (Signature.decodeLocals limit blob) := by
  refine complete_eq ?_ hsize
  refine follows_byte.bind fun first => .ite (fun _ => .malformed_bind _) fun _ => ?_
  refine follows_compressed.bind fun count => ?_
  exact follows_times (follows_localVariable follows_outerType) count

theorem decodeType_eq (hsize : blob.size < positions) :
    decodeType limit blob = lift (Signature.decodeType limit blob) :=
  complete_eq follows_outerType hsize

theorem decodeInstantiation_eq (hsize : blob.size < positions) :
    decodeInstantiation limit blob = lift (Signature.decodeInstantiation limit blob) := by
  refine complete_eq ?_ hsize
  refine follows_byte.bind fun first => .ite (fun _ => .malformed_bind _) fun _ => ?_
  exact follows_compressed.bind fun count => follows_times follows_outerType count

theorem decodeStandalone_eq (hsize : blob.size < positions) :
    decodeStandalone limit blob = lift (Signature.decodeStandalone limit blob) := by
  rw [decodeStandalone, Signature.decodeStandalone]
  split
  · exact map_agrees (decodeLocals_eq hsize) _
  · exact map_agrees (decodeMember_eq hsize) _

end

end CliMeta.Machine
