import CliMeta.Proofs.Reader.Sequential
import CliMeta.Signature.Decoder

/-!
The readers of signatures are sequential. The loops over prefixes take what is left of the blob as
fuel and never use it up before the blob ends. The one reader that looks whether the blob ends, that
of the modifiers in front of a local variable, is followed by a look at the next byte, so an early
end shows there.
-/

namespace CliMeta

open Reader

/-! ### Prefixes -/

theorem CustomModifier.reader_sequential (tag : Nat) : (CustomModifier.reader tag).Sequential :=
  .bind .compressed fun _ => .bind (.ofExcept _) fun _ => .pure _

theorem TypePrefixes.reader_sequential (p : TypePrefixes) (fuel : Nat) :
    (p.reader fuel).Sequential := by
  induction fuel generalizing p with
  | zero => exact .throw _
  | succ fuel ih =>
      refine .bind .position fun offset => .bind .byte fun tag => ?_
      refine .ite (.bind (CustomModifier.reader_sequential tag) fun _ => ih _) (.ite ?_ (.pure _))
      cases p.add? tag with
      | none => exact .malformed _
      | some p => exact ih p

theorem TypePrefixes.reader_at_end (p : TypePrefixes) (fuel : Nat) {data : Bytes} {position : Nat}
    (h : data.size ≤ position) :
    p.reader fuel data position = .error .outOfBounds position := by
  cases fuel with
  | zero => rfl
  | succ fuel => exact bind_of_error (byte_at_end h) _

/-- One round of reading prefixes inside the blob. -/
theorem TypePrefixes.reader_inside (p : TypePrefixes) (fuel : Nat) {data : Bytes} {position : Nat}
    (h : position < data.size) :
    p.reader (fuel + 1) data position =
      (if CustomModifier.isTag (data.byteAt position) then do
        let modifier ← CustomModifier.reader (data.byteAt position)
        reader { p with modifiers := p.modifiers ++ [modifier] } fuel
      else if isTag (data.byteAt position) then
        match p.add? (data.byteAt position) with
        | some p => reader p fuel
        | .none => Reader.malformed (.typePrefixOrder (data.byteAt position) position)
      else return (p, data.byteAt position) : Reader _) data (position + 1) :=
  bind_of_ok (byte_inside h) _

theorem TypePrefixes.reader_fuelFree (p : TypePrefixes) : FuelFree p.reader := by
  intro data position h fuel
  induction fuel generalizing p position with
  | zero =>
      intro fuel' hfuel _
      rw [reader_at_end p _ (by omega), reader_at_end p _ (by omega)]
  | succ fuel ih =>
      intro fuel' hfuel hfuel'
      obtain hend | hinside : data.size ≤ position ∨ position < data.size := by omega
      · rw [reader_at_end p _ hend, reader_at_end p _ hend]
      · obtain ⟨fuel', rfl⟩ : ∃ n, fuel' = n + 1 := ⟨fuel' - 1, by omega⟩
        rw [reader_inside p fuel hinside, reader_inside p fuel' hinside]
        split
        -- a modifier takes up bytes, so the fuel covers what is left behind it
        · refine bind_congr fun modifier next hread => ?_
          have hmoved := (CustomModifier.reader_sequential _).forward.of_ok hinside hread
          exact ih _ next hmoved.2 fuel' (by omega) (by omega)
        · split
          · cases p.add? (data.byteAt position) with
            | none => rfl
            | some p => exact ih p (position + 1) hinside fuel' (by omega) (by omega)
          · rfl

theorem NamedKind.reader_sequential (pointers fuel : Nat) :
    (NamedKind.reader pointers fuel).Sequential := by
  induction fuel generalizing pointers with
  | zero => exact .throw _
  | succ fuel ih =>
      refine .bind .byte fun tag => .ite (ih _) ?_
      cases NamedKind.ofTag? tag with
      | none => exact .malformed _
      | some kind => exact .pure _

theorem NamedKind.reader_at_end (pointers fuel : Nat) {data : Bytes} {position : Nat}
    (h : data.size ≤ position) :
    NamedKind.reader pointers fuel data position = .error .outOfBounds position := by
  cases fuel with
  | zero => rfl
  | succ fuel => exact bind_of_error (byte_at_end h) _

theorem NamedKind.reader_fuelFree (pointers : Nat) : FuelFree (NamedKind.reader pointers) := by
  intro data position h fuel
  induction fuel generalizing pointers position with
  | zero =>
      intro fuel' hfuel _
      rw [reader_at_end pointers _ (by omega), reader_at_end pointers _ (by omega)]
  | succ fuel ih =>
      intro fuel' hfuel hfuel'
      obtain hend | hinside : data.size ≤ position ∨ position < data.size := by omega
      · rw [reader_at_end pointers _ hend, reader_at_end pointers _ hend]
      · obtain ⟨fuel', rfl⟩ : ∃ n, fuel' = n + 1 := ⟨fuel' - 1, by omega⟩
        refine bind_congr fun tag next hbyte => ?_
        rw [byte_inside hinside] at hbyte
        cases hbyte
        split
        · exact ih _ (position + 1) hinside fuel' (by omega) (by omega)
        · rfl

/-! ### Types and members -/

theorem ArrayShape.reader_sequential : ArrayShape.reader.Sequential := by
  refine .bind .compressed fun rank => ?_
  refine .bind .compressed fun sizes => .bind (.times .compressed sizes) fun _ => ?_
  exact .bind .compressed fun bounds => .bind (.times .compressedSigned bounds) fun _ => .pure _

namespace MemberSig

variable {type : Reader TypeSig}

/-- A parameter of which it is known whether it is behind the sentinel, and those that follow. -/
def paramReader (type : Reader TypeSig) (count : Nat) (behind : Bool) :
    Reader (List TypeSig × List TypeSig) := do
  let param ← type
  let others ← paramsReader type count behind
  return if behind then (others.1, param :: others.2) else (param :: others.1, others.2)

theorem paramsReader_succ (type : Reader TypeSig) (count : Nat) (behind : Bool) :
    paramsReader type (count + 1) behind = (do
      let isSentinel := (← Reader.peek) == ElementTag.sentinel
      if isSentinel then Reader.skip 1
      paramReader type count (behind || isSentinel)) := rfl

/-- What a member other than a field has behind its convention and generic parameters. -/
def countedReader (type : Reader TypeSig) (convention : CallingConvention)
    (genericParamCount : Nat) : Reader MemberSig := do
  let count ← Reader.compressed
  let returnType ← type
  let all ← paramsReader type count false
  return ⟨convention, genericParamCount, count, returnType, all.1, all.2⟩

theorem paramsReader_sequential (htype : type.Sequential) (count : Nat) (behind : Bool) :
    (paramsReader type count behind).Sequential := by
  induction count generalizing behind with
  | zero => exact .pure _
  | succ count ih =>
      have hparam (behind' : Bool) : (paramReader type count behind').Sequential :=
        .bind htype fun _ => .bind (ih behind') fun _ => .pure _
      rw [paramsReader_succ]
      exact .bind .peek fun next => .ite (.bind (.skip 1) fun _ => hparam _) (hparam _)

theorem reader_sequential (htype : type.Sequential) : (reader type).Sequential := by
  refine .bind .byte fun first => .bind (.ofExcept _) fun convention => ?_
  have hmethod (genericParamCount : Nat) :
      (countedReader type convention genericParamCount).Sequential :=
    .bind .compressed fun count => .bind htype fun _ =>
      .bind (paramsReader_sequential htype count false) fun _ => .pure _
  cases convention.kind with
  | field => exact .bind htype fun _ => .pure _
  | localSig => exact .malformed _
  | genericInst => exact .malformed _
  | _ => exact .ite (.bind .compressed hmethod) (.bind (.pure 0) hmethod)

end MemberSig

theorem TypeBase.reader_sequential {inner pointed : Reader TypeSig} (hinner : inner.Sequential)
    (hpointed : pointed.Sequential) (tag : Nat) :
    (TypeBase.reader inner pointed tag).Sequential := by
  unfold TypeBase.reader
  refine .ite ?_ ?_
  · refine .remaining_bind (fun fuel => ?_) ((NamedKind.reader_fuelFree 0).bind _)
    refine .bind (NamedKind.reader_sequential 0 fuel) fun _ => ?_
    refine .bind .compressed fun _ => .bind (.ofExcept _) fun _ => ?_
    exact .bind .compressed fun count => .bind (.times hinner count) fun _ => .pure _
  cases Primitive.ofTag? tag with
  | some p => exact .pure _
  | none =>
      cases NamedKind.ofTag? tag with
      | some kind => exact .bind .compressed fun _ => .bind (.ofExcept _) fun _ => .pure _
      | none =>
          refine .ite (.bind .compressed fun _ => .pure _) ?_
          refine .ite (.bind .compressed fun _ => .pure _) ?_
          refine .ite (.bind hinner fun _ => .bind ArrayShape.reader_sequential fun _ => .pure _) ?_
          refine .ite (.bind (MemberSig.reader_sequential hpointed) fun _ => .pure _) ?_
          exact .bind .position fun _ => .malformed _

theorem TypeSig.readerWith_sequential {inner pointed : Reader TypeSig} (hinner : inner.Sequential)
    (hpointed : pointed.Sequential) : (TypeSig.readerWith inner pointed).Sequential := by
  refine .remaining_bind (fun fuel => ?_) ((TypePrefixes.reader_fuelFree _).bind _)
  refine .bind (TypePrefixes.reader_sequential _ fuel) fun found => ?_
  exact .bind (TypeBase.reader_sequential hinner hpointed found.2) fun _ => .pure _

/-- The limit on the nesting does not disturb: where it is met, it is met over any buffer. -/
theorem TypeSig.reader_sequential (limit levels : Nat) :
    (TypeSig.reader limit levels).Sequential := by
  induction levels using TypeSig.reader.induct with
  | case1 => exact .throw _
  | case2 => exact readerWith_sequential (.throw _) (.throw _)
  | case3 levels hinner hpointed => exact readerWith_sequential hinner hpointed

/-! ### Local variables and instantiations -/

theorem CustomModifier.listReader_forward (fuel : Nat) :
    (CustomModifier.listReader fuel).Forward := by
  induction fuel with
  | zero => exact (Sequential.pure _).forward
  | succ fuel ih =>
      refine .bind (fun _ _ h => ⟨Nat.le_refl _, h⟩) fun ended => ?_
      refine .ite (Sequential.pure _).forward (.bind Sequential.peek.forward fun tag => ?_)
      refine .ite ?_ (Sequential.pure _).forward
      refine .bind (Sequential.skip 1).forward fun _ => ?_
      exact .bind (reader_sequential tag).forward fun _ => .bind ih fun _ =>
        (Sequential.pure _).forward

theorem CustomModifier.listReader_at_end (fuel : Nat) {data : Bytes} {position : Nat}
    (h : data.size ≤ position) :
    CustomModifier.listReader fuel data position = .ok [] position := by
  cases fuel with
  | zero => rfl
  | succ fuel =>
      have hended : atEnd data position = .ok true position := by simp [atEnd, h]
      exact bind_of_ok hended _

/-- One round of reading modifiers inside the blob. -/
theorem CustomModifier.listReader_inside (fuel : Nat) {data : Bytes} {position : Nat}
    (h : position < data.size) :
    CustomModifier.listReader (fuel + 1) data position =
      if isTag (data.byteAt position) then
        (do
          let first ← reader (data.byteAt position)
          let others ← listReader fuel
          return first :: others : Reader _) data (position + 1)
      else .ok [] position := by
  have hended : atEnd data position = .ok false position := by simp [atEnd, h]
  have hpeek := peek_inside h
  have hskip : skip 1 data position = .ok () (position + 1) := if_pos h
  rw [CustomModifier.listReader, bind_of_ok hended]
  simp only [Bool.false_eq_true, if_false]
  rw [bind_of_ok hpeek]
  split
  · exact bind_of_ok hskip _
  · rfl

/-- Modifiers read over the front of a blob are those read over all of it, unless the data give
out inside one or the front ends behind one. -/
theorem CustomModifier.listReader_stable (front rest : Bytes) (fuel fuel' position : Nat)
    (h : position ≤ front.size) (hfuel : front.size - position ≤ fuel)
    (hfuel' : (front ++ rest).size - position ≤ fuel') :
    listReader fuel front position = listReader fuel' (front ++ rest) position ∨
      (∃ next, listReader fuel front position = .error .outOfBounds next) ∨
      ∃ modifiers, listReader fuel front position = .ok modifiers front.size := by
  induction fuel generalizing fuel' position with
  | zero =>
      have hend : position = front.size := by omega
      exact .inr (.inr ⟨[], hend ▸ rfl⟩)
  | succ fuel ih =>
      obtain hend | hinside : front.size ≤ position ∨ position < front.size := by omega
      · obtain rfl : position = front.size := by omega
        exact .inr (.inr ⟨[], listReader_at_end _ hend⟩)
      have hlonger : position < (front ++ rest).size := by
        rw [Array.size_append]
        omega
      obtain ⟨fuel', rfl⟩ : ∃ n, fuel' = n + 1 := ⟨fuel' - 1, by omega⟩
      rw [listReader_inside fuel hinside, listReader_inside fuel' hlonger,
        byteAt_append_left front rest hinside]
      by_cases htag : isTag (front.byteAt position)
      · simp only [htag, if_true]
        rw [bind_apply, bind_apply]
        obtain hsame | ⟨next, hout⟩ :=
          (reader_sequential (front.byteAt position)).stable front rest (position + 1) hinside
        · rw [← hsame]
          cases hfirst : reader (front.byteAt position) front (position + 1) with
          | error e next => exact .inl rfl
          | ok first next =>
              have hmoved := (reader_sequential _).forward.of_ok hinside hfirst
              simp only [bind_apply, pure_apply]
              obtain heq | ⟨stop, hgave⟩ | ⟨others, hends⟩ :=
                ih fuel' next hmoved.2 (by omega) (by omega)
              · exact .inl (by rw [heq])
              · exact .inr (.inl ⟨stop, by rw [hgave]⟩)
              · exact .inr (.inr ⟨first :: others, by rw [hends]⟩)
        · exact .inr (.inl ⟨next, by rw [hout]⟩)
      -- no modifier, over the front as over all of it
      · simp only [htag]
        exact .inl rfl

/-- What follows the modifiers of a local variable begins with a look at the next byte, so it makes
up for the look at the end of the blob. -/
theorem Signature.localReader_sequential {type : Reader TypeSig} (htype : type.Sequential) :
    (localReader type).Sequential := by
  have hthen (modifiers : List CustomModifier) :=
    Sequential.bind .peek fun next =>
      have hvariable := Sequential.bind htype fun type =>
        .pure (LocalVariable.mk (next == ElementTag.pinned)
          { type with modifiers := modifiers ++ type.modifiers })
      Sequential.ite (p := (next == ElementTag.pinned) = true)
        (.bind (.skip 1) fun _ => hvariable) hvariable
  constructor
  · intro data position h
    exact ((CustomModifier.listReader_forward _).bind fun modifiers =>
      (hthen modifiers).forward) data position h
  · intro front rest position h
    rw [localReader, remaining_bind, remaining_bind, bind_apply, bind_apply]
    obtain hsame | ⟨next, hout⟩ | ⟨modifiers, hends⟩ :=
      CustomModifier.listReader_stable front rest _ _ position h (Nat.le_refl _) (Nat.le_refl _)
    · rw [← hsame]
      cases hread : CustomModifier.listReader (front.size - position) front position with
      | error e next => exact .inl rfl
      | ok modifiers next =>
          have hmoved := (CustomModifier.listReader_forward _).of_ok h hread
          exact (hthen modifiers).stable front rest next hmoved.2
    · exact .inr ⟨next, by rw [hout]⟩
    -- the front ends behind a modifier, and the next byte is missing
    · refine .inr ⟨front.size, ?_⟩
      rw [hends]
      exact bind_of_error (peek_at_end (Nat.le_refl _)) _

theorem Signature.localsReader_sequential {type : Reader TypeSig} (htype : type.Sequential) :
    (localsReader type).Sequential := by
  have hlocals := Sequential.bind .compressed fun count =>
    Sequential.times (localReader_sequential htype) count
  exact .bind .byte fun first => .ite (.bind (.malformed _) fun _ => hlocals) hlocals

theorem Signature.instantiationReader_sequential {type : Reader TypeSig}
    (htype : type.Sequential) : (instantiationReader type).Sequential := by
  have harguments := Sequential.bind .compressed fun count => Sequential.times htype count
  exact .bind .byte fun first => .ite (.bind (.malformed _) fun _ => harguments) harguments

end CliMeta
