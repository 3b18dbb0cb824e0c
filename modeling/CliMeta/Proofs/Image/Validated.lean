import CliMeta.Proofs.Body.Extent
import CliMeta.Proofs.Image.Listing
import CliMeta.Proofs.Image.Tolerance
import CliMeta.Proofs.Table.Tokens

/-!
Method bodies that have passed the checks. The sizes in the header of a body agree with its bytes
from the start, since the code is read out of them; that clauses and locals lead to something that
exists is what the checks add. Of a clause they look at the protected region and at the handler. The
place of a filter is not looked at, so it is the one place of a clause that can be outside the code.
-/

namespace CliMeta

open Reader

/-! ### The code of a body -/

namespace LoadedMethod

variable {m : LoadedMethod}

theorem size_code {a : AddressSpace} {rva : Nat}
    (h : MethodBody.read a rva = .ok (m.body, m.data)) : m.code.size = m.body.codeSize := by
  rw [MethodBody.read] at h
  split at h
  · obtain ⟨hbody, hdata⟩ := Prod.mk.inj (Except.ok.inj h)
    rw [code, ← hbody, ← hdata]
    rfl
  · obtain ⟨length, -, h⟩ := exists_of_bind_ok h
    obtain ⟨data, -, h⟩ := exists_of_bind_ok h
    obtain ⟨body, hbody, h⟩ := exists_of_bind_ok h
    obtain ⟨rfl, rfl⟩ := Prod.mk.inj (Except.ok.inj h)
    obtain ⟨stop, hopen⟩ := MethodBody.ofBytes_eq_ok.1 hbody
    have hspans := MethodBody.openReader_ok hopen
    have hinside : m.body.size ≤ m.data.size := hspans.ends.size_le.trans hspans.inside
    have hslice : m.body.headerSize ≤ m.body.size ∧ m.body.size ≤ m.data.size :=
      ⟨Nat.le_add_right .., hinside⟩
    rw [code, Bytes.slice?, if_pos hslice, Option.getD_some, Array.size_extract,
      Nat.min_eq_left hinside, MethodBody.size, Nat.add_sub_cancel_left]

end LoadedMethod

/-! ### Clauses and locals -/

/-- The regions of the clause lie in code of a size. -/
structure ExceptionClause.RegionsInside (c : ExceptionClause) (codeSize : Nat) : Prop where
  tryRegion : c.tryRegion.offset + c.tryRegion.length ≤ codeSize
  handler : c.handler.offset + c.handler.length ≤ codeSize

/-- The clause lies in code of a size, with its filter if it has one. -/
structure ExceptionClause.Inside (c : ExceptionClause) (codeSize : Nat) : Prop where
  regions : c.RegionsInside codeSize
  filter : ∀ place, c.filterOffset? = some place → place < codeSize

/-- The token is null or names a row of local variables that exists. -/
def TablesStream.DeclaresLocals (s : TablesStream) (locals : Token) : Prop :=
  locals.isNull = true ∨
    ∃ index r, s.row .standAloneSig index = .ok r ∧ locals.Names ⟨.standAloneSig, index⟩

theorem LoadedMethod.checkClauses_eq_ok {m : LoadedMethod} :
    m.checkClauses = .ok () ↔ ∀ c ∈ m.body.clauses, c.RegionsInside m.body.codeSize := by
  have hclause (c : ExceptionClause) :
      (c.tryRegion.within m.body.codeSize && c.handler.within m.body.codeSize) = true ↔
        c.RegionsInside m.body.codeSize := by
    rw [Bool.and_eq_true, CodeRegion.within_iff, CodeRegion.within_iff]
    exact ⟨fun h => ⟨h.1, h.2⟩, fun h => ⟨h.tryRegion, h.handler⟩⟩
  simp only [← hclause, ← List.all_eq_true]
  rw [checkClauses]
  split
  · rename_i h
    exact ⟨fun _ => h, fun _ => rfl⟩
  · rename_i h
    constructor
    · intro hfails
      cases hfails
    · exact fun hall => absurd hall h

theorem LoadedMethod.checkLocals_eq_ok {m : LoadedMethod} {s : TablesStream} (hs : s.Consistent) :
    m.checkLocals s = .ok () ↔ s.DeclaresLocals m.body.locals := by
  rw [TablesStream.DeclaresLocals, ← hs.exists_named, checkLocals]
  split
  · rename_i h
    exact ⟨fun _ => h, fun _ => rfl⟩
  · rename_i h
    constructor
    · intro hfails
      cases hfails
    · exact fun hdeclared => absurd hdeclared h

namespace Image

variable {image : Image} {index : Nat} {m : LoadedMethod}

theorem checkBody_eq_ok (hs : image.tables.Consistent) :
    image.checkBody m = .ok () ↔ image.tables.DeclaresLocals m.body.locals ∧
      ∀ c ∈ m.body.clauses, c.RegionsInside m.body.codeSize := by
  rw [← LoadedMethod.checkLocals_eq_ok hs, ← LoadedMethod.checkClauses_eq_ok, checkBody,
    bind_eq_ok_iff]
  constructor
  · rintro ⟨checked, hlocals, hclauses⟩
    exact ⟨hlocals, hclauses⟩
  · rintro ⟨hlocals, hclauses⟩
    exact ⟨(), hlocals, hclauses⟩

theorem size_code_of_loadMethod (h : image.loadMethod index = .ok m) :
    m.code.size = m.body.codeSize := by
  obtain ⟨record, -, hthen⟩ := exists_of_bind_ok h
  obtain ⟨read, hread, hthen⟩ := exists_of_bind_ok hthen
  obtain ⟨params, -, hthen⟩ := exists_of_bind_ok hthen
  cases hthen
  exact LoadedMethod.size_code hread

/-- What holds of a method that has passed the checks. -/
structure BodyValid (image : Image) (m : LoadedMethod) : Prop where
  code : m.code.size = m.body.codeSize
  locals : image.tables.DeclaresLocals m.body.locals
  regions : ∀ c ∈ m.body.clauses, c.RegionsInside m.body.codeSize

/-- The checks let a method pass exactly if its locals are declared and the regions of its clauses
lie in the code, which then has its size. -/
theorem disassemble_validated (hload : image.IsLoaded)
    (hvalidate : image.options.validateMethodBodies = true) :
    image.disassemble index = .ok m ↔ image.loadMethod index = .ok m ∧ image.BodyValid m := by
  rw [disassemble_eq_ok]
  constructor
  · rintro ⟨hmethod, hchecked⟩
    obtain ⟨hlocals, hregions⟩ := (checkBody_eq_ok hload.consistent).1 (hchecked hvalidate)
    exact ⟨hmethod, size_code_of_loadMethod hmethod, hlocals, hregions⟩
  · rintro ⟨hmethod, hvalid⟩
    exact ⟨hmethod, fun _ => (checkBody_eq_ok hload.consistent).2 ⟨hvalid.locals, hvalid.regions⟩⟩

/-- A method of two bytes of code with one row of locals and a clause whose filter is at a
place. -/
def filteredMethod (place : UInt8) : Bytes :=
  #[0x42, 0x53, 0x4A, 0x42, 1, 0, 1, 0, 0, 0, 0, 0, 4, 0, 0, 0, 0x76, 0x34, 0, 0, 0, 0, 1, 0] ++
    #[0x24, 0, 0, 0, 0x30, 0, 0, 0, 0x23, 0x7E, 0, 0] ++
    #[0, 0, 0, 0, 2, 0, 0, 1, 0x40, 0, 2, 0, 0, 0, 0, 0, 0, 0, 0, 0, 0, 0, 0, 0] ++
    #[1, 0, 0, 0] ++ #[1, 0, 0, 0] ++
    #[0x54, 0, 0, 0, 0, 0, 0x16, 0, 0, 0, 0, 0, 0, 0] ++ #[0, 0] ++
    #[0x1B, 0x30, 8, 0, 2, 0, 0, 0, 1, 0, 0, 0x11] ++ #[0, 0x2A, 0, 0] ++
    #[0x01, 0x10, 0, 0] ++ #[1, 0, 0, 0, 1, 1, 0, 1, place, 0, 0, 0]

def filterAt (place : Nat) : ExceptionClause :=
  ⟨⟨1⟩, ⟨0, 1⟩, ⟨1, 1⟩, place⟩

theorem exists_filteredMethod (place : UInt8)
    (hrun : (do
      let image ← ofBuffer (filteredMethod place) 0 116 .default
      let m ← image.disassemble 0
      return (image.options.validateMethodBodies, m.body.codeSize, m.body.clauses)) =
        .ok (true, 2, [filterAt place.toNat])) :
    ∃ image : Image, image.IsLoaded ∧ image.options.validateMethodBodies = true ∧
      ∃ m, image.disassemble 0 = .ok m ∧ m.body.codeSize = 2 ∧
        m.body.clauses = [filterAt place.toNat] := by
  obtain ⟨image, himage, hrun⟩ := exists_of_bind_ok hrun
  obtain ⟨m, hm, hresult⟩ := exists_of_bind_ok hrun
  simp only [pure, Except.pure, Except.ok.injEq, Prod.mk.injEq] at hresult
  obtain ⟨hvalidate, hsize, hclauses⟩ := hresult
  exact ⟨image, ⟨_, _, _, _, _, himage⟩, hvalidate, m, hm, hsize, hclauses⟩

theorem disassemble_validated_filteredMethod :
    ∃ image : Image, image.IsLoaded ∧ image.options.validateMethodBodies = true ∧
      ∃ m, image.disassemble 0 = .ok m ∧ m.body.clauses = [filterAt 1] ∧ image.BodyValid m ∧
        ∀ c ∈ m.body.clauses, c.Inside m.body.codeSize := by
  obtain ⟨image, hload, hvalidate, m, hm, hsize, hclauses⟩ :=
    exists_filteredMethod 1 (by decide +kernel)
  have hvalid := ((disassemble_validated hload hvalidate).1 hm).2
  refine ⟨image, hload, hvalidate, m, hm, hclauses, hvalid, fun c hc => ?_⟩
  refine ⟨hvalid.regions c hc, ?_⟩
  rw [hclauses] at hc
  obtain rfl := List.mem_singleton.1 hc
  rw [hsize]
  decide

/-- The filter of a clause that has passed the checks can be outside the code. -/
theorem filteredMethod_outside :
    ∃ image : Image, image.IsLoaded ∧ image.options.validateMethodBodies = true ∧
      ∃ m, image.disassemble 0 = .ok m ∧ m.body.codeSize = 2 ∧
        ∃ c ∈ m.body.clauses, c.filterOffset? = some 100 ∧ ¬c.Inside m.body.codeSize := by
  obtain ⟨image, hload, hvalidate, m, hm, hsize, hclauses⟩ :=
    exists_filteredMethod 100 (by decide +kernel)
  refine ⟨image, hload, hvalidate, m, hm, hsize, filterAt 100, ?_, rfl, fun hinside => ?_⟩
  · rw [hclauses]
    exact List.mem_singleton_self _
  · have hfilter := hinside.filter 100 rfl
    omega

end Image

end CliMeta
