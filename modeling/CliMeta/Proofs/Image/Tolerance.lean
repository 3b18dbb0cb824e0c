import CliMeta.Image.Method
import CliMeta.Proofs.Image.Loaded
import Mathlib.Tactic.Common

/-!
Tolerance. Options decide what is refused and nothing else: more tolerant options load the same
image from the same metadata, and find in it the same methods with the same instructions. What they
let pass in addition is a method whose locals or clauses the stricter options refuse.
-/

namespace CliMeta

open Reader

namespace LoadOptions

/-- Whatever the tolerant options refuse, the strict ones refuse as well. -/
structure StricterThan (strict tolerant : LoadOptions) : Prop where
  names : tolerant.strictStreamNames = true → strict.strictStreamNames = true
  uncompressed : strict.allowUncompressedTables = true → tolerant.allowUncompressedTables = true
  bodies : tolerant.validateMethodBodies = true → strict.validateMethodBodies = true

theorem stricterThan_iff {strict tolerant : LoadOptions} :
    strict.StricterThan tolerant ↔
      (tolerant.strictStreamNames = true → strict.strictStreamNames = true) ∧
      (strict.allowUncompressedTables = true → tolerant.allowUncompressedTables = true) ∧
      (tolerant.validateMethodBodies = true → strict.validateMethodBodies = true) :=
  ⟨fun h => ⟨h.names, h.uncompressed, h.bodies⟩, fun ⟨hnames, huncompressed, hbodies⟩ =>
    ⟨hnames, huncompressed, hbodies⟩⟩

instance (strict tolerant : LoadOptions) : Decidable (strict.StricterThan tolerant) :=
  decidable_of_iff _ stricterThan_iff.symm

example : strict.StricterThan default ∧ default.StricterThan lenient ∧
    ¬lenient.StricterThan default := by
  decide

end LoadOptions

variable {strict tolerant : LoadOptions}

/-! ### Loading -/

namespace Image

variable {space : AddressSpace} {clrHeader : Option ClrHeader} {rva size : Nat} {image : Image}

/-- More tolerant options load the same image. -/
theorem load_tolerant (h : strict.StricterThan tolerant)
    (hload : load space clrHeader rva size strict = .ok image) :
    load space clrHeader rva size tolerant = .ok { image with options := tolerant } := by
  obtain ⟨hspace, hheader, rfl, metadata, hread, hholds⟩ := load_eq_ok.1 hload
  obtain ⟨header, contents, hform, htables⟩ := hholds.tables
  obtain ⟨hfirst, hallowed⟩ := tablesStream_eq_ok.1 hform
  have hnames : image.root.checkNames tolerant = .ok () :=
    Root.checkNames_eq_ok.2 fun hstrict => Root.checkNames_eq_ok.1 hholds.names (h.names hstrict)
  have hform' : tablesStream tolerant image.root = .ok header :=
    tablesStream_eq_ok.2 ⟨hfirst, fun hname => h.uncompressed (hallowed hname)⟩
  exact load_eq_ok.2 ⟨hspace, hheader, rfl, metadata, hread, hholds.root, hnames, hholds.heaps,
    header, contents, hform', htables⟩

/-! ### Methods -/

/-- The checks that a method body has to pass if the options ask for them. -/
def checkBody (image : Image) (m : LoadedMethod) : Except Error Unit := do
  m.checkLocals image.tables
  m.checkClauses

theorem disassemble_eq (image : Image) (index : Nat) :
    image.disassemble index = (do
      let m ← image.loadMethod index
      if image.options.validateMethodBodies then image.checkBody m
      return m) := by
  rw [disassemble]
  cases image.loadMethod index with
  | error e => rfl
  | ok m =>
      simp only [bind, Except.bind, pure, Except.pure, checkBody]
      cases image.options.validateMethodBodies with
      | false => rfl
      | true =>
          cases m.checkLocals image.tables with
          | error e => rfl
          | ok u => rfl

theorem disassemble_eq_ok {index : Nat} {m : LoadedMethod} :
    image.disassemble index = .ok m ↔
      image.loadMethod index = .ok m ∧
        (image.options.validateMethodBodies = true → image.checkBody m = .ok ()) := by
  rw [disassemble_eq, bind_eq_ok_iff]
  constructor
  · rintro ⟨m', hm', hchecked⟩
    cases hvalue : image.options.validateMethodBodies with
    | false =>
        rw [hvalue] at hchecked
        cases hchecked
        exact ⟨hm', fun h => nomatch h⟩
    | true =>
        rw [hvalue] at hchecked
        obtain ⟨⟨⟩, hbody, hend⟩ := exists_of_bind_ok hchecked
        cases hend
        exact ⟨hm', fun _ => hbody⟩
  · rintro ⟨hm, hchecked⟩
    refine ⟨m, hm, ?_⟩
    cases hvalue : image.options.validateMethodBodies with
    | false => rfl
    | true =>
        rw [if_pos rfl, hchecked hvalue]
        rfl

/-- What is refused of a method that can be read is refused by the checks. -/
theorem disassemble_eq_error {index : Nat} {m : LoadedMethod} {e : Error}
    (hm : image.loadMethod index = .ok m) :
    image.disassemble index = .error e ↔
      image.options.validateMethodBodies = true ∧ image.checkBody m = .error e := by
  have hbind : image.disassemble index = (do
      if image.options.validateMethodBodies then image.checkBody m
      return m) := by
    rw [disassemble_eq, hm]
    rfl
  rw [hbind]
  cases hvalue : image.options.validateMethodBodies with
  | false =>
      constructor
      · intro h
        cases h
      · rintro ⟨h, -⟩
        cases h
  | true =>
      cases image.checkBody m with
      | ok u => simp [bind, Except.bind, pure, Except.pure]
      | error e' => simp [bind, Except.bind]

theorem checkBody_eq_error {m : LoadedMethod} {e : Error} (h : image.checkBody m = .error e) :
    e = .malformed (.invalidLocals m.method.token m.body.locals) ∨
      e = .malformed (.clauseOutsideCode m.method.token m.body.codeSize) := by
  rw [checkBody] at h
  cases hlocals : m.checkLocals image.tables with
  | error e' =>
      rw [hlocals] at h
      cases h
      rw [LoadedMethod.checkLocals] at hlocals
      split at hlocals
      · cases hlocals
      · cases hlocals
        exact .inl rfl
  | ok u =>
      rw [hlocals] at h
      have hclauses : m.checkClauses = .error e := h
      rw [LoadedMethod.checkClauses] at hclauses
      split at hclauses
      · cases hclauses
      · cases hclauses
        exact .inr rfl

/-! ### What tolerance changes -/

/-- How an image loaded under tolerant options compares with the one loaded under strict ones. A
method that only the tolerant options let pass has locals or clauses that the checks refuse. -/
structure Extends (image strictImage : Image) : Prop where
  root : image.root = strictImage.root
  heaps : image.heaps = strictImage.heaps
  tables : image.tables = strictImage.tables
  uncompressed : image.uncompressed = strictImage.uncompressed
  methods : ∀ index m, strictImage.disassemble index = .ok m → image.disassemble index = .ok m
  listings : ∀ m, image.listing m = strictImage.listing m
  refused : ∀ index m e, strictImage.disassemble index = .error e →
    image.disassemble index = .ok m →
      strictImage.options.validateMethodBodies = true ∧
        image.options.validateMethodBodies = false ∧
        (e = .malformed (.invalidLocals m.method.token m.body.locals) ∨
          e = .malformed (.clauseOutsideCode m.method.token m.body.codeSize))

theorem extends_of_stricter (h : image.options.StricterThan tolerant) :
    Extends { image with options := tolerant } image where
  root := rfl
  heaps := rfl
  tables := rfl
  uncompressed := rfl
  methods index m hm := by
    obtain ⟨hload, hchecked⟩ := disassemble_eq_ok.1 hm
    exact disassemble_eq_ok.2 ⟨hload, fun hvalue => hchecked (h.bodies hvalue)⟩
  listings m := rfl
  refused index m e he hm := by
    obtain ⟨hload, hchecked⟩ := disassemble_eq_ok.1 hm
    have hloaded : image.loadMethod index = .ok m := hload
    obtain ⟨hstrict, hbody⟩ := (disassemble_eq_error hloaded).1 he
    refine ⟨hstrict, ?_, checkBody_eq_error hbody⟩
    cases hvalue : tolerant.validateMethodBodies with
    | false => rfl
    | true =>
        have hpassed : image.checkBody m = .ok () := hchecked hvalue
        rw [hpassed] at hbody
        cases hbody

/-- Tolerant options extend what strict ones give, wherever the image is loaded from. -/
theorem load_extends (h : strict.StricterThan tolerant)
    (hload : load space clrHeader rva size strict = .ok image) :
    ∃ image', load space clrHeader rva size tolerant = .ok image' ∧ image'.Extends image := by
  obtain ⟨-, -, hoptions, -⟩ := load_eq_ok.1 hload
  rw [← hoptions] at h
  exact ⟨_, load_tolerant (by rwa [← hoptions]) hload, extends_of_stricter h⟩

/-- A method with a fat header that declares its locals by a row that does not exist. Behind the
root and its one stream stands the body. -/
def undeclaredLocals : Bytes :=
  #[0x42, 0x53, 0x4A, 0x42, 1, 0, 1, 0, 0, 0, 0, 0, 4, 0, 0, 0, 0x76, 0x34, 0, 0, 0, 0, 1, 0] ++
    #[0x24, 0, 0, 0, 0x2A, 0, 0, 0, 0x23, 0x7E, 0, 0] ++
    #[0, 0, 0, 0, 2, 0, 0, 1, 0x40, 0, 0, 0, 0, 0, 0, 0, 0, 0, 0, 0, 0, 0, 0, 0, 1, 0, 0, 0] ++
    #[0x50, 0, 0, 0, 0, 0, 0x16, 0, 0, 0, 0, 0, 0, 0, 0, 0] ++
    #[0x03, 0x30, 8, 0, 1, 0, 0, 0, 1, 0, 0, 0x11, 0x2A]

theorem load_extends_undeclaredLocals :
    ∃ image image', ofBuffer undeclaredLocals 0 93 .strict = .ok image ∧
      image.disassemble 0 = .error (.malformed (.invalidLocals ⟨0x06000001⟩ ⟨0x11000001⟩)) ∧
      ofBuffer undeclaredLocals 0 93 .lenient = .ok image' ∧ image'.Extends image ∧
      ∃ m, image'.disassemble 0 = .ok m ∧ m.code = #[0x2A] := by
  have hstrict : (ofBuffer undeclaredLocals 0 93 .strict).map (fun image =>
      (image.disassemble 0).map (·.code)) =
        .ok (.error (.malformed (.invalidLocals ⟨0x06000001⟩ ⟨0x11000001⟩))) := by
    decide +kernel
  have hlenient : (do
      let image ← ofBuffer undeclaredLocals 0 93 .lenient
      let m ← image.disassemble 0
      return m.code) = .ok #[0x2A] := by
    decide +kernel
  obtain ⟨image, himage, hrefused⟩ := exists_of_map_ok hstrict
  have hstricter : LoadOptions.strict.StricterThan .lenient := by decide
  obtain ⟨image', himage', hextends⟩ := load_extends hstricter himage
  obtain ⟨loaded, hloaded, hcode⟩ := exists_of_bind_ok hlenient
  obtain rfl : loaded = image' := Except.ok.inj (hloaded.symm.trans himage')
  obtain ⟨m, hm, hend⟩ := exists_of_bind_ok hcode
  refine ⟨image, loaded, himage, ?_, himage', hextends, m, hm, Except.ok.inj hend⟩
  cases hfails : image.disassemble 0 with
  | ok m => simp [hfails, Except.map] at hrefused
  | error e => simpa [hfails, Except.map] using hrefused

end Image

end CliMeta
