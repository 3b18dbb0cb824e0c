import CliMeta.Assembly.Version
import CliMeta.Proofs.Outcome
import CliMeta.Proofs.Text.Blank

/-!
The texts of versions. A version is accepted if there are at most four parts between its dots and
each of them is, between blanks, a decimal number below 65536. A plus sign may stand in front of the
number. Every version is read from its own text.
-/

namespace CliMeta

variable {signs : Bool} {text : List Char} {number : Nat}

/-! ### Numbers -/

/-- One or more decimal digits that spell a number below 65536. -/
structure ShortDigits (digits : List Char) (number : Nat) : Prop where
  ne_nil : digits ≠ []
  digit : ∀ c ∈ digits, c.isDigit = true
  value : Nat.ofDigitChars 10 digits 0 = number
  lt : number < 0x10000

/-- A text that stands for a number. With `signs`, a plus sign may stand in front of the digits. -/
def IsShortDecimal (signs : Bool) (text : List Char) (number : Nat) : Prop :=
  ShortDigits text number ∨
    signs = true ∧ ∃ digits, text = '+' :: digits ∧ ShortDigits digits number

theorem ShortDigits.not_mem {digits : List Char} (h : ShortDigits digits number) {c : Char}
    (hc : c.isDigit = false) : c ∉ digits := by
  intro hmem
  rw [h.digit c hmem] at hc
  cases hc

theorem isShortDecimal_false_iff :
    IsShortDecimal false text number ↔ IsShortDecimal true text number ∧ '+' ∉ text := by
  constructor
  · rintro (h | ⟨h, -⟩)
    · exact ⟨.inl h, h.not_mem rfl⟩
    · cases h
  · rintro ⟨h | ⟨-, digits, rfl, -⟩, hsign⟩
    · exact .inl h
    · exact absurd List.mem_cons_self hsign

theorem IsShortDecimal.lt (h : IsShortDecimal signs text number) : number < 0x10000 := by
  obtain h | ⟨-, digits, -, h⟩ := h
  · exact h.lt
  · exact h.lt

theorem shortDecimal?_plus {digits : List Char} :
    shortDecimal? ('+' :: digits) = some number ↔ ShortDigits digits number := by
  have hvalue : digits.foldl (fun value digit => value * 10 + (digit.toNat - '0'.toNat)) 0 =
      Nat.ofDigitChars 10 digits 0 := by
    simp only [Nat.ofDigitChars_eq_foldl, Nat.mul_comm]
  simp only [shortDecimal?, hvalue, List.all_eq_true]
  constructor
  · intro h
    split at h
    · rename_i hdigits
      split at h
      · rename_i hlt
        cases h
        exact ⟨hdigits.1, hdigits.2, rfl, hlt⟩
      · cases h
    · cases h
  · rintro ⟨hne, hdigits, rfl, hlt⟩
    rw [if_pos ⟨hne, hdigits⟩, if_pos hlt]

/-- Without a sign a text is read as with one. -/
theorem shortDecimal?_of_head (h : text.head? ≠ some '+') :
    shortDecimal? text = shortDecimal? ('+' :: text) := by
  cases text with
  | nil => rfl
  | cons c rest =>
      simp only [shortDecimal?]
      split
      · rename_i heq
        cases heq
        exact absurd rfl h
      · rfl

theorem shortDecimal?_eq_some_iff :
    shortDecimal? text = some number ↔ IsShortDecimal true text number := by
  by_cases hsign : text.head? = some '+'
  · obtain ⟨digits, rfl⟩ := List.head?_eq_some_iff.1 hsign
    rw [shortDecimal?_plus]
    refine ⟨fun h => .inr ⟨rfl, digits, rfl, h⟩, ?_⟩
    rintro (h | ⟨-, rest, hrest, h⟩)
    · exact absurd List.mem_cons_self (h.not_mem rfl)
    · rwa [(List.cons.inj hrest).2]
  · rw [shortDecimal?_of_head hsign, shortDecimal?_plus]
    refine ⟨.inl, ?_⟩
    rintro (h | ⟨-, digits, rfl, -⟩)
    · exact h
    · exact absurd rfl hsign

/-! ### Versions -/

namespace AssemblyVersion

/-- The four numbers fit in 16 bits. -/
structure Fits (v : AssemblyVersion) : Prop where
  major : v.major < 0x10000
  minor : v.minor < 0x10000
  build : v.build < 0x10000
  revision : v.revision < 0x10000

/-- The version of numbers from the major one on, with zeros for those that are left out. -/
def ofNumbers (numbers : List Nat) : AssemblyVersion where
  major := (numbers[0]?).getD 0
  minor := (numbers[1]?).getD 0
  build := (numbers[2]?).getD 0
  revision := (numbers[3]?).getD 0

theorem fits_ofNumbers {numbers : List Nat} (h : ∀ number ∈ numbers, number < 0x10000) :
    (ofNumbers numbers).Fits := by
  have hplace (place : Nat) : (numbers[place]?).getD 0 < 0x10000 := by
    cases hnumber : numbers[place]? with
    | none => decide
    | some number => exact h number (List.mem_of_getElem? hnumber)
  exact ⟨hplace 0, hplace 1, hplace 2, hplace 3⟩

/-- A text of one to four numbers between dots, with blanks around them. -/
def IsText (signs : Bool) (text : List Char) (v : AssemblyVersion) : Prop :=
  ∃ numbers, numbers.length ≤ 4 ∧
    List.Forall₂ (fun part number => IsShortDecimal signs (trimBlanks part) number)
      (splitParts '.' text) numbers ∧
    v = ofNumbers numbers

variable {v : AssemblyVersion}

theorem IsText.fits (h : IsText signs text v) : v.Fits := by
  obtain ⟨numbers, -, hnumbers, rfl⟩ := h
  refine fits_ofNumbers ?_
  generalize splitParts '.' text = parts at hnumbers
  induction hnumbers with
  | nil => exact nofun
  | cons hnumber _ ih => exact List.forall_mem_cons.2 ⟨hnumber.lt, ih⟩

theorem isText_false_iff : IsText false text v ↔ IsText true text v ∧ '+' ∉ text := by
  -- signs are not blank, so they are found in the trimmed parts
  have hsigns : '+' ∉ text ↔ ∀ part ∈ splitParts '.' text, '+' ∉ trimBlanks part := by
    simp only [mem_trimBlanks_iff (by decide : isBlank '+' = false)]
    rw [← exists_mem_splitParts_iff (by decide : '+' ≠ '.')]
    simp
  have hparts (numbers : List Nat) :
      List.Forall₂ (fun part number => IsShortDecimal false (trimBlanks part) number)
        (splitParts '.' text) numbers ↔ '+' ∉ text ∧
        List.Forall₂ (fun part number => IsShortDecimal true (trimBlanks part) number)
          (splitParts '.' text) numbers := by
    rw [hsigns, ← List.forall₂_and_left]
    simp only [isShortDecimal_false_iff, and_comm]
  simp only [IsText, hparts]
  grind

theorem parseComponent_eq_ok_iff {part : List Char} :
    parseComponent part = .ok number ↔ IsShortDecimal true (trimBlanks part) number := by
  rw [← shortDecimal?_eq_some_iff, parseComponent]
  cases shortDecimal? (trimBlanks part) <;> simp

theorem parse_eq_ok_iff : parse text = .ok v ↔ IsText true text v := by
  have hlength {numbers : List Nat} :
      List.Forall₂ (fun part number => IsShortDecimal true (trimBlanks part) number)
        (splitParts '.' text) numbers → (splitParts '.' text).length = numbers.length :=
    List.Forall₂.length_eq
  unfold IsText
  simp only [← parseComponent_eq_ok_iff, ← mapM_eq_ok_iff] at hlength ⊢
  rw [parse]
  split
  · simp only [throw, throwThe, MonadExceptOf.throw, bind, Except.bind, reduceCtorEq, false_iff]
    rintro ⟨numbers, hle, hnumbers, -⟩
    have := hlength hnumbers
    omega
  · cases hnumbers : (splitParts '.' text).mapM parseComponent with
    | error e => simp [bind, Except.bind]
    | ok numbers =>
        have hle : numbers.length ≤ 4 := by
          have := hlength hnumbers
          omega
        simp only [bind, Except.bind, pure, Except.pure, Except.ok.injEq]
        constructor
        · rintro rfl
          exact ⟨numbers, hle, rfl, rfl⟩
        · rintro ⟨_, -, rfl, rfl⟩
          rfl

theorem parse_malformed {e : Error} (h : parse text = .error e) :
    ∃ defect, e = .malformed defect := by
  rw [parse] at h
  split at h
  · cases h
    exact ⟨_, rfl⟩
  · simp only [bind_pure_comp] at h
    obtain ⟨part, -, hpart⟩ := exists_of_mapM_error (map_eq_error_iff.1 h)
    rw [parseComponent] at hpart
    split at hpart
    · cases hpart
    · cases hpart
      exact ⟨_, rfl⟩

/-! ### Texts of versions -/

theorem isBlank_of_isDigit {c : Char} (h : c.isDigit = true) : isBlank c = false := by
  simp only [Char.isDigit, Bool.and_eq_true, decide_eq_true_eq, ge_iff_le,
    UInt32.le_iff_toNat_le, Char.toNat_val, Char.reduceToNat] at h
  simp only [isBlank, Bool.or_eq_false_iff, Bool.and_eq_false_iff, decide_eq_false_iff_not,
    beq_eq_false_iff_ne]
  omega

theorem isShortDecimal_toDigits (h : number < 0x10000) :
    IsShortDecimal signs (trimBlanks (Nat.toDigits 10 number)) number := by
  have hdigit : ∀ c ∈ Nat.toDigits 10 number, c.isDigit = true := fun c hc =>
    Nat.isDigit_of_mem_toDigits (by decide) (by decide) hc
  rw [trimBlanks_of_forall fun c hc => isBlank_of_isDigit (hdigit c hc)]
  exact .inl ⟨Nat.toDigits_ne_nil, hdigit, Nat.ofDigitChars_ten_toDigits, h⟩

theorem toList_text (v : AssemblyVersion) :
    v.text.toList =
      ['.'].intercalate ([v.major, v.minor, v.build, v.revision].map (Nat.toDigits 10)) := by
  have hdot : (toString ".").toList = ['.'] := rfl
  simp [text, hdot, Nat.repr_eq_ofList_toDigits, List.intercalate]

theorem splitParts_text (v : AssemblyVersion) :
    splitParts '.' v.text.toList =
      [v.major, v.minor, v.build, v.revision].map (Nat.toDigits 10) := by
  rw [toList_text]
  refine splitParts_intercalate ?_ (by simp)
  intro part hpart hdot
  obtain ⟨number, -, rfl⟩ := List.mem_map.1 hpart
  exact absurd (Nat.isDigit_of_mem_toDigits (by decide) (by decide) hdot) (by decide)

theorem isText_text (h : v.Fits) : IsText signs v.text.toList v := by
  refine ⟨[v.major, v.minor, v.build, v.revision], Nat.le_refl 4, ?_, rfl⟩
  rw [splitParts_text, List.forall₂_map_left_iff]
  exact .cons (isShortDecimal_toDigits h.major) (.cons (isShortDecimal_toDigits h.minor)
    (.cons (isShortDecimal_toDigits h.build) (.cons (isShortDecimal_toDigits h.revision) .nil)))

theorem isDigit_of_mem_text {c : Char} (h : c ∈ v.text.toList) (hdot : c ≠ '.') :
    c.isDigit = true := by
  rw [← exists_mem_splitParts_iff hdot, splitParts_text] at h
  obtain ⟨part, hpart, hc⟩ := h
  obtain ⟨number, -, rfl⟩ := List.mem_map.1 hpart
  exact Nat.isDigit_of_mem_toDigits (by decide) (by decide) hc

end AssemblyVersion

end CliMeta
