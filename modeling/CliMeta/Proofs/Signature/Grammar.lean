import CliMeta.Signature.Decoder
import Mathlib.Computability.RegularExpressions

/-!
The order of the prefixes of a type. Modifiers may stand anywhere; the marks between them form a
word of a regular language. Adding one prefix at a time keeps no more of this word than the counts
of its marks, and this is enough, as a word of the language is known from its counts.
-/

namespace CliMeta

/-- A prefix of a type other than a modifier. -/
inductive PrefixMark where
  | byRef | szArray | ptr
  deriving DecidableEq, Repr

namespace PrefixMark

open RegularExpression

def tag : PrefixMark → Nat
  | .byRef => ElementTag.byRef
  | .szArray => ElementTag.szArray
  | .ptr => ElementTag.ptr

theorem tag_lt (m : PrefixMark) : m.tag < 256 := by
  cases m <;> decide

@[simp] theorem isTag_tag (m : PrefixMark) : TypePrefixes.isTag m.tag = true := by
  cases m <;> rfl

@[simp] theorem not_modifier (m : PrefixMark) : CustomModifier.isTag m.tag = false := by
  cases m <;> rfl

/-- A reference at most, then arrays, then pointers. -/
def grammar : RegularExpression PrefixMark :=
  (1 + char .byRef) * (star (char .szArray) * star (char .ptr))

/-- The words of repetitions of one mark. -/
theorem mem_star_char {m : PrefixMark} {w : List PrefixMark} :
    w ∈ (star (char m)).matches' ↔ ∃ count, w = List.replicate count m := by
  rw [matches'_star, Language.mem_kstar]
  constructor
  · rintro ⟨words, rfl, hwords⟩
    induction words with
    | nil => exact ⟨0, rfl⟩
    | cons word words ih =>
        obtain ⟨count, hcount⟩ := ih fun other hmem => hwords other (List.mem_cons_of_mem word hmem)
        have hword : word = [m] := hwords word (List.mem_cons_self ..)
        exact ⟨count + 1, by rw [List.flatten_cons, hword, hcount]; rfl⟩
  · rintro ⟨count, rfl⟩
    refine ⟨List.replicate count [m], by simp, fun word hmem => ?_⟩
    exact List.eq_of_mem_replicate hmem

theorem mem_optional_char {m : PrefixMark} {w : List PrefixMark} :
    w ∈ (1 + char m : RegularExpression PrefixMark).matches' ↔
      ∃ present : Bool, w = List.replicate present.toNat m := by
  rw [matches'_add, Language.mem_add]
  constructor
  · rintro (hnone | hone)
    · exact ⟨false, hnone⟩
    · exact ⟨true, hone⟩
  · rintro ⟨present, rfl⟩
    cases present with
    | false => exact .inl rfl
    | true => exact .inr rfl

end PrefixMark

namespace TypePrefixes

open PrefixMark

variable {p q : TypePrefixes} {w : List PrefixMark}

/-! ### Marks and their counts -/

/-- The marks of some prefixes, in their order. -/
def marks (p : TypePrefixes) : List PrefixMark :=
  List.replicate p.byRef.toNat .byRef ++
    (List.replicate p.arrayRank .szArray ++ List.replicate p.pointerDepth .ptr)

/-- The prefixes of which the marks are counted in a word. -/
def counted (modifiers : List CustomModifier) (w : List PrefixMark) : TypePrefixes :=
  ⟨modifiers, decide (.byRef ∈ w), w.count .szArray, w.count .ptr⟩

theorem mem_grammar_iff : w ∈ grammar.matches' ↔ ∃ p : TypePrefixes, p.marks = w := by
  rw [grammar, RegularExpression.matches'_mul, RegularExpression.matches'_mul, Language.mem_mul]
  constructor
  · rintro ⟨references, hreferences, behind, hbehind, rfl⟩
    obtain ⟨arrays, harrays, pointers, hpointers, rfl⟩ := Language.mem_mul.1 hbehind
    obtain ⟨byRef, rfl⟩ := mem_optional_char.1 hreferences
    obtain ⟨arrayRank, rfl⟩ := mem_star_char.1 harrays
    obtain ⟨pointerDepth, rfl⟩ := mem_star_char.1 hpointers
    exact ⟨⟨[], byRef, arrayRank, pointerDepth⟩, rfl⟩
  · rintro ⟨p, rfl⟩
    refine ⟨_, mem_optional_char.2 ⟨p.byRef, rfl⟩, _, Language.mem_mul.2 ?_, rfl⟩
    exact ⟨_, mem_star_char.2 ⟨p.arrayRank, rfl⟩, _, mem_star_char.2 ⟨p.pointerDepth, rfl⟩, rfl⟩

@[simp] theorem count_byRef_marks (p : TypePrefixes) : p.marks.count .byRef = p.byRef.toNat := by
  simp [marks, List.count_replicate]

@[simp] theorem count_szArray_marks (p : TypePrefixes) : p.marks.count .szArray = p.arrayRank := by
  simp [marks, List.count_replicate]

@[simp] theorem count_ptr_marks (p : TypePrefixes) : p.marks.count .ptr = p.pointerDepth := by
  simp [marks, List.count_replicate]

/-- A word of the grammar tells the prefixes that it belongs to. -/
theorem counted_marks (p : TypePrefixes) : counted p.modifiers p.marks = p := by
  obtain ⟨modifiers, byRef, arrayRank, pointerDepth⟩ := p
  have hbyRef : decide (PrefixMark.byRef ∈ marks ⟨modifiers, byRef, arrayRank, pointerDepth⟩) =
      byRef := by
    cases byRef <;> simp [marks]
  rw [counted, hbyRef, count_szArray_marks, count_ptr_marks]

/-- A word of the grammar is made up of the marks that are counted in it. -/
theorem marks_counted (h : w ∈ grammar.matches') (modifiers : List CustomModifier) :
    (counted modifiers w).marks = w := by
  obtain ⟨p, rfl⟩ := mem_grammar_iff.1 h
  exact (congrArg marks (counted_marks { p with modifiers := modifiers }) :)

/-- What a word of the grammar begins with is one itself. -/
theorem mem_grammar_of_append {w' : List PrefixMark} (h : w ++ w' ∈ grammar.matches') :
    w ∈ grammar.matches' := by
  obtain ⟨p, hmarks⟩ := mem_grammar_iff.1 h
  have hfront : w = p.marks.take w.length := by rw [hmarks, List.take_left]
  have hbyRef : (decide (0 < min w.length p.byRef.toNat)).toNat = min w.length p.byRef.toNat := by
    cases p.byRef <;> cases w.length <;> simp
  refine mem_grammar_iff.2 ⟨⟨[], decide (0 < min w.length p.byRef.toNat),
    min (w.length - p.byRef.toNat) p.arrayRank,
    min (w.length - p.byRef.toNat - p.arrayRank) p.pointerDepth⟩, ?_⟩
  rw [marks, hbyRef]
  conv_rhs => rw [hfront]
  simp [marks, List.take_append, List.take_replicate]

/-- The order of a word shows in its last mark. -/
theorem getLast?_marks (p : TypePrefixes) :
    p.marks.getLast? =
      if p.pointerDepth ≠ 0 then some .ptr
      else if p.arrayRank ≠ 0 then some .szArray
      else if p.byRef then some .byRef
      else Option.none := by
  obtain ⟨modifiers, byRef, arrayRank, pointerDepth⟩ := p
  simp only [marks, List.getLast?_append, List.getLast?_replicate]
  cases pointerDepth <;> cases arrayRank <;> cases byRef <;> simp

theorem eq_of_marks (hmodifiers : p.modifiers = q.modifiers) (h : p.marks = q.marks) : p = q := by
  rw [← p.counted_marks, hmodifiers, h, q.counted_marks]

/-! ### Adding a mark -/

theorem add?_eq_some {m : PrefixMark} (h : p.add? m.tag = some q) :
    q.modifiers = p.modifiers ∧ q.marks = p.marks ++ [m] := by
  obtain ⟨modifiers, byRef, arrayRank, pointerDepth⟩ := p
  cases m with
  | byRef =>
      obtain ⟨⟨rfl, rfl, rfl⟩, hadded⟩ := Option.ite_none_right_eq_some.1 h
      cases hadded
      exact ⟨rfl, rfl⟩
  | szArray =>
      obtain ⟨rfl, hadded⟩ := Option.ite_none_right_eq_some.1 h
      cases hadded
      exact ⟨rfl, by simp [marks, List.replicate_succ']⟩
  | ptr =>
      cases h
      exact ⟨rfl, by simp [marks, List.replicate_succ']⟩

/-- A mark that ends a word of the grammar is not refused: the counts and the last mark of the word
show that it fits. -/
theorem exists_add? {m : PrefixMark} (h : q.marks = p.marks ++ [m]) :
    ∃ added, p.add? m.tag = some added := by
  have hlast : q.marks.getLast? = some m := by rw [h, List.getLast?_concat]
  have hreferences : q.byRef.toNat = p.byRef.toNat + [m].count .byRef := by
    rw [← count_byRef_marks, h, List.count_append, count_byRef_marks]
  have harrays : q.arrayRank = p.arrayRank + [m].count .szArray := by
    rw [← count_szArray_marks, h, List.count_append, count_szArray_marks]
  have hpointers : q.pointerDepth = p.pointerDepth + [m].count .ptr := by
    rw [← count_ptr_marks, h, List.count_append, count_ptr_marks]
  rw [getLast?_marks, hpointers, harrays] at hlast
  cases m with
  | ptr => exact ⟨_, rfl⟩
  | szArray =>
      have hpointed : p.pointerDepth = 0 := by
        by_contra hpointed
        simp [hpointed] at hlast
      exact ⟨_, if_pos hpointed⟩
  | byRef =>
      have hpointed : p.pointerDepth = 0 := by
        by_contra hpointed
        simp [hpointed] at hlast
      have harrayed : p.arrayRank = 0 := by
        by_contra harrayed
        simp [hpointed, harrayed] at hlast
      have hreferenced : p.byRef = false := by
        by_contra hreferenced
        have hmost := q.byRef.toNat_le
        rw [hreferences, Bool.eq_true_of_not_eq_false hreferenced] at hmost
        exact absurd hmost (by decide)
      have hfresh : p.byRef = false ∧ p.arrayRank = 0 ∧ p.pointerDepth = 0 :=
        ⟨hreferenced, harrayed, hpointed⟩
      exact ⟨_, if_pos hfresh⟩

/-- A mark is added exactly if the word that it ends is in the grammar. -/
theorem add?_eq_some_iff {m : PrefixMark} :
    p.add? m.tag = some q ↔ q.modifiers = p.modifiers ∧ q.marks = p.marks ++ [m] := by
  refine ⟨add?_eq_some, fun ⟨hmodifiers, hmarks⟩ => ?_⟩
  obtain ⟨added, hadded⟩ := exists_add? hmarks
  obtain ⟨haddedModifiers, haddedMarks⟩ := add?_eq_some hadded
  rw [hadded, eq_of_marks (haddedModifiers.trans hmodifiers.symm) (haddedMarks.trans hmarks.symm)]

theorem add?_of_mem {m : PrefixMark} (h : p.marks ++ [m] ∈ grammar.matches') :
    p.add? m.tag = some (counted p.modifiers (p.marks ++ [m])) :=
  add?_eq_some_iff.2 ⟨rfl, marks_counted h _⟩

end TypePrefixes

end CliMeta
