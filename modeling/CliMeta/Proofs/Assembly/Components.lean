import CliMeta.Proofs.Assembly.Key
import CliMeta.Proofs.Assembly.Version
import Mathlib.Tactic.MkIffOfInductiveProp

/-!
The components of display names. A display name is accepted if it has a name in front, every
component has a label, every version and every key is one, and of the components with the same
label the last one gives the identity. All else is refused as malformed.
-/

namespace CliMeta

/-! ### Values that stand for something -/

section

variable {α : Type} {R S : List Char → α → Prop} {value : List Char}
  {values front back : List (List Char)} {before a : α}

/-- All of the values stand for something, and `a` is what the last one stands for. Without a value
it is what there was before. -/
def LastStands (R : List Char → α → Prop) (values : List (List Char)) (before a : α) : Prop :=
  ∃ all, List.Forall₂ R values all ∧ a = all.getLastD before

theorem lastStands_nil : LastStands R [] before a ↔ a = before := by
  simp [LastStands]

theorem lastStands_cons :
    LastStands R (value :: values) before a ↔ ∃ b, R value b ∧ LastStands R values b a := by
  simp only [LastStands, List.forall₂_cons_left_iff]
  constructor
  · rintro ⟨_, ⟨b, all, hvalue, hall, rfl⟩, ha⟩
    exact ⟨b, hvalue, all, hall, by rw [ha, List.getLastD_cons]⟩
  · rintro ⟨b, hvalue, all, hall, ha⟩
    exact ⟨b :: all, ⟨b, all, hvalue, hall, rfl⟩, by rw [ha, List.getLastD_cons]⟩

theorem lastStands_singleton : LastStands R [value] before a ↔ R value a := by
  simp [lastStands_cons, lastStands_nil]

theorem lastStands_append :
    LastStands R (front ++ back) before a ↔
      ∃ b, LastStands R front before b ∧ LastStands R back b a := by
  induction front generalizing before with
  | nil => simp [lastStands_nil]
  | cons value front ih =>
      simp only [List.cons_append, lastStands_cons, ih]
      grind

/-- What the last value stands for is something that one of them stands for, or was there before. -/
theorem LastStands.exists_of_ne (h : LastStands R values before a) (hne : a ≠ before) :
    ∃ value ∈ values, R value a := by
  induction values generalizing before with
  | nil => exact absurd (lastStands_nil.1 h) hne
  | cons value values ih =>
      obtain ⟨b, hvalue, hothers⟩ := lastStands_cons.1 h
      by_cases hb : a = b
      · exact ⟨value, List.mem_cons_self, hb ▸ hvalue⟩
      · obtain ⟨other, hother, ha⟩ := ih hothers hb
        exact ⟨other, List.mem_cons_of_mem value hother, ha⟩

theorem lastStands_and {p : List Char → Prop} (h : ∀ value a, S value a ↔ R value a ∧ p value) :
    LastStands S values before a ↔ LastStands R values before a ∧ ∀ value ∈ values, p value := by
  induction values generalizing before with
  | nil => simp [lastStands_nil]
  | cons value values ih =>
      simp only [lastStands_cons, ih, h, List.forall_mem_cons]
      grind

end

namespace AssemblyIdentity

variable {signs : Bool} {part : List Char} {parts front back : List (List Char)}
  {a b m : AssemblyIdentity} {display : String} {labels : List String}

/-! ### Labels -/

/-- The trimmed texts between the commas of a display name. -/
def displayParts (display : String) : List (List Char) :=
  (splitParts ',' display.toList).map trimBlanks

/-- The value of a component, if its label is one of those that are asked for. -/
def valueOf? (labels : List String) (part : List Char) : Option (List Char) :=
  match splitFirst '=' part with
  | some (label, value) => if String.ofList (trimBlanks label) ∈ labels then some value else none
  | none => none

def valuesOf (labels : List String) (parts : List (List Char)) : List (List Char) :=
  parts.filterMap (valueOf? labels)

def versionLabels : List String := ["Version"]
def cultureLabels : List String := ["Culture"]
def keyLabels : List String := ["PublicKeyToken", "PublicKey"]

/-- The components lead from one identity to the other. With `signs`, plus signs may stand in
versions and in keys. -/
@[mk_iff]
structure Follows (signs : Bool) (parts : List (List Char)) (a b : AssemblyIdentity) : Prop where
  labelled : ∀ part ∈ parts, '=' ∈ part
  name : b.name = a.name
  version : LastStands (AssemblyVersion.IsText signs) (valuesOf versionLabels parts)
    a.version b.version
  culture : LastStands (fun value culture => culture = parseCulture (trimBlanks value))
    (valuesOf cultureLabels parts) a.culture b.culture
  key : LastStands (fun value key => IsKey signs (trimBlanks value) key) (valuesOf keyLabels parts)
    a.publicKeyOrToken b.publicKeyOrToken

theorem valuesOf_append :
    valuesOf labels (front ++ back) = valuesOf labels front ++ valuesOf labels back :=
  List.filterMap_append ..

theorem follows_nil : Follows signs [] a b ↔ b = a := by
  obtain ⟨name, version, culture, key⟩ := a
  obtain ⟨name', version', culture', key'⟩ := b
  simp [follows_iff, valuesOf, lastStands_nil]

theorem follows_append :
    Follows signs (front ++ back) a b ↔ ∃ m, Follows signs front a m ∧ Follows signs back m b := by
  simp only [follows_iff, valuesOf_append, lastStands_append, List.forall_mem_append]
  constructor
  · rintro ⟨⟨hfront, hback⟩, hname, ⟨v, hv, hv'⟩, ⟨c, hc, hc'⟩, ⟨k, hk, hk'⟩⟩
    exact ⟨⟨a.name, v, c, k⟩, ⟨hfront, rfl, hv, hc, hk⟩, hback, hname, hv', hc', hk'⟩
  · rintro ⟨m, ⟨hfront, hname, hv, hc, hk⟩, hback, hname', hv', hc', hk'⟩
    exact ⟨⟨hfront, hback⟩, hname'.trans hname, ⟨_, hv, hv'⟩, ⟨_, hc, hc'⟩, ⟨_, hk, hk'⟩⟩

theorem addComponent_eq_ok_iff : addComponent a part = .ok b ↔ Follows true [part] a b := by
  obtain ⟨name, version, culture, key⟩ := a
  obtain ⟨name', version', culture', key'⟩ := b
  rw [addComponent, follows_iff]
  cases hpart : splitFirst '=' part with
  | none =>
      have hequals := splitFirst_eq_none_iff.1 hpart
      simp [hequals]
  | some sides =>
      obtain ⟨label, value⟩ := sides
      have hequals : '=' ∈ part := by
        rw [(splitFirst_eq_some_iff.1 hpart).2]
        simp
      have hvalues (labels : List String) : valuesOf labels [part] =
          if String.ofList (trimBlanks label) ∈ labels then [value] else [] := by
        by_cases hlabel : String.ofList (trimBlanks label) ∈ labels
        · simp [valuesOf, valueOf?, hpart, hlabel]
        · simp [valuesOf, valueOf?, hpart, hlabel]
      -- the label decides which one of the values there is
      simp only [hvalues, versionLabels, cultureLabels, keyLabels, List.mem_cons, List.not_mem_nil,
        or_false]
      generalize String.ofList (trimBlanks label) = label
      by_cases hversion : label = "Version"
      · subst hversion
        cases hparse : AssemblyVersion.parse value <;>
          simp [hequals, lastStands_nil, lastStands_singleton, ← AssemblyVersion.parse_eq_ok_iff,
            hparse, bind, Except.bind, pure, Except.pure, eq_comm]
      by_cases hculture : label = "Culture"
      · subst hculture
        simp [hequals, lastStands_nil, lastStands_singleton, eq_comm]
      by_cases hkey : label = "PublicKeyToken" ∨ label = "PublicKey"
      · simp only [hversion, hculture, hkey, if_false, if_true]
        cases hparse : parsePublicKey (trimBlanks value) <;>
          simp [hequals, lastStands_nil, lastStands_singleton, ← parsePublicKey_eq_ok_iff,
            hparse, bind, Except.bind, pure, Except.pure, eq_comm]
      · simp [hversion, hculture, hkey, hequals, lastStands_nil, eq_comm]

/-- Components are taken over one after another. -/
theorem foldlM_addComponent_eq_ok_iff :
    parts.foldlM addComponent a = .ok b ↔ Follows true parts a b := by
  induction parts generalizing a with
  | nil =>
      rw [follows_nil, List.foldlM_nil]
      simp [pure, Except.pure, eq_comm]
  | cons part parts ih =>
      rw [List.foldlM_cons, ← List.singleton_append, follows_append]
      simp only [← addComponent_eq_ok_iff, ← ih]
      cases addComponent a part with
      | error e => simp [bind, Except.bind]
      | ok m => simp [bind, Except.bind]

theorem addComponent_malformed {e : Error} (h : addComponent a part = .error e) :
    ∃ defect, e = .malformed defect := by
  rw [addComponent] at h
  split at h
  · cases h
    exact ⟨_, rfl⟩
  · rename_i label value _
    simp only at h
    split at h
    · rw [bind_pure_comp] at h
      exact AssemblyVersion.parse_malformed (map_eq_error_iff.1 h)
    split at h
    · cases h
    split at h
    · rw [bind_pure_comp] at h
      exact parsePublicKey_malformed (map_eq_error_iff.1 h)
    · cases h

/-! ### Display names -/

/-- What a display name stands for: its first part is the name, and the components lead from the
name alone to the identity. -/
structure Denotes (signs : Bool) (display : String) (a : AssemblyIdentity) : Prop where
  named : a.name ≠ ""
  first : (displayParts display).head? = some a.name.toList
  components : Follows signs (displayParts display).tail ⟨a.name, .zero, none, none⟩ a

theorem parse_eq_ok_iff : parse display = .ok a ↔ Denotes true display a := by
  rw [parse]
  constructor
  · intro h
    split at h
    · cases h
    · cases h
    · rename_i name parts hne hparts
      have hfollows := foldlM_addComponent_eq_ok_iff.1 h
      have hname : a.name = String.ofList name := hfollows.name
      refine ⟨?_, ?_, ?_⟩
      · rw [hname]
        simpa using hne
      · rw [displayParts, hparts, hname, List.head?_cons, String.toList_ofList]
      · rw [displayParts, hparts, hname]
        exact hfollows
  · rintro ⟨hnamed, hfirst, hcomponents⟩
    rw [displayParts] at hfirst hcomponents
    obtain ⟨parts, hparts⟩ := List.head?_eq_some_iff.1 hfirst
    rw [hparts] at hcomponents ⊢
    split
    · rename_i hnil
      cases hnil
    · rename_i hempty
      exact absurd (String.toList_eq_nil_iff.1 (List.cons.inj hempty).1) hnamed
    · rename_i hcons
      obtain ⟨rfl, rfl⟩ := List.cons.inj hcons
      rw [String.ofList_toList]
      exact foldlM_addComponent_eq_ok_iff.2 hcomponents

theorem parse_malformed {e : Error} (h : parse display = .error e) :
    ∃ defect, e = .malformed defect := by
  rw [parse] at h
  split at h
  · cases h
    exact ⟨_, rfl⟩
  · cases h
    exact ⟨_, rfl⟩
  · obtain ⟨m, part, -, hpart⟩ := exists_of_foldlM_error h
    exact addComponent_malformed hpart

/-! ### Plus signs -/

/-- Neither versions nor keys have plus signs. -/
def Unsigned (parts : List (List Char)) : Prop :=
  (∀ value ∈ valuesOf versionLabels parts, '+' ∉ value) ∧
    ∀ value ∈ valuesOf keyLabels parts, '+' ∉ value

theorem follows_false_iff :
    Follows false parts a b ↔ Follows true parts a b ∧ Unsigned parts := by
  have hversion : LastStands (AssemblyVersion.IsText false) (valuesOf versionLabels parts)
      a.version b.version ↔ LastStands (AssemblyVersion.IsText true) (valuesOf versionLabels parts)
        a.version b.version ∧ ∀ value ∈ valuesOf versionLabels parts, '+' ∉ value :=
    lastStands_and fun value v => AssemblyVersion.isText_false_iff
  have hkey : LastStands (fun value key => IsKey false (trimBlanks value) key)
      (valuesOf keyLabels parts) a.publicKeyOrToken b.publicKeyOrToken ↔
        LastStands (fun value key => IsKey true (trimBlanks value) key) (valuesOf keyLabels parts)
          a.publicKeyOrToken b.publicKeyOrToken ∧ ∀ value ∈ valuesOf keyLabels parts, '+' ∉ value :=
    lastStands_and fun value key => by
      rw [isKey_false_iff, mem_trimBlanks_iff (by decide : isBlank '+' = false)]
  constructor
  · rintro ⟨hlabelled, hname, hv, hculture, hk⟩
    obtain ⟨hv, hversions⟩ := hversion.1 hv
    obtain ⟨hk, hkeys⟩ := hkey.1 hk
    exact ⟨⟨hlabelled, hname, hv, hculture, hk⟩, hversions, hkeys⟩
  · rintro ⟨⟨hlabelled, hname, hv, hculture, hk⟩, hversions, hkeys⟩
    exact ⟨hlabelled, hname, hversion.2 ⟨hv, hversions⟩, hculture, hkey.2 ⟨hk, hkeys⟩⟩

theorem denotes_false_iff : Denotes false display a ↔
    Denotes true display a ∧ Unsigned (displayParts display).tail := by
  constructor
  · rintro ⟨hnamed, hfirst, hcomponents⟩
    obtain ⟨hfollows, hunsigned⟩ := follows_false_iff.1 hcomponents
    exact ⟨⟨hnamed, hfirst, hfollows⟩, hunsigned⟩
  · rintro ⟨⟨hnamed, hfirst, hcomponents⟩, hunsigned⟩
    exact ⟨hnamed, hfirst, follows_false_iff.2 ⟨hcomponents, hunsigned⟩⟩

/-- A display name is accepted exactly for what it denotes when plus signs may stand in front of the
numbers of versions and in the place of the first digit of a pair, and otherwise it is malformed.
Versions and keys of digits alone are denoted exactly by the display names without such signs. -/
theorem parse_validated (display : String) :
    (∀ a, parse display = .ok a ↔ Denotes true display a) ∧
      (∀ a, Denotes false display a ↔
        parse display = .ok a ∧ Unsigned (displayParts display).tail) ∧
      ∀ e, parse display = .error e → ∃ defect, e = .malformed defect :=
  ⟨fun _ => parse_eq_ok_iff, fun _ => denotes_false_iff.trans (and_congr_left' parse_eq_ok_iff.symm),
    fun _ => parse_malformed⟩

/-- A plus sign and one digit are accepted as the byte of a key. -/
theorem parse_signedKey :
    parse "Foo, PublicKeyToken=+a" = .ok ⟨"Foo", .zero, none, some [0x0A]⟩ ∧
      valuesOf keyLabels (displayParts "Foo, PublicKeyToken=+a").tail = ["+a".toList] ∧
      ∀ key, ¬IsKey false "+a".toList key := by
  refine ⟨rfl, by decide, fun key h => ?_⟩
  exact (isKey_false_iff.1 h).2 (by decide)

end AssemblyIdentity

end CliMeta
