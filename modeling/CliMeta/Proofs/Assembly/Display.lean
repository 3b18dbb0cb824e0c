import CliMeta.Proofs.Assembly.Components

/-!
The round trip of display names. An identity is read from its display name if its name and its
culture can stand between commas as they are. Every identity that is read from some display name is
of this kind, so it has a display name of its own, whatever the other one looked like.
-/

namespace CliMeta.AssemblyIdentity

/-! ### Well-formed identities -/

/-- A text that comes back from between commas as it was. -/
structure IsSeparable (text : List Char) : Prop where
  trimmed : trimBlanks text = text
  noComma : ',' ∉ text

structure WellFormed (a : AssemblyIdentity) : Prop where
  named : a.name ≠ ""
  name : IsSeparable a.name.toList
  version : a.version.Fits
  culture : ∀ c, a.culture = some c → c ≠ "" ∧ c ≠ "neutral" ∧ IsSeparable c.toList

/-! ### Displayed components -/

variable {signs : Bool} {a : AssemblyIdentity} {text front back value : List Char} {label : String}
  {labels : List String}

theorem IsSeparable.append (hne : front ≠ []) (hfront : IsSeparable front)
    (hback : IsSeparable back) : IsSeparable (front ++ back) where
  trimmed := trimBlanks_append hne hfront.trimmed hback.trimmed
  noComma := by
    rw [List.mem_append, not_or]
    exact ⟨hfront.noComma, hback.noComma⟩

theorem IsSeparable.of_forall (h : ∀ c ∈ text, isBlank c = false ∧ c ≠ ',') : IsSeparable text where
  trimmed := trimBlanks_of_forall fun c hc => (h c hc).1
  noComma hcomma := (h ',' hcomma).2 rfl

theorem isSeparable_version (v : AssemblyVersion) : IsSeparable v.text.toList := by
  refine .of_forall fun c hc => ?_
  by_cases hdot : c = '.'
  · subst hdot
    decide
  · have hdigit := AssemblyVersion.isDigit_of_mem_text hc hdot
    refine ⟨AssemblyVersion.isBlank_of_isDigit hdigit, ?_⟩
    rintro rfl
    exact absurd hdigit (by decide)

def displayedCulture (culture : Option String) : String :=
  culture.getD "neutral"

def keyLabel : Option (List UInt8) → String
  | none => "PublicKeyToken"
  | some key => if key.length = 8 then "PublicKeyToken" else "PublicKey"

def keyValue : Option (List UInt8) → String
  | none => "null"
  | some key => hexOfBytes key

theorem isSeparable_keyValue (key : Option (List UInt8)) : IsSeparable (keyValue key).toList := by
  have hdigit : ∀ value < 16, isBlank value.digitChar = false ∧ value.digitChar ≠ ',' := by decide
  cases key with
  | none => exact ⟨by decide, by decide⟩
  | some key =>
      refine .of_forall fun c hc => ?_
      obtain ⟨value, hlt, rfl⟩ := digitChar_of_mem_hexOfBytes hc
      exact hdigit value hlt

/-- A component as it is displayed. -/
def component (label : String) (value : List Char) : List Char :=
  label.toList ++ '=' :: value

def components (a : AssemblyIdentity) : List (List Char) :=
  [component "Version" a.version.text.toList, component "Culture" (displayedCulture a.culture).toList,
    component (keyLabel a.publicKeyOrToken) (keyValue a.publicKeyOrToken).toList]

theorem toList_keyText (key : Option (List UInt8)) :
    (keyText key).toList = component (keyLabel key) (keyValue key).toList := by
  cases key with
  | none => rfl
  | some key =>
      simp only [keyText, keyLabel, component, String.toList_append]
      split
      · rfl
      · rfl

theorem toList_display (a : AssemblyIdentity) :
    a.display.toList = [','].intercalate (a.name.toList :: a.components.map (List.cons ' ')) := by
  have htext (text : String) : toString text = text := rfl
  simp [display, components, component, displayedCulture, toList_keyText, htext, List.intercalate]

/-- A label that is read as it is displayed. -/
structure IsLabel (label : String) : Prop where
  nonempty : label.toList ≠ []
  separable : IsSeparable label.toList
  noEquals : '=' ∉ label.toList

theorem isLabel_version : IsLabel "Version" := ⟨by decide, ⟨by decide, by decide⟩, by decide⟩

theorem isLabel_culture : IsLabel "Culture" := ⟨by decide, ⟨by decide, by decide⟩, by decide⟩

theorem keyLabel_eq_or (key : Option (List UInt8)) :
    keyLabel key = "PublicKeyToken" ∨ keyLabel key = "PublicKey" := by
  unfold keyLabel
  grind

theorem isLabel_keyLabel (key : Option (List UInt8)) : IsLabel (keyLabel key) := by
  obtain h | h := keyLabel_eq_or key
  · rw [h]
    exact ⟨by decide, ⟨by decide, by decide⟩, by decide⟩
  · rw [h]
    exact ⟨by decide, ⟨by decide, by decide⟩, by decide⟩

theorem IsLabel.component (hlabel : IsLabel label) (hvalue : IsSeparable value) :
    IsSeparable (component label value) := by
  have hequals : IsSeparable ['='] := ⟨by decide, by decide⟩
  exact hlabel.separable.append hlabel.nonempty (hequals.append (by decide) hvalue)

theorem valueOf?_component (hlabel : IsLabel label) :
    valueOf? labels (component label value) = if label ∈ labels then some value else none := by
  have hsplit : splitFirst '=' (component label value) = some (label.toList, value) :=
    splitFirst_eq_some_iff.2 ⟨hlabel.noEquals, rfl⟩
  rw [valueOf?, hsplit]
  simp only [hlabel.separable.trimmed, String.ofList_toList]

/-! ### Displayed identities -/

theorem isSeparable_displayedCulture (h : a.WellFormed) :
    IsSeparable (displayedCulture a.culture).toList := by
  cases hculture : a.culture with
  | none => exact ⟨by decide, by decide⟩
  | some c => exact (h.culture c hculture).2.2

theorem isSeparable_of_mem_components (h : a.WellFormed) {part : List Char}
    (hpart : part ∈ a.components) : IsSeparable part := by
  simp only [components, List.mem_cons, List.not_mem_nil, or_false] at hpart
  obtain rfl | rfl | rfl := hpart
  · exact isLabel_version.component (isSeparable_version a.version)
  · exact isLabel_culture.component (isSeparable_displayedCulture h)
  · exact (isLabel_keyLabel _).component (isSeparable_keyValue _)

theorem displayParts_display (h : a.WellFormed) :
    displayParts a.display = a.name.toList :: a.components := by
  have hsplit : splitParts ',' a.display.toList =
      a.name.toList :: a.components.map (List.cons ' ') := by
    rw [toList_display]
    refine splitParts_intercalate ?_ (List.cons_ne_nil _ _)
    rw [List.forall_mem_cons, List.forall_mem_map]
    refine ⟨h.name.noComma, fun part hpart => ?_⟩
    exact List.not_mem_cons_of_ne_of_not_mem (by decide)
      (isSeparable_of_mem_components h hpart).noComma
  have htrim (part : List Char) (hpart : part ∈ a.components) :
      (trimBlanks ∘ List.cons ' ') part = part := by
    rw [Function.comp_apply, trimBlanks_cons (by decide)]
    exact (isSeparable_of_mem_components h hpart).trimmed
  rw [displayParts, hsplit, List.map_cons, h.name.trimmed, List.map_map, List.map_congr_left htrim,
    List.map_id']

theorem parseCulture_displayed (h : a.WellFormed) :
    parseCulture (displayedCulture a.culture).toList = a.culture := by
  cases hculture : a.culture with
  | none => rfl
  | some c =>
      obtain ⟨hempty, hneutral, -⟩ := h.culture c hculture
      have hnot : ¬(c.toList = [] ∨ c.toList = "neutral".toList) := by
        rw [String.toList_eq_nil_iff, String.toList_inj, not_or]
        exact ⟨hempty, hneutral⟩
      rw [displayedCulture, Option.getD_some, parseCulture, if_neg hnot, String.ofList_toList]

theorem isKey_keyValue (key : Option (List UInt8)) : IsKey signs (keyValue key).toList key := by
  cases key with
  | none => exact .inl ⟨rfl, rfl⟩
  | some key => exact .inr ⟨key, hexPairs_hexOfBytes key, rfl⟩

/-- The values of the displayed components by their labels. -/
theorem valuesOf_components (a : AssemblyIdentity) :
    valuesOf versionLabels a.components = [a.version.text.toList] ∧
      valuesOf cultureLabels a.components = [(displayedCulture a.culture).toList] ∧
      valuesOf keyLabels a.components = [(keyValue a.publicKeyOrToken).toList] := by
  simp only [valuesOf, components, List.filterMap_cons, List.filterMap_nil,
    valueOf?_component isLabel_version, valueOf?_component isLabel_culture,
    valueOf?_component (isLabel_keyLabel _)]
  obtain hkey | hkey := keyLabel_eq_or a.publicKeyOrToken
  · simp [hkey, versionLabels, cultureLabels, keyLabels]
  · simp [hkey, versionLabels, cultureLabels, keyLabels]

theorem denotes_display (h : a.WellFormed) : Denotes signs a.display a := by
  obtain ⟨hversion, hculture, hkey⟩ := valuesOf_components a
  have hlabelled : ∀ part ∈ a.components, '=' ∈ part := by
    simp [components, component]
  refine ⟨h.named, by rw [displayParts_display h]; rfl, ?_⟩
  rw [displayParts_display h, List.tail_cons]
  refine ⟨hlabelled, rfl, ?_, ?_, ?_⟩
  · rw [hversion, lastStands_singleton]
    exact AssemblyVersion.isText_text h.version
  · rw [hculture, lastStands_singleton, (isSeparable_displayedCulture h).trimmed]
    exact (parseCulture_displayed h).symm
  · rw [hkey, lastStands_singleton, (isSeparable_keyValue _).trimmed]
    exact isKey_keyValue _

/-! ### Identities that are read -/

theorem mem_valuesOf {parts : List (List Char)} (h : value ∈ valuesOf labels parts) :
    ∃ part ∈ parts, ∃ label, part = label ++ '=' :: value := by
  obtain ⟨part, hpart, hvalue⟩ := List.mem_filterMap.1 h
  refine ⟨part, hpart, ?_⟩
  unfold valueOf? at hvalue
  split at hvalue
  · rename_i label found hsplit
    split at hvalue
    · cases hvalue
      exact ⟨label, (splitFirst_eq_some_iff.1 hsplit).2⟩
    · cases hvalue
  · cases hvalue

theorem isSeparable_of_mem_displayParts {display : String} {part : List Char}
    (h : part ∈ displayParts display) : IsSeparable part := by
  obtain ⟨whole, hwhole, rfl⟩ := List.mem_map.1 h
  exact ⟨trimBlanks_trimBlanks whole,
    fun hcomma => not_mem_of_mem_splitParts hwhole (mem_of_mem_trimBlanks hcomma)⟩

theorem parseCulture_eq_some {c : String} (h : parseCulture value = some c) :
    c ≠ "" ∧ c ≠ "neutral" ∧ c.toList = value := by
  unfold parseCulture at h
  split at h
  · cases h
  · rename_i hnot
    cases h
    rw [not_or] at hnot
    refine ⟨by simpa using hnot.1, ?_, String.toList_ofList⟩
    intro hneutral
    exact hnot.2 (by rw [← hneutral, String.toList_ofList])

theorem Denotes.wellFormed {display : String} (h : Denotes signs display a) : a.WellFormed where
  named := h.named
  name := isSeparable_of_mem_displayParts (List.mem_of_head? h.first)
  version := by
    by_cases hzero : a.version = .zero
    · rw [hzero]
      exact ⟨by decide, by decide, by decide, by decide⟩
    · obtain ⟨value, -, hvalue⟩ := h.components.version.exists_of_ne hzero
      exact hvalue.fits
  culture c hc := by
    have hsome : a.culture ≠ none := by
      rw [hc]
      exact Option.some_ne_none c
    obtain ⟨value, hvalue, hculture⟩ := h.components.culture.exists_of_ne hsome
    obtain ⟨hempty, hneutral, htext⟩ := parseCulture_eq_some (hculture.symm.trans hc)
    refine ⟨hempty, hneutral, ?_⟩
    -- the value is a part of a component, and that has no commas
    obtain ⟨part, hpart, label, rfl⟩ := mem_valuesOf hvalue
    have hcomma := (isSeparable_of_mem_displayParts (List.mem_of_mem_tail hpart)).noComma
    rw [htext]
    refine ⟨trimBlanks_trimBlanks value, fun hmem => hcomma ?_⟩
    exact List.mem_append_right label (List.mem_cons_of_mem '=' (mem_of_mem_trimBlanks hmem))

/-- The well-formed identities are those that are read from their own display names. Whatever is
read from a text is well formed, so it is read from its own display name as well. -/
theorem display_roundTrip :
    (∀ a : AssemblyIdentity, parse a.display = .ok a ↔ a.WellFormed) ∧
      ∀ text a, parse text = .ok a → a.WellFormed ∧ parse a.display = .ok a := by
  have hread {text : String} {a : AssemblyIdentity} (h : parse text = .ok a) : a.WellFormed :=
    (parse_eq_ok_iff.1 h).wellFormed
  have hwell (a : AssemblyIdentity) (h : a.WellFormed) : parse a.display = .ok a :=
    parse_eq_ok_iff.2 (denotes_display h)
  exact ⟨fun a => ⟨hread, hwell a⟩, fun text a h => ⟨hread h, hwell a (hread h)⟩⟩

/-- The display name has an equals sign in the culture and a key without bytes. -/
theorem display_roundTrip_emptyKey :
    parse "Foo, Version=1.2.3.4, Culture=a=b, PublicKey=" =
      .ok ⟨"Foo", ⟨1, 2, 3, 4⟩, some "a=b", some []⟩ := by
  refine (display_roundTrip.1 ⟨"Foo", ⟨1, 2, 3, 4⟩, some "a=b", some []⟩).2 ⟨by decide, ?_, ?_, ?_⟩
  · exact ⟨by decide, by decide⟩
  · exact ⟨by decide, by decide, by decide, by decide⟩
  · intro c hc
    obtain rfl : "a=b" = c := Option.some.inj hc
    exact ⟨by decide, by decide, by decide, by decide⟩

end CliMeta.AssemblyIdentity
