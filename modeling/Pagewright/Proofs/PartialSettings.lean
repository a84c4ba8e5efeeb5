import Pagewright.Proofs.BlockDocuments
import Pagewright.Proofs.SettingsDocuments
import Pagewright.Proofs.SettingsEntries

set_option autoImplicit false

namespace Pagewright

open Yaml (Block)

open Setting (Group)

namespace Settings

section Reading

variable {settings : Settings}

/-- A record holds what was chosen of a level: its setters know the keys of the level, and each
setting that is read is chosen too. -/
structure Holds {α : Type} (settings : Settings) (level : Option Group) (setters : Yaml.Setters α)
    (record : List Setting → α) : Prop where
  known : ∀ key, isKnown level key = (setters key).isSome
  sets : ∀ {setting : Setting}, setting.group? = level → ∀ chosen, ∃ set,
    setters setting.key = some set ∧
      set (setting.block settings).value (record chosen) = some (record (chosen ++ [setting]))

theorem holds_store : Holds settings (some .store) Store.setters settings.store.pick where
  known _ := rfl
  sets {setting} belongs chosen := by
    cases setting with
    | scriptUrl | wasmBase =>
      exact ⟨_, rfl, by simp [Setting.block, Block.value, Yaml.text?, Store.pick]⟩
    | _ => cases belongs

theorem holds_style : Holds settings (some .style) Style.setters settings.style.pick where
  known _ := rfl
  sets {setting} belongs chosen := by
    cases setting with
    | fontFamily => exact ⟨_, rfl, by simp [Setting.block, Block.value, Yaml.text?, Style.pick]⟩
    | padding | gap =>
      exact ⟨_, rfl, by simp [Setting.block, Block.value, Yaml.size?_repr, Style.pick]⟩
    | _ => cases belongs

theorem holds_settings : Holds settings none Settings.setters settings.pick where
  known _ := rfl
  sets {setting} single chosen := by
    cases setting with
    | strict | checkTables =>
      refine ⟨_, rfl, ?_⟩
      simp [Setting.block, Block.value, Yaml.bool?_toString, pick, Store.pick, Style.pick]
    | updatePlaceholder | output =>
      exact ⟨_, rfl, by simp [Setting.block, Block.value, Yaml.text?, pick, Store.pick, Style.pick]⟩
    | _ => cases single

section Lines

variable {α : Type} {setters : Yaml.Setters α} {level : Option Group} {record : List Setting → α}
  {line : Line}

/-- A line that is ignored sets nothing. -/
theorem Holds.ignored (holds : Holds settings level setters record)
    (fits : line.Fits settings level) (unknown : setters line.key = none) :
    line.setting? = none := by
  cases line with
  | set setting =>
    obtain ⟨set, found, -⟩ := holds.sets fits.1 []
    cases found.symm.trans unknown
  | unknown key text => rfl

/-- A line that is read sets what it names. -/
theorem Holds.apply (holds : Holds settings level setters record) (fits : line.Fits settings level)
    {set : Yaml → α → Option α} (found : setters line.key = some set) (chosen : List Setting) :
    set (line.block settings).value (record chosen) =
      some (record (chosen ++ line.setting?.toList)) := by
  cases line with
  | set setting =>
    obtain ⟨set', found', read⟩ := holds.sets fits.1 chosen
    cases found'.symm.trans found
    exact read
  | unknown key text =>
    have known := holds.known key
    rw [fits.2.1, show setters key = some set from found] at known
    cases known

/-- The lines of a level are read as what they name. -/
theorem Holds.applyEntries (holds : Holds settings level setters record) {lines : List Line}
    (fits : ∀ line ∈ lines, line.Fits settings level) (once : Once level (lines.map Line.key)) :
    Yaml.applyEntries setters [] (record [])
        (Yaml.entryValues (lines.map (Line.entry settings))) =
      some (record (lines.filterMap Line.setting?)) := by
  have onceKnown : (Yaml.knownKeys setters (lines.map Line.key)).Nodup := by
    rwa [Once, funext holds.known] at once
  have behind : ∀ done line, (done ++ [line]).filterMap Line.setting? =
      done.filterMap Line.setting? ++ line.setting?.toList := by
    intro done line
    rw [List.filterMap_append]
    cases line <;> rfl
  rw [Yaml.entryValues_eq_map, List.map_map]
  refine Yaml.applyEntries_map Line.key (fun line => (line.block settings).value)
    (fun lines => record (lines.filterMap Line.setting?)) ?_ ?_ onceKnown
  · intro done line _ listed unknown
    rw [behind, holds.ignored (fits line listed) unknown, Option.toList_none, List.append_nil]
  · intro done line set _ listed found _
    rw [behind, holds.apply (fits line listed) found]

end Lines

theorem given_append (first second : List Part) :
    given (first ++ second) = given first ++ given second := by
  rw [given, List.flatMap_append, List.filterMap_append]
  rfl

theorem group_of_mem_lines {level : Option Group} {lines : List Line}
    (fits : ∀ line ∈ lines, line.Fits settings level) {setting : Setting}
    (member : setting ∈ lines.filterMap Line.setting?) : setting.group? = level := by
  obtain ⟨line, listed, found⟩ := List.mem_filterMap.mp member
  cases line with
  | set other =>
    cases found
    exact (fits _ listed).1
  | unknown key text => cases found

/-- A setting of a group is given under the key of the group only. -/
theorem key_mem_of_given {parts : List Part} (fits : ∀ part ∈ parts, part.Fits settings)
    {setting : Setting} {group : Group} (member : setting ∈ given parts)
    (belongs : setting.group? = some group) : group.key ∈ parts.map Part.key := by
  rw [given, List.filterMap_flatMap] at member
  obtain ⟨part, listed, inside⟩ := List.mem_flatMap.mp member
  cases part with
  | single line =>
    have single : setting.group? = none :=
      group_of_mem_lines (List.forall_mem_singleton.mpr (fits _ listed)) inside
    cases belongs.symm.trans single
  | mapping other indent lines =>
    have same := group_of_mem_lines (fits _ listed).2 inside
    cases belongs.symm.trans same
    exact List.mem_map.mpr ⟨_, listed, rfl⟩

/-- A part is read into what the parts before it gave. -/
theorem part_sets {done : List Part} {part : Part} {set : Yaml → Settings → Option Settings}
    (fitsDone : ∀ other ∈ done, other.Fits settings) (fits : part.Fits settings) (once : part.Once)
    (found : Settings.setters part.key = some set) (fresh : part.key ∉ done.map Part.key) :
    set (part.block settings).value (settings.pick (given done)) =
      some (settings.pick (given (done ++ [part]))) := by
  rw [given_append]
  cases part with
  | single line =>
    have lines : given [Part.single line] = line.setting?.toList := by cases line <;> rfl
    rw [lines]
    exact holds_settings.apply fits found _
  | mapping group indent lines =>
    have outside : ∀ s ∈ given done, s.group? ≠ some group :=
      fun s member belongs => fresh (key_mem_of_given fitsDone member belongs)
    have inside : ∀ s ∈ lines.filterMap Line.setting?, s.group? = some group :=
      fun s member => group_of_mem_lines fits.2 member
    rw [show given [.mapping group indent lines] = lines.filterMap Line.setting? by
      simp [given, Part.lines]]
    cases group with
    | store =>
      have read := holds_store.applyEntries fits.2 once
      rw [pick_store outside inside]
      cases found
      rw [show settings.store.pick [] = {} from rfl] at read
      simp only [Part.block, Block.value, Yaml.record?, read]
      rfl
    | style =>
      have read := holds_style.applyEntries fits.2 once
      rw [pick_style outside inside]
      cases found
      rw [show settings.style.pick [] = {} from rfl] at read
      simp only [Part.block, Block.value, Yaml.record?, read]
      rfl

theorem applyEntries_parts {parts : List Part} (fits : ∀ part ∈ parts, part.Fits settings)
    (once : Once none (parts.map Part.key)) (onceInside : ∀ part ∈ parts, part.Once) :
    Yaml.applyEntries setters [] {} (Yaml.entryValues (parts.map (Part.entry settings))) =
      some (settings.pick (given parts)) := by
  rw [Yaml.entryValues_eq_map, List.map_map, ← pick_nil settings]
  refine Yaml.applyEntries_map Part.key (fun part => (part.block settings).value)
    (fun parts => settings.pick (given parts)) ?_ ?_ once
  · intro done part _ listed unknown
    cases part with
    | single line =>
      have nothing : given [Part.single line] = [] := by
        rw [given, List.flatMap_singleton, Part.lines, List.filterMap_cons_none
          (holds_settings.ignored (fits _ listed) unknown), List.filterMap_nil]
      rw [given_append, nothing, List.append_nil]
    | mapping group indent lines => cases group <;> cases unknown
  · intro done part set before listed found fresh
    exact part_sets (fun other member => fits other (before other member)) (fits part listed)
      (onceInside part listed) found fresh

end Reading

section Texts

variable {settings : Settings} {isKey : String → Prop}

theorem isWord_repr (number : Nat) : Yaml.IsWord number.repr := by
  have digits : ∀ c ∈ Nat.toDigits 10 number, c.isDigit = true :=
    fun c => Nat.isDigit_of_mem_toDigits (by decide) (by decide)
  refine ⟨fun empty => ?_, fun c member => ?_⟩
  · have chars := Nat.toList_repr (n := number)
    rw [empty] at chars
    exact Nat.toDigits_ne_nil chars.symm
  · rw [Nat.toList_repr] at member
    simp [Yaml.isWordChar, Char.isAlphanum, digits c member]

theorem isWord_bool (value : Bool) : Yaml.IsWord (toString value) := by
  cases value <;> decide

theorem isKey_setting (setting : Setting) : Yaml.IsKey setting.key := by
  cases setting <;> decide

theorem isKey_group (group : Group) : Yaml.IsKey group.key := by
  cases group <;> decide

theorem wellFormed_setting {setting : Setting} (printable : IsPrintable (setting.block settings)) :
    (setting.block settings).WellFormed isKey := by
  cases setting with
  | strict | checkTables => exact .word (isWord_bool _)
  | padding | gap => exact .word (isWord_repr _)
  | _ => exact .quoted printable

theorem wellFormed_line {level : Option Group} {line : Line} (fits : line.Fits settings level) :
    (line.block settings).WellFormed isKey := by
  cases line with
  | set setting => exact wellFormed_setting fits.2
  | unknown key text => exact .quoted fits.2.2

theorem isWord_line {level : Option Group} {line : Line} (fits : line.Fits settings level) :
    Yaml.IsWord line.key := by
  cases line with
  | set setting => exact (isKey_setting setting).1
  | unknown key text => exact fits.1

theorem wellFormed_part {part : Part} (fits : part.Fits settings)
    (keys : ∀ line ∈ part.lines, isKey line.key) : (part.block settings).WellFormed isKey := by
  cases part with
  | single line => exact wellFormed_line fits
  | mapping group indent lines =>
    refine .mapping (by simpa using fits.1) ?_ ?_
    · exact List.forall_mem_map.mpr keys
    · exact List.forall_mem_map.mpr fun line listed => wellFormed_line (fits.2 line listed)

end Texts

theorem read?_of_short {entries : List (String × Block)}
    (keys : ∀ entry ∈ entries, Yaml.IsKey entry.1)
    (values : ∀ entry ∈ entries, entry.2.WellFormed Yaml.IsKey) :
    read? (Yaml.document entries) = Yaml.applyEntries setters [] {} (Yaml.entryValues entries) := by
  rw [read?, Yaml.read?_document_of_short keys values]
  cases entries <;> rfl

/-- A document gives exactly the settings that it names, in any order, with anything unknown
between them. -/
theorem read?_given {settings : Settings} {parts : List Part}
    (fits : ∀ part ∈ parts, part.Fits settings) (short : ∀ part ∈ parts, part.Short)
    (once : Once none (parts.map Part.key)) (onceInside : ∀ part ∈ parts, part.Once) :
    read? (document settings parts) = some (settings.pick (given parts)) := by
  have lineKeys : ∀ part ∈ parts, ∀ line ∈ part.lines, Yaml.IsKey line.key := by
    intro part listed line inside
    refine ⟨?_, short part listed line inside⟩
    cases part with
    | single other =>
      cases List.mem_singleton.mp inside
      exact isWord_line (fits _ listed)
    | mapping group indent lines => exact isWord_line ((fits _ listed).2 line inside)
  have keys : ∀ entry ∈ parts.map (Part.entry settings), Yaml.IsKey entry.1 := by
    refine List.forall_mem_map.mpr fun part listed => ?_
    cases part with
    | single line => exact lineKeys _ listed line (.head _)
    | mapping group indent lines => exact isKey_group group
  have values : ∀ entry ∈ parts.map (Part.entry settings), entry.2.WellFormed Yaml.IsKey :=
    List.forall_mem_map.mpr fun part listed =>
      wellFormed_part (fits part listed) (lineKeys part listed)
  rw [document, read?_of_short keys values, applyEntries_parts fits once onceInside]

/-- A key that stands for something is repeated, on its own or in a mapping. -/
def Repeats (entries : List (String × Block)) : Prop :=
  ¬ Once none (entries.map Prod.fst) ∨
    ∃ group indent members, (Group.key group, Block.mapping indent members) ∈ entries ∧
      ¬ Once (some group) (members.map Prod.fst)

theorem once_of_applyEntries {α : Type} {setters : Yaml.Setters α} {entries : List (String × Block)}
    {start result : α}
    (read : Yaml.applyEntries setters [] start (Yaml.entryValues entries) = some result) :
    (Yaml.knownKeys setters (entries.map Prod.fst)).Nodup ∧
    ∀ entry ∈ entries, ∀ set, setters entry.1 = some set →
      ∃ before after, set entry.2.value before = some after := by
  rw [Yaml.entryValues_eq_map] at read
  obtain ⟨once, -, applied⟩ := Yaml.of_applyEntries_eq_some Prod.fst
    (fun entry : String × Block => entry.2.value) read
  exact ⟨once, applied⟩

/-- Nothing is read if a key that stands for something is repeated, whatever its values are. -/
theorem read?_of_repeats {entries : List (String × Block)}
    (keys : ∀ entry ∈ entries, Yaml.IsWord entry.1)
    (values : ∀ entry ∈ entries, entry.2.WellFormed Yaml.IsWord) (repeats : Repeats entries) :
    read? (Yaml.document entries) = none := by
  by_cases short : ∀ entry ∈ entries, Yaml.IsKey entry.1 ∧ entry.2.WellFormed Yaml.IsKey
  · rw [read?_of_short (fun entry member => (short entry member).1)
      fun entry member => (short entry member).2]
    cases read : Yaml.applyEntries setters [] {} (Yaml.entryValues entries) with
    | none => rfl
    | some result =>
      obtain ⟨once, applied⟩ := once_of_applyEntries read
      rcases repeats with repeated | ⟨group, indent, members, listed, repeated⟩
      · exact absurd once repeated
      · refine absurd ?_ repeated
        cases group with
        | store =>
          obtain ⟨before, after, given⟩ := applied _ listed _ rfl
          obtain ⟨store, read, -⟩ := Option.bind_eq_some_iff.mp given
          exact (once_of_applyEntries read).1
        | style =>
          obtain ⟨before, after, given⟩ := applied _ listed _ rfl
          obtain ⟨style, read, -⟩ := Option.bind_eq_some_iff.mp given
          exact (once_of_applyEntries read).1
  · rw [read?, Yaml.read?_document_of_long keys values short]
    rfl

/-- A document gives exactly the settings that it names, in any order, with other keys between them
that are short enough; and a document that repeats a known key is not read, whatever it gives. -/
theorem read?_partial :
    (∀ settings parts, (∀ part ∈ parts, Part.Fits settings part) → (∀ part ∈ parts, part.Short) →
      Once none (parts.map Part.key) → (∀ part ∈ parts, part.Once) →
      read? (document settings parts) = some (settings.pick (given parts))) ∧
    ∀ entries : List (String × Block), (∀ entry ∈ entries, Yaml.IsWord entry.1) →
      (∀ entry ∈ entries, entry.2.WellFormed Yaml.IsWord) → Repeats entries →
      read? (Yaml.document entries) = none :=
  ⟨fun _ _ fits short once onceInside => read?_given fits short once onceInside,
    fun _ keys values repeats => read?_of_repeats keys values repeats⟩

section Crowded

def crowdedSettings : Settings where
  strict := true
  updatePlaceholder := "say \"a\\b\": #no "
  output := ""
  store := { wasmBase := "https://localhost/?a=\\" }
  style := { fontFamily := "'Fira Sans', serif", padding := 4294967295, gap := 0 }

def crowdedParts : List Part :=
  [.mapping .style 3 [.set .gap, .unknown "strict" "true", .set .padding],
    .single (.set .updatePlaceholder), .single (.unknown "gap" " \\\" "),
    .mapping .store 0 [.unknown "store" "", .set .wasmBase], .single (.set .strict),
    .single (.set .output)]

theorem read?_crowdedParts :
    read? (document crowdedSettings crowdedParts) =
      some {
        strict := true
        updatePlaceholder := "say \"a\\b\": #no "
        output := ""
        store := { wasmBase := "https://localhost/?a=\\" }
        style := { padding := 4294967295, gap := 0 } } ∧
    read? (Yaml.document
      [("store", .mapping 1 [("wasm_base", .quoted ""), ("wasm_base", .word "7")])]) = none := by
  obtain ⟨given, repeated⟩ := read?_partial
  refine ⟨(given crowdedSettings crowdedParts (by decide) (by decide) (by decide) (by decide)).trans
    rfl, repeated _ (by decide) ?_ (.inr ⟨.store, 1, _, .head _, by decide⟩)⟩
  refine List.forall_mem_singleton.mpr (.mapping (List.cons_ne_nil _ _) (by decide) ?_)
  exact List.forall_mem_cons.mpr
    ⟨.quoted (by decide), List.forall_mem_singleton.mpr (.word (by decide))⟩

end Crowded

/-- Behind a longer key nothing is read, though it stands for nothing. -/
theorem read?_longKey :
    let key := String.ofList (List.replicate 1025 'k')
    let parts := [Part.single (.unknown key "v")]
    (∀ c ∈ key.toList, c.isLower = true) ∧ (∀ part ∈ parts, part.Fits {}) ∧
    Once none (parts.map Part.key) ∧ (∀ part ∈ parts, part.Once) ∧
    read? (document {} parts) ≠ some (pick {} (given parts)) := by
  intro key parts
  have letters : ∀ c ∈ key.toList, c = 'k' := by
    intro c member
    rw [String.toList_ofList] at member
    exact List.eq_of_mem_replicate member
  have length : key.toList.length = 1025 := by rw [String.toList_ofList, List.length_replicate]
  have isWord : Yaml.IsWord key := by
    refine ⟨fun empty => ?_, fun c member => letters c member ▸ rfl⟩
    rw [empty] at length
    cases length
  have unknown : isKnown none key = false := by
    rw [Bool.eq_false_iff]
    intro known
    have short : Yaml.IsKey key := by
      rcases isKnown_iff.mp known with ⟨setting, -, same⟩ | ⟨-, group, same⟩
      · exact same ▸ isKey_setting setting
      · exact same ▸ isKey_group group
    exact absurd short.2 (by rw [length]; decide)
  have fits : ∀ part ∈ parts, part.Fits {} :=
    List.forall_mem_singleton.mpr ⟨isWord, unknown, by decide⟩
  have once : Once none (parts.map Part.key) := by
    change (List.filter (isKnown none) [key]).Nodup
    rw [List.filter_cons_of_neg (by simp [unknown])]
    exact .nil
  have unread : Yaml.read? (document {} parts) = none := by
    refine Yaml.read?_document_of_long (List.forall_mem_singleton.mpr isWord)
      (List.forall_mem_singleton.mpr (.quoted (by decide))) fun short => ?_
    have tooLong := (short _ (.head _)).1.2
    change key.toList.length ≤ 1024 at tooLong
    omega
  refine ⟨fun c member => letters c member ▸ rfl, fits, once,
    List.forall_mem_singleton.mpr trivial, ?_⟩
  rw [read?, unread]
  exact fun same => nomatch same

end Settings

end Pagewright
