import Pagewright.Proofs.BlockMappings
import Pagewright.Settings.Read

set_option autoImplicit false

namespace Pagewright

open Yaml (Block)

/-- What a document can set. -/
inductive Setting where
  | strict | checkTables | updatePlaceholder | output
  | scriptUrl | wasmBase
  | fontFamily | padding | gap
deriving DecidableEq, Repr

namespace Setting

/-- The mappings in a document of settings. -/
inductive Group where
  | store | style
deriving DecidableEq, Repr

def Group.key : Group → String
  | .store => "store"
  | .style => "style"

/-- The mapping that the setting stands in, if it does not stand on its own. -/
def group? : Setting → Option Group
  | .strict | .checkTables | .updatePlaceholder | .output => none
  | .scriptUrl | .wasmBase => some .store
  | .fontFamily | .padding | .gap => some .style

def key : Setting → String
  | .strict => "strict"
  | .checkTables => "check_tables"
  | .updatePlaceholder => "update_placeholder"
  | .output => "output"
  | .scriptUrl => "script_url"
  | .wasmBase => "wasm_base"
  | .fontFamily => "font_family"
  | .padding => "padding_px"
  | .gap => "gap_px"

/-- What is written to set it as it is in the settings. -/
def block (settings : Settings) : Setting → Block
  | .strict => .word (toString settings.strict)
  | .checkTables => .word (toString settings.checkTables)
  | .updatePlaceholder => .quoted settings.updatePlaceholder
  | .output => .quoted settings.output
  | .scriptUrl => .quoted settings.store.scriptUrl
  | .wasmBase => .quoted settings.store.wasmBase
  | .fontFamily => .quoted settings.style.fontFamily
  | .padding => .word (toString settings.style.padding.toNat)
  | .gap => .word (toString settings.style.gap.toNat)

end Setting

open Setting (Group)

section Choice

/-- The chosen settings, and defaults for the others. -/
def Store.pick (store : Store) (chosen : List Setting) : Store :=
  let defaults : Store := {}
  { scriptUrl := if .scriptUrl ∈ chosen then store.scriptUrl else defaults.scriptUrl
    wasmBase := if .wasmBase ∈ chosen then store.wasmBase else defaults.wasmBase }

/-- The chosen settings, and defaults for the others. -/
def Style.pick (style : Style) (chosen : List Setting) : Style :=
  let defaults : Style := {}
  { fontFamily := if .fontFamily ∈ chosen then style.fontFamily else defaults.fontFamily
    padding := if .padding ∈ chosen then style.padding else defaults.padding
    gap := if .gap ∈ chosen then style.gap else defaults.gap }

/-- The chosen settings, and defaults for the others. -/
def Settings.pick (settings : Settings) (chosen : List Setting) : Settings :=
  let defaults : Settings := {}
  { strict := if .strict ∈ chosen then settings.strict else defaults.strict
    checkTables := if .checkTables ∈ chosen then settings.checkTables else defaults.checkTables
    updatePlaceholder :=
      if .updatePlaceholder ∈ chosen then settings.updatePlaceholder else defaults.updatePlaceholder
    output := if .output ∈ chosen then settings.output else defaults.output
    store := settings.store.pick chosen
    style := settings.style.pick chosen }

variable {settings : Settings} {chosen added : List Setting}

theorem Settings.pick_nil (settings : Settings) : settings.pick [] = {} := by
  simp [pick, Store.pick, Style.pick]

section Groups

variable {group : Group} {setting : Setting}

theorem mem_append_of_outside (inside : ∀ s ∈ added, s.group? = some group)
    (foreign : setting.group? ≠ some group) : setting ∈ chosen ++ added ↔ setting ∈ chosen := by
  rw [List.mem_append, or_iff_left fun member => foreign (inside setting member)]

theorem mem_append_of_inside (outside : ∀ s ∈ chosen, s.group? ≠ some group)
    (belongs : setting.group? = some group) : setting ∈ chosen ++ added ↔ setting ∈ added := by
  rw [List.mem_append, or_iff_right fun member => outside setting member belongs]

end Groups

/-- Choosing the settings of one mapping at once. -/
theorem Settings.pick_store (outside : ∀ s ∈ chosen, s.group? ≠ some .store)
    (inside : ∀ s ∈ added, s.group? = some .store) :
    settings.pick (chosen ++ added) =
      { settings.pick chosen with store := settings.store.pick added } := by
  simp (disch := decide) only [pick, Store.pick, Style.pick, mem_append_of_outside inside,
    mem_append_of_inside outside]

/-- Choosing the settings of one mapping at once. -/
theorem Settings.pick_style (outside : ∀ s ∈ chosen, s.group? ≠ some .style)
    (inside : ∀ s ∈ added, s.group? = some .style) :
    settings.pick (chosen ++ added) =
      { settings.pick chosen with style := settings.style.pick added } := by
  simp (disch := decide) only [pick, Store.pick, Style.pick, mem_append_of_outside inside,
    mem_append_of_inside outside]

end Choice

namespace Settings

/-- A line of a document: a setting, or a key that stands for nothing with a text. -/
inductive Line where
  | set (setting : Setting)
  | unknown (key text : String)
deriving DecidableEq, Repr

/-- What a document is made of. The lines of a group are indented under its key. -/
inductive Part where
  | single (line : Line)
  | mapping (group : Group) (indent : Nat) (lines : List Line)
deriving DecidableEq, Repr

section Documents

def Line.key : Line → String
  | .set setting => setting.key
  | .unknown key _ => key

def Line.block (settings : Settings) : Line → Block
  | .set setting => setting.block settings
  | .unknown _ text => .quoted text

def Line.entry (settings : Settings) (line : Line) : String × Block :=
  (line.key, line.block settings)

def Line.setting? : Line → Option Setting
  | .set setting => some setting
  | .unknown _ _ => none

def Part.key : Part → String
  | .single line => line.key
  | .mapping group _ _ => group.key

def Part.block (settings : Settings) : Part → Block
  | .single line => line.block settings
  | .mapping _ indent lines => .mapping indent (lines.map (Line.entry settings))

def Part.entry (settings : Settings) (part : Part) : String × Block :=
  (part.key, part.block settings)

def Part.lines : Part → List Line
  | .single line => [line]
  | .mapping _ _ lines => lines

/-- The settings that some parts give. -/
def given (parts : List Part) : List Setting := (parts.flatMap Part.lines).filterMap Line.setting?

/-- A document that gives settings as they are in some settings. -/
def document (settings : Settings) (parts : List Part) : String :=
  Yaml.document (parts.map (Part.entry settings))

/-- Whether a key stands for something, on its own or in a mapping. -/
def isKnown : Option Group → String → Bool
  | none, key => (Settings.setters key).isSome
  | some .store, key => (Store.setters key).isSome
  | some .style, key => (Style.setters key).isSome

/-- Nothing but the keys of settings and of mappings stands for something. -/
theorem isKnown_iff {level : Option Group} {key : String} :
    isKnown level key = true ↔
      (∃ setting : Setting, setting.group? = level ∧ setting.key = key) ∨
        level = none ∧ ∃ group : Group, group.key = key := by
  constructor
  · intro known
    match level with
    | none =>
      change (Settings.setters key).isSome = true at known
      unfold Settings.setters at known
      split at known
      · exact .inl ⟨.strict, rfl, rfl⟩
      · exact .inl ⟨.checkTables, rfl, rfl⟩
      · exact .inl ⟨.updatePlaceholder, rfl, rfl⟩
      · exact .inl ⟨.output, rfl, rfl⟩
      · exact .inr ⟨rfl, .store, rfl⟩
      · exact .inr ⟨rfl, .style, rfl⟩
      · cases known
    | some .store =>
      change (Store.setters key).isSome = true at known
      unfold Store.setters at known
      split at known
      · exact .inl ⟨.scriptUrl, rfl, rfl⟩
      · exact .inl ⟨.wasmBase, rfl, rfl⟩
      · cases known
    | some .style =>
      change (Style.setters key).isSome = true at known
      unfold Style.setters at known
      split at known
      · exact .inl ⟨.fontFamily, rfl, rfl⟩
      · exact .inl ⟨.padding, rfl, rfl⟩
      · exact .inl ⟨.gap, rfl, rfl⟩
      · cases known
  · rintro (⟨setting, rfl, rfl⟩ | ⟨rfl, group, rfl⟩)
    · cases setting <;> rfl
    · cases group <;> rfl

/-- No key that stands for something is repeated. -/
def Once (level : Option Group) (keys : List String) : Prop := (keys.filter (isKnown level)).Nodup

instance (level : Option Group) : DecidablePred (Once level) :=
  fun _ => inferInstanceAs (Decidable (List.Nodup _))

/-- Texts are printable. -/
def IsPrintable : Block → Prop
  | .quoted text => Yaml.IsText text
  | _ => True

instance : DecidablePred IsPrintable
  | .quoted text => inferInstanceAs (Decidable (Yaml.IsText text))
  | .word _ | .mapping _ _ => .isTrue trivial

/-- The line may stand here: a setting where it belongs, any other key where it stands for
nothing. -/
def Line.Fits (settings : Settings) (level : Option Group) : Line → Prop
  | .set setting => setting.group? = level ∧ IsPrintable (setting.block settings)
  | .unknown key text =>
    Yaml.IsWord key ∧ isKnown level key = false ∧ Yaml.IsText text

instance (settings : Settings) (level : Option Group) : DecidablePred (Line.Fits settings level)
  | .set _ => inferInstanceAs (Decidable (_ ∧ _))
  | .unknown _ _ => inferInstanceAs (Decidable (_ ∧ _ ∧ _))

def Part.Fits (settings : Settings) : Part → Prop
  | .single line => line.Fits settings none
  | .mapping group _ lines => lines ≠ [] ∧ ∀ line ∈ lines, line.Fits settings (some group)

instance (settings : Settings) : DecidablePred (Part.Fits settings)
  | .single line => inferInstanceAs (Decidable (line.Fits settings none))
  | .mapping _ _ _ => inferInstanceAs (Decidable (_ ∧ _))

/-- No key is longer than the reader of documents allows. -/
def Part.Short (part : Part) : Prop :=
  ∀ line ∈ part.lines, line.key.toList.length ≤ Yaml.Cursor.keyLimit

def Part.Once : Part → Prop
  | .single _ => True
  | .mapping group _ lines => Settings.Once (some group) (lines.map Line.key)

instance : DecidablePred Part.Once
  | .single _ => .isTrue trivial
  | .mapping group _ lines =>
    inferInstanceAs (Decidable (Settings.Once (some group) (lines.map Line.key)))

instance : DecidablePred Part.Short := fun _ => inferInstanceAs (Decidable (∀ _ ∈ _, _))

end Documents

end Settings

end Pagewright
