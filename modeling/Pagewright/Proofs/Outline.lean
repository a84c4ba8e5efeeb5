import Mathlib.Data.List.Forall2
import Pagewright.Proofs.Blanking

set_option autoImplicit false

namespace Pagewright

open Text

mutual

def Template.outline : Template → Template
  | .field _ => .field ""
  | .button _ handler => .button "" handler
  | .container direction children => .container direction (Template.outlineAll children)

def Template.outlineAll : List Template → List Template
  | [] => []
  | template :: rest => template.outline :: Template.outlineAll rest

end

def Slot.outline (slot : Slot) : Slot := ⟨slot.index, slot.items.map Template.outlineAll⟩

/-- The columns of the table appear only in a query, so not even their number is kept. -/
def RenderFunction.outline (function : RenderFunction) : RenderFunction :=
  ⟨⟨function.table.name, []⟩, function.slots.map Slot.outline⟩

def UpdateValue.outline : UpdateValue → UpdateValue
  | .literal _ => .literal ""
  | .input _ => .input ""

def Effect.outline : Effect → Effect
  | .insert table _ => .insert table ""
  | .render table => .render table
  | .delete table => .delete table
  | .update table value => .update table value.outline

def Handler.outline (handler : Handler) : Handler :=
  ⟨handler.name, handler.effects.map Effect.outline⟩

def Behavior.outline (behavior : Behavior) : Behavior :=
  ⟨behavior.renderFunctions.map RenderFunction.outline, behavior.handlers.map Handler.outline⟩

/-- Scripts that have the same code line by line. -/
abbrev SameLines (first second : List String) : Prop :=
  List.Forall₂ (SameCode .code .code) first second

theorem SameLines.append {first second after behind : List String}
    (fronts : SameLines first second) (backs : SameLines after behind) :
    SameLines (first ++ after) (second ++ behind) := List.rel_append fronts backs

/-- Lines that are written item by item. -/
theorem SameLines.flatMap {α : Type} {write : α → List String} {outline : α → α} {items : List α}
    (each : ∀ item ∈ items, SameLines (write item) (write (outline item))) :
    SameLines (items.flatMap write) ((items.map outline).flatMap write) := by
  induction items with
  | nil => exact .nil
  | cons item items ih =>
    obtain ⟨first, others⟩ := List.forall_mem_cons.mp each
    exact first.append (ih others)

theorem SameLines.scriptText {first second : List String} (same : SameLines first second) :
    SameCode .code .code (scriptText first) (scriptText second) := by
  have step : ∀ line lines, Pagewright.scriptText (line :: lines) =
      line ++ "\n" ++ Pagewright.scriptText lines := by
    intro line lines
    simp [Pagewright.scriptText]
  induction same with
  | nil => exact .fixed rfl
  | cons line _ rest =>
    rw [step, step]
    exact .append (.append line (.fixed rfl)) rest

namespace Template

theorem sameCode_localName (number : Nat) :
    SameCode .code .code (localName number) (localName number) :=
  .append (.fixed rfl) (sameCode_toString number)

theorem sameCode_elementLine {element tag first second parent : String}
    (elements : SameCode .code .code element element)
    (tags : SameCode .literal .literal tag tag) (setups : SameCode .code .code first second)
    (parents : SameCode .code .code parent parent) :
    SameCode .code .code (elementLine element tag first parent)
      (elementLine element tag second parent) := by
  delta elementLine
  simp only [String.append_assoc]
  exact .append (.fixed rfl) <| .append elements <| .append (.fixed rfl) <| .append tags <|
    .append (.fixed rfl) <| .append setups <| .append parents <| .append (.fixed rfl) <|
    .append elements (.fixed rfl)

theorem sameCode_line {parent : String} (parents : SameCode .code .code parent parent)
    (number : Nat) (template : Template) (named : template.WellNamed) :
    SameCode .code .code (template.line parent number) (template.outline.line parent number) := by
  have numbers := sameCode_localName number
  cases template with
  | field name =>
    refine sameCode_elementLine numbers (.fixed rfl) ?_ parents
    simp only [String.append_assoc]
    exact .append numbers <| .append (.fixed rfl) <| .append (sameCode_script _ _) (.fixed rfl)
  | button label handler =>
    have handlers : SameCode .code .code handler handler := Identifier.sameCode named
    refine sameCode_elementLine numbers (.fixed rfl) ?_ parents
    simp only [globalCall, String.append_assoc]
    exact .append numbers <| .append (.fixed rfl) <| .append (sameCode_script _ _) <|
      .append (.fixed rfl) <| .append numbers <| .append (.fixed rfl) <| .append (.fixed rfl) <|
      .append handlers <| .append (.fixed rfl) <| .append (.fixed rfl) <|
      .append (sameCode_script _ _) <| .append (.fixed rfl) <| .append (.fixed rfl) (.fixed rfl)
  | container direction children =>
    refine sameCode_elementLine numbers (.fixed rfl) ?_ parents
    simp only [String.append_assoc]
    exact .append numbers <| .append (.fixed rfl) <| .append (sameCode_script _ _) (.fixed rfl)

mutual

theorem size_outline : (template : Template) → template.outline.size = template.size
  | .field _ | .button _ _ => rfl
  | .container _ children => by rw [outline, size, size, sizeAll_outlineAll children]

theorem sizeAll_outlineAll : (templates : List Template) →
    sizeAll (outlineAll templates) = sizeAll templates
  | [] => rfl
  | template :: rest => by
    rw [outlineAll, sizeAll, sizeAll, size_outline template, sizeAll_outlineAll rest]

end

mutual

theorem sameLines_lines {parent : String} (parents : SameCode .code .code parent parent)
    (number : Nat) : (template : Template) → template.WellNamed →
    SameLines (template.lines parent number) (template.outline.lines parent number)
  | .field name, named => .cons (sameCode_line parents number (.field name) named) .nil
  | .button label handler, named =>
    .cons (sameCode_line parents number (.button label handler) named) .nil
  | .container direction children, named =>
    .cons (sameCode_line parents number (.container direction children) named)
      (sameLines_linesAll (sameCode_localName number) (number + 1) children named)

theorem sameLines_linesAll {parent : String} (parents : SameCode .code .code parent parent)
    (number : Nat) : (templates : List Template) → WellNamedAll templates →
    SameLines (linesAll parent number templates) (linesAll parent number (outlineAll templates))
  | [], _ => .nil
  | template :: rest, named => by
    rw [outlineAll, linesAll, linesAll, size_outline]
    exact (sameLines_lines parents number template named.1).append
      (sameLines_linesAll parents _ rest named.2)

end

end Template

namespace Slot

theorem itemsSize_outline (items : List (List Template)) :
    itemsSize (items.map Template.outlineAll) = itemsSize items := by
  induction items with
  | nil => rfl
  | cons item items ih =>
    rw [List.map_cons, itemsSize, itemsSize, itemSize, itemSize, Template.sizeAll_outlineAll, ih]

theorem sizeAll_outline (slots : List Slot) : sizeAll (slots.map outline) = sizeAll slots := by
  induction slots with
  | nil => rfl
  | cons slot slots ih => rw [List.map_cons, sizeAll, sizeAll, outline, itemsSize_outline, ih]

theorem sameLines_itemsLines (number : Nat) (items : List (List Template))
    (named : ∀ item ∈ items, Template.WellNamedAll item) :
    SameLines (itemsLines number items) (itemsLines number (items.map Template.outlineAll)) := by
  induction items generalizing number with
  | nil => exact .nil
  | cons item items ih =>
    obtain ⟨first, others⟩ := List.forall_mem_cons.mp named
    have numbers := Template.sameCode_localName number
    have opening : SameCode .code .code
        (Template.elementLine (localName number) "div" (localName number ++ ".className=\"item\";")
          "el")
        (Template.elementLine (localName number) "div" (localName number ++ ".className=\"item\";")
          "el") :=
      Template.sameCode_elementLine numbers (.fixed rfl) (.append numbers (.fixed rfl)) (.fixed rfl)
    have size : itemSize (Template.outlineAll item) = itemSize item := by
      rw [itemSize, itemSize, Template.sizeAll_outlineAll]
    rw [List.map_cons, itemsLines, itemsLines, size]
    exact .append (.cons opening (Template.sameLines_linesAll numbers (number + 1) item first))
      (ih _ others)

theorem sameLines_linesAll (number place : Nat) (slots : List Slot)
    (named : ∀ slot ∈ slots, ∀ item ∈ slot.items, Template.WellNamedAll item) :
    SameLines (linesAll number place slots) (linesAll number place (slots.map outline)) := by
  induction slots generalizing number place with
  | nil => exact .nil
  | cons slot slots ih =>
    obtain ⟨first, others⟩ := List.forall_mem_cons.mp named
    have opening : SameCode .code .code ("\x7bconst el=slots[" ++ toString place ++ "];if(el)\x7b")
        ("\x7bconst el=slots[" ++ toString place ++ "];if(el)\x7b") :=
      .append (.append (.fixed rfl) (sameCode_toString place)) (.fixed rfl)
    have size : itemsSize slot.outline.items = itemsSize slot.items := itemsSize_outline slot.items
    rw [List.map_cons, linesAll, linesAll, size]
    refine .append (.append (.cons opening ?_) (.cons (.fixed rfl) .nil)) (ih _ _ others)
    exact sameLines_itemsLines number slot.items first

end Slot

theorem sameCode_intercalate {separator : String} {first second : List String}
    (between : SameCode .code .code separator separator) (each : SameLines first second) :
    SameCode .code .code (separator.intercalate first) (separator.intercalate second) := by
  induction each with
  | nil =>
    rw [String.intercalate_nil]
    exact .fixed rfl
  | @cons text other rest others same more ih =>
    cases more with
    | nil => simpa using same
    | cons =>
      rw [String.intercalate_cons_cons, String.intercalate_cons_cons]
      exact .append (.append same between) ih

theorem sameCode_renderFunctionName {table : String} (identifier : Identifier table) :
    SameCode .code .code (renderFunctionName table) (renderFunctionName table) :=
  .append (.fixed rfl) identifier.sameCode

theorem sameCode_renderLine {table : String} (identifier : Identifier table) :
    SameCode .code .code (renderLine table) (renderLine table) :=
  .append (sameCode_renderFunctionName identifier) (.fixed rfl)

namespace RenderFunction

theorem size_outline (function : RenderFunction) : function.outline.size = function.size :=
  Slot.sizeAll_outline function.slots

theorem sameLines_lookups (table : String) (slots : List Slot) :
    SameLines (slots.map (lookup table)) ((slots.map Slot.outline).map (lookup table)) := by
  induction slots with
  | nil => exact .nil
  | cons slot slots ih =>
    exact .cons (.append (.append (.fixed rfl) (sameCode_script _ _)) (.fixed rfl)) ih

theorem sameLines_body (number : Nat) (function : RenderFunction)
    (named : ∀ slot ∈ function.slots, ∀ item ∈ slot.items, Template.WellNamedAll item) :
    SameLines (function.body number) (function.outline.body number) := by
  have lookups : SameCode .code .code
      (",".intercalate (function.slots.map (lookup function.table.name)))
      (",".intercalate ((function.slots.map Slot.outline).map (lookup function.table.name))) :=
    sameCode_intercalate (.fixed rfl) (sameLines_lookups function.table.name function.slots)
  refine .append (.append ?_ (Slot.sameLines_linesAll number 0 function.slots named))
    (.cons (.fixed rfl) .nil)
  exact .cons (.append (.append (.fixed rfl) lookups) (.fixed rfl)) <| .cons (.fixed rfl) <|
    .cons (.append (.append (.fixed rfl) (sameCode_script _ _)) (.fixed rfl)) <|
    .cons (.fixed rfl) <| .cons (.fixed rfl) .nil

theorem sameLines_lines (number : Nat) (function : RenderFunction)
    (table : Identifier function.table.name)
    (named : ∀ slot ∈ function.slots, ∀ item ∈ slot.items, Template.WellNamedAll item) :
    SameLines (function.lines number) (function.outline.lines number) := by
  have opening : SameCode .code .code
      ("function " ++ renderFunctionName function.table.name ++ "()\x7b")
      ("function " ++ renderFunctionName function.table.name ++ "()\x7b") :=
    .append (.append (.fixed rfl) (sameCode_renderFunctionName table)) (.fixed rfl)
  have slots : function.outline.slots.isEmpty = function.slots.isEmpty := List.isEmpty_map ..
  rw [lines, lines, slots]
  refine .append (.cons opening ?_) (.cons (.fixed rfl) .nil)
  split
  · exact .nil
  · exact sameLines_body number function named

theorem sameLines_linesAll (number : Nat) (functions : List RenderFunction)
    (tables : ∀ function ∈ functions, Identifier function.table.name)
    (named : ∀ function ∈ functions, ∀ slot ∈ function.slots, ∀ item ∈ slot.items,
      Template.WellNamedAll item) :
    SameLines (linesAll number functions) (linesAll number (functions.map outline)) := by
  induction functions generalizing number with
  | nil => exact .nil
  | cons function functions ih =>
    obtain ⟨table, otherTables⟩ := List.forall_mem_cons.mp tables
    obtain ⟨first, others⟩ := List.forall_mem_cons.mp named
    rw [List.map_cons, linesAll, linesAll, size_outline]
    exact .append (sameLines_lines number function table first) (ih _ otherTables others)

end RenderFunction

theorem sameCode_inputValue (first second : String) :
    SameCode .code .code (inputValue first) (inputValue second) :=
  .append (.append (.fixed rfl) (sameCode_script first second)) (.fixed rfl)

theorem UpdateValue.sameCode_expression (value : UpdateValue) :
    SameCode .code .code value.expression value.outline.expression := by
  cases value with
  | literal text => exact sameCode_script text ""
  | input id => exact sameCode_inputValue id ""

theorem Effect.sameLines_lines (effect : Effect) (identifier : Identifier effect.table) :
    SameLines effect.lines effect.outline.lines := by
  have render : SameLines [renderLine effect.table] [renderLine effect.table] :=
    .cons (sameCode_renderLine identifier) .nil
  cases effect with
  | insert table input =>
    refine .cons ?_ .nil
    exact .append (.append (.append (.append (.fixed rfl) (sameCode_script _ _)) (.fixed rfl))
      (sameCode_inputValue _ _)) (.fixed rfl)
  | render table => exact render
  | delete table =>
    exact .cons (.append (.append (.fixed rfl) (sameCode_script _ _)) (.fixed rfl)) render
  | update table value =>
    refine .cons ?_ render
    exact .append (.append (.append (.append (.fixed rfl) (sameCode_script _ _)) (.fixed rfl))
      value.sameCode_expression) (.fixed rfl)

theorem Handler.sameLines_lines (handler : Handler) (name : Identifier handler.name)
    (effects : ∀ effect ∈ handler.effects, Identifier effect.table) :
    SameLines handler.lines handler.outline.lines := by
  have opening : SameCode .code .code ("function " ++ handler.name ++ "(arg)\x7b")
      ("function " ++ handler.name ++ "(arg)\x7b") :=
    .append (.append (.fixed rfl) name.sameCode) (.fixed rfl)
  refine .append (.cons opening (SameLines.flatMap ?_)) (.cons (.fixed rfl) .nil)
  intro effect member
  exact effect.sameLines_lines (effects effect member)

namespace Behavior

/-- Line by line, a script has the code of its outline. -/
theorem WellNamed.sameLines_lines {behavior : Behavior} (named : behavior.WellNamed) :
    SameLines behavior.lines behavior.outline.lines := by
  refine .append (RenderFunction.sameLines_linesAll 0 _ named.tables named.buttons)
    (SameLines.flatMap ?_)
  intro handler member
  exact handler.sameLines_lines (named.handlers handler member) (named.effects handler member)

/-- Strings cannot change the code of a behavior. Two behaviors with the same outline have the same
script but for what stands in literals; both scripts end outside of literals, and they have equally
many lines. -/
theorem blank_render_eq {first second : Behavior} (inFirst : first.WellNamed)
    (inSecond : second.WellNamed) (outlines : first.outline = second.outline) :
    blank first.render = blank second.render ∧
      endRegion first.render = .code ∧ endRegion second.render = .code ∧
      (linesOf first.render).length = (linesOf second.render).length := by
  have firstLines := inFirst.sameLines_lines
  have secondLines := inSecond.sameLines_lines
  rw [← outlines] at secondLines
  have same : SameCode .code .code first.render second.render :=
    firstLines.scriptText.trans secondLines.scriptText.symm
  refine ⟨same.blank_eq, same.endRegion_eq, same.symm.endRegion_eq, ?_⟩
  rw [render, render, linesOf_scriptText inFirst.inline_lines,
    linesOf_scriptText inSecond.inline_lines, firstLines.length_eq, secondLines.length_eq]

/-- One list with a field and a button, and one handler, around the given strings. -/
def noteBoard (columns : List String) (field label input text : String) : Behavior where
  renderFunctions :=
    [⟨⟨"t", columns⟩, [⟨0, [[.field field, .container .row [.button label "go"]]]⟩]⟩]
  handlers := [⟨"go", [.insert "t" input, .update "t" (.literal text)]⟩]

theorem wellNamed_noteBoard (columns : List String) (field label input text : String) :
    (noteBoard columns field label input text).WellNamed := by
  have table : Identifier "t" := (isIdentifier_iff _).mp (by decide)
  have handler : Identifier "go" := (isIdentifier_iff _).mp (by decide)
  constructor <;> rw [noteBoard, List.forall_mem_singleton]
  · exact table
  · rw [List.forall_mem_singleton, List.forall_mem_singleton]
    exact ⟨trivial, ⟨handler, trivial⟩, trivial⟩
  · exact handler
  · rw [List.forall_mem_cons, List.forall_mem_singleton]
    exact ⟨table, table⟩

/-- Quotes, backslashes, line feeds and tags in every string. -/
theorem blank_noteBoard :
    blank (noteBoard ["a\"b", "c\n"] "\");evil(\"" "\\" "</script>" "\\\"\n").render =
        blank (noteBoard [] "" "" "" "").render ∧
      endRegion (noteBoard ["a\"b", "c\n"] "\");evil(\"" "\\" "</script>" "\\\"\n").render =
        .code := by
  obtain ⟨same, ends, -⟩ := blank_render_eq
    (wellNamed_noteBoard ["a\"b", "c\n"] "\");evil(\"" "\\" "</script>" "\\\"\n")
    (wellNamed_noteBoard [] "" "" "" "") rfl
  exact ⟨same, ends⟩

end Behavior

end Pagewright
