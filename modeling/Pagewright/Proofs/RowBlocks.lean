import Pagewright.Proofs.Constants
import Pagewright.Proofs.Outline
import Pagewright.Proofs.RowForest
import Pagewright.Proofs.ScriptText

set_option autoImplicit false

namespace Pagewright

open Text

section Blocks

/-- How the block of a slot begins. -/
def slotOpening : String := "\x7bconst el=slots["

/-- The blocks that fill slots, each from behind the line that opens it to before the line that
closes it. -/
def slotBlocks : List String → List (List String)
  | [] => []
  | line :: rest =>
    if begins slotOpening line then
      rest.takeWhile (fun other => other != "\x7d\x7d") :: slotBlocks rest
    else slotBlocks rest

/-- The lines of a script that declare elements. -/
def elementLines (script : String) : List String := (linesOf script).filter declaresElement

/-- The lines have the given blocks. The blocks declare elements, the lines around them do not. -/
inductive HasBlocks : List (List String) → List String → Prop
  | nil : HasBlocks [] []
  | outside {line : String} {blocks : List (List String)} {lines : List String}
      (noElement : declaresElement line = false) (noBlock : begins slotOpening line = false)
      (rest : HasBlocks blocks lines) : HasBlocks blocks (line :: lines)
  | block {opening : String} {block : List String} {blocks : List (List String)}
      {lines : List String} (opens : begins slotOpening opening = true)
      (elements : ∀ line ∈ block, declaresElement line = true) (rest : HasBlocks blocks lines) :
      HasBlocks (block :: blocks) (opening :: (block ++ "\x7d\x7d" :: lines))

theorem begins_of_declaresElement {line : String} (declares : declaresElement line = true) :
    begins "const n" line = true := (Bool.and_eq_true_iff.mp declares).1

theorem declaresElement_of_opens {line : String} (opens : begins slotOpening line = true) :
    declaresElement line = false :=
  declaresElement_eq_false ⟨slotOpening, List.mem_singleton.mpr rfl, opens⟩ (by decide)

theorem opens_of_declaresElement {line : String} (declares : declaresElement line = true) :
    begins slotOpening line = false := by
  by_contra opens
  rw [Bool.not_eq_false] at opens
  rw [declaresElement_of_opens opens] at declares
  cases declares

theorem slotBlocks_append {first : List String}
    (noBlock : ∀ line ∈ first, begins slotOpening line = false) (second : List String) :
    slotBlocks (first ++ second) = slotBlocks second := by
  induction first with
  | nil => rfl
  | cons line rest ih =>
    obtain ⟨other, others⟩ := List.forall_mem_cons.mp noBlock
    rw [List.cons_append, slotBlocks, other, ih others]
    rfl

namespace HasBlocks

variable {blocks : List (List String)} {lines : List String}

theorem append (has : HasBlocks blocks lines) {more : List (List String)} {after : List String}
    (hasMore : HasBlocks more after) : HasBlocks (blocks ++ more) (lines ++ after) := by
  induction has with
  | nil => exact hasMore
  | outside noElement noBlock _ ih => exact .outside noElement noBlock ih
  | block opens elements _ ih =>
    rw [List.cons_append, List.cons_append, List.append_assoc, List.cons_append]
    exact .block opens elements ih

/-- Lines that begin otherwise have no block. -/
theorem of_beginsAmong {starts : List String} (among : ∀ line ∈ lines, BeginsAmong starts line)
    (noElement : ∀ start ∈ starts, clashes "const n".toList start.toList = true)
    (noBlock : ∀ start ∈ starts, clashes slotOpening.toList start.toList = true) :
    HasBlocks [] lines := by
  induction lines with
  | nil => exact .nil
  | cons line rest ih =>
    obtain ⟨first, others⟩ := List.forall_mem_cons.mp among
    exact .outside (declaresElement_eq_false first noElement) (first.begins_eq_false noBlock)
      (ih others)

theorem slotBlocks_eq (has : HasBlocks blocks lines) : slotBlocks lines = blocks := by
  induction has with
  | nil => rfl
  | outside _ noBlock _ ih =>
    rw [slotBlocks, noBlock, ih]
    rfl
  | @block opening block blocks lines opens elements _ ih =>
    -- No line of the block closes it, for all of them begin with a word.
    have inside : ∀ line ∈ block, (line != "\x7d\x7d") = true := by
      intro line member
      have among : BeginsAmong ["const n"] line :=
        ⟨"const n", .head _, begins_of_declaresElement (elements line member)⟩
      have brace : begins "\x7d" "\x7d\x7d" = true := begins_ofList rfl
      exact bne_iff_ne.mpr (among.ne brace (by decide))
    have noBlock : ∀ line ∈ block, begins slotOpening line = false :=
      fun line member => opens_of_declaresElement (elements line member)
    have closing : begins slotOpening "\x7d\x7d" = false := by decide
    rw [slotBlocks, if_pos opens, List.takeWhile_append_of_pos inside, List.takeWhile_cons,
      bne_self_eq_false, slotBlocks_append noBlock, slotBlocks, closing, ih]
    simp

theorem filter_eq (has : HasBlocks blocks lines) :
    lines.filter declaresElement = blocks.flatten := by
  induction has with
  | nil => rfl
  | outside noElement _ _ ih => rw [List.filter_cons_of_neg (by rw [noElement]; decide), ih]
  | @block opening block blocks lines opens elements _ ih =>
    have closing : declaresElement "\x7d\x7d" = false := by decide
    rw [List.filter_cons_of_neg (by rw [declaresElement_of_opens opens]; decide),
      List.filter_append, List.filter_eq_self.mpr elements,
      List.filter_cons_of_neg (by rw [closing]; decide), ih, List.flatten_cons]

end HasBlocks

end Blocks

namespace Slot

/-- The lines of the items, slot by slot, with the names numbered through all slots. -/
def blocks (number : Nat) : List Slot → List (List String)
  | [] => []
  | slot :: slots => itemsLines number slot.items :: blocks (number + itemsSize slot.items) slots

theorem blocks_append (number : Nat) (first second : List Slot) :
    blocks number (first ++ second) =
      blocks number first ++ blocks (number + sizeAll first) second := by
  induction first generalizing number with
  | nil => rfl
  | cons slot slots ih =>
    rw [List.cons_append, blocks, blocks, ih, sizeAll, Nat.add_assoc, List.cons_append]

section Written

variable {rows : List Row} {lines : List String}

theorem declaresElement_of_written (written : List.Forall₂ Row.WrittenIn rows lines) :
    ∀ line ∈ lines, declaresElement line = true := by
  induction written with
  | nil => exact List.forall_mem_nil _
  | cons own _ ih => exact List.forall_mem_cons.mpr ⟨own.declares, ih⟩

theorem map_declaredName_of_written (written : List.Forall₂ Row.WrittenIn rows lines) :
    lines.map declaredName = rows.map Row.element := by
  induction written with
  | nil => rfl
  | cons own _ ih => rw [List.map_cons, List.map_cons, own.name, ih]

end Written

/-- The block builds the slot. Each line declares one part of the slot, in document order, and
appends it to an element that is declared before; read back, the lines make up the items. -/
def BuiltBy (slot : Slot) (block : List String) : Prop :=
  ∃ rows, List.Forall₂ Row.WrittenIn rows block ∧ rows.map Row.part = slot.parts ∧
    Grounded [] rows ∧ itemsBelow rows = slot.items

theorem builtBy_itemsLines (number : Nat) {slot : Slot}
    (named : ∀ item ∈ slot.items, Template.WellNamedAll item) :
    slot.BuiltBy (itemsLines number slot.items) :=
  ⟨itemsRows number slot.items, writtenIn_itemsLines number named,
    map_part_itemsRows number slot.items, grounded_itemsRows [] number slot.items,
    itemsBelow_itemsRows number slot.items⟩

section Named

variable {slots : List Slot}
  (named : ∀ slot ∈ slots, ∀ item ∈ slot.items, Template.WellNamedAll item)

include named

theorem builtBy_blocks (number : Nat) : List.Forall₂ BuiltBy slots (blocks number slots) := by
  induction slots generalizing number with
  | nil => exact .nil
  | cons slot slots ih =>
    obtain ⟨first, others⟩ := List.forall_mem_cons.mp named
    exact .cons (builtBy_itemsLines number first) (ih others _)

/-- The names of all blocks are numbered on without a gap. -/
theorem map_declaredName_blocks (number : Nat) :
    (blocks number slots).flatten.map declaredName =
      (List.range' number (sizeAll slots)).map localName := by
  induction slots generalizing number with
  | nil => rfl
  | cons slot slots ih =>
    obtain ⟨first, others⟩ := List.forall_mem_cons.mp named
    have own := map_declaredName_of_written (writtenIn_itemsLines number first)
    rw [blocks, List.flatten_cons, List.map_append, own, map_element_itemsRows, ih others, sizeAll,
      ← List.map_append, List.range'_append_1]

theorem hasBlocks_linesAll (number place : Nat) :
    HasBlocks (blocks number slots) (linesAll number place slots) := by
  induction slots generalizing number place with
  | nil => exact .nil
  | cons slot slots ih =>
    obtain ⟨first, others⟩ := List.forall_mem_cons.mp named
    have opens : begins slotOpening
        ("\x7bconst el=slots[" ++ toString place ++ "];if(el)\x7b") = true :=
      begins_append (begins_self_append ..) _
    have elements := declaresElement_of_written (writtenIn_itemsLines number first)
    rw [blocks, linesAll, lines, List.cons_append, List.cons_append, List.append_assoc]
    exact .block opens elements (ih others _ _)

end Named

end Slot

/-- How the lines around the blocks begin. -/
def outerStarts : List String :=
  ["function ", "const s", "const r", "slots.", "if(", "rows.", "\x7d"] ++ effectStarts

theorem hasBlocks_outer {lines : List String}
    (among : ∀ line ∈ lines, BeginsAmong outerStarts line) : HasBlocks [] lines :=
  .of_beginsAmong among (by decide) (by decide)

namespace RenderFunction

theorem beginsAmong_rowsLines (table : Schema) :
    ∀ line ∈ rowsLines table, BeginsAmong outerStarts line := by
  rw [rowsLines]
  simp only [List.forall_mem_cons]
  exact ⟨⟨"slots.", by decide, begins_ofList rfl⟩,
    ⟨"const r", by decide, begins_append (begins_append (begins_ofList rfl) _) _⟩,
    ⟨"if(", by decide, begins_ofList rfl⟩, ⟨"rows.", by decide, begins_ofList rfl⟩,
    List.forall_mem_nil _⟩

theorem hasBlocks_lines (number : Nat) (function : RenderFunction)
    (named : ∀ slot ∈ function.slots, ∀ item ∈ slot.items, Template.WellNamedAll item) :
    HasBlocks (Slot.blocks number function.slots) (function.lines number) := by
  obtain ⟨table, slots⟩ := function
  have opening : ∀ slots, BeginsAmong outerStarts (opening ⟨table, slots⟩) :=
    fun slots => ⟨"function ", .head _, begins_opening _⟩
  have brace : BeginsAmong outerStarts "\x7d" := ⟨"\x7d", by decide, begins_ofList rfl⟩
  have closing : BeginsAmong outerStarts "\x7d);" := ⟨"\x7d", by decide, begins_ofList rfl⟩
  cases slots with
  | nil =>
    rw [lines_nil]
    exact hasBlocks_outer (List.forall_mem_cons.mpr
      ⟨opening [], List.forall_mem_singleton.mpr brace⟩)
  | cons slot slots =>
    have places : BeginsAmong outerStarts (slotsLine table.name (slot :: slots)) :=
      ⟨"const s", by decide, begins_append (begins_append (begins_ofList rfl) _) _⟩
    have front := hasBlocks_outer (List.forall_mem_cons.mpr ⟨opening (slot :: slots),
      List.forall_mem_cons.mpr ⟨places, beginsAmong_rowsLines table⟩⟩)
    have back := hasBlocks_outer (List.forall_mem_cons.mpr
      ⟨closing, List.forall_mem_singleton.mpr brace⟩)
    have whole := front.append ((Slot.hasBlocks_linesAll named number 0).append back)
    rw [List.append_nil, List.nil_append] at whole
    rw [lines_cons]
    exact whole

theorem hasBlocks_linesAll (number : Nat) {functions : List RenderFunction}
    (named : ∀ function ∈ functions, ∀ slot ∈ function.slots, ∀ item ∈ slot.items,
      Template.WellNamedAll item) :
    HasBlocks (Slot.blocks number (functions.flatMap slots)) (linesAll number functions) := by
  induction functions generalizing number with
  | nil => exact .nil
  | cons function functions ih =>
    obtain ⟨first, others⟩ := List.forall_mem_cons.mp named
    rw [List.flatMap_cons, Slot.blocks_append, linesAll]
    exact (hasBlocks_lines number function first).append (ih _ others)

end RenderFunction

theorem Handler.hasBlocks_lines (handler : Handler) : HasBlocks [] handler.lines := by
  apply hasBlocks_outer
  rw [lines, List.forall_mem_append, List.forall_mem_cons, List.forall_mem_singleton]
  refine ⟨⟨⟨"function ", .head _, begins_opening handler⟩, fun line member => ?_⟩,
    ⟨"\x7d", by decide, begins_ofList rfl⟩⟩
  obtain ⟨effect, -, written⟩ := List.mem_flatMap.mp member
  exact (effect.beginsAmong_lines line written).mono (List.subset_append_right _ _)

/-- The script fills the slots, and nothing else in it declares a numbered name. -/
structure BuildsSlots (slots : List Slot) (script : String) : Prop where
  /-- The lines that declare elements count them from zero. -/
  numbered : (elementLines script).map declaredName =
    (List.range (elementLines script).length).map localName
  /-- Outside of literals, each such name is declared once. -/
  once : (constNames (blank script).toList).filter isNumbered =
    (elementLines script).map declaredName
  /-- All these lines stand in the blocks of the slots. -/
  inside : elementLines script = (slotBlocks (linesOf script)).flatten
  /-- Each block builds its slot. -/
  built : List.Forall₂ Slot.BuiltBy slots (slotBlocks (linesOf script))

namespace Behavior

variable {behavior : Behavior}

theorem WellNamed.hasBlocks (named : behavior.WellNamed) :
    HasBlocks (Slot.blocks 0 (behavior.renderFunctions.flatMap RenderFunction.slots))
      behavior.lines := by
  have handlers : HasBlocks [] (behavior.handlers.flatMap Handler.lines) := by
    induction behavior.handlers with
    | nil => exact .nil
    | cons handler handlers ih => exact handler.hasBlocks_lines.append ih
  have whole := (RenderFunction.hasBlocks_linesAll 0 named.buttons).append handlers
  rwa [List.append_nil] at whole

/-- The lines of a script that build the rows of tables make up the items of all its slots. -/
theorem buildsSlots_render (named : behavior.WellNamed) :
    BuildsSlots (behavior.renderFunctions.flatMap RenderFunction.slots) behavior.render := by
  have wellNamed : ∀ slot ∈ behavior.renderFunctions.flatMap RenderFunction.slots,
      ∀ item ∈ slot.items, Template.WellNamedAll item := by
    intro slot member
    obtain ⟨function, among, inside⟩ := List.mem_flatMap.mp member
    exact named.buttons function among slot inside
  have lines : linesOf behavior.render = behavior.lines := linesOf_scriptText named.inline_lines
  have blocks := named.hasBlocks.slotBlocks_eq
  have elements : elementLines behavior.render =
      (Slot.blocks 0 (behavior.renderFunctions.flatMap RenderFunction.slots)).flatten := by
    rw [elementLines, lines, named.hasBlocks.filter_eq]
  have names := Slot.map_declaredName_blocks wellNamed 0
  -- As many names as lines: the numbers are those before the number of the lines.
  have length := congrArg List.length names
  rw [List.length_map, List.length_map, List.length_range'] at length
  obtain ⟨code, scanned, declared⟩ := constNames_scriptText fun line member =>
    (named.lineShape line member).namesElements
  refine ⟨?_, ?_, ?_, ?_⟩
  · rw [elements, names, length, List.range_eq_range']
  · rw [elementLines, lines, blank, render, scanned, String.toList_ofList, declared]
  · rw [elements, lines, blocks]
  · rw [lines, blocks]
    exact Slot.builtBy_blocks wellNamed 0

/-- Strings that would end a literal, append an element or declare one. -/
theorem buildsSlots_noteBoard :
    (noteBoard ["a"] "\"];el.appendChild(n1);" "\\\");\nconst n7=1;" "" "").WellNamed ∧
      BuildsSlots
        [⟨0, [[.field "\"];el.appendChild(n1);",
          .container .row [.button "\\\");\nconst n7=1;" "go"]]]⟩]
        (noteBoard ["a"] "\"];el.appendChild(n1);" "\\\");\nconst n7=1;" "" "").render :=
  ⟨wellNamed_noteBoard .., buildsSlots_render (wellNamed_noteBoard ..)⟩

end Behavior

end Pagewright
