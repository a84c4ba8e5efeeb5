import Mathlib.Data.List.Nodup
import Pagewright.Proofs.Elements
import Pagewright.Proofs.Nesting
import Pagewright.Proofs.ScriptLines

set_option autoImplicit false

namespace Pagewright

open Text Markup

/-- Of items with distinct keys one satisfies a condition that fixes the key. -/
theorem filter_eq_singleton_of_key {α β : Type} {key : α → β} {items : List α} {holds : α → Bool}
    {item : α} (distinct : (items.map key).Nodup) (member : item ∈ items)
    (found : holds item = true)
    (only : ∀ other ∈ items, holds other = true → key other = key item) :
    items.filter holds = [item] := by
  induction items with
  | nil => cases member
  | cons head rest ih =>
    rw [List.map_cons, List.nodup_cons] at distinct
    obtain ⟨first, others⟩ := List.forall_mem_cons.mp only
    rcases List.mem_cons.mp member with rfl | later
    · have none : rest.filter holds = [] := by
        rw [List.filter_eq_nil_iff]
        intro other inside satisfied
        exact distinct.1 (others other inside satisfied ▸ List.mem_map_of_mem inside)
      rw [List.filter_cons_of_pos found, none]
    · have differs : ¬ holds head = true := by
        intro satisfied
        exact distinct.1 (first satisfied ▸ List.mem_map_of_mem later)
      rw [List.filter_cons_of_neg differs, ih distinct.2 later others]

theorem countP_eq_one_of_key {α β : Type} {key : α → β} {items : List α} {holds : α → Bool}
    {item : α} (distinct : (items.map key).Nodup) (member : item ∈ items)
    (found : holds item = true)
    (only : ∀ other ∈ items, holds other = true → key other = key item) :
    items.countP holds = 1 := by
  rw [List.countP_eq_length_filter, filter_eq_singleton_of_key distinct member found only]
  rfl

namespace Markup

/-- An element that carries the mark of a list. -/
def isPlaceholder (markup : Markup) : Bool :=
  (markup.attributeValue? "data-list").isSome || (markup.attributeValue? "data-slot").isSome

/-- The placeholders of a forest, in document order. -/
def placeholders (forest : List Markup) : List Markup := (elementsAll forest).filter isPlaceholder

theorem placeholders_append (first second : List Markup) :
    placeholders (first ++ second) = placeholders first ++ placeholders second := by
  rw [placeholders, elementsAll_append, List.filter_append, placeholders, placeholders]

theorem placeholders_container (direction : Direction) (children : List Markup) :
    placeholders [containerMarkup direction children] = placeholders children := by
  have plain : isPlaceholder (containerMarkup direction children) = false := rfl
  rw [placeholders, elementsAll, elementsAll, List.append_nil, containerMarkup, elements,
    ← containerMarkup, List.filter_cons_of_neg (by rw [plain]; decide), placeholders]

end Markup

/-- The placeholders of numbered lists. -/
def markPlaceholders (lists : List ((String × List Node) × Nat)) : List Markup :=
  lists.map fun ((table, _), index) => listMarkup table index

theorem listsOf_liveNodes_db {body : List Node} (nested : Node.NestedAll .db body) :
    listsOf (liveNodes body) = [] := by
  induction body with
  | nil => rfl
  | cons node rest ih =>
    obtain ⟨accepted, -, others⟩ := nested
    rw [liveNodes_cons, listsOf_append, ih others, List.append_nil]
    cases node with
    | table => rfl
    | raw => rfl
    | _ => cases accepted

mutual

theorem Node.placeholders_markup (slot : Nat) : (node : Node) → node.Nested →
    placeholders (node.markup slot) =
      markPlaceholders ((listsOf (node.reach BlockKind.isWalked)).zipIdx slot)
  | .block _ .ui body, nested => Node.placeholders_markupAll slot body nested
  | .block _ .column body, nested => by
    rw [Node.markup, placeholders_container]
    exact Node.placeholders_markupAll slot body nested
  | .block _ .row body, nested => by
    rw [Node.markup, placeholders_container]
    exact Node.placeholders_markupAll slot body nested
  | .block pos .db body, nested => by
    change [] = markPlaceholders ((listsOf (.block pos .db body :: liveNodes body)).zipIdx slot)
    rw [listsOf_block, listsOf_liveNodes_db nested]
    rfl
  | .list _ _ _, _ => rfl
  | .block _ .item _, _ | .app _ _, _ | .text _ _, _ | .input _ _ _, _ | .button _ _ _, _
  | .table _ _ _, _ | .function _ _ _, _ | .statement _ _, _ | .raw _ _, _ => rfl

/-- The placeholders of a nested program are those of its live lists, numbered in order. Lists below
a block of tables would be numbered but not shown; there are none. -/
theorem Node.placeholders_markupAll {context : Context} (slot : Nat) : (nodes : List Node) →
    Node.NestedAll context nodes →
    placeholders (Node.markupAll slot nodes) =
      markPlaceholders ((listsOf (liveNodes nodes)).zipIdx slot)
  | [], _ => rfl
  | node :: rest, nested => by
    have first := Node.placeholders_markup slot node nested.2.1
    have others := Node.placeholders_markupAll
      (slot + listCount (node.reach BlockKind.isWalked)) rest nested.2.2
    rw [Node.markupAll, placeholders_append, first, others, liveNodes_cons, listsOf_append,
      List.zipIdx_append, length_listsOf, markPlaceholders, markPlaceholders, markPlaceholders,
      List.map_append]

end

theorem nodup_zipIdx_snd {α : Type} (items : List α) : (items.zipIdx.map Prod.snd).Nodup := by
  rw [List.zipIdx_map_snd]
  exact List.nodup_range'

/-- A slot of a table belongs to one of its lists with items, under the number of the list. -/
theorem mem_slotsOf_iff (schema : Schema) (lists : List (String × List Node)) (slot : Slot) :
    slot ∈ slotsOf schema lists ↔
      ∃ body, lists[slot.index]? = some (schema.name, body) ∧ itemBodies body ≠ [] ∧
        (itemBodies body).map (Node.showsAll (columnOf schema.fields)) = slot.items := by
  simp only [slotsOf, List.mem_map, List.mem_filter, decide_eq_true_eq]
  constructor
  · rintro ⟨⟨⟨_, body⟩, index⟩, ⟨listed, rfl, filled⟩, rfl⟩
    exact ⟨body, List.mem_zipIdx_iff_getElem?.mp listed, filled, rfl⟩
  · rintro ⟨body, listed, filled, items⟩
    refine ⟨((schema.name, body), slot.index),
      ⟨List.mem_zipIdx_iff_getElem?.mpr listed, rfl, filled⟩, ?_⟩
    rw [items]

theorem exists_slot_iff (schema : Schema) (lists : List (String × List Node)) (index : Nat) :
    (∃ slot ∈ slotsOf schema lists, slot.index = index) ↔
      ∃ body, lists[index]? = some (schema.name, body) ∧ itemBodies body ≠ [] := by
  simp only [mem_slotsOf_iff]
  constructor
  · rintro ⟨slot, ⟨body, listed, filled, -⟩, rfl⟩
    exact ⟨body, listed, filled⟩
  · rintro ⟨body, listed, filled⟩
    exact ⟨⟨index, _⟩, ⟨body, listed, filled, rfl⟩, rfl⟩

theorem nodup_slotsOf_index (schema : Schema) (lists : List (String × List Node)) :
    ((slotsOf schema lists).map Slot.index).Nodup := by
  rw [slotsOf, List.map_map]
  exact (nodup_zipIdx_snd lists).sublist (List.filter_sublist.map _)

/-- The table and the number of every slot that a render function fills. -/
def Behavior.slotPairs (behavior : Behavior) : List (String × Nat) :=
  behavior.renderFunctions.flatMap fun function =>
    function.slots.map fun slot => (function.table.name, slot.index)

theorem Behavior.mem_slotPairs_iff (behavior : Behavior) (table : String) (index : Nat) :
    (table, index) ∈ behavior.slotPairs ↔
      ∃ function ∈ behavior.renderFunctions, function.table.name = table ∧
        ∃ slot ∈ function.slots, slot.index = index := by
  simp only [slotPairs, List.mem_flatMap, List.mem_map, Prod.mk.injEq]
  constructor
  · rintro ⟨function, member, slot, inside, named, numbered⟩
    exact ⟨function, member, named, slot, inside, numbered⟩
  · rintro ⟨function, member, named, slot, inside, numbered⟩
    exact ⟨function, member, slot, inside, named, numbered⟩

/-- Functions of distinct tables, each with distinct slots, share no pair. -/
theorem Behavior.nodup_slotPairs {behavior : Behavior}
    (tables : (behavior.renderFunctions.map fun function => function.table.name).Nodup)
    (slots : ∀ function ∈ behavior.renderFunctions, (function.slots.map Slot.index).Nodup) :
    behavior.slotPairs.Nodup := by
  rw [slotPairs, List.nodup_flatMap]
  constructor
  · intro function member
    have apart : ((function.slots.map fun slot => (function.table.name, slot.index)).map
        Prod.snd).Nodup := by
      rw [List.map_map]
      exact slots function member
    exact List.Nodup.of_map _ apart
  · refine (List.pairwise_map.mp tables).imp ?_
    intro first second differ pair inFirst inSecond
    obtain ⟨_, -, rfl⟩ := List.mem_map.mp inFirst
    obtain ⟨_, -, same⟩ := List.mem_map.mp inSecond
    exact differ (Prod.mk.inj same).1.symm

/-- Attributes and the values that they have to have. -/
abbrev Selector : Type := List (String × String)

namespace Selector

/-- How a script writes the selector. -/
def text (selector : Selector) : String :=
  String.join (selector.map fun (name, value) => "[" ++ name ++ "=\"" ++ value ++ "\"]")

def selects (selector : Selector) (markup : Markup) : Bool :=
  selector.all fun (name, value) => markup.attributeValue? name == some value

/-- Values without quotes and backslashes stand for themselves between quotes. -/
def Plain (selector : Selector) : Prop :=
  ∀ entry ∈ selector, '"' ∉ entry.2.toList ∧ '\\' ∉ entry.2.toList

end Selector

/-- The selector of the element that a slot fills. -/
def slotSelector (table : String) (index : Nat) : Selector :=
  [("data-list", table), ("data-slot", toString index)]

theorem slotSelector_text (table : String) (index : Nat) :
    (slotSelector table index).text = Slot.selector table index := by
  rw [← String.toList_inj]
  delta Slot.selector
  simp only [slotSelector, Selector.text, List.map_cons, List.map_nil, String.toList_join,
    List.flatMap_cons, List.flatMap_nil, String.toList_append, List.append_assoc, List.append_nil]
  rfl

theorem slotSelector_plain {table : String} (identifier : Identifier table) (index : Nat) :
    (slotSelector table index).Plain := by
  have noDigit : ∀ c : Char, c.isDigit = false → c ∉ (toString index).toList := by
    intro c foreign member
    rw [isDigit_of_mem_toString member] at foreign
    cases foreign
  simp only [Selector.Plain, slotSelector, List.forall_mem_cons]
  exact ⟨⟨identifier.not_mem (by decide), identifier.not_mem (by decide)⟩,
    ⟨noDigit _ (by decide), noDigit _ (by decide)⟩, List.forall_mem_nil _⟩

theorem slotSelector_selects_listMarkup (table other : String) (index number : Nat) :
    (slotSelector table index).selects (listMarkup other number) = true ↔
      other = table ∧ number = index := by
  have list : (listMarkup other number).attributeValue? "data-list" = some other := rfl
  have slot : (listMarkup other number).attributeValue? "data-slot" = some (toString number) := rfl
  simp only [slotSelector, Selector.selects, List.all_cons, List.all_nil, list, slot,
    Bool.and_true, Bool.and_eq_true, beq_iff_eq, Option.some.injEq]
  exact and_congr_right fun _ => ⟨toString_inj, fun same => same ▸ rfl⟩

theorem isPlaceholder_of_selects {table : String} {index : Nat} {markup : Markup}
    (selected : (slotSelector table index).selects markup = true) :
    markup.isPlaceholder = true := by
  simp only [slotSelector, Selector.selects, List.all_cons, Bool.and_eq_true, beq_iff_eq]
    at selected
  rw [isPlaceholder, selected.1]
  rfl

/-- Whether the function fills the element. -/
def RenderFunction.fills (element : Markup) (function : RenderFunction) : Bool :=
  function.slots.any fun slot => (slotSelector function.table.name slot.index).selects element

theorem RenderFunction.fills_listMarkup_iff (table : String) (index : Nat)
    (function : RenderFunction) :
    function.fills (listMarkup table index) = true ↔
      function.table.name = table ∧ ∃ slot ∈ function.slots, slot.index = index := by
  simp only [fills, List.any_eq_true, slotSelector_selects_listMarkup]
  constructor
  · rintro ⟨slot, inside, named, numbered⟩
    exact ⟨named.symm, slot, inside, numbered.symm⟩
  · rintro ⟨named, slot, inside, numbered⟩
    exact ⟨slot, inside, named.symm, numbered.symm⟩

/-- Among the placeholders of numbered lists a selector finds the one of its number. -/
theorem countP_selects_eq_one {forest : List Markup} {lists : List (String × List Node)}
    (marked : placeholders forest = markPlaceholders lists.zipIdx) {table : String}
    {body : List Node} {index : Nat} (listed : lists[index]? = some (table, body)) :
    (elementsAll forest).countP (slotSelector table index).selects = 1 := by
  -- Only placeholders can be selected, and their numbers are distinct.
  have within : (elementsAll forest).countP (slotSelector table index).selects =
      (placeholders forest).countP (slotSelector table index).selects := by
    rw [placeholders, List.countP_filter]
    congr 1
    funext markup
    cases found : (slotSelector table index).selects markup with
    | false => rfl
    | true => rw [isPlaceholder_of_selects found]; rfl
  rw [within, marked, markPlaceholders, List.countP_map]
  have numbered : ((table, body), index) ∈ lists.zipIdx := List.mem_zipIdx_iff_getElem?.mpr listed
  apply countP_eq_one_of_key (nodup_zipIdx_snd lists) numbered
  · exact (slotSelector_selects_listMarkup ..).mpr ⟨rfl, rfl⟩
  · intro entry _ selected
    exact ((slotSelector_selects_listMarkup ..).mp selected).2

theorem livePage_tableNames (settings : Settings) (nodes : List Node) :
    (livePage settings nodes).behavior.renderFunctions.map (fun function => function.table.name) =
      declaredTables nodes := by
  rw [declaredTables, ← schemas_names, livePage, List.map_map]
  rfl

/-- With checked tables the slots are those of the lists with items: every list has a render
function for its table. -/
theorem livePage_mem_slotPairs_iff (settings : Settings) {nodes : List Node}
    (declared : WellDeclared nodes) (table : String) (index : Nat) :
    (table, index) ∈ (livePage settings nodes).behavior.slotPairs ↔
      ∃ body, (listsOf (liveNodes nodes))[index]? = some (table, body) ∧ itemBodies body ≠ [] := by
  rw [Behavior.mem_slotPairs_iff]
  constructor
  · rintro ⟨function, member, rfl, slot⟩
    obtain ⟨schema, -, rfl⟩ := List.mem_map.mp member
    exact (exists_slot_iff schema _ index).mp slot
  · rintro ⟨body, listed, items⟩
    obtain ⟨pos, live⟩ := (mem_list?_iff _ _ _).mp (List.mem_of_getElem? listed)
    have known := declared.listTable pos table body live
    rw [← livePage_tableNames settings] at known
    obtain ⟨function, member, rfl⟩ := List.mem_map.mp known
    obtain ⟨schema, declared, rfl⟩ := List.mem_map.mp member
    exact ⟨_, member, rfl, (exists_slot_iff schema _ index).mpr ⟨body, listed, items⟩⟩

theorem itemBodies_ne_nil_iff (body : List Node) :
    itemBodies body ≠ [] ↔ ∃ pos item, .block pos .item item ∈ body := by
  simp only [ne_eq, List.eq_nil_iff_forall_not_mem, mem_itemBodies, not_forall, not_not]
  exact exists_comm

/-- Placeholders and slots match one to one. The placeholders are those of all lists of the program
in preorder, numbered from zero. With checked tables the slots are those of the lists with items,
each selects one element, and each of these lists is filled by one function. -/
theorem compile_placeholders {settings : Settings} {source : String} {page : Page}
    (success : compile settings source = .ok page) :
    ∃ nodes, parse settings.mode source = .ok nodes ∧
      (Markup.elementsAll page.markup).filter Markup.isPlaceholder =
        (listsOf (Node.subtreeAll nodes)).zipIdx.map (fun ((table, _), index) =>
          .element "div" [("data-list", table), ("data-slot", toString index)] []) ∧
      (settings.checkTables = true →
        page.behavior.slotPairs.Nodup ∧
        (∀ table index, (table, index) ∈ page.behavior.slotPairs ↔
          ∃ body, (listsOf (Node.subtreeAll nodes))[index]? = some (table, body) ∧
            ∃ pos item, .block pos .item item ∈ body) ∧
        ∀ table index, (table, index) ∈ page.behavior.slotPairs →
          (slotSelector table index).text = Slot.selector table index ∧
          (slotSelector table index).Plain ∧
          (Markup.elementsAll page.markup).countP (slotSelector table index).selects = 1 ∧
          page.behavior.renderFunctions.countP
            (RenderFunction.fills (listMarkup table index)) = 1) := by
  obtain ⟨nodes, parsed, generated⟩ := (compile_eq_ok_iff settings source page).mp success
  have named := generate_wellNamed generated
  obtain ⟨placed, checked, rfl⟩ := (generate_eq_ok_iff_livePage settings nodes page).mp generated
  have nested := parse_nestedAll parsed
  have marked := Node.placeholders_markupAll 0 nodes nested
  refine ⟨nodes, parsed, ?_⟩
  rw [Node.listsOf_subtreeAll nodes nested placed]
  refine ⟨marked, ?_⟩
  intro asked
  have declared := checked asked
  have tables := declared.tables
  rw [← livePage_tableNames settings] at tables
  have pairs := livePage_mem_slotPairs_iff settings declared
  refine ⟨Behavior.nodup_slotPairs tables ?_, ?_, ?_⟩
  · intro function member
    obtain ⟨schema, -, rfl⟩ := List.mem_map.mp member
    exact nodup_slotsOf_index schema _
  · intro table index
    rw [pairs]
    simp only [itemBodies_ne_nil_iff]
  · intro table index pair
    obtain ⟨body, listed, -⟩ := (pairs table index).mp pair
    obtain ⟨function, member, rfl, slot⟩ := (Behavior.mem_slotPairs_iff _ _ _).mp pair
    refine ⟨slotSelector_text _ _, slotSelector_plain (named.tables function member) index,
      countP_selects_eq_one marked listed, ?_⟩
    apply countP_eq_one_of_key tables member
    · exact (RenderFunction.fills_listMarkup_iff _ _ _).mpr ⟨rfl, slot⟩
    · intro other _ fills
      exact ((RenderFunction.fills_listMarkup_iff _ _ _).mp fills).1

/-- Lists before their tables, one of them without items. -/
def listProgram : String :=
  "list t \x7b item \x7b \x7d \x7d list t \x7b \x7d table t \x7b \x7d table u \x7b f \x7d " ++
    "row \x7b list u \x7b item \x7b text f \x7d \x7d \x7d"

theorem compile_listProgram : ∃ page,
    compile {} listProgram = .ok page ∧
      page.behavior.slotPairs = [("t", 0), ("u", 2)] ∧
      page.behavior.slotPairs.Nodup ∧
      (Markup.elementsAll page.markup).countP (slotSelector "t" 0).selects = 1 ∧
      (Markup.elementsAll page.markup).countP (slotSelector "u" 2).selects = 1 := by
  obtain ⟨page, success, pairs⟩ := exists_page_of_any (by decide +kernel :
    (compile {} listProgram).toOption.any (fun page =>
      page.behavior.slotPairs == [("t", 0), ("u", 2)]) = true)
  have slots := beq_iff_eq.mp pairs
  obtain ⟨nodes, -, -, checked⟩ := compile_placeholders success
  obtain ⟨distinct, -, each⟩ := checked rfl
  have found : ∀ table index, (table, index) ∈ [("t", 0), ("u", 2)] →
      (Markup.elementsAll page.markup).countP (slotSelector table index).selects = 1 := by
    intro table index pair
    rw [← slots] at pair
    exact (each table index pair).2.2.1
  exact ⟨page, success, slots, distinct, found "t" 0 (by decide), found "u" 2 (by decide)⟩

end Pagewright
