import Pagewright.Proofs.Pages

set_option autoImplicit false

namespace Pagewright

mutual

/-- The buttons of the template call functions by identifiers. -/
def Template.WellNamed : Template → Prop
  | .field _ => True
  | .button _ handler => Identifier handler
  | .container _ children => Template.WellNamedAll children

def Template.WellNamedAll : List Template → Prop
  | [] => True
  | template :: rest => template.WellNamed ∧ Template.WellNamedAll rest

end

theorem Template.wellNamedAll_append {first second : List Template}
    (left : Template.WellNamedAll first) (right : Template.WellNamedAll second) :
    Template.WellNamedAll (first ++ second) := by
  induction first with
  | nil => exact right
  | cons template rest ih => exact ⟨left.1, ih left.2⟩

/-- The names in a behavior that its script does not quote. -/
structure Behavior.WellNamed (behavior : Behavior) : Prop where
  tables : ∀ function ∈ behavior.renderFunctions, Identifier function.table.name
  buttons : ∀ function ∈ behavior.renderFunctions, ∀ slot ∈ function.slots,
    ∀ item ∈ slot.items, Template.WellNamedAll item
  handlers : ∀ handler ∈ behavior.handlers, Identifier handler.name
  effects : ∀ handler ∈ behavior.handlers, ∀ effect ∈ handler.effects, Identifier effect.table

mutual

theorem Node.shows_wellNamed (column : String → String) : (node : Node) →
    (∀ shown ∈ node.reach BlockKind.isContainer, Showable shown) →
    Template.WellNamedAll (node.shows column)
  | .text _ _, _ => ⟨trivial, trivial⟩
  | .button pos label handler, showable => by
    have callable : Callable handler := showable (.button pos label handler) (by simp [Node.reach])
    exact ⟨callable.1, trivial⟩
  | .block _ .column body, showable =>
    ⟨Node.showsAll_wellNamed column body fun shown member => showable shown (.tail _ member),
      trivial⟩
  | .block _ .row body, showable =>
    ⟨Node.showsAll_wellNamed column body fun shown member => showable shown (.tail _ member),
      trivial⟩
  | .block _ .ui _, _ | .block _ .item _, _ | .block _ .db _, _ | .app _ _, _ | .input _ _ _, _
  | .list _ _ _, _ | .table _ _ _, _ | .function _ _ _, _ | .statement _ _, _ | .raw _ _, _ =>
    trivial

/-- Every button that an item shows has passed the check of its handler. -/
theorem Node.showsAll_wellNamed (column : String → String) : (nodes : List Node) →
    (∀ shown ∈ shownNodes nodes, Showable shown) →
    Template.WellNamedAll (Node.showsAll column nodes)
  | [], _ => trivial
  | node :: rest, showable => by
    rw [shownNodes_cons] at showable
    have first := Node.shows_wellNamed column node fun shown member =>
      showable shown (List.mem_append_left _ member)
    have others := Node.showsAll_wellNamed column rest fun shown member =>
      showable shown (List.mem_append_right _ member)
    exact Template.wellNamedAll_append first others

end

theorem slotsOf_wellNamed (schema : Schema) (nodes : List Node)
    (placed : ∀ node ∈ nodes, node.WellPlaced) :
    ∀ slot ∈ slotsOf schema (nodes.filterMap Node.list?), ∀ item ∈ slot.items,
      Template.WellNamedAll item := by
  intro slot member item inside
  obtain ⟨⟨⟨table, body⟩, index⟩, kept, rfl⟩ := List.mem_map.mp member
  have listed := (List.mem_zipIdx' (List.mem_of_mem_filter kept)).2
  obtain ⟨itemBody, ofBody, rfl⟩ := List.mem_map.mp inside
  obtain ⟨itemPos, child⟩ := (mem_itemBodies body itemBody).mp ofBody
  obtain ⟨pos, live⟩ := (mem_list?_iff nodes table body).mp (listed ▸ List.getElem_mem _)
  have wellPlaced : (Node.list pos table body).WellPlaced := placed _ live
  exact Node.showsAll_wellNamed _ itemBody (wellPlaced.2 itemPos itemBody child)

/-- The schemas of a page have identifiers for names. -/
theorem generate_tables_identifiers {settings : Settings} {nodes : List Node} {page : Page}
    (success : generate settings nodes = .ok page) :
    ∀ table ∈ page.bootstrap.tables, Identifier table.name := by
  obtain ⟨placed, -, rfl⟩ := (generate_eq_ok_iff_livePage settings nodes page).mp success
  intro schema member
  obtain ⟨pos, name, fields, live, rfl⟩ := (mem_schema?_iff _ _).mp member
  exact placed _ live

/-- What a script takes from a program without quotes is an identifier. -/
theorem generate_wellNamed {settings : Settings} {nodes : List Node} {page : Page}
    (success : generate settings nodes = .ok page) : page.behavior.WellNamed := by
  have tables := generate_tables_identifiers success
  obtain ⟨placed, -, rfl⟩ := (generate_eq_ok_iff_livePage settings nodes page).mp success
  refine ⟨?_, ?_, ?_, ?_⟩
  · intro function member
    obtain ⟨schema, declared, rfl⟩ := List.mem_map.mp member
    exact tables schema declared
  · intro function member
    obtain ⟨schema, declared, rfl⟩ := List.mem_map.mp member
    exact slotsOf_wellNamed schema (liveNodes nodes) placed
  · intro handler member
    obtain ⟨pos, name, body, live, rfl⟩ := (mem_handler?_iff _ _ _).mp member
    have wellPlaced : (Node.function pos name body).WellPlaced := placed _ live
    exact wellPlaced.1.1.1
  · intro handler member effect active
    obtain ⟨pos, name, body, live, rfl⟩ := (mem_handler?_iff _ _ _).mp member
    have wellPlaced : (Node.function pos name body).WellPlaced := placed _ live
    obtain ⟨stepPos, step, inside, named⟩ :=
      (mem_effect?_iff _ body effect.table).mp ⟨effect, active, rfl⟩
    exact wellPlaced.2 _ inside effect.table named

end Pagewright
