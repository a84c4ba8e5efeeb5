import Pagewright.Proofs.Naming

set_option autoImplicit false

namespace Pagewright

/-- Lines that carry nothing of the page. -/
def fixedLines : List String :=
  ["slots.forEach(el=>\x7bif(el)el.innerHTML=\"\";\x7d);", "if(!rows.length)return;",
    "rows.forEach(row=>\x7b", "\x7d\x7d", "\x7d);", "\x7d"]

/-- What a line can be. The names that it does not quote are identifiers. -/
inductive LineShape : String → Prop
  | node {parent : String} {template : Template} (number : Nat)
      (hung : parent = "el" ∨ ∃ other, parent = localName other) (named : template.WellNamed) :
      LineShape (template.line parent number)
  | item (number : Nat) :
      LineShape (Template.elementLine (localName number) "div"
        (localName number ++ ".className=\"item\";") "el")
  | slot (place : Nat) : LineShape ("\x7bconst el=slots[" ++ toString place ++ "];if(el)\x7b")
  | slots (table : String) (slots : List Slot) :
      LineShape ("const slots=[" ++
        ",".intercalate (slots.map (RenderFunction.lookup table)) ++ "];")
  | rows (query : String) :
      LineShape ("const rows=queryRows(" ++ Text.Literal.script query ++ ");")
  | renderFunction {table : String} (identifier : Identifier table) :
      LineShape ("function " ++ renderFunctionName table ++ "()\x7b")
  | handler {name : String} (identifier : Identifier name) :
      LineShape ("function " ++ name ++ "(arg)\x7b")
  | effect {effect : Effect} {line : String} (identifier : Identifier effect.table)
      (written : line ∈ effect.lines) : LineShape line
  | fixed {line : String} (among : line ∈ fixedLines) : LineShape line

namespace Template

mutual

theorem exists_node_of_mem_lines (parent : String) (number : Nat) : (template : Template) →
    {text : String} → text ∈ template.lines parent number →
    ∃ above place node, (above = parent ∨ ∃ other, above = localName other) ∧
      (template.WellNamed → node.WellNamed) ∧ text = line above place node
  | .field name, _, member =>
    ⟨parent, number, .field name, .inl rfl, id, List.mem_singleton.mp member⟩
  | .button label handler, _, member =>
    ⟨parent, number, .button label handler, .inl rfl, id, List.mem_singleton.mp member⟩
  | .container direction children, _, member => by
    rcases List.mem_cons.mp member with own | below
    · exact ⟨parent, number, .container direction children, .inl rfl, id, own⟩
    · obtain ⟨above, place, node, hung, named, same⟩ :=
        exists_node_of_mem_linesAll (localName number) (number + 1) children below
      refine ⟨above, place, node, .inr ?_, named, same⟩
      rcases hung with inner | deeper
      · exact ⟨number, inner⟩
      · exact deeper

/-- Every line of templates is that of a node, below their parent or below a numbered element. -/
theorem exists_node_of_mem_linesAll (parent : String) (number : Nat) :
    (templates : List Template) → {text : String} → text ∈ linesAll parent number templates →
    ∃ above place node, (above = parent ∨ ∃ other, above = localName other) ∧
      (WellNamedAll templates → node.WellNamed) ∧ text = line above place node
  | template :: rest, _, member => by
    rcases List.mem_append.mp member with first | others
    · obtain ⟨above, place, node, hung, named, same⟩ :=
        exists_node_of_mem_lines parent number template first
      exact ⟨above, place, node, hung, fun all => named all.1, same⟩
    · obtain ⟨above, place, node, hung, named, same⟩ :=
        exists_node_of_mem_linesAll parent (number + template.size) rest others
      exact ⟨above, place, node, hung, fun all => named all.2, same⟩

end

end Template

namespace Slot

theorem lineShape_itemsLines (number : Nat) (items : List (List Template))
    (named : ∀ item ∈ items, Template.WellNamedAll item) :
    ∀ line ∈ itemsLines number items, LineShape line := by
  induction items generalizing number with
  | nil => simp [itemsLines]
  | cons item items ih =>
    obtain ⟨first, others⟩ := List.forall_mem_cons.mp named
    rw [itemsLines, itemLines, List.forall_mem_append, List.forall_mem_cons]
    refine ⟨⟨.item number, fun line member => ?_⟩, ih _ others⟩
    obtain ⟨above, place, node, hung, wellNamed, rfl⟩ :=
      Template.exists_node_of_mem_linesAll _ _ item member
    refine .node place (.inr ?_) (wellNamed first)
    rcases hung with own | deeper
    · exact ⟨number, own⟩
    · exact deeper

theorem lineShape_linesAll (number place : Nat) (slots : List Slot)
    (named : ∀ slot ∈ slots, ∀ item ∈ slot.items, Template.WellNamedAll item) :
    ∀ line ∈ linesAll number place slots, LineShape line := by
  induction slots generalizing number place with
  | nil => simp [linesAll]
  | cons slot slots ih =>
    obtain ⟨first, others⟩ := List.forall_mem_cons.mp named
    rw [linesAll, lines, List.forall_mem_append, List.forall_mem_append, List.forall_mem_cons,
      List.forall_mem_singleton]
    exact ⟨⟨⟨.slot place, lineShape_itemsLines number slot.items first⟩,
      .fixed (by simp [fixedLines])⟩, ih _ _ others⟩

end Slot

namespace RenderFunction

theorem lineShape_body (number : Nat) (function : RenderFunction)
    (named : ∀ slot ∈ function.slots, ∀ item ∈ slot.items, Template.WellNamedAll item) :
    ∀ line ∈ function.body number, LineShape line := by
  rw [body, List.forall_mem_append, List.forall_mem_append, List.forall_mem_singleton]
  refine ⟨⟨?_, Slot.lineShape_linesAll number 0 function.slots named⟩,
    .fixed (by simp [fixedLines])⟩
  simp only [List.forall_mem_cons]
  exact ⟨.slots _ _, .fixed (by simp [fixedLines]), .rows _, .fixed (by simp [fixedLines]),
    .fixed (by simp [fixedLines]), List.forall_mem_nil _⟩

theorem lineShape_linesAll (number : Nat) (functions : List RenderFunction)
    (tables : ∀ function ∈ functions, Identifier function.table.name)
    (named : ∀ function ∈ functions, ∀ slot ∈ function.slots, ∀ item ∈ slot.items,
      Template.WellNamedAll item) :
    ∀ line ∈ linesAll number functions, LineShape line := by
  induction functions generalizing number with
  | nil => simp [linesAll]
  | cons function rest ih =>
    obtain ⟨table, otherTables⟩ := List.forall_mem_cons.mp tables
    obtain ⟨first, others⟩ := List.forall_mem_cons.mp named
    rw [linesAll, lines, List.forall_mem_append, List.forall_mem_append, List.forall_mem_cons,
      List.forall_mem_singleton]
    refine ⟨⟨⟨.renderFunction table, ?_⟩, .fixed (by simp [fixedLines])⟩, ih _ otherTables others⟩
    split
    · simp
    · exact lineShape_body number function first

end RenderFunction

theorem Behavior.WellNamed.lineShape {behavior : Behavior} (named : behavior.WellNamed) :
    ∀ line ∈ behavior.lines, LineShape line := by
  rw [Behavior.lines, List.forall_mem_append]
  refine ⟨RenderFunction.lineShape_linesAll 0 _ named.tables named.buttons, ?_⟩
  intro line member
  obtain ⟨handler, inside, written⟩ := List.mem_flatMap.mp member
  rw [Handler.lines, List.mem_append, List.mem_cons, List.mem_singleton] at written
  rcases written with (rfl | performed) | rfl
  · exact .handler (named.handlers handler inside)
  · obtain ⟨effect, among, written⟩ := List.mem_flatMap.mp performed
    exact .effect (named.effects handler inside effect among) written
  · exact .fixed (by simp [fixedLines])

end Pagewright
