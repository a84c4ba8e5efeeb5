import Pagewright.Proofs.RowLines

set_option autoImplicit false

namespace Pagewright

section Trees

/-- The node that a part is the root of. The element of an item is no node. -/
def Part.node? (children : List Template) : Part → Option Template
  | .item => none
  | .field name => some (.field name)
  | .button label handler => some (.button label handler)
  | .container direction => some (.container direction children)

/-- The nodes below an element: one for each of the rows that append to it. -/
def nodesBelow (parent : String) : List Row → List Template
  | [] => []
  | row :: rest =>
    if row.parent = parent then
      (row.part.node? (nodesBelow row.element rest)).toList ++ nodesBelow parent rest
    else nodesBelow parent rest

/-- The items of a slot: one for each item that is appended to the element of the slot. -/
def itemsBelow : List Row → List (List Template)
  | [] => []
  | row :: rest =>
    if row.part = .item ∧ row.parent = "el" then nodesBelow row.element rest :: itemsBelow rest
    else itemsBelow rest

/-- Each row appends its own element: an item to the element of the slot, any other part to an
element that is declared before. -/
def Grounded (declared : List String) : List Row → Prop
  | [] => True
  | row :: rest =>
    row.appended = row.element ∧
      (row.part = .item ∧ row.parent = "el" ∨ row.part ≠ .item ∧ row.parent ∈ declared) ∧
      Grounded (declared ++ [row.element]) rest

theorem grounded_append {declared : List String} {first second : List Row} :
    Grounded declared (first ++ second) ↔
      Grounded declared first ∧ Grounded (declared ++ first.map Row.element) second := by
  induction first generalizing declared with
  | nil => simp [Grounded]
  | cons row rest ih => simp [Grounded, ih, and_assoc]

end Trees

namespace Template

mutual

/-- The parts of a template in document order. -/
def parts : Template → List Part
  | .field name => [.field name]
  | .button label handler => [.button label handler]
  | .container direction children => .container direction :: partsAll children

def partsAll : List Template → List Part
  | [] => []
  | first :: rest => first.parts ++ partsAll rest

end

mutual

theorem map_part_rows (parent : String) (number : Nat) : (template : Template) →
    (template.rows parent number).map Row.part = template.parts
  | .field _ | .button _ _ => rfl
  | .container direction children => by
    rw [rows, parts, List.map_cons, map_part_rowsAll (localName number) (number + 1) children]

theorem map_part_rowsAll (parent : String) (number : Nat) : (templates : List Template) →
    (rowsAll parent number templates).map Row.part = partsAll templates
  | [] => rfl
  | first :: rest => by
    rw [rowsAll, partsAll, List.map_append, map_part_rows parent number first,
      map_part_rowsAll parent (number + first.size) rest]

end

mutual

theorem map_element_rows (parent : String) (number : Nat) : (template : Template) →
    (template.rows parent number).map Row.element =
      (List.range' number template.size).map localName
  | .field _ | .button _ _ => rfl
  | .container direction children => by
    rw [rows, size, List.map_cons, map_element_rowsAll (localName number) (number + 1) children,
      Nat.add_comm 1, List.range'_succ, List.map_cons]

/-- The rows declare the names from the first number on. -/
theorem map_element_rowsAll (parent : String) (number : Nat) : (templates : List Template) →
    (rowsAll parent number templates).map Row.element =
      (List.range' number (sizeAll templates)).map localName
  | [] => rfl
  | first :: rest => by
    rw [rowsAll, sizeAll, List.map_append, map_element_rows parent number first,
      map_element_rowsAll parent (number + first.size) rest, ← List.map_append,
      List.range'_append_1]

end

mutual

theorem parent_of_mem_rows (parent number : Nat) : (template : Template) →
    ∀ row ∈ template.rows (localName parent) number, row.part ≠ .item ∧
      ∃ other, (other = parent ∨ number ≤ other) ∧ row.parent = localName other
  | .field _ | .button _ _ => by
    rw [rows, List.forall_mem_singleton]
    exact ⟨Part.noConfusion, parent, .inl rfl, rfl⟩
  | .container direction children => by
    rw [rows, List.forall_mem_cons]
    refine ⟨⟨Part.noConfusion, parent, .inl rfl, rfl⟩, fun row member => ?_⟩
    obtain ⟨noItem, other, place, below⟩ :=
      parent_of_mem_rowsAll number (number + 1) children row member
    exact ⟨noItem, other, .inr (by omega), below⟩

/-- Rows hang below the given parent or below an element with a number that is not smaller. -/
theorem parent_of_mem_rowsAll (parent number : Nat) : (templates : List Template) →
    ∀ row ∈ rowsAll (localName parent) number templates, row.part ≠ .item ∧
      ∃ other, (other = parent ∨ number ≤ other) ∧ row.parent = localName other
  | [] => List.forall_mem_nil _
  | first :: rest => by
    rw [rowsAll, List.forall_mem_append]
    refine ⟨parent_of_mem_rows parent number first, fun row member => ?_⟩
    obtain ⟨noItem, other, place, below⟩ :=
      parent_of_mem_rowsAll parent (number + first.size) rest row member
    exact ⟨noItem, other, by omega, below⟩

end

theorem parent_ne_of_mem_rowsAll {parent number other : Nat} (apart : other ≠ parent)
    (before : other < number) (templates : List Template) :
    ∀ row ∈ rowsAll (localName parent) number templates, row.parent ≠ localName other := by
  intro row member same
  obtain ⟨-, actual, place, below⟩ := parent_of_mem_rowsAll parent number templates row member
  have equal := localName_inj (below.symm.trans same)
  omega

/-- No row hangs below an element with a number from the first to before the second. -/
def Unhung (start stop : Nat) (rows : List Row) : Prop :=
  ∀ row ∈ rows, ∀ other, start ≤ other → other < stop → row.parent ≠ localName other

theorem unhung_append {start stop : Nat} {first second : List Row} (front : Unhung start stop first)
    (back : Unhung start stop second) : Unhung start stop (first ++ second) := by
  intro row member
  rcases List.mem_append.mp member with inFirst | inSecond
  · exact front row inFirst
  · exact back row inSecond

theorem Unhung.mono {start stop later before : Nat} {rows : List Row}
    (unhung : Unhung start stop rows) (front : start ≤ later) (back : before ≤ stop) :
    Unhung later before rows := by
  intro row member other above below
  exact unhung row member other (Nat.le_trans front above) (Nat.lt_of_lt_of_le below back)

/-- What stands below a smaller number, and what comes later, hangs below no number in between. -/
theorem unhung_rowsAll {parent start number : Nat} (smaller : parent < start)
    (templates : List Template) :
    Unhung start number (rowsAll (localName parent) number templates) := by
  intro row member other above below
  exact parent_ne_of_mem_rowsAll (by omega) below templates row member

theorem nodesBelow_append {parent : String} {rows : List Row}
    (elsewhere : ∀ row ∈ rows, row.parent ≠ parent) (after : List Row) :
    nodesBelow parent (rows ++ after) = nodesBelow parent after := by
  induction rows with
  | nil => rfl
  | cons row rest ih =>
    obtain ⟨other, others⟩ := List.forall_mem_cons.mp elsewhere
    rw [List.cons_append, nodesBelow, if_neg other, ih others]

theorem nodesBelow_eq_nil {parent : String} {rows : List Row}
    (elsewhere : ∀ row ∈ rows, row.parent ≠ parent) : nodesBelow parent rows = [] := by
  have none := nodesBelow_append elsewhere []
  rwa [List.append_nil] at none

mutual

/-- The rows of a template make up the template, if no later row hangs below one of its elements. -/
theorem nodesBelow_rows {parent number : Nat} (smaller : parent < number) :
    (template : Template) → {after : List Row} →
    Unhung number (number + template.size) after →
    nodesBelow (localName parent) (template.rows (localName parent) number ++ after) =
      template :: nodesBelow (localName parent) after
  | .field name, after, _ => by
    rw [rows, List.cons_append, nodesBelow, if_pos rfl]
    rfl
  | .button label handler, after, _ => by
    rw [rows, List.cons_append, nodesBelow, if_pos rfl]
    rfl
  | .container direction children, after, unhung => by
    rw [size] at unhung
    have inside := nodesBelow_rowsAll (Nat.lt_succ_self number) children
      (unhung.mono (by omega) (by omega))
    -- What comes later adds no children, and the children are passed over among the siblings.
    have noMore : nodesBelow (localName number) after = [] :=
      nodesBelow_eq_nil fun row member => unhung row member number (Nat.le_refl _) (by omega)
    have elsewhere : ∀ row ∈ rowsAll (localName number) (number + 1) children,
        row.parent ≠ localName parent :=
      parent_ne_of_mem_rowsAll (by omega) (by omega) children
    rw [rows, List.cons_append, nodesBelow, if_pos rfl, nodesBelow_append elsewhere, inside, noMore,
      List.append_nil]
    rfl

/-- The rows of templates below one element make up the templates. -/
theorem nodesBelow_rowsAll {parent number : Nat} (smaller : parent < number) :
    (templates : List Template) → {after : List Row} →
    Unhung number (number + sizeAll templates) after →
    nodesBelow (localName parent) (rowsAll (localName parent) number templates ++ after) =
      templates ++ nodesBelow (localName parent) after
  | [], _, _ => rfl
  | first :: rest, after, unhung => by
    rw [sizeAll] at unhung
    have later : parent < number + first.size := by omega
    have others := nodesBelow_rowsAll later rest (unhung.mono (by omega) (by omega))
    have apart : Unhung number (number + first.size)
        (rowsAll (localName parent) (number + first.size) rest ++ after) :=
      unhung_append (unhung_rowsAll smaller rest) (unhung.mono (by omega) (by omega))
    rw [rowsAll, List.append_assoc, nodesBelow_rows smaller first apart, others, List.cons_append]

end

mutual

theorem grounded_rows {declared : List String} {parent : String} (known : parent ∈ declared)
    (number : Nat) : (template : Template) → Grounded declared (template.rows parent number)
  | .field _ | .button _ _ => ⟨rfl, .inr ⟨Part.noConfusion, known⟩, trivial⟩
  | .container direction children => by
    have own : localName number ∈ declared ++ [localName number] :=
      List.mem_append_right declared (.head _)
    exact ⟨rfl, .inr ⟨Part.noConfusion, known⟩, grounded_rowsAll own (number + 1) children⟩

/-- Below an element that is declared, the elements are declared before anything is appended to
them. -/
theorem grounded_rowsAll {declared : List String} {parent : String} (known : parent ∈ declared)
    (number : Nat) : (templates : List Template) →
    Grounded declared (rowsAll parent number templates)
  | [] => trivial
  | first :: rest =>
    grounded_append.mpr ⟨grounded_rows known number first,
      grounded_rowsAll (List.mem_append_left _ known) (number + first.size) rest⟩

end

end Template

namespace Slot

open Template

/-- The parts of a slot: each item before the parts that it shows. -/
def parts (slot : Slot) : List Part := slot.items.flatMap fun item => .item :: partsAll item

theorem map_part_itemsRows (number : Nat) (items : List (List Template)) :
    (itemsRows number items).map Row.part = items.flatMap fun item => .item :: partsAll item := by
  induction items generalizing number with
  | nil => rfl
  | cons item items ih =>
    rw [itemsRows, itemRows, List.map_append, List.map_cons, map_part_rowsAll, ih,
      List.flatMap_cons]

theorem map_element_itemsRows (number : Nat) (items : List (List Template)) :
    (itemsRows number items).map Row.element =
      (List.range' number (itemsSize items)).map localName := by
  induction items generalizing number with
  | nil => rfl
  | cons item items ih =>
    rw [itemsRows, itemRows, List.map_append, List.map_cons, map_element_rowsAll, ih, itemsSize,
      ← List.range'_append_1, List.map_append, itemSize, Nat.add_comm 1, List.range'_succ,
      List.map_cons]

theorem localName_ne_el (number : Nat) : localName number ≠ "el" :=
  ((heads_ofList rfl : Heads 'n' "n").append _).ne (heads_ofList rfl : Heads 'e' "el") (by decide)

theorem itemsBelow_rowsAll (parent number : Nat) (templates : List Template) (after : List Row) :
    itemsBelow (rowsAll (localName parent) number templates ++ after) = itemsBelow after := by
  have noItems : ∀ row ∈ rowsAll (localName parent) number templates, row.part ≠ .item :=
    fun row member => (parent_of_mem_rowsAll parent number templates row member).1
  generalize rowsAll (localName parent) number templates = rows at noItems
  induction rows with
  | nil => rfl
  | cons row rest ih =>
    obtain ⟨noItem, others⟩ := List.forall_mem_cons.mp noItems
    rw [List.cons_append, itemsBelow, if_neg (fun both => noItem both.1), ih others]

/-- Later items hang below no element of an earlier one. -/
theorem unhung_itemsRows {start stop number : Nat} (later : stop ≤ number)
    (items : List (List Template)) : Unhung start stop (itemsRows number items) := by
  induction items generalizing number with
  | nil => exact List.forall_mem_nil _
  | cons item items ih =>
    refine unhung_append ?_ (ih (Nat.le_trans later (Nat.le_add_right _ _)))
    intro row member other above below
    rcases List.mem_cons.mp member with rfl | shown
    · exact (localName_ne_el other).symm
    · exact parent_ne_of_mem_rowsAll (by omega) (by omega) item row shown

/-- The rows of items make up the items. -/
theorem itemsBelow_itemsRows (number : Nat) (items : List (List Template)) :
    itemsBelow (itemsRows number items) = items := by
  induction items generalizing number with
  | nil => rfl
  | cons item items ih =>
    have unhung : Unhung number (number + itemSize item)
        (itemsRows (number + itemSize item) items) := unhung_itemsRows (Nat.le_refl _) items
    have size : itemSize item = 1 + Template.sizeAll item := rfl
    have shown := nodesBelow_rowsAll (Nat.lt_succ_self number) item
      (unhung.mono (by omega) (by omega))
    have noMore : nodesBelow (localName number) (itemsRows (number + itemSize item) items) = [] :=
      nodesBelow_eq_nil fun row member => unhung row member number (Nat.le_refl _) (by omega)
    rw [itemsRows, itemRows, List.cons_append, itemsBelow, if_pos ⟨rfl, rfl⟩, shown, noMore,
      List.append_nil, itemsBelow_rowsAll, ih]

example : itemsBelow [⟨"n0", .item, "el", "n0"⟩, ⟨"n1", .container .row, "n0", "n1"⟩,
    ⟨"n2", .field "a", "n1", "n2"⟩, ⟨"n3", .field "b", "n0", "n3"⟩, ⟨"n4", .item, "el", "n4"⟩] =
    [[.container .row [.field "a"], .field "b"], []] := rfl

theorem grounded_itemsRows (declared : List String) (number : Nat) (items : List (List Template)) :
    Grounded declared (itemsRows number items) := by
  induction items generalizing declared number with
  | nil => trivial
  | cons item items ih =>
    have shown := grounded_rowsAll (List.mem_append_right declared (.head _) :
      localName number ∈ declared ++ [localName number]) (number + 1) item
    exact grounded_append.mpr ⟨⟨rfl, .inl ⟨rfl, rfl⟩, shown⟩, ih _ _⟩

end Slot

end Pagewright
