import Mathlib.Data.List.Forall2
import Pagewright.Proofs.Readers
import Pagewright.Proofs.TemplateText

set_option autoImplicit false

namespace Pagewright

open Text

/-- What an element of a row is. -/
inductive Part where
  | item
  | field (name : String)
  | button (label handler : String)
  | container (direction : Direction)
deriving DecidableEq, Repr

/-- What a line says: the element that it declares, what this is, and which element it appends to
which parent. -/
structure Row where
  element : String
  part : Part
  parent : String
  appended : String
deriving DecidableEq, Repr

section Reading

/-- The items and the containers are told from each other by their classes. -/
def Part.ofClass? (name : String) : Option Part :=
  if name = "item" then some .item
  else if name = "col" then some (.container .column)
  else if name = "row" then some (.container .row)
  else none

def readField (text : List Char) : Option (Part × List Char) := do
  let text ← expect ".textContent=row[" text
  let (name, text) ← Literal.read text
  let text ← expect "];" text
  some (.field name, text)

def readClass (text : List Char) : Option (Part × List Char) := do
  let text ← expect ".className=" text
  let (name, text) ← Literal.read text
  let part ← Part.ofClass? name
  let text ← expect ";" text
  some (part, text)

def readButton (element : String) (text : List Char) : Option (Part × List Char) := do
  let text ← expect ".textContent=" text
  let (label, text) ← Literal.read text
  let text ← expect (";" ++ element ++ ".onclick=()=>window.") text
  let (handler, text) := upTo '(' text
  let text ← expect "(row[\"id\"]);" text
  some (.button label handler, text)

/-- What becomes of the new element, from behind its name on. -/
def readPart (tag element : String) (text : List Char) : Option (Part × List Char) :=
  if tag = "button" then readButton element text
  else if tag = "div" then (readField text).or (readClass text)
  else none

/-- One line of a row, read from its first character to its last. -/
def readRow (line : String) : Option Row := do
  let text ← expect "const " line.toList
  let (element, text) := upTo '=' text
  let text ← expect "=document.createElement(\"" text
  let (tag, text) := upTo '"' text
  let text ← expect ("\");" ++ element) text
  let (part, text) ← readPart tag element text
  let (parent, text) := upTo '.' text
  let text ← expect ".appendChild(" text
  let (appended, text) := upTo ')' text
  let text ← expect ");" text
  if text = [] then some ⟨element, part, parent, appended⟩ else none

/-- Whether a line declares an element: it starts with `const n` and a digit. -/
def declaresElement (line : String) : Bool :=
  begins "const n" line && ((line.toList.drop 7).head?.any Char.isDigit)

/-- The name that a line declares as a constant. -/
def declaredName (line : String) : String :=
  (upTo '=' (line.toList.drop 6)).1

/-- The line says what the row holds. It ends with the call that appends the element. -/
structure Row.WrittenIn (row : Row) (line : String) : Prop where
  declares : declaresElement line = true
  name : declaredName line = row.element
  read : readRow line = some row
  appends : ∃ front, Ends ';' front ∧
    line = front ++ (row.parent ++ ".appendChild(" ++ row.appended ++ ");")

end Reading

namespace Template

/-- What the root of a template is. -/
def part : Template → Part
  | .field name => .field name
  | .button label handler => .button label handler
  | .container direction _ => .container direction

mutual

/-- The rows of a template, numbered in document order from the given number on. -/
def rows (parent : String) (number : Nat) : Template → List Row
  | .field name => [⟨localName number, .field name, parent, localName number⟩]
  | .button label handler => [⟨localName number, .button label handler, parent, localName number⟩]
  | .container direction children =>
    ⟨localName number, .container direction, parent, localName number⟩ ::
      rowsAll (localName number) (number + 1) children

def rowsAll (parent : String) (number : Nat) : List Template → List Row
  | [] => []
  | first :: rest => first.rows parent number ++ rowsAll parent (number + first.size) rest

end

theorem toList_elementLine (element tag setup parent : String) :
    (elementLine element tag (element ++ setup) parent).toList =
      "const ".toList ++ (element.toList ++ ("=document.createElement(\"".toList ++
        (tag.toList ++ (("\");" ++ element).toList ++ (setup.toList ++ (parent.toList ++
          (".appendChild(".toList ++ (element.toList ++ ");".toList)))))))) := by
  delta elementLine
  simp only [String.toList_append, List.append_assoc]

theorem declaresElement_elementLine (number : Nat) (tag setup parent : String) :
    declaresElement (elementLine (localName number) tag (localName number ++ setup) parent) =
      true := by
  obtain ⟨digit, rest, written⟩ := List.exists_cons_of_ne_nil (toString_ne_nil number)
  have member : digit ∈ (toString number).toList := written ▸ List.mem_cons_self
  have isDigit : digit.isDigit = true := isDigit_of_mem_toString member
  rw [declaresElement, begins, toList_elementLine, toList_localName, written, Bool.and_eq_true]
  exact ⟨rfl, isDigit⟩

theorem declaredName_elementLine (number : Nat) (tag setup parent : String) :
    declaredName (elementLine (localName number) tag (localName number ++ setup) parent) =
      localName number := by
  have noEquals : '=' ∉ (localName number).toList :=
    not_mem_localName number (by decide) (by decide)
  rw [declaredName, toList_elementLine]
  exact congrArg Prod.fst (upTo_append noEquals rfl)

/-- A line is read back if its part is. -/
theorem readRow_elementLine {tag setup parent : String} {number : Nat} {part : Part}
    (plainTag : '"' ∉ tag.toList) (plainParent : '.' ∉ parent.toList)
    (reads : ∀ rest, readPart tag (localName number) (setup.toList ++ rest) = some (part, rest)) :
    readRow (elementLine (localName number) tag (localName number ++ setup) parent) =
      some ⟨localName number, part, parent, localName number⟩ := by
  have noEquals : '=' ∉ (localName number).toList :=
    not_mem_localName number (by decide) (by decide)
  have noParenthesis : ')' ∉ (localName number).toList :=
    not_mem_localName number (by decide) (by decide)
  have element : ∀ back, upTo '=' ((localName number).toList ++
      ("=document.createElement(\"".toList ++ back)) =
        (localName number, "=document.createElement(\"".toList ++ back) :=
    fun back => upTo_append noEquals rfl
  have made : ∀ back, upTo '"' (tag.toList ++ (("\");" ++ localName number).toList ++ back)) =
      (tag, ("\");" ++ localName number).toList ++ back) := by
    intro back
    apply upTo_append plainTag
    rw [String.toList_append]
    rfl
  have hung : ∀ back, upTo '.' (parent.toList ++ (".appendChild(".toList ++ back)) =
      (parent, ".appendChild(".toList ++ back) :=
    fun back => upTo_append plainParent rfl
  have appended : upTo ')' ((localName number).toList ++ ");".toList) =
      (localName number, ");".toList) := upTo_append noParenthesis rfl
  have ends : expect ");" ");".toList = some [] := by
    rw [← expect_append ");" [], List.append_nil]
  rw [readRow, toList_elementLine]
  simp only [expect_append, Option.bind_eq_bind, Option.bind_some, element, made, reads, hung,
    appended, ends, ↓reduceIte]

theorem readPart_field (element name : String) (rest : List Char) :
    readPart "div" element ((".textContent=row[" ++ Literal.script name ++ "];").toList ++ rest) =
      some (.field name, rest) := by
  simp only [String.toList_append, List.append_assoc]
  rw [readPart, if_neg (by decide), if_pos rfl]
  simp only [readField, expect_append, Literal.read_script, Option.bind_eq_bind, Option.bind_some,
    Option.some_or]

/-- An element with a class shows no column. -/
theorem readPart_class (element : String) {name : String} {part : Part}
    (known : Part.ofClass? name = some part) (rest : List Char) :
    readPart "div" element ((".className=" ++ Literal.script name ++ ";").toList ++ rest) =
      some (part, rest) := by
  have noField : ∀ back, readField (".className=".toList ++ back) = none := fun _ => rfl
  simp only [String.toList_append, List.append_assoc]
  rw [readPart, if_neg (by decide), if_pos rfl, noField, Option.none_or]
  simp only [readClass, expect_append, Literal.read_script, known, Option.bind_eq_bind,
    Option.bind_some]

theorem readPart_button (element label : String) {handler : String}
    (identifier : Identifier handler) (rest : List Char) :
    readPart "button" element ((".textContent=" ++ Literal.script label ++
      (";" ++ element ++ ".onclick=()=>window.") ++ handler ++ "(row[\"id\"]);").toList ++ rest) =
        some (.button label handler, rest) := by
  have clicked : ∀ back, expect (";" ++ element ++ ".onclick=()=>window.") (";".toList ++
      (element.toList ++ (".onclick=()=>window.".toList ++ back))) = some back := by
    intro back
    have together := expect_append (";" ++ element ++ ".onclick=()=>window.") back
    simpa only [String.toList_append, List.append_assoc] using together
  have called : upTo '(' (handler.toList ++ ("(row[\"id\"]);".toList ++ rest)) =
      (handler, "(row[\"id\"]);".toList ++ rest) :=
    upTo_append (identifier.not_mem (by decide)) rfl
  simp only [String.toList_append, List.append_assoc]
  rw [readPart, if_pos rfl]
  simp only [readButton, expect_append, Literal.read_script, clicked, called, Option.bind_eq_bind,
    Option.bind_some]

/-- The setup of an element names the element first; the rest of it is read back. -/
theorem exists_changes {template : Template} (named : template.WellNamed) (number : Nat) :
    ∃ changes : String, template.setup number = localName number ++ changes ∧
      ∀ rest, readPart template.tag (localName number) (changes.toList ++ rest) =
        some (template.part, rest) := by
  cases template with
  | field name =>
    refine ⟨".textContent=row[" ++ Literal.script name ++ "];", ?_, readPart_field _ name⟩
    simp only [setup, String.append_assoc]
  | button label handler =>
    have key : Literal.script Schema.keyColumn = "\"id\"" := by decide
    refine ⟨".textContent=" ++ Literal.script label ++
      (";" ++ localName number ++ ".onclick=()=>window.") ++ handler ++ "(row[\"id\"]);", ?_,
      readPart_button _ label named⟩
    simp only [setup, globalCall, key, String.append_assoc]
    rfl
  | container direction children =>
    have known : Part.ofClass? direction.className = some (.container direction) := by
      cases direction <;> rfl
    refine ⟨".className=" ++ Literal.script direction.className ++ ";", ?_, readPart_class _ known⟩
    simp only [setup, String.append_assoc]

/-- What a line of an element says is written in it. -/
theorem writtenIn_elementLine {tag setup parent : String} {number : Nat} {part : Part}
    (plainTag : '"' ∉ tag.toList) (plainParent : '.' ∉ parent.toList)
    (ends : Ends ';' (localName number ++ setup))
    (reads : ∀ rest, readPart tag (localName number) (setup.toList ++ rest) = some (part, rest)) :
    Row.WrittenIn ⟨localName number, part, parent, localName number⟩
      (elementLine (localName number) tag (localName number ++ setup) parent) where
  declares := declaresElement_elementLine ..
  name := declaredName_elementLine ..
  read := readRow_elementLine plainTag plainParent reads
  appends := by
    refine ⟨"const " ++ localName number ++ "=document.createElement(\"" ++ tag ++ "\");" ++
      (localName number ++ setup), ends.append _, ?_⟩
    delta elementLine
    simp only [String.append_assoc]

theorem writtenIn_line {template : Template} (named : template.WellNamed) {parent : String}
    (plain : '.' ∉ parent.toList) (number : Nat) :
    Row.WrittenIn ⟨localName number, template.part, parent, localName number⟩
      (template.line parent number) := by
  obtain ⟨changes, setup, reads⟩ := exists_changes named number
  have plainTag : '"' ∉ template.tag.toList := by
    cases template <;> exact not_mem_ofList rfl
  have ends : Ends ';' (localName number ++ changes) := setup ▸ ends_setup number template
  rw [line_eq, setup]
  exact writtenIn_elementLine plainTag plain ends reads

theorem dot_not_mem_localName (number : Nat) : '.' ∉ (localName number).toList :=
  not_mem_localName number (by decide) (by decide)

mutual

/-- The lines of a template say what its rows hold, one line for each row. -/
theorem writtenIn_lines {parent : String} (plain : '.' ∉ parent.toList) (number : Nat) :
    (template : Template) → template.WellNamed →
      List.Forall₂ Row.WrittenIn (template.rows parent number) (template.lines parent number)
  | .field name, named => by
    have own := writtenIn_line (show WellNamed (.field name) from named) plain number
    exact .cons own .nil
  | .button label handler, named => by
    have own := writtenIn_line (show WellNamed (.button label handler) from named) plain number
    exact .cons own .nil
  | .container direction children, named => by
    have own := writtenIn_line (show WellNamed (.container direction children) from named) plain
      number
    exact .cons own (writtenIn_linesAll (dot_not_mem_localName number) (number + 1) children named)

theorem writtenIn_linesAll {parent : String} (plain : '.' ∉ parent.toList) (number : Nat) :
    (templates : List Template) → WellNamedAll templates →
      List.Forall₂ Row.WrittenIn (rowsAll parent number templates)
        (linesAll parent number templates)
  | [], _ => .nil
  | first :: rest, named =>
    List.rel_append (writtenIn_lines plain number first named.1)
      (writtenIn_linesAll plain (number + first.size) rest named.2)

end

end Template

namespace Slot

open Template

/-- The rows of an item: that of its own element, and those of what it shows. -/
def itemRows (number : Nat) (item : List Template) : List Row :=
  ⟨localName number, .item, "el", localName number⟩ ::
    rowsAll (localName number) (number + 1) item

def itemsRows (number : Nat) : List (List Template) → List Row
  | [] => []
  | item :: items => itemRows number item ++ itemsRows (number + itemSize item) items

theorem writtenIn_itemLine (number : Nat) :
    Row.WrittenIn ⟨localName number, .item, "el", localName number⟩ (itemLine number) := by
  have known : Part.ofClass? "item" = some .item := rfl
  have spelled : ".className=" ++ Literal.script "item" ++ ";" = ".className=\"item\";" := by decide
  have ends : Ends ';' ".className=\"item\";" := ends_ofList rfl
  refine writtenIn_elementLine (not_mem_ofList rfl) (not_mem_ofList rfl) (ends.append _) ?_
  rw [← spelled]
  exact readPart_class _ known

theorem writtenIn_itemsLines (number : Nat) {items : List (List Template)}
    (named : ∀ item ∈ items, WellNamedAll item) :
    List.Forall₂ Row.WrittenIn (itemsRows number items) (itemsLines number items) := by
  induction items generalizing number with
  | nil => exact .nil
  | cons item items ih =>
    obtain ⟨first, others⟩ := List.forall_mem_cons.mp named
    have shown := writtenIn_linesAll (dot_not_mem_localName number) (number + 1) item first
    exact List.rel_append (.cons (writtenIn_itemLine number) shown) (ih _ others)

end Slot

end Pagewright
