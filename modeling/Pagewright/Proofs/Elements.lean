import Pagewright.Proofs.Live

set_option autoImplicit false

namespace Pagewright

namespace Markup

mutual

/-- The element and its descendants that are elements, in document order. -/
def elements : Markup → List Markup
  | .text _ => []
  | .element tag attributes children =>
    .element tag attributes children :: elementsAll children

def elementsAll : List Markup → List Markup
  | [] => []
  | first :: rest => first.elements ++ elementsAll rest

end

theorem elementsAll_append (first second : List Markup) :
    elementsAll (first ++ second) = elementsAll first ++ elementsAll second := by
  induction first with
  | nil => rfl
  | cons markup rest ih => rw [List.cons_append, elementsAll, elementsAll, ih, List.append_assoc]

def isVoid : Markup → Bool
  | .element tag _ _ => voidTags.contains tag
  | .text _ => false

/-- Names of tags and attributes: not empty, of ASCII letters, digits and hyphens. -/
def IsName (name : String) : Prop :=
  name ≠ "" ∧ ∀ c ∈ name.toList, c.isAlphanum = true ∨ c = '-'

instance (name : String) : Decidable (IsName name) :=
  decidable_of_iff (name ≠ "" ∧ (name.toList.all fun c => c.isAlphanum || c == '-') = true)
    (by simp [IsName])

theorem IsName.not_mem {name : String} (isName : IsName name) {c : Char}
    (foreign : c.isAlphanum = false) (notHyphen : c ≠ '-') : c ∉ name.toList := by
  intro member
  rcases isName.2 c member with alphanumeric | hyphen
  · rw [foreign] at alphanumeric
    cases alphanumeric
  · exact notHyphen hyphen

/-- The tags of the elements that programs make. -/
def bodyTags : List String := ["div", "p", "input", "button"]

theorem isName_of_mem_bodyTags : ∀ tag ∈ bodyTags, IsName tag := by decide

/-- Elements that hold one text and nothing else. -/
def textTags : List String := ["p", "button"]

mutual

/-- An element whose content is the one that its tag asks for, and so on for the elements in it. -/
def Proper : Markup → Prop
  | .text _ => False
  | .element tag attributes children =>
    tag ∈ bodyTags ∧ (∀ entry ∈ attributes, IsName entry.1) ∧
      if voidTags.contains tag then children = []
      else if textTags.contains tag then ∃ value, children = [.text value]
      else ProperAll children

def ProperAll : List Markup → Prop
  | [] => True
  | first :: rest => first.Proper ∧ ProperAll rest

end

theorem properAll_append {first second : List Markup} (left : ProperAll first)
    (right : ProperAll second) : ProperAll (first ++ second) := by
  induction first with
  | nil => exact right
  | cons markup rest ih => exact ⟨left.1, ih left.2⟩

theorem proper_paragraph (value : String) : (Markup.element "p" [] [.text value]).Proper :=
  ⟨by decide, List.forall_mem_nil _, value, rfl⟩

theorem proper_inputMarkup (kind id : String) : (inputMarkup kind id).Proper := by
  refine ⟨by decide, ?_, rfl⟩
  simp only [List.forall_mem_cons]
  exact ⟨(by decide : IsName "id"), (by decide : IsName "type"),
    (by decide : IsName "placeholder"), (by decide : IsName "aria-label"), List.forall_mem_nil _⟩

theorem proper_buttonMarkup (label handler : String) : (buttonMarkup label handler).Proper := by
  refine ⟨by decide, ?_, label, rfl⟩
  rw [List.forall_mem_singleton]
  exact (by decide : IsName "onclick")

theorem proper_containerMarkup (direction : Direction) {children : List Markup}
    (proper : ProperAll children) : (containerMarkup direction children).Proper := by
  refine ⟨by decide, ?_, proper⟩
  rw [List.forall_mem_singleton]
  exact (by decide : IsName "class")

theorem proper_listMarkup (table : String) (slot : Nat) : (listMarkup table slot).Proper := by
  refine ⟨by decide, ?_, trivial⟩
  rw [List.forall_mem_cons, List.forall_mem_singleton]
  exact ⟨(by decide : IsName "data-list"), (by decide : IsName "data-slot")⟩

end Markup

open Markup

mutual

theorem Node.markup_proper (slot : Nat) : (node : Node) → ProperAll (node.markup slot)
  | .block _ .ui body => Node.markupAll_proper slot body
  | .block _ .column body =>
    ⟨proper_containerMarkup .column (Node.markupAll_proper slot body), trivial⟩
  | .block _ .row body => ⟨proper_containerMarkup .row (Node.markupAll_proper slot body), trivial⟩
  | .text _ value => ⟨proper_paragraph value, trivial⟩
  | .input _ kind id => ⟨proper_inputMarkup kind id, trivial⟩
  | .button _ label handler => ⟨proper_buttonMarkup label handler, trivial⟩
  | .list _ source _ => ⟨proper_listMarkup source slot, trivial⟩
  | .block _ .item _ | .block _ .db _ | .app _ _ | .table _ _ _ | .function _ _ _
  | .statement _ _ | .raw _ _ => trivial

theorem Node.markupAll_proper (slot : Nat) : (nodes : List Node) →
    ProperAll (Node.markupAll slot nodes)
  | [] => trivial
  | node :: rest =>
    properAll_append (Node.markup_proper slot node) (Node.markupAll_proper _ rest)

end

theorem generate_properAll {settings : Settings} {nodes : List Node} {page : Page}
    (success : generate settings nodes = .ok page) : ProperAll page.markup := by
  obtain ⟨-, -, rfl⟩ := (generate_eq_ok_iff settings nodes page).mp success
  exact Node.markupAll_proper 0 nodes

end Pagewright
