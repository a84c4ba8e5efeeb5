import Pagewright.Proofs.Pages
import Pagewright.Proofs.Parsing

set_option autoImplicit false

namespace Pagewright

mutual

/-- The node and all its descendants, in preorder. -/
def Node.subtree : Node → List Node
  | .block pos kind body => .block pos kind body :: Node.subtreeAll body
  | .list pos source body => .list pos source body :: Node.subtreeAll body
  | .function pos name body => .function pos name body :: Node.subtreeAll body
  | node => [node]

def Node.subtreeAll : List Node → List Node
  | [] => []
  | node :: rest => node.subtree ++ Node.subtreeAll rest

end

theorem Node.mem_subtree_self (node : Node) : node ∈ node.subtree := by
  cases node <;> exact .head _

theorem Node.mem_subtreeAll_iff {nodes : List Node} {below : Node} :
    below ∈ Node.subtreeAll nodes ↔ ∃ node ∈ nodes, below ∈ node.subtree := by
  induction nodes with
  | nil => simp [Node.subtreeAll]
  | cons node rest ih => simp [Node.subtreeAll, ih]

mutual

theorem Node.subtree_subset_of_mem_reach {enter : BlockKind → Bool} : (node : Node) →
    ∀ reached ∈ node.reach enter, reached.subtree ⊆ node.subtree
  | .block pos kind body => by
    rw [Node.reach, List.forall_mem_cons]
    refine ⟨List.Subset.refl _, ?_⟩
    split
    · intro reached member
      have inside := Node.subtree_subset_of_mem_reachAll body reached member
      exact fun below within => .tail _ (inside within)
    · exact List.forall_mem_nil _
  | .list _ _ _ | .function _ _ _ | .app _ _ | .text _ _ | .input _ _ _ | .button _ _ _
  | .table _ _ _ | .statement _ _ | .raw _ _ => List.forall_mem_singleton.mpr (List.Subset.refl _)

/-- What is reached from the program stands in it, with all that stands below. -/
theorem Node.subtree_subset_of_mem_reachAll {enter : BlockKind → Bool} : (nodes : List Node) →
    ∀ reached ∈ Node.reachAll enter nodes, reached.subtree ⊆ Node.subtreeAll nodes
  | [] => List.forall_mem_nil _
  | node :: rest => by
    rw [Node.reachAll, List.forall_mem_append, Node.subtreeAll]
    refine ⟨fun reached member => ?_, fun reached member => ?_⟩
    · have inside := Node.subtree_subset_of_mem_reach node reached member
      exact fun below within => List.mem_append_left _ (inside within)
    · have inside := Node.subtree_subset_of_mem_reachAll rest reached member
      exact fun below within => List.mem_append_right _ (inside within)

end

mutual

/-- What stands in the node is what its blocks take. -/
def Node.Nested : Node → Prop
  | .block _ kind body => Node.NestedAll kind.context body
  | .list _ _ body => Node.NestedAll .list body
  | .function _ _ body => Node.NestedAll .function body
  | _ => True

/-- The nodes may stand in a block of the context, and so on inside them. -/
def Node.NestedAll (context : Context) : List Node → Prop
  | [] => True
  | node :: rest => context.accepts node = true ∧ node.Nested ∧ Node.NestedAll context rest

end

theorem Node.nestedAll_iff (context : Context) (nodes : List Node) :
    Node.NestedAll context nodes ↔ ∀ node ∈ nodes, context.accepts node = true ∧ node.Nested := by
  induction nodes with
  | nil => simp [Node.NestedAll]
  | cons node rest ih => rw [Node.NestedAll, ih, List.forall_mem_cons, and_assoc]

theorem Phrase.nested {mode : Mode} {front : List Token} {next : Option Token} {node : Node}
    (phrase : Phrase mode front next node) : node.Nested := by
  cases phrase <;> trivial

theorem Opening.nested {front : List Token} {inside : Context} {make : List Node → Node}
    (opening : Opening front inside make) {body : List Node}
    (within : Node.NestedAll inside body) : (make body).Nested := by
  cases opening <;> exact within

theorem Derives.nestedAll {mode : Mode} {context : Context} {tokens : List Token}
    {nodes : List Node} (derives : Derives mode context tokens nodes) :
    Node.NestedAll context nodes := by
  induction derives with
  | nil => trivial
  | phrase phrase accepted _ more => exact ⟨accepted, phrase.nested, more⟩
  | block opening _ accepted _ within more => exact ⟨accepted, opening.nested within, more⟩

theorem parseTokens_nestedAll {mode : Mode} {tokens : List Token} {nodes : List Node}
    (success : parseTokens mode tokens = .ok nodes) : Node.NestedAll .general nodes :=
  ((parseTokens_eq_ok_iff mode tokens nodes).mp success).nestedAll

theorem parse_nestedAll {mode : Mode} {source : String} {nodes : List Node}
    (success : parse mode source = .ok nodes) : Node.NestedAll .general nodes := by
  obtain ⟨tokens, -, parsed⟩ := (parse_eq_ok_iff mode source nodes).mp success
  exact parseTokens_nestedAll parsed

/-- The tables of the lists among the nodes, each with what stands in the list. -/
def listsOf (nodes : List Node) : List (String × List Node) := nodes.filterMap Node.list?

theorem listsOf_append (first second : List Node) :
    listsOf (first ++ second) = listsOf first ++ listsOf second := List.filterMap_append

theorem listsOf_block (pos : Position) (kind : BlockKind) (body rest : List Node) :
    listsOf (.block pos kind body :: rest) = listsOf rest := rfl

theorem length_listsOf (nodes : List Node) : (listsOf nodes).length = listCount nodes := by
  have same : (fun node : Node => node.list?.isSome) = Node.isList := by
    funext node
    cases node <;> rfl
  rw [listsOf, List.length_filterMap_eq_countP, listCount, same]

/-- Blocks, and what items and functions hold in a program that has a page. -/
def Node.isInner : Node → Bool
  | .block _ _ _ | .text _ _ | .button _ _ _ | .statement _ _ | .raw _ _ => true
  | .app _ _ | .input _ _ _ | .list _ _ _ | .table _ _ _ | .function _ _ _ => false

/-- The lists and declarations among the nodes, with all else that stands in no item. -/
def outerNodes (nodes : List Node) : List Node := nodes.filter fun node => !node.isInner

theorem outerNodes_append (first second : List Node) :
    outerNodes (first ++ second) = outerNodes first ++ outerNodes second := List.filter_append ..

theorem outerNodes_block (pos : Position) (kind : BlockKind) (body rest : List Node) :
    outerNodes (.block pos kind body :: rest) = outerNodes rest := rfl

theorem filterMap_outerNodes {α : Type} {pick : Node → Option α}
    (outer : ∀ node, node.isInner = true → pick node = none) (nodes : List Node) :
    (outerNodes nodes).filterMap pick = nodes.filterMap pick := by
  rw [outerNodes, List.filterMap_filter]
  apply List.filterMap_congr
  intro node _
  cases inner : node.isInner with
  | false => rfl
  | true => exact (outer node inner).symm

mutual

theorem Node.outerNodes_subtree_shown : (node : Node) →
    (∀ shown ∈ node.reach BlockKind.isContainer, Showable shown) → outerNodes node.subtree = []
  | .block pos kind body, showable => by
    have container : kind = .column ∨ kind = .row := showable (.block pos kind body) (.head _)
    have enters : kind.isContainer = true := by
      rcases container with rfl | rfl <;> rfl
    rw [Node.reach, if_pos enters] at showable
    rw [Node.subtree, outerNodes_block]
    exact Node.outerNodes_subtreeAll_shown body fun shown member => showable shown (.tail _ member)
  | .list pos source body, showable => (showable (.list pos source body) (.head _)).elim
  | .function pos name body, showable => (showable (.function pos name body) (.head _)).elim
  | .app pos name, showable => (showable (.app pos name) (.head _)).elim
  | .input pos kind id, showable => (showable (.input pos kind id) (.head _)).elim
  | .table pos name fields, showable => (showable (.table pos name fields) (.head _)).elim
  | .text _ _, _ | .button _ _ _, _ | .statement _ _, _ | .raw _ _, _ => rfl

/-- An item that can be shown holds no list and declares nothing. -/
theorem Node.outerNodes_subtreeAll_shown : (nodes : List Node) →
    (∀ shown ∈ shownNodes nodes, Showable shown) → outerNodes (Node.subtreeAll nodes) = []
  | [], _ => rfl
  | node :: rest, showable => by
    rw [shownNodes_cons] at showable
    have first := Node.outerNodes_subtree_shown node fun shown member =>
      showable shown (List.mem_append_left _ member)
    have others := Node.outerNodes_subtreeAll_shown rest fun shown member =>
      showable shown (List.mem_append_right _ member)
    rw [Node.subtreeAll, outerNodes_append, first, others, List.nil_append]

end

theorem outerNodes_subtreeAll_eq_nil {nodes : List Node}
    (each : ∀ node ∈ nodes, outerNodes node.subtree = []) :
    outerNodes (Node.subtreeAll nodes) = [] := by
  induction nodes with
  | nil => rfl
  | cons node rest ih =>
    obtain ⟨first, others⟩ := List.forall_mem_cons.mp each
    rw [Node.subtreeAll, outerNodes_append, first, ih others, List.nil_append]

/-- Below a list stand items and raw nodes, and below its items no further list. -/
theorem outerNodes_subtreeAll_list {pos : Position} {table : String} {body : List Node}
    (nested : (Node.list pos table body).Nested) (placed : (Node.list pos table body).WellPlaced) :
    outerNodes (Node.subtreeAll body) = [] := by
  apply outerNodes_subtreeAll_eq_nil
  intro child member
  obtain ⟨accepted, -⟩ := (Node.nestedAll_iff _ _).mp nested child member
  cases child with
  | block itemPos kind itemBody =>
    cases kind with
    | item =>
      rw [Node.subtree, outerNodes_block]
      exact Node.outerNodes_subtreeAll_shown itemBody (placed.2 itemPos itemBody member)
    | _ => cases accepted
  | raw => rfl
  | _ => cases accepted

theorem outerNodes_subtreeAll_function {pos : Position} {name : String} {body : List Node}
    (placed : (Node.function pos name body).WellPlaced) :
    outerNodes (Node.subtreeAll body) = [] := by
  apply outerNodes_subtreeAll_eq_nil
  intro child member
  have performable := placed.2 child member
  cases child with
  | statement => rfl
  | raw => rfl
  | _ => exact performable.elim

mutual

theorem Node.outerNodes_subtree : (node : Node) → node.Nested →
    (∀ live ∈ node.reach BlockKind.isWalked, live.WellPlaced) →
    outerNodes node.subtree = outerNodes (node.reach BlockKind.isWalked)
  | .block pos kind body, nested, placed => by
    have noItem : kind ≠ .item := placed (.block pos kind body) (.head _)
    have enters : kind.isWalked = true := by
      cases kind with
      | item => exact absurd rfl noItem
      | _ => rfl
    rw [Node.reach, if_pos enters] at placed ⊢
    rw [Node.subtree, outerNodes_block, outerNodes_block]
    exact Node.outerNodes_subtreeAll body nested fun live member => placed live (.tail _ member)
  | .list pos source body, nested, placed => by
    have below := outerNodes_subtreeAll_list nested (placed _ (.head _))
    change .list pos source body :: outerNodes (Node.subtreeAll body) = [.list pos source body]
    rw [below]
  | .function pos name body, _, placed => by
    have below := outerNodes_subtreeAll_function (placed _ (.head _))
    change .function pos name body :: outerNodes (Node.subtreeAll body) = [.function pos name body]
    rw [below]
  | .app _ _, _, _ | .text _ _, _, _ | .input _ _ _, _, _ | .button _ _ _, _, _
  | .table _ _ _, _, _ | .statement _ _, _, _ | .raw _ _, _, _ => rfl

/-- All lists and declarations of a nested program that the walk accepts are live. -/
theorem Node.outerNodes_subtreeAll {context : Context} : (nodes : List Node) →
    Node.NestedAll context nodes → (∀ live ∈ liveNodes nodes, live.WellPlaced) →
    outerNodes (Node.subtreeAll nodes) = outerNodes (liveNodes nodes)
  | [], _, _ => rfl
  | node :: rest, nested, placed => by
    rw [liveNodes_cons] at placed ⊢
    have first := Node.outerNodes_subtree node nested.2.1 fun live member =>
      placed live (List.mem_append_left _ member)
    have others := Node.outerNodes_subtreeAll rest nested.2.2 fun live member =>
      placed live (List.mem_append_right _ member)
    rw [Node.subtreeAll, outerNodes_append, outerNodes_append, first, others]

end

/-- What is picked from the whole program is picked from its live nodes. -/
theorem Node.filterMap_subtreeAll {α : Type} {pick : Node → Option α}
    (outer : ∀ node, node.isInner = true → pick node = none) {context : Context}
    (nodes : List Node) (nested : Node.NestedAll context nodes)
    (placed : ∀ live ∈ liveNodes nodes, live.WellPlaced) :
    (Node.subtreeAll nodes).filterMap pick = (liveNodes nodes).filterMap pick := by
  rw [← filterMap_outerNodes outer, Node.outerNodes_subtreeAll nodes nested placed,
    filterMap_outerNodes outer]

theorem Node.listsOf_subtreeAll {context : Context} (nodes : List Node)
    (nested : Node.NestedAll context nodes)
    (placed : ∀ live ∈ liveNodes nodes, live.WellPlaced) :
    listsOf (Node.subtreeAll nodes) = listsOf (liveNodes nodes) := by
  refine Node.filterMap_subtreeAll ?_ nodes nested placed
  intro node inner
  cases node with
  | list => cases inner
  | _ => rfl

end Pagewright
