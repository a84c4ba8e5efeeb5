import Pagewright.Draft.Finish

set_option autoImplicit false

namespace Pagewright

def Node.isCondition : Node → Bool
  | .statement _ (.condition _) => true
  | _ => false

/-- What stands in a block of the context without any effect. -/
def Context.ignores : Context → Node → Bool
  | .general, node => node.isRaw
  | .db, node => node.isRaw
  | .list, node => !node.isItem
  | .function, node => node.isRaw || node.isCondition

mutual

/-- The node, with the chosen ones of the ignored nodes below it deleted at every depth. -/
def Node.prune (chosen : Node → Bool) : Node → Node
  | .block pos kind body => .block pos kind (Node.pruneAll chosen kind.context body)
  | .list pos source body => .list pos source (Node.pruneAll chosen .list body)
  | .function pos name body => .function pos name (Node.pruneAll chosen .function body)
  | node => node

def Node.pruneAll (chosen : Node → Bool) (context : Context) : List Node → List Node
  | [] => []
  | node :: rest =>
    if context.ignores node && chosen node then Node.pruneAll chosen context rest
    else node.prune chosen :: Node.pruneAll chosen context rest

end

variable (chosen : Node → Bool)

theorem Node.pruneAll_cons (context : Context) (node : Node) (rest : List Node) :
    (context.ignores node = true ∧
        Node.pruneAll chosen context (node :: rest) = Node.pruneAll chosen context rest) ∨
      Node.pruneAll chosen context (node :: rest) =
        node.prune chosen :: Node.pruneAll chosen context rest := by
  rw [Node.pruneAll]
  by_cases deleted : (context.ignores node && chosen node) = true
  · rw [if_pos deleted]
    exact .inl ⟨(Bool.and_eq_true_iff.mp deleted).1, rfl⟩
  · rw [if_neg deleted]
    exact .inr rfl

/-- A diagnostic about a node does not depend on what stands below the node. -/
theorem misplaced_prune (node : Node) (place : Place) :
    misplaced (node.prune chosen) place = misplaced node place := by
  cases node <;> rfl

/-- Outside of lists and functions, only raw nodes are ignored. -/
theorem BlockKind.isRaw_of_ignores {kind : BlockKind} {node : Node}
    (ignored : kind.context.ignores node = true) : node.isRaw = true := by
  cases kind <;> exact ignored

theorem templatesOf_raw {node : Node} (raw : node.isRaw = true) (rest : List Node) :
    templatesOf (node :: rest) = templatesOf rest := by
  cases node with
  | raw pos token =>
    rw [templatesOf, templateOf]
    change (templatesOf rest >>= fun others => .ok ([] ++ others)) = templatesOf rest
    cases templatesOf rest <;> rfl
  | _ => cases raw

mutual

theorem templateOf_prune : (node : Node) → templateOf (node.prune chosen) = templateOf node
  | .block pos .column body => by
    rw [Node.prune, templateOf, templateOf, templatesOf_prune .column body]
  | .block pos .row body => by
    rw [Node.prune, templateOf, templateOf, templatesOf_prune .row body]
  | .block _ .ui _ | .block _ .item _ | .block _ .db _ | .app _ _ | .text _ _ | .input _ _ _
  | .button _ _ _ | .list _ _ _ | .table _ _ _ | .function _ _ _ | .statement _ _ | .raw _ _ => rfl

/-- The body of a block shows the same without the nodes that the block ignores. -/
theorem templatesOf_prune (kind : BlockKind) : (nodes : List Node) →
    templatesOf (Node.pruneAll chosen kind.context nodes) = templatesOf nodes
  | [] => rfl
  | node :: rest => by
    rcases Node.pruneAll_cons chosen kind.context node rest with ⟨ignored, pruned⟩ | pruned
    · have raw := BlockKind.isRaw_of_ignores ignored
      rw [pruned, templatesOf_prune kind rest, templatesOf_raw raw]
    · rw [pruned, templatesOf, templatesOf, templateOf_prune node, templatesOf_prune kind rest]

end

/-- What is no item is passed over, and it stays no item. -/
theorem itemsOf_beside {node : Node} (beside : node.isItem = false) (rest : List Node) :
    itemsOf (node :: rest) = itemsOf rest := by
  cases node with
  | block pos kind body =>
    cases kind with
    | item => cases beside
    | _ => rfl
  | _ => rfl

theorem Node.isItem_prune (node : Node) : (node.prune chosen).isItem = node.isItem := by
  cases node with
  | block pos kind body => cases kind <;> rfl
  | _ => rfl

theorem itemsOf_prune (body : List Node) :
    itemsOf (Node.pruneAll chosen .list body) = itemsOf body := by
  induction body with
  | nil => rfl
  | cons node rest ih =>
    by_cases item : node.isItem = true
    · cases node with
      | block pos kind inner =>
        cases kind with
        | item =>
          have kept : Node.pruneAll chosen .list (.block pos .item inner :: rest) =
              .block pos .item (Node.pruneAll chosen BlockKind.item.context inner) ::
                Node.pruneAll chosen .list rest := rfl
          rw [kept, itemsOf, itemsOf, templatesOf_prune, ih]
        | _ => cases item
      | _ => cases item
    · have beside := Bool.eq_false_iff.mpr item
      rcases Node.pruneAll_cons chosen .list node rest with ⟨-, pruned⟩ | pruned
      · rw [pruned, itemsOf_beside beside, ih]
      · rw [pruned, itemsOf_beside beside, itemsOf_beside (by rw [Node.isItem_prune, beside]), ih]

/-- Raw nodes and conditions do nothing in a function. -/
theorem effectsOf_idle (placeholder : String) {node : Node}
    (idle : Context.function.ignores node = true) (rest : List Node) :
    effectsOf placeholder (node :: rest) = effectsOf placeholder rest := by
  cases node with
  | raw pos token => rw [effectsOf]
  | statement pos step =>
    cases step with
    | condition text => rfl
    | _ => cases idle
  | _ => cases idle

theorem effectsOf_prune (placeholder : String) (body : List Node) :
    effectsOf placeholder (Node.pruneAll chosen .function body) = effectsOf placeholder body := by
  induction body with
  | nil => rfl
  | cons node rest ih =>
    rcases Node.pruneAll_cons chosen .function node rest with ⟨idle, pruned⟩ | pruned
    · rw [pruned, effectsOf_idle placeholder idle, ih]
    · rw [pruned]
      cases node with
      | statement pos step => simp only [Node.prune, effectsOf, ih]
      | raw pos token => simp only [Node.prune, effectsOf, ih]
      | _ => exact congrArg Except.error (misplaced_prune chosen _ .outsideFunction)

theorem walkAll_raw (placeholder : String) {node : Node} (raw : node.isRaw = true)
    (rest : List Node) (draft : Draft) :
    walkAll placeholder (node :: rest) draft = walkAll placeholder rest draft := by
  cases node with
  | raw pos token =>
    rw [walkAll, walk]
    change (walkAll placeholder rest draft >>= fun walked => .ok ([] ++ walked.1, walked.2)) =
      walkAll placeholder rest draft
    cases walkAll placeholder rest draft <;> rfl
  | _ => cases raw

mutual

theorem walk_prune (placeholder : String) : (node : Node) → (draft : Draft) →
    walk placeholder (node.prune chosen) draft = walk placeholder node draft
  | .block pos .ui body, draft => by
    rw [Node.prune, walk, walk, walkAll_prune placeholder .ui body]
  | .block pos .column body, draft => by
    rw [Node.prune, walk, walk, walkAll_prune placeholder .column body]
  | .block pos .row body, draft => by
    rw [Node.prune, walk, walk, walkAll_prune placeholder .row body]
  | .block pos .db body, draft => by
    rw [Node.prune, walk, walk, walkAll_prune placeholder .db body]
  | .list pos source body, draft => by rw [Node.prune, walk, walk, itemsOf_prune]
  | .function pos name body, draft => by rw [Node.prune, walk, walk, effectsOf_prune]
  | .block pos .item body, _ =>
    congrArg Except.error (misplaced_prune chosen (.block pos .item body) .insideList)
  | .app _ _, _ | .text _ _, _ | .input _ _ _, _ | .button _ _ _, _ | .table _ _ _, _
  | .statement _ _, _ | .raw _ _, _ => rfl

theorem walkAll_prune (placeholder : String) (kind : BlockKind) : (nodes : List Node) →
    (draft : Draft) → walkAll placeholder (Node.pruneAll chosen kind.context nodes) draft =
      walkAll placeholder nodes draft
  | [], _ => rfl
  | node :: rest, draft => by
    rcases Node.pruneAll_cons chosen kind.context node rest with ⟨ignored, pruned⟩ | pruned
    · have raw := BlockKind.isRaw_of_ignores ignored
      rw [pruned, walkAll_prune placeholder kind rest, walkAll_raw placeholder raw]
    · rw [pruned, walkAll, walkAll, walk_prune placeholder node]
      simp only [walkAll_prune placeholder kind rest]

end

/-- Ignored nodes are inert. Whichever of them are deleted, at whatever depth, and so also if all
are, the program has the same page or fails with the same diagnostic. -/
theorem generate_prune (settings : Settings) (nodes : List Node) :
    generate settings (Node.pruneAll chosen .general nodes) = generate settings nodes := by
  have walked := walkAll_prune chosen settings.updatePlaceholder .ui nodes {}
  rw [generate, generate, ← walked]
  rfl

end Pagewright
