import Pagewright.Proofs.Nesting

set_option autoImplicit false

namespace Pagewright

/-- The token that begins the sentence of a node: its keyword, or what a raw node keeps. -/
def Node.LedBy (node : Node) (token : Token) : Prop :=
  token.pos = node.pos ∧
    match node with
    | .raw _ kept => Unknown token.lexeme kept
    | other => token.lexeme = .word other.opening

def Node.declaredFields : Node → List Field
  | .table _ _ fields => fields
  | _ => []

/-- The node stands at one of the tokens, which begins its sentence, and its fields at others. -/
def Node.SpelledIn (tokens : List Token) (node : Node) : Prop :=
  (∃ token ∈ tokens, node.LedBy token) ∧ ∀ field ∈ node.declaredFields, field.token ∈ tokens

theorem Node.SpelledIn.mono {tokens others : List Token} {node : Node}
    (spelled : node.SpelledIn tokens) (subset : tokens ⊆ others) : node.SpelledIn others := by
  obtain ⟨⟨token, member, led⟩, fields⟩ := spelled
  exact ⟨⟨token, subset member, led⟩, fun field declared => subset (fields field declared)⟩

theorem Phrase.spelledIn {mode : Mode} {front : List Token} {next : Option Token} {node : Node}
    (phrase : Phrase mode front next node) : node.SpelledIn front := by
  cases phrase with
  | table =>
    refine ⟨⟨_, .head _, rfl, rfl⟩, fun field declared => ?_⟩
    have word := List.mem_map_of_mem (f := Field.token) declared
    exact List.mem_append_left _ (.tail _ (.tail _ (.tail _ word)))
  | raw _ unknown | rawGroup _ unknown _ => exact ⟨⟨_, .head _, rfl, unknown⟩, nofun⟩
  | _ => exact ⟨⟨_, .head _, rfl, rfl⟩, nofun⟩

theorem Phrase.subtree {mode : Mode} {front : List Token} {next : Option Token} {node : Node}
    (phrase : Phrase mode front next node) : node.subtree = [node] := by
  cases phrase <;> rfl

theorem Opening.spelledIn {front : List Token} {inside : Context} {make : List Node → Node}
    (opening : Opening front inside make) (body : List Node) : (make body).SpelledIn front := by
  cases opening with
  | block => exact ⟨⟨_, .head _, rfl, rfl⟩, nofun⟩
  | list => exact ⟨⟨_, .head _, rfl, rfl⟩, nofun⟩
  | function => exact ⟨⟨_, .head _, rfl, rfl⟩, nofun⟩

theorem Opening.subtree {front : List Token} {inside : Context} {make : List Node → Node}
    (opening : Opening front inside make) (body : List Node) :
    (make body).subtree = make body :: Node.subtreeAll body := by
  cases opening <;> rfl

theorem Derives.spelledIn {mode : Mode} {context : Context} {tokens : List Token}
    {nodes : List Node} (derives : Derives mode context tokens nodes) :
    ∀ node ∈ Node.subtreeAll nodes, node.SpelledIn tokens := by
  induction derives with
  | nil => exact List.forall_mem_nil _
  | phrase phrase _ _ ih =>
    rw [Node.subtreeAll, phrase.subtree, List.singleton_append, List.forall_mem_cons]
    refine ⟨phrase.spelledIn.mono (List.subset_append_left ..), fun node member => ?_⟩
    exact (ih node member).mono (List.subset_append_right ..)
  | @block _ _ front inner tokens make openPos closePos body _ opening _ _ _ within ih =>
    rw [Node.subtreeAll, opening.subtree, List.forall_mem_append, List.forall_mem_cons]
    refine ⟨⟨?_, fun node member => ?_⟩, fun node member => ?_⟩
    · refine (opening.spelledIn body).mono fun token member => ?_
      exact List.mem_append_left _ (List.mem_append_left _ member)
    · refine (within node member).mono fun token member => ?_
      exact List.mem_append_left _ (List.mem_append_right _ (.tail _ member))
    · refine (ih node member).mono fun token member => ?_
      exact List.mem_append_right _ (.tail _ member)

theorem parseTokens_spelledIn {mode : Mode} {tokens : List Token} {nodes : List Node}
    (success : parseTokens mode tokens = .ok nodes) :
    ∀ node ∈ Node.subtreeAll nodes, node.SpelledIn tokens := by
  intro node member
  have spelled := ((parseTokens_eq_ok_iff mode tokens nodes).mp success).spelledIn node member
  exact spelled.mono (List.takeWhile_prefix _).subset

end Pagewright
