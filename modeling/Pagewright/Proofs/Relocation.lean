import Pagewright.Proofs.Parsing

set_option autoImplicit false

namespace Pagewright

/-- The position some lines further down. -/
def Position.down (lines : Nat) (pos : Position) : Position := ⟨pos.line + lines, pos.col⟩

def Token.relocate (move : Position → Position) (token : Token) : Token :=
  ⟨token.lexeme, move token.pos⟩

def Field.relocate (move : Position → Position) (field : Field) : Field :=
  ⟨field.name, move field.pos⟩

mutual

/-- The node with all its positions moved, those of its fields and descendants too. -/
def Node.relocate (move : Position → Position) : Node → Node
  | .app pos name => .app (move pos) name
  | .block pos kind body => .block (move pos) kind (Node.relocateAll move body)
  | .text pos value => .text (move pos) value
  | .input pos kind id => .input (move pos) kind id
  | .button pos label handler => .button (move pos) label handler
  | .list pos source body => .list (move pos) source (Node.relocateAll move body)
  | .table pos name fields => .table (move pos) name (fields.map (Field.relocate move))
  | .function pos name body => .function (move pos) name (Node.relocateAll move body)
  | .statement pos step => .statement (move pos) step
  | .raw pos token => .raw (move pos) token

def Node.relocateAll (move : Position → Position) : List Node → List Node
  | [] => []
  | node :: rest => node.relocate move :: Node.relocateAll move rest

end

theorem Position.advance_down (lines : Nat) (pos : Position) (c : Char) :
    (pos.down lines).advance c = (pos.advance c).down lines := by
  unfold Position.advance
  split
  · simp only [Position.down, Nat.add_right_comm]
  · rfl

/-- A text further down is as wide as it was. -/
theorem Position.after_down (lines : Nat) (pos : Position) (text : List Char) :
    (pos.down lines).after text = (pos.after text).down lines := by
  induction text generalizing pos with
  | nil => rfl
  | cons c rest ih => rw [Position.after_cons, Position.advance_down, ih, Position.after_cons]

section

variable (move : Position → Position)

theorem opens_relocate (tokens : List Token) :
    opens (tokens.map (Token.relocate move)) = opens tokens := List.countP_map

theorem closes_relocate (tokens : List Token) :
    closes (tokens.map (Token.relocate move)) = closes tokens := List.countP_map

theorem Enclosed.relocate {depth : Nat} {tokens : List Token} (enclosed : Enclosed depth tokens) :
    Enclosed depth (tokens.map (Token.relocate move)) := by
  rintro front ⟨back, whole⟩
  obtain ⟨first, second, rfl, rfl, -⟩ := List.map_eq_append_iff.mp whole.symm
  rw [opens_relocate, closes_relocate]
  exact enclosed first (List.prefix_append first second)

theorem Balanced.relocate {depth : Nat} {tokens : List Token} (balanced : Balanced depth tokens) :
    Balanced depth (tokens.map (Token.relocate move)) := by
  refine ⟨balanced.1.relocate move, ?_⟩
  rw [opens_relocate, closes_relocate]
  exact balanced.2

theorem Context.accepts_relocate (context : Context) (node : Node) :
    context.accepts (node.relocate move) = context.accepts node := by
  cases node with
  | block pos kind body => cases kind <;> rfl
  | _ => rfl

theorem Field.map_token_relocate (fields : List Field) :
    (fields.map Field.token).map (Token.relocate move) =
      (fields.map (Field.relocate move)).map Field.token := by
  rw [List.map_map, List.map_map]
  rfl

theorem Phrase.relocate {mode : Mode} {front : List Token} {next : Option Token} {node : Node}
    (phrase : Phrase mode front next node) :
    Phrase mode (front.map (Token.relocate move)) (next.map (Token.relocate move))
      (node.relocate move) := by
  cases phrase with
  | app values => exact .app values
  | text values => exact .text values
  | input => exact .input
  | button values => exact .button values
  | list => exact .list
  | @table pos namePos openPos closePos _ name fields =>
    rw [List.map_append, List.map_cons, List.map_cons, List.map_cons, Field.map_token_relocate]
    exact .table
  | insert => exact .insert
  | refresh => exact .refresh
  | delete => exact .delete
  | updateFrom => exact .updateFrom
  | update alone =>
    refine .update fun token follows => ?_
    obtain ⟨other, first, rfl⟩ := Option.map_eq_some_iff.mp follows
    exact alone other first
  | condition values => exact .condition values
  | raw permissive unknown => exact .raw permissive unknown
  | rawGroup permissive unknown balanced =>
    rw [List.map_append, List.map_cons, List.map_cons]
    exact .rawGroup permissive unknown (balanced.relocate move)

theorem Opening.relocate {front : List Token} {inside : Context} {make : List Node → Node}
    (opening : Opening front inside make) :
    ∃ other, Opening (front.map (Token.relocate move)) inside other ∧
      ∀ body, (make body).relocate move = other (Node.relocateAll move body) := by
  cases opening with
  | block => exact ⟨_, .block, fun _ => by rw [Node.relocate]⟩
  | list => exact ⟨_, .list, fun _ => by rw [Node.relocate]⟩
  | function => exact ⟨_, .function, fun _ => by rw [Node.relocate]⟩

/-- Tokens that are moved spell the same nodes, moved alike. -/
theorem Derives.relocate {mode : Mode} {context : Context} {tokens : List Token}
    {nodes : List Node} (derives : Derives mode context tokens nodes) :
    Derives mode context (tokens.map (Token.relocate move)) (Node.relocateAll move nodes) := by
  induction derives with
  | nil => exact .nil
  | phrase phrase accepted _ ih =>
    have moved := phrase.relocate move
    rw [← List.head?_map] at moved
    rw [List.map_append, Node.relocateAll]
    exact .phrase moved ((Context.accepts_relocate move ..).trans accepted) ih
  | @block _ _ front inner tokens make openPos closePos body _ opening _ accepted _ within ih =>
    obtain ⟨other, moved, made⟩ := opening.relocate move
    have whole : (front ++ ⟨.openBrace, openPos⟩ :: inner ++ ⟨.closeBrace, closePos⟩ :: tokens).map
        (Token.relocate move) = front.map (Token.relocate move) ++
          ⟨.openBrace, move openPos⟩ :: inner.map (Token.relocate move) ++
            ⟨.closeBrace, move closePos⟩ :: tokens.map (Token.relocate move) := by
      rw [List.map_append, List.map_append, List.map_cons, List.map_cons]
      rfl
    have taken := (Context.accepts_relocate move ..).trans accepted
    rw [made] at taken
    rw [whole, Node.relocateAll, made]
    exact .block moved within taken ih

end

/-- Only a statement depends on what follows it, and no program holds one. -/
theorem Phrase.followed {mode : Mode} {front : List Token} {next : Option Token} {node : Node}
    (phrase : Phrase mode front next node) (accepted : Context.general.accepts node = true)
    (other : Option Token) : Phrase mode front other node := by
  cases phrase with
  | app values => exact .app values
  | text values => exact .text values
  | input => exact .input
  | button values => exact .button values
  | list => exact .list
  | table => exact .table
  | raw permissive unknown => exact .raw permissive unknown
  | rawGroup permissive unknown balanced => exact .rawGroup permissive unknown balanced
  | insert | refresh | delete | updateFrom | update | condition => cases accepted

/-- Programs can stand one behind the other. -/
theorem Derives.append {mode : Mode} {first second : List Token} {nodes others : List Node}
    (left : Derives mode .general first nodes) (right : Derives mode .general second others) :
    Derives mode .general (first ++ second) (nodes ++ others) := by
  generalize isGeneral : Context.general = context at left
  induction left with
  | nil =>
    subst isGeneral
    exact right
  | phrase phrase accepted _ ih =>
    subst isGeneral
    rw [List.append_assoc]
    exact .phrase (phrase.followed accepted _) accepted (ih rfl)
  | @block _ _ front inner tokens make openPos closePos body _ opening within accepted _ _ ih =>
    subst isGeneral
    have whole : front ++ ⟨.openBrace, openPos⟩ :: inner ++ ⟨.closeBrace, closePos⟩ :: tokens ++
        second = front ++ ⟨.openBrace, openPos⟩ :: inner ++ ⟨.closeBrace, closePos⟩ ::
          (tokens ++ second) := by
      rw [List.append_assoc, List.cons_append]
    rw [whole]
    exact .block opening within accepted (ih rfl)

end Pagewright
