import Pagewright.Proofs.Cuts
import Pagewright.Proofs.Leading
import Pagewright.Proofs.Scanning

set_option autoImplicit false

namespace Pagewright

section Tokens

theorem exists_place_of_mem_tokensBehind (before : List Char) (pieces : List Piece) :
    ∀ token ∈ tokensBehind before pieces, ∃ text, token.pos = place (before ++ text) := by
  induction pieces generalizing before with
  | nil =>
    refine List.forall_mem_singleton.mpr ⟨[], ?_⟩
    rw [List.append_nil]
  | cons piece pieces ih =>
    refine List.forall_mem_cons.mpr ⟨⟨[], ?_⟩, fun token member => ?_⟩
    · rw [List.append_nil]
    · obtain ⟨text, pos⟩ := ih _ token member
      refine ⟨piece.spelling ++ (piece.gap ++ text), ?_⟩
      rw [pos, List.append_assoc, List.append_assoc]

/-- Behind a text that is not empty is a later place. -/
theorem before_place_append (before text : List Char) (filled : text ≠ []) :
    (place before).Before (place (before ++ text)) := by
  cases text with
  | nil => exact absurd rfl filled
  | cons c text =>
    rw [← place_after]
    exact Position.before_after _ c text

/-- No token is spelled by an empty text, so the next one stands behind it. -/
theorem Layout.pairwise_tokensBehind {gap : List Char} {pieces : List Piece}
    (layout : Layout gap pieces) (before : List Char) :
    ((tokensBehind before pieces).map Token.pos).Pairwise Position.Before := by
  induction layout generalizing before with
  | nil _ => exact List.pairwise_singleton _ _
  | @cons gap piece pieces _ spells _ _ ih =>
    refine List.pairwise_cons.mpr ⟨List.forall_mem_map.mpr fun token member => ?_, ih _⟩
    obtain ⟨text, pos⟩ := exists_place_of_mem_tokensBehind _ _ token member
    rw [pos, List.append_assoc, List.append_assoc]
    exact before_place_append before _ (List.append_ne_nil_of_left_ne_nil spells.ne_nil _)

theorem pairwise_pos_of_tokenize {source : String} {tokens : List Token}
    (scanned : tokenize source = .ok tokens) : (tokens.map Token.pos).Pairwise Position.Before := by
  have here : (Scanner.ofText source).pos = place [] := rfl
  obtain ⟨gap, pieces, layout, -, rfl, -⟩ := (Scanner.tokens_eq_ok_iff_layout here).mp scanned
  exact layout.pairwise_tokensBehind gap

end Tokens

/-- Where a node stands, and right behind it the places of the fields that it declares. -/
def Node.places (node : Node) : List Position := node.pos :: node.declaredFields.map Field.pos

/-- The places of all nodes of a program in preorder, with those of the fields of each table. -/
def programPlaces (nodes : List Node) : List Position :=
  (Node.subtreeAll nodes).flatMap Node.places

theorem programPlaces_cons (node : Node) (rest : List Node) :
    programPlaces (node :: rest) = node.subtree.flatMap Node.places ++ programPlaces rest := by
  rw [programPlaces, Node.subtreeAll, List.flatMap_append]
  rfl

/-- A phrase begins with the token of its node. Only a table has more places, and its fields are
tokens one behind another. -/
theorem Phrase.places_sublist {mode : Mode} {front : List Token} {next : Option Token} {node : Node}
    (phrase : Phrase mode front next node) : node.places.Sublist (front.map Token.pos) := by
  cases phrase with
  | @table pos _ _ _ _ name fields =>
    have words : fields.map Field.pos = (fields.map Field.token).map Token.pos := by
      rw [List.map_map]
      rfl
    simp only [Node.places, Node.declaredFields, words, List.cons_append, List.map_cons,
      List.map_append]
    exact (((List.sublist_append_left _ _).cons _).cons _).cons_cons _
  | _ => exact (List.nil_sublist _).cons_cons _

theorem Opening.places_sublist {front : List Token} {inside : Context} {make : List Node → Node}
    (opening : Opening front inside make) (body : List Node) :
    (make body).places.Sublist (front.map Token.pos) := by
  cases opening <;> exact (List.nil_sublist _).cons_cons _

/-- Reading takes nodes and fields from the tokens in their order, whatever it passes over. -/
theorem Derives.programPlaces_sublist {mode : Mode} {context : Context} {tokens : List Token}
    {nodes : List Node} (derives : Derives mode context tokens nodes) :
    (programPlaces nodes).Sublist (tokens.map Token.pos) := by
  induction derives with
  | nil => exact List.Sublist.refl _
  | phrase phrase _ _ more =>
    rw [programPlaces_cons, phrase.subtree, List.flatMap_singleton, List.map_append]
    exact phrase.places_sublist.append more
  | @block _ _ front inner tokens make openPos closePos body _ opening _ _ _ within more =>
    rw [programPlaces_cons, opening.subtree, List.flatMap_cons, List.append_assoc, List.map_append,
      List.map_append, List.map_cons, List.map_cons, List.append_assoc]
    refine (opening.places_sublist body).append ?_
    exact (within.append (more.cons _)).cons _

theorem parseTokens_programPlaces_sublist {mode : Mode} {tokens : List Token} {nodes : List Node}
    (read : parseTokens mode tokens = .ok nodes) :
    (programPlaces nodes).Sublist (tokens.map Token.pos) := by
  have derives := (parseTokens_eq_ok_iff mode tokens nodes).mp read
  exact derives.programPlaces_sublist.trans ((List.takeWhile_sublist _).map _)

/-- In a parsed program every node and every field stands behind those before it, each where a token
of the text stands: a node at the word of its keyword, a raw node at the word or the literal that it
keeps, and a field at its name. -/
theorem parse_programPlaces_ordered {mode : Mode} {source : String} {nodes : List Node}
    (parsed : parse mode source = .ok nodes) :
    (programPlaces nodes).Pairwise Position.Before ∧
    ∃ tokens, tokenize source = .ok tokens ∧
      (programPlaces nodes).Sublist (tokens.map Token.pos) ∧
      ∀ node ∈ Node.subtreeAll nodes,
        (∃ token ∈ tokens, token.pos = node.pos ∧
          match node with
          | .raw _ kept =>
            token.lexeme = .word kept ∨ ∃ text, token.lexeme = .literal text ∧
              kept = "\"" ++ text ++ "\""
          | other => token.lexeme = .word other.opening) ∧
        ∀ field ∈ node.declaredFields,
          ∃ token ∈ tokens, token.pos = field.pos ∧ token.lexeme = .word field.name := by
  obtain ⟨tokens, scanned, read⟩ := (parse_eq_ok_iff mode source nodes).mp parsed
  have inOrder := parseTokens_programPlaces_sublist read
  refine ⟨(pairwise_pos_of_tokenize scanned).sublist inOrder, tokens, scanned, inOrder, ?_⟩
  intro node member
  obtain ⟨⟨token, inTokens, here, led⟩, fields⟩ := parseTokens_spelledIn read node member
  refine ⟨⟨token, inTokens, here, ?_⟩, fun field declared => ?_⟩
  · cases node with
    | raw pos kept =>
      cases unknown : token.lexeme with
      | word text =>
        rw [unknown] at led
        cases led
        exact .inl rfl
      | literal text =>
        rw [unknown] at led
        cases led
        exact .inr ⟨text, rfl, rfl⟩
      | openBrace | closeBrace | endOfInput =>
        rw [unknown] at led
        cases led
    | _ => exact led
  · exact ⟨field.token, fields field declared, rfl, rfl⟩

/-- A comment, a skipped group, fields on two lines and a literal that begins nothing. -/
def scatteredProgram : String :=
  "// head\nui \x7b colum \x7b text a \x7d list t \x7b item \x7b text b \x7d \x7d\n" ++
    "  db \x7b table t \x7b a\n  b \x7d \"end\" \x7d \x7d"

theorem parse_scatteredProgram : ∃ nodes,
    parse .permissive scatteredProgram = .ok nodes ∧
    programPlaces nodes = [⟨2, 1⟩, ⟨2, 6⟩, ⟨2, 23⟩, ⟨2, 32⟩, ⟨2, 39⟩, ⟨3, 3⟩, ⟨3, 8⟩, ⟨3, 18⟩,
      ⟨4, 3⟩, ⟨4, 7⟩] ∧
    (programPlaces nodes).Pairwise Position.Before := by
  have listed : (parse .permissive scatteredProgram).toOption.map programPlaces =
      some [⟨2, 1⟩, ⟨2, 6⟩, ⟨2, 23⟩, ⟨2, 32⟩, ⟨2, 39⟩, ⟨3, 3⟩, ⟨3, 8⟩, ⟨3, 18⟩, ⟨4, 3⟩,
        ⟨4, 7⟩] := by decide +kernel
  cases parsed : parse .permissive scatteredProgram with
  | error diagnostic =>
    rw [parsed] at listed
    cases listed
  | ok nodes =>
    rw [parsed] at listed
    exact ⟨nodes, rfl, Option.some.inj listed, (parse_programPlaces_ordered parsed).1⟩

end Pagewright
