import Pagewright.Proofs.Delimiting
import Pagewright.Proofs.Faults
import Pagewright.Proofs.WalkFaults

set_option autoImplicit false

namespace Pagewright

/-- What the blocks of a program hold. A raw node may stand anywhere. -/
structure WellContained (nodes : List Node) : Prop where
  program : ∀ node ∈ nodes, node.isItem = false ∧ node.isStatement = false
  list : ∀ pos table body, .list pos table body ∈ Node.subtreeAll nodes →
    ∀ child ∈ body, child.isItem = true ∨ child.isRaw = true
  db : ∀ pos body, .block pos .db body ∈ Node.subtreeAll nodes →
    ∀ child ∈ body, child.isTable = true ∨ child.isRaw = true
  function : ∀ pos name body, .function pos name body ∈ Node.subtreeAll nodes →
    ∀ child ∈ body, child.isStatement = true ∨ child.isRaw = true
  /-- The bodies of `ui`, `column`, `row` and `item`. -/
  container : ∀ pos kind body, .block pos kind body ∈ Node.subtreeAll nodes → kind ≠ .db →
    ∀ child ∈ body, child.isItem = false ∧ child.isStatement = false

mutual

theorem Node.nested_of_mem_subtree : (node : Node) → node.Nested →
    ∀ below ∈ node.subtree, below.Nested
  | .block pos kind body, nested => by
    rw [Node.subtree, List.forall_mem_cons]
    exact ⟨nested, Node.nested_of_mem_subtreeAll body nested⟩
  | .list pos source body, nested => by
    rw [Node.subtree, List.forall_mem_cons]
    exact ⟨nested, Node.nested_of_mem_subtreeAll body nested⟩
  | .function pos name body, nested => by
    rw [Node.subtree, List.forall_mem_cons]
    exact ⟨nested, Node.nested_of_mem_subtreeAll body nested⟩
  | .app _ _, nested | .text _ _, nested | .input _ _ _, nested | .button _ _ _, nested
  | .table _ _ _, nested | .statement _ _, nested | .raw _ _, nested =>
    List.forall_mem_singleton.mpr nested

/-- What is nested is nested all the way down. -/
theorem Node.nested_of_mem_subtreeAll {context : Context} : (nodes : List Node) →
    Node.NestedAll context nodes → ∀ below ∈ Node.subtreeAll nodes, below.Nested
  | [], _ => List.forall_mem_nil _
  | node :: rest, nested => by
    rw [Node.subtreeAll, List.forall_mem_append]
    exact ⟨Node.nested_of_mem_subtree node nested.2.1,
      Node.nested_of_mem_subtreeAll rest nested.2.2⟩

end

theorem Node.NestedAll.wellContained {nodes : List Node}
    (nested : Node.NestedAll .general nodes) : WellContained nodes := by
  have below := Node.nested_of_mem_subtreeAll nodes nested
  -- The children of a node below are taken by the context of the node.
  have children : ∀ {context body}, Node.NestedAll context body →
      ∀ child ∈ body, context.accepts child = true := by
    intro context body inside child member
    exact ((Node.nestedAll_iff context body).mp inside child member).1
  refine ⟨?_, ?_, ?_, ?_, ?_⟩
  · intro node member
    exact Context.of_accepts_general (children nested node member)
  · intro pos table body member child inside
    exact Context.of_accepts_list (children (below _ member) child inside)
  · intro pos body member child inside
    exact Context.of_accepts_db (children (below _ member) child inside)
  · intro pos name body member child inside
    exact Context.of_accepts_function (children (below _ member) child inside)
  · intro pos kind body member _ child inside
    exact BlockKind.of_accepts (children (below _ member) child inside)

section Messages

/-- How the message about a misplaced node begins. -/
theorem heads_misplaced (keyword place : String) :
    Heads '\'' ("'" ++ keyword ++ "' is only allowed " ++ place) :=
  (((heads_ofList rfl : Heads '\'' "'").append _).append _).append _

theorem isInfix_misplaced (keyword place : String) :
    " is only allowed ".toList <:+: ("'" ++ keyword ++ "' is only allowed " ++ place).toList := by
  refine ⟨"'".toList ++ keyword.toList ++ ['\''], place.toList, ?_⟩
  have mark : "' is only allowed ".toList = '\'' :: " is only allowed ".toList := rfl
  simp only [String.toList_append, mark, List.append_assoc, List.cons_append, List.nil_append]

theorem not_isInfix_unsupported : ∀ keyword ∈ Keyword.all, ¬ " is only allowed ".toList <:+:
    (GenerationFault.unsupportedInItem keyword.spelling).message.toList := by
  decide +kernel

theorem GenerationFault.InPlace.message_ne {fault : GenerationFault} (inPlace : fault.InPlace)
    (keyword place : String) :
    fault.message ≠ "'" ++ keyword ++ "' is only allowed " ++ place := by
  -- All other messages begin with a letter.
  have lettered : ∀ (c : Char) (front back : String), fault.message = front ++ back →
      Heads c front → c ≠ '\'' →
        fault.message ≠ "'" ++ keyword ++ "' is only allowed " ++ place := by
    intro c front back whole heads differ
    rw [whole]
    exact (heads.append back).ne (heads_misplaced keyword place) differ
  cases fault with
  | misplaced => exact inPlace.elim
  | unsupportedInItem opening =>
    obtain ⟨shown, rfl⟩ := inPlace
    intro same
    apply not_isInfix_unsupported shown shown.mem_all
    rw [same]
    exact isInfix_misplaced keyword place
  | invalidName role name =>
    have whole : (GenerationFault.invalidName role name).message =
        role.label ++ (" '" ++ name ++ "' is not a valid identifier") := by
      change role.label ++ " '" ++ name ++ "' is not a valid identifier" = _
      simp only [String.append_assoc]
    cases role with
    | handler => exact lettered 'h' "handler name" _ whole (heads_ofList rfl) (by decide)
    | table => exact lettered 't' "table name" _ whole (heads_ofList rfl) (by decide)
    | function => exact lettered 'f' "function name" _ whole (heads_ofList rfl) (by decide)
  | reservedFunction name =>
    exact lettered 'f' "function name '" _ (String.append_assoc ..) (heads_ofList rfl) (by decide)
  | repeatedTable table =>
    exact lettered 't' "table '" _ (String.append_assoc ..) (heads_ofList rfl) (by decide)
  | reservedField field table =>
    refine lettered 'f' "field '" (field ++ "' of table '" ++ table ++ "' is reserved") ?_
      (heads_ofList rfl) (by decide)
    change "field '" ++ field ++ "' of table '" ++ table ++ "' is reserved" = _
    simp only [String.append_assoc]
  | repeatedField field table =>
    refine lettered 'f' "field '"
      (field ++ "' of table '" ++ table ++ "' is declared more than once") ?_
      (heads_ofList rfl) (by decide)
    change "field '" ++ field ++ "' of table '" ++ table ++ "' is declared more than once" = _
    simp only [String.append_assoc]
  | repeatedFunction name =>
    exact lettered 'f' "fn '" _ (String.append_assoc ..) (heads_ofList rfl) (by decide)
  | unknownTable name =>
    exact lettered 'u' "unknown table '" _ (String.append_assoc ..) (heads_ofList rfl) (by decide)

theorem ParseFault.heads_message (fault : ParseFault) : Heads 'e' fault.message :=
  ((heads_ofList rfl : Heads 'e' "expected ").append _).append _

theorem ScanFault.heads_message (fault : ScanFault) : Heads 'u' fault.message := by
  cases fault <;> exact heads_ofList rfl

/-- The stages before the walk never report a misplaced node. -/
theorem Diagnostic.message_ne_of_stage {diagnostic : Diagnostic}
    (early : diagnostic.report.stage = .scan ∨ diagnostic.report.stage = .parse)
    (keyword place : String) :
    diagnostic.report.message ≠ "'" ++ keyword ++ "' is only allowed " ++ place := by
  have misplaced := heads_misplaced keyword place
  cases diagnostic with
  | scan pos fault => exact fault.heads_message.ne misplaced (by decide)
  | parse pos fault => exact fault.heads_message.ne misplaced (by decide)
  | generation pos fault => rcases early with impossible | impossible <;> cases impossible

end Messages

/-- In a parsed program every block holds what it may hold, at every depth. So no compile fails
because of the place of a node: no diagnostic says where a node is allowed. -/
theorem parsed_programs_wellContained :
    (∀ mode tokens nodes, parseTokens mode tokens = .ok nodes → WellContained nodes) ∧
    ∀ settings source diagnostic, compile settings source = .error diagnostic →
      ∀ keyword place,
        diagnostic.report.message ≠ "'" ++ keyword ++ "' is only allowed " ++ place := by
  refine ⟨fun mode tokens nodes parsed => (parseTokens_nestedAll parsed).wellContained, ?_⟩
  intro settings source diagnostic failed keyword place
  rcases compile_eq_error failed with early | ⟨nodes, parsed, walked⟩
  · apply Diagnostic.message_ne_of_stage
    rcases parse_eq_error early with scanned | ⟨tokens, -, read⟩
    · exact .inl (stage_of_tokenize_eq_error scanned)
    · exact .inr (stage_of_parseTokens_eq_error read)
  · obtain ⟨pos, fault, rfl, -, inPlace⟩ :=
      (parse_nestedAll parsed).refusesAt_generate settings diagnostic walked
    exact inPlace.message_ne keyword place

/-- Raw nodes in a list and in a function, and in an item what no item can show. -/
def crowdedProgram : String :=
  "ui \x7b list t \x7b x item \x7b row \x7b input a b \x7d \x7d \x7d \x7d " ++
    "fn go \x7b delete t y \x7d"

theorem parsed_crowdedProgram : ∃ tokens nodes diagnostic,
    tokenize crowdedProgram = .ok tokens ∧ parseTokens .permissive tokens = .ok nodes ∧
    WellContained nodes ∧ compile {} crowdedProgram = .error diagnostic ∧
    diagnostic.report.message = "'input' is not supported inside an item" ∧
    ∀ keyword place,
      diagnostic.report.message ≠ "'" ++ keyword ++ "' is only allowed " ++ place := by
  have refused : (match compile {} crowdedProgram with
      | .ok _ => false
      | .error diagnostic =>
        diagnostic.report.message == "'input' is not supported inside an item") = true := by
    decide +kernel
  have parsed : (parse .permissive crowdedProgram).toOption.isSome = true := by decide +kernel
  obtain ⟨contained, inPlace⟩ := parsed_programs_wellContained
  cases read : parse .permissive crowdedProgram with
  | error fault =>
    rw [read] at parsed
    cases parsed
  | ok nodes =>
    obtain ⟨tokens, scanned, read⟩ := (parse_eq_ok_iff ..).mp read
    cases failed : compile {} crowdedProgram with
    | ok page =>
      rw [failed] at refused
      cases refused
    | error diagnostic =>
      rw [failed] at refused
      exact ⟨tokens, nodes, diagnostic, scanned, read, contained _ _ _ read, rfl,
        beq_iff_eq.mp refused, inPlace _ _ _ failed⟩

end Pagewright
