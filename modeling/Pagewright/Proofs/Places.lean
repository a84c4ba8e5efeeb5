import Pagewright.Proofs.Leading
import Pagewright.Proofs.Passage
import Pagewright.Proofs.WalkFaults

set_option autoImplicit false

namespace Pagewright

/-- Scanning fails at a brace or at a quote of the text. -/
theorem Scanner.place_of_tokens_eq_error {scanner : Scanner} {before : List Char}
    {diagnostic : Diagnostic} (here : scanner.pos = place before)
    (failed : scanner.tokens.1 = .error diagnostic) :
    ∃ front c back fault, before ++ scanner.rest = front ++ c :: back ∧ (c = '}' ∨ c = '"') ∧
      diagnostic = .scan (place front) fault := by
  obtain ⟨text, _, after, passes, stuck⟩ := exists_passes_of_error failed
  have behind : ∀ gap, after.pos.after gap = place (before ++ (text ++ gap)) := by
    intro gap
    rw [passes.pos, here, place_after, place_after, List.append_assoc]
  cases stuck with
  | @brace gap back rest _ _ =>
    refine ⟨before ++ (text ++ gap), '}', back, .unmatchedBrace, ?_, .inl rfl, by rw [behind]⟩
    rw [passes.rest, rest, List.append_assoc, List.append_assoc]
  | @literal gap back rest _ _ =>
    refine ⟨before ++ (text ++ gap), '"', back, .unclosedLiteral, ?_, .inr rfl, by rw [behind]⟩
    rw [passes.rest, rest, List.append_assoc, List.append_assoc]

theorem exists_end_of_tokensBehind (before : List Char) (pieces : List Piece) :
    ∃ last ∈ tokensBehind before pieces, last.lexeme = .endOfInput := by
  induction pieces generalizing before with
  | nil => exact ⟨_, .head _, rfl⟩
  | cons piece pieces ih =>
    obtain ⟨last, member, isEnd⟩ := ih (before ++ piece.spelling ++ piece.gap)
    exact ⟨last, .tail _ member, isEnd⟩

theorem exists_end_of_tokenize {source : String} {tokens : List Token}
    (scanned : tokenize source = .ok tokens) : ∃ last ∈ tokens, last.lexeme = .endOfInput := by
  have here : (Scanner.ofText source).pos = place [] := rfl
  obtain ⟨gap, pieces, -, -, rfl, -⟩ := (Scanner.tokens_eq_ok_iff_layout here).mp scanned
  exact exists_end_of_tokensBehind _ pieces

/-- Reading fails at one of the tokens, if the end is one of them. -/
theorem place_of_parseTokens_eq_error {mode : Mode} {tokens : List Token} {last : Token}
    {diagnostic : Diagnostic} (member : last ∈ tokens) (isEnd : last.lexeme = .endOfInput)
    (failed : parseTokens mode tokens = .error diagnostic) :
    ∃ token ∈ tokens, ∃ fault, diagnostic = .parse token.pos fault := by
  obtain ⟨front, stop, back, rfl, endless⟩ := exists_first_end member isEnd
  have covers : Parse.Covers
      (fun pos => ∃ token ∈ front ++ ⟨.endOfInput, stop⟩ :: back, token.pos = pos) stop front :=
    ⟨⟨_, List.mem_append_right _ (.head _), rfl⟩,
      fun token inFront => ⟨token, List.mem_append_left _ inFront, rfl⟩⟩
  rw [parseTokens_append_end endless] at failed
  obtain ⟨_, fault, rfl, token, inTokens, rfl⟩ := Parse.failsAt_program mode covers _ failed
  exact ⟨token, inTokens, fault, rfl⟩

/-- What a program place is in the text of the program. -/
theorem ProgramPlace.spelled {mode : Mode} {tokens : List Token} {nodes : List Node}
    {pos : Position} (place : ProgramPlace nodes pos)
    (read : parseTokens mode tokens = .ok nodes) :
    ∃ node ∈ Node.subtreeAll nodes, (∃ token ∈ tokens, node.LedBy token ∧ token.pos = pos) ∨
      ∃ field ∈ node.declaredFields, field.token ∈ tokens ∧ field.pos = pos := by
  cases place with
  | @node node member =>
    obtain ⟨⟨token, inTokens, led⟩, -⟩ := parseTokens_spelledIn read node member
    exact ⟨node, member, .inl ⟨token, inTokens, led, led.1⟩⟩
  | @field _ _ _ field member declared =>
    obtain ⟨-, fields⟩ := parseTokens_spelledIn read _ member
    exact ⟨_, member, .inr ⟨field, declared, fields field declared, rfl⟩⟩

/-- Every diagnostic of a compile points at a place of the text: one of scanning at a brace or a
quote, one of reading at a token, and one of the walk at the token that begins a node or at the word
of a field. Only reading says what was expected, and its message begins with that. -/
theorem compile_diagnostic_place {settings : Settings} {source : String} {diagnostic : Diagnostic}
    (failed : compile settings source = .error diagnostic) :
    (diagnostic.report.stage = .scan →
      diagnostic.report.expected = none ∧
      ∃ front c back, source.toList = front ++ c :: back ∧ (c = '}' ∨ c = '"') ∧
        diagnostic.report.pos = place front) ∧
    (diagnostic.report.stage = .parse →
      ∃ tokens token expected circumstance,
        tokenize source = .ok tokens ∧ token ∈ tokens ∧ diagnostic.report.pos = token.pos ∧
        diagnostic.report.expected = some expected ∧
        diagnostic.report.message = "expected " ++ expected ++ circumstance) ∧
    (diagnostic.report.stage = .generation →
      diagnostic.report.expected = none ∧
      ∃ tokens nodes,
        tokenize source = .ok tokens ∧ parseTokens settings.mode tokens = .ok nodes ∧
        ∃ node ∈ Node.subtreeAll nodes,
          (∃ token ∈ tokens, node.LedBy token ∧ token.pos = diagnostic.report.pos) ∨
          ∃ field ∈ node.declaredFields,
            field.token ∈ tokens ∧ field.pos = diagnostic.report.pos) := by
  rcases compile_eq_error failed with early | ⟨nodes, parsed, refused⟩
  · rcases parse_eq_error early with scanned | ⟨tokens, scanned, read⟩
    · have here : (Scanner.ofText source).pos = place [] := rfl
      obtain ⟨front, c, back, fault, whole, isMark, rfl⟩ :=
        Scanner.place_of_tokens_eq_error here scanned
      exact ⟨fun _ => ⟨rfl, front, c, back, whole, isMark, rfl⟩, nofun, nofun⟩
    · obtain ⟨last, member, isEnd⟩ := exists_end_of_tokenize scanned
      obtain ⟨token, inTokens, fault, rfl⟩ := place_of_parseTokens_eq_error member isEnd read
      exact ⟨nofun, fun _ => ⟨tokens, token, fault.expected, fault.circumstance, scanned, inTokens,
        rfl, rfl, rfl⟩, nofun⟩
  · obtain ⟨tokens, scanned, read⟩ := (parse_eq_ok_iff ..).mp parsed
    obtain ⟨pos, fault, rfl, place, -⟩ :=
      (parse_nestedAll parsed).refusesAt_generate settings diagnostic refused
    exact ⟨nofun, nofun, fun _ => ⟨rfl, tokens, nodes, scanned, read, place.spelled read⟩⟩

/-- A field that is declared again on another line, below a comment. -/
def repeatedFieldProgram : String :=
  "// columns\ndb \x7b table t \x7b a b\n  a \x7d \x7d"

theorem compile_repeatedFieldProgram : ∃ diagnostic tokens nodes,
    compile {} repeatedFieldProgram = .error diagnostic ∧
    diagnostic.report =
      ⟨.generation, "field 'a' of table 't' is declared more than once", ⟨3, 3⟩, none⟩ ∧
    tokenize repeatedFieldProgram = .ok tokens ∧ parseTokens .permissive tokens = .ok nodes ∧
    ∃ node ∈ Node.subtreeAll nodes,
      (∃ token ∈ tokens, node.LedBy token ∧ token.pos = ⟨3, 3⟩) ∨
      ∃ field ∈ node.declaredFields, field.token ∈ tokens ∧ field.pos = ⟨3, 3⟩ := by
  have reported : (match compile {} repeatedFieldProgram with
      | .ok _ => none
      | .error diagnostic => some diagnostic.report) =
      some ⟨.generation, "field 'a' of table 't' is declared more than once", ⟨3, 3⟩, none⟩ := by
    decide +kernel
  cases failed : compile {} repeatedFieldProgram with
  | ok page =>
    rw [failed] at reported
    cases reported
  | error diagnostic =>
    rw [failed] at reported
    have report := Option.some.inj reported
    obtain ⟨-, -, generation⟩ := compile_diagnostic_place failed
    rw [report] at generation
    obtain ⟨-, tokens, nodes, scanned, read, found⟩ := generation rfl
    exact ⟨diagnostic, tokens, nodes, rfl, report, scanned, read, found⟩

end Pagewright
