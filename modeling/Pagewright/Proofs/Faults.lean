import Pagewright.Proofs.Parsing
import Pagewright.Proofs.Scanning

set_option autoImplicit false

namespace Pagewright

namespace Scanner

/-- No token follows the gap: a brace closes nothing, or a literal is not closed. -/
inductive Stuck (scanner : Scanner) : Diagnostic → Prop
  | brace {gap text : List Char} (rest : scanner.rest = gap ++ '}' :: text) (isGap : Gap false gap)
      (outside : scanner.depth = 0) :
      Stuck scanner (.scan (scanner.pos.after gap) .unmatchedBrace)
  | literal {gap text : List Char} (rest : scanner.rest = gap ++ '"' :: text)
      (isGap : Gap false gap) (unclosed : (splitLiteral text).closed = false) :
      Stuck scanner (.scan (scanner.pos.after gap) .unclosedLiteral)

theorem tokenHere_brace (text : List Char) (pos : Position) :
    tokenHere ⟨'}' :: text, pos, 0⟩ = (.error (.scan pos .unmatchedBrace), ⟨'}' :: text, pos, 0⟩) :=
  rfl

theorem tokenHere_unclosed {text : List Char} (unclosed : (splitLiteral text).closed = false)
    (pos : Position) (depth : Nat) :
    tokenHere ⟨'"' :: text, pos, depth⟩ = (.error (.scan pos .unclosedLiteral),
      ⟨(splitLiteral text).rest, pos.after ('"' :: (splitLiteral text).spelling), depth⟩) := by
  simp only [tokenHere, move, unclosed, Bool.false_eq_true, ↓reduceIte]

section

variable {scanner : Scanner} {gap text : List Char}

/-- A brace that closes nothing is not passed. -/
theorem next_of_brace (rest : scanner.rest = gap ++ '}' :: text) (isGap : Gap false gap)
    (outside : scanner.depth = 0) :
    scanner.next = (.error (.scan (scanner.pos.after gap) .unmatchedBrace),
      ⟨'}' :: text, scanner.pos.after gap, 0⟩) := by
  have solid : startsGap ('}' :: text) = false := rfl
  have split := isGap.splitGap_eq (by simp) solid
  rw [← rest] at split
  rw [next_of_splitGap split, outside, tokenHere_brace]

/-- A literal that is not closed is passed up to the end of its line. -/
theorem next_of_unclosed (rest : scanner.rest = gap ++ '"' :: text) (isGap : Gap false gap)
    (unclosed : (splitLiteral text).closed = false) :
    scanner.next = (.error (.scan (scanner.pos.after gap) .unclosedLiteral),
      ⟨(splitLiteral text).rest,
        (scanner.pos.after gap).after ('"' :: (splitLiteral text).spelling), scanner.depth⟩) := by
  have solid : startsGap ('"' :: text) = false := rfl
  have split := isGap.splitGap_eq (by simp) solid
  rw [← rest] at split
  rw [next_of_splitGap split, tokenHere_unclosed unclosed]

end

/-- Where no gap begins, scanning fails at a brace or at a quote. -/
theorem tokenHere_eq_error {text : List Char} {pos : Position} {depth : Nat}
    {diagnostic : Diagnostic} (failed : (tokenHere ⟨text, pos, depth⟩).1 = .error diagnostic) :
    (∃ more, text = '}' :: more ∧ depth = 0 ∧ diagnostic = .scan pos .unmatchedBrace) ∨
      ∃ more, text = '"' :: more ∧ (splitLiteral more).closed = false ∧
        diagnostic = .scan pos .unclosedLiteral := by
  unfold tokenHere at failed
  dsimp only at failed
  split at failed
  · cases failed
  · cases failed
  · split at failed
    · rename_i outside
      cases failed
      exact .inl ⟨_, rfl, outside, rfl⟩
    · cases failed
  · split at failed
    · cases failed
    · rename_i unclosed
      cases failed
      exact .inr ⟨_, rfl, Bool.eq_false_iff.mpr unclosed, rfl⟩
  · cases failed

theorem next_eq_error_iff (scanner : Scanner) (diagnostic : Diagnostic) :
    scanner.next.1 = .error diagnostic ↔ scanner.Stuck diagnostic := by
  constructor
  · intro failed
    obtain ⟨gap, rest, whole, isGap, solid⟩ := exists_gap scanner.rest
    have split : splitGap false scanner.rest = (gap, rest) :=
      (splitGap_eq_iff _ _ _).mpr ⟨whole, isGap, solid⟩
    rw [next_of_splitGap split] at failed
    rcases tokenHere_eq_error failed with ⟨text, rfl, outside, rfl⟩ | ⟨text, rfl, unclosed, rfl⟩
    · exact .brace whole isGap outside
    · exact .literal whole isGap unclosed
  · intro stuck
    cases stuck with
    | brace rest isGap outside => rw [next_of_brace rest isGap outside]
    | literal rest isGap unclosed => rw [next_of_unclosed rest isGap unclosed]

/-- Scanning fails at once or behind a token. -/
theorem tokens_eq_error_iff (scanner : Scanner) (diagnostic : Diagnostic) :
    scanner.tokens.1 = .error diagnostic ↔
      scanner.Stuck diagnostic ∨
      ∃ gap spelling token after, scanner.Takes gap spelling token after ∧
        after.tokens.1 = .error diagnostic := by
  rw [← next_eq_error_iff]
  constructor
  · intro failed
    rcases read : scanner.next with ⟨fault | token, after⟩
    · rw [tokens_of_error read] at failed
      cases failed
      exact .inl rfl
    rcases next_cases read with ⟨-, rfl⟩ | ⟨gap, spelling, takes⟩
    · rw [tokens_of_end read rfl] at failed
      cases failed
    · rw [tokens_of_token read takes.not_end] at failed
      rcases behind : after.tokens.1 with fault | more <;> rw [behind] at failed <;> cases failed
      exact .inr ⟨gap, spelling, token, after, takes, behind⟩
  · rintro (failed | ⟨gap, spelling, token, after, takes, failed⟩)
    · rcases read : scanner.next with ⟨result, after⟩
      rw [read] at failed
      obtain rfl : result = .error diagnostic := failed
      rw [tokens_of_error read]
    · rw [tokens_of_token takes.next_eq takes.not_end, failed]
      rfl

theorem Stuck.stage {scanner : Scanner} {diagnostic : Diagnostic}
    (stuck : scanner.Stuck diagnostic) : diagnostic.report.stage = .scan := by
  cases stuck <;> rfl

theorem stage_of_tokens_eq_error {scanner : Scanner} {diagnostic : Diagnostic}
    (failed : scanner.tokens.1 = .error diagnostic) : diagnostic.report.stage = .scan := by
  induction size : scanner.rest.length using Nat.strongRecOn generalizing scanner with
  | ind size ih =>
    subst size
    rcases (tokens_eq_error_iff _ _).mp failed with stuck | ⟨_, _, _, after, takes, later⟩
    · exact stuck.stage
    · exact ih _ takes.length_lt later rfl

end Scanner

theorem stage_of_tokenize_eq_error {source : String} {diagnostic : Diagnostic}
    (failed : tokenize source = .error diagnostic) : diagnostic.report.stage = .scan :=
  Scanner.stage_of_tokens_eq_error failed

namespace Reading

variable {tokens : List Token} {α β : Type} {places : Position → Prop}

/-- If the reading fails, it reports a fault of its stage, at one of the given places. -/
def FailsAt (places : Position → Prop) (reading : Reading tokens α) : Prop :=
  ∀ diagnostic, reading.result = .error diagnostic →
    ∃ pos fault, diagnostic = .parse pos fault ∧ places pos

theorem failsAt_done (value : α) : (done value : Reading tokens α).FailsAt places := by
  intro diagnostic failed
  cases failed

theorem failsAt_fail {pos : Position} (here : places pos) (fault : ParseFault) :
    (fail pos fault : Reading tokens α).FailsAt places := by
  intro diagnostic failed
  cases failed
  exact ⟨pos, fault, rfl, here⟩

theorem FailsAt.behind {reading : Reading tokens α} (fails : reading.FailsAt places)
    (token : Token) : (reading.behind token).FailsAt places := fails

theorem FailsAt.map {reading : Reading tokens α} (fails : reading.FailsAt places) (f : α → β) :
    (reading.map f).FailsAt places := by
  intro diagnostic failed
  rw [map_result] at failed
  cases outcome : reading.result with
  | ok value =>
    rw [outcome] at failed
    cases failed
  | error fault =>
    rw [outcome] at failed
    cases failed
    exact fails _ outcome

theorem FailsAt.andThen {first : Reading tokens α}
    {next : α → (rest : List Token) → rest <:+ tokens → Reading rest β}
    (fails : first.FailsAt places)
    (later : ∀ value rest suffix, first.result = .ok value →
      (next value rest suffix).FailsAt places) :
    (first.andThen next).FailsAt places := by
  intro diagnostic failed
  cases outcome : first.result with
  | ok value =>
    rw [(andThen_of_ok next outcome).1] at failed
    exact later _ _ _ outcome _ failed
  | error fault =>
    rw [(andThen_of_error next outcome).1] at failed
    cases failed
    exact fails _ outcome

end Reading

namespace Parse

open Reading

/-- The places of all tokens and of the end behind them are among the given ones. -/
structure Covers (places : Position → Prop) (stop : Position) (tokens : List Token) : Prop where
  stop : places stop
  tokens : ∀ token ∈ tokens, places token.pos

theorem Covers.suffix {places : Position → Prop} {stop : Position} {rest tokens : List Token}
    (covers : Covers places stop tokens) (within : rest <:+ tokens) : Covers places stop rest :=
  ⟨covers.stop, fun token member => covers.tokens token (within.subset member)⟩

theorem Covers.head {places : Position → Prop} {stop : Position} {token : Token}
    {tokens : List Token} (covers : Covers places stop (token :: tokens)) : places token.pos :=
  covers.tokens token (.head _)

theorem Covers.tail {places : Position → Prop} {stop : Position} {token : Token}
    {tokens : List Token} (covers : Covers places stop (token :: tokens)) :
    Covers places stop tokens :=
  covers.suffix (List.suffix_cons token tokens)

section

variable {places : Position → Prop} {stop : Position} {tokens : List Token}

theorem failsAt_operand (covers : Covers places stop tokens) (text? : Lexeme → Option String)
    (construct : Construct) : (operand stop text? construct tokens).FailsAt places := by
  unfold operand
  split
  · exact failsAt_fail covers.stop _
  · split
    · exact (failsAt_done _).behind _
    · exact failsAt_fail covers.head _

theorem failsAt_opened (covers : Covers places stop tokens) (owner : String) :
    (opened stop owner tokens).FailsAt places := by
  unfold opened
  split
  · exact failsAt_fail covers.stop _
  · split
    · exact (failsAt_done _).behind _
    · exact failsAt_fail covers.head _

theorem failsAt_closed (covers : Covers places stop tokens) (owner : String) :
    (closed stop owner tokens).FailsAt places := by
  unfold closed
  split
  · exact failsAt_fail covers.stop _
  · split
    · exact (failsAt_done _).behind _
    · exact failsAt_fail covers.head _

theorem failsAt_fields (covers : Covers places stop tokens) :
    (fields stop tokens).FailsAt places := by
  induction tokens with
  | nil => exact failsAt_fail covers.stop _
  | cons token tokens ih =>
    unfold fields
    split
    · exact (failsAt_done _).behind _
    · exact ((ih covers.tail).map _).behind _
    · exact failsAt_fail covers.head _

theorem failsAt_group (covers : Covers places stop tokens) (owner : String) (depth : Nat) :
    (group stop owner depth tokens).FailsAt places := by
  induction tokens generalizing depth with
  | nil => exact failsAt_fail covers.stop _
  | cons token tokens ih =>
    unfold group
    split
    · exact (ih covers.tail _).behind _
    · split
      · exact (failsAt_done _).behind _
      · exact (ih covers.tail _).behind _
    · exact (ih covers.tail _).behind _

theorem failsAt_raw (covers : Covers places stop tokens) {pos : Position} (here : places pos)
    (mode : Mode) (text : String) : (raw stop mode pos text tokens).FailsAt places := by
  unfold raw
  split
  · exact failsAt_fail here _
  · split
    · exact ((failsAt_group covers.tail _ _).map _).behind _
    · exact failsAt_done _

theorem failsAt_optionalSource (covers : Covers places stop tokens) :
    (optionalSource stop tokens).FailsAt places := by
  unfold optionalSource
  split
  · exact failsAt_done _
  · split
    · exact ((failsAt_operand covers.tail _ _).map _).behind _
    · exact failsAt_done _

variable {body : BodyReader tokens}

theorem failsAt_block (covers : Covers places stop tokens)
    (bodies : ∀ context owner rest within, (body context owner rest within).FailsAt places)
    (context : Context) (owner : String) :
    (block stop context owner tokens body).FailsAt places := by
  refine (failsAt_opened covers owner).andThen fun _ rest suffix _ => ?_
  refine (bodies context owner rest suffix).andThen fun nodes left within _ => ?_
  exact (failsAt_closed ((covers.suffix suffix).suffix within) owner).map _

theorem failsAt_optionalBlock (covers : Covers places stop tokens)
    (bodies : ∀ context owner rest within, (body context owner rest within).FailsAt places)
    (context : Context) (owner : String) :
    (optionalBlock stop context owner tokens body).FailsAt places := by
  unfold optionalBlock
  split
  · exact failsAt_block covers bodies context owner
  · exact failsAt_done _

theorem failsAt_sentence (covers : Covers places stop tokens)
    (bodies : ∀ context owner rest within, (body context owner rest within).FailsAt places)
    (keyword : Keyword) (pos : Position) :
    (sentence stop keyword pos tokens body).FailsAt places := by
  have operands : ∀ {rest}, rest <:+ tokens → ∀ text? construct,
      (operand stop text? construct rest).FailsAt places :=
    fun within => failsAt_operand (covers.suffix within)
  have first := fun text? construct => operands List.suffix_rfl text? construct
  cases keyword with
  | app | text | refresh | delete | condition => exact (first _ _).map _
  | input | button | insert =>
    exact (first _ _).andThen fun _ rest within _ => (operands within _ _).map _
  | update =>
    refine (first _ _).andThen fun _ rest within _ => ?_
    exact (failsAt_optionalSource (covers.suffix within)).map _
  | table =>
    refine (first _ _).andThen fun _ rest within _ => ?_
    refine (failsAt_opened (covers.suffix within) "table").andThen fun _ left inside _ => ?_
    exact (failsAt_fields ((covers.suffix within).suffix inside)).map _
  | block kind => exact (failsAt_block covers bodies _ _).map _
  | list =>
    refine (first _ _).andThen fun _ rest within _ => ?_
    exact (failsAt_optionalBlock (covers.suffix within) (fun _ _ _ _ => bodies _ _ _ _) _ _).map _
  | function =>
    refine (first _ _).andThen fun _ rest within _ => ?_
    exact (failsAt_block (covers.suffix within) (fun _ _ _ _ => bodies _ _ _ _) _ _).map _

theorem failsAt_node {token : Token} (covers : Covers places stop (token :: tokens))
    (bodies : ∀ context owner rest within, (body context owner rest within).FailsAt places)
    (mode : Mode) : (node stop mode token tokens body).FailsAt places := by
  unfold node
  split
  · unfold ofWord
    split
    · exact failsAt_sentence covers.tail bodies _ _
    · exact failsAt_raw covers.tail covers.head _ _
  · exact failsAt_raw covers.tail covers.head _ _
  · exact failsAt_fail covers.head _

/-- What was read by a mapped reading. -/
theorem exists_of_map_result {α β : Type} {reading : Reading tokens α} {f : α → β} {result : β}
    (success : (reading.map f).result = .ok result) : ∃ value, f value = result := by
  obtain ⟨value, -, same⟩ := (map_reads ..).mp (And.intro success rfl)
  exact ⟨value, same⟩

theorem exists_of_andThen_result {α β : Type} {first : Reading tokens α}
    {next : α → (rest : List Token) → rest <:+ tokens → Reading rest β} {result : β}
    (success : (first.andThen next).result = .ok result) :
    ∃ value rest within, (next value rest within).result = .ok result := by
  obtain ⟨value, rest, reads, second⟩ := (andThen_reads ..).mp (And.intro success rfl)
  exact ⟨value, rest, reads.suffix, second.1⟩

theorem pos_of_sentence {keyword : Keyword} {pos : Position} {node : Node}
    (success : (sentence stop keyword pos tokens body).result = .ok node) : node.pos = pos := by
  cases keyword with
  | app | text | refresh | delete | condition | block =>
    obtain ⟨_, rfl⟩ := exists_of_map_result success
    rfl
  | input | button | insert | update | list | function =>
    obtain ⟨_, _, _, success⟩ := exists_of_andThen_result success
    obtain ⟨_, rfl⟩ := exists_of_map_result success
    rfl
  | table =>
    obtain ⟨_, _, _, success⟩ := exists_of_andThen_result success
    obtain ⟨_, _, _, success⟩ := exists_of_andThen_result success
    obtain ⟨_, rfl⟩ := exists_of_map_result success
    rfl

theorem pos_of_raw {mode : Mode} {pos : Position} {text : String} {node : Node}
    (success : (raw stop mode pos text tokens).result = .ok node) : node.pos = pos := by
  unfold raw at success
  split at success
  · cases success
  · split at success
    · obtain ⟨_, rfl⟩ := exists_of_map_result success
      rfl
    · cases success
      rfl

/-- A node has the position of the token that begins it. -/
theorem pos_of_node {mode : Mode} {token : Token} {result : Node}
    (success : (node stop mode token tokens body).result = .ok result) :
    result.pos = token.pos := by
  unfold node at success
  split at success
  · unfold ofWord at success
    split at success
    · exact pos_of_sentence success
    · exact pos_of_raw success
  · exact pos_of_raw success
  · cases success

end

variable {places : Position → Prop} {stop : Position}

theorem failsAt_nodes (mode : Mode) {tokens : List Token} (covers : Covers places stop tokens)
    (context : Context) (owner : String) :
    (nodes stop mode context owner tokens).FailsAt places := by
  induction size : tokens.length using Nat.strongRecOn generalizing tokens context owner with
  | ind size ih =>
    subst size
    unfold nodes
    split
    · exact failsAt_done _
    · rename_i token back
      -- Inner blocks and the rest of this block are read from fewer tokens.
      have shorter : ∀ rest, rest <:+ back → ∀ context owner,
          (nodes stop mode context owner rest).FailsAt places := by
        intro rest within context owner
        exact ih _ (Nat.lt_succ_of_le within.length_le) (covers.tail.suffix within) context owner
          rfl
      split
      · exact failsAt_done _
      · exact failsAt_fail covers.head _
      · exact failsAt_fail covers.head _
      all_goals
        refine FailsAt.behind (FailsAt.andThen ?_ fun first rest suffix read => ?_) _
        · exact failsAt_node covers (fun _ _ rest within => shorter rest within _ _) _
        · split
          · exact (shorter rest suffix _ _).map _
          · refine failsAt_fail ?_ _
            rw [pos_of_node read]
            exact covers.head

theorem failsAt_program (mode : Mode) {tokens : List Token} (covers : Covers places stop tokens) :
    (program stop mode tokens).FailsAt places := by
  refine (failsAt_nodes mode covers .general "program").andThen fun nodes rest within _ => ?_
  cases rest with
  | nil => exact failsAt_done _
  | cons token back => exact failsAt_fail (covers.suffix within).head _

end Parse

theorem stage_of_parseTokens_eq_error {mode : Mode} {tokens : List Token} {diagnostic : Diagnostic}
    (failed : parseTokens mode tokens = .error diagnostic) : diagnostic.report.stage = .parse := by
  have anywhere : Parse.Covers (fun _ => True) (stopOf tokens)
      (tokens.takeWhile fun token => token.lexeme != .endOfInput) := ⟨trivial, fun _ _ => trivial⟩
  rw [parseTokens_eq_program] at failed
  obtain ⟨pos, fault, rfl, -⟩ := Parse.failsAt_program mode anywhere diagnostic failed
  rfl

end Pagewright
