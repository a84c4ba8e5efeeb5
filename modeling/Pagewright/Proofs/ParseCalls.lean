import Pagewright.Proofs.Lookahead

set_option autoImplicit false

namespace Pagewright

namespace Parse

variable (stop : Position) (mode : Mode)

/-- A word or a literal is passed, whatever comes of it. -/
theorem rest_program_cons {token : Token} {text : String} (values : token.lexeme.Values text)
    (tokens : List Token) : (program stop mode (token :: tokens)).rest <:+ tokens := by
  refine (Reading.andThen_suffix _ _).trans ?_
  rw [nodes_cons stop mode .general "program" token text values, Reading.behind_rest]
  exact Reading.suffix _

end Parse

namespace Parser

/-- The parser as the calls leave it, one in each mode. -/
def asked (parser : Parser) : List Mode → Parser
  | [] => parser
  | mode :: modes => asked (parser.parse mode).2 modes

section

variable {parser : Parser}

theorem asked_append (parser : Parser) (modes more : List Mode) :
    parser.asked (modes ++ more) = (parser.asked modes).asked more := by
  induction modes generalizing parser with
  | nil => rfl
  | cons mode modes ih => exact ih (parser.parse mode).2

theorem repeated_append (parser : Parser) (modes more : List Mode) :
    parser.repeated (modes ++ more) =
      parser.repeated modes ++ (parser.asked modes).repeated more := by
  induction modes generalizing parser with
  | nil => rfl
  | cons mode modes ih =>
    rw [List.cons_append, repeated, ih, repeated, asked]
    rfl

theorem input_asked (parser : Parser) (modes : List Mode) :
    (parser.asked modes).input = parser.input := by
  induction modes generalizing parser with
  | nil => rfl
  | cons mode modes ih => exact ih _

theorem place_le_parse (parser : Parser) (mode : Mode) :
    parser.place ≤ (parser.parse mode).2.place :=
  (parser.input.program mode parser.place).forward

/-- A parser that no call changes gives the same answer to every call. -/
theorem repeated_of_fixed {answer : Except Diagnostic (List Node)}
    (fixed : ∀ mode, parser.parse mode = (answer, parser)) (modes : List Mode) :
    parser.repeated modes = List.replicate modes.length answer := by
  induction modes with
  | nil => rfl
  | cons mode modes ih => rw [repeated, fixed, ih, List.length_cons, List.replicate_succ]

section

variable {front rest : List Token} {stop : Position}

/-- Where a call begins decides what it can do: at the end and at a brace every call gives one
answer and changes nothing, and a word or a literal is passed. -/
theorem parse_cases (holds : parser.input.Holds front stop) (left : Left front parser.place rest) :
    (rest = [] ∧ ∀ mode, parser.parse mode = (.ok [], parser)) ∨
    (∃ token back, rest = token :: back ∧
      (token.lexeme = .openBrace ∨ token.lexeme = .closeBrace) ∧
      ∀ mode, parser.parse mode =
        (.error (.parse token.pos (.noKeyword token.lexeme)), parser)) ∨
    ∃ token back text, rest = token :: back ∧ token.lexeme.Values text ∧
      ∀ mode, parser.place < (parser.parse mode).2.place := by
  rcases rest with _ | ⟨⟨lexeme, pos⟩, back⟩
  · refine .inl ⟨rfl, fun mode => ?_⟩
    simp only [parse, Input.program_at_end (congrArg Token.lexeme (holds.peek_end left))]
    rfl
  · have here := holds.peek_of_left left
    have goesOn : (parser.input.peek parser.place).lexeme ≠ .endOfInput := here ▸ holds.goesOn left
    have atBrace : ∀ isBrace : lexeme = .openBrace ∨ lexeme = .closeBrace, ∀ mode,
        parser.parse mode = (.error (.parse pos (.noKeyword lexeme)), parser) := by
      intro isBrace mode
      have stops : parser.input.program mode parser.place = .fail pos (.noKeyword lexeme) := by
        rw [Input.program_goes_on goesOn, Input.nodeIn_at_brace isBrace here]
        rfl
      simp only [parse, stops]
      rfl
    have atValue : ∀ text, lexeme.Values text → ∀ mode,
        parser.place < (parser.parse mode).2.place := by
      intro text values mode
      have given : (Token.mk lexeme pos).lexeme.Values text := values
      have shorter := (Parse.rest_program_cons stop mode given back).length_le
      have before := left.place_add_length
      have after := (parse_of_holds holds left mode).2.place_add_length
      rw [List.length_cons] at before
      omega
    cases lexeme with
    | word text =>
      exact .inr (.inr ⟨_, _, text, rfl, .inl rfl, atValue text (.inl rfl)⟩)
    | literal text =>
      exact .inr (.inr ⟨_, _, text, rfl, .inr rfl, atValue text (.inr rfl)⟩)
    | openBrace => exact .inr (.inl ⟨_, _, rfl, .inl rfl, atBrace (.inl rfl)⟩)
    | closeBrace => exact .inr (.inl ⟨_, _, rfl, .inr rfl, atBrace (.inr rfl)⟩)
    | endOfInput => exact absurd rfl (holds.goesOn left)

/-- What a call that passes nothing answers at a token: nothing at the end, and at a brace that a
sentence should begin there. -/
def StuckAt (token : Token) (answer : Except Diagnostic (List Node)) : Prop :=
  token.lexeme = .endOfInput ∧ answer = .ok [] ∨
    (token.lexeme = .openBrace ∨ token.lexeme = .closeBrace) ∧
      ∃ diagnostic, answer = .error diagnostic ∧ diagnostic.report =
        ⟨.parse, "expected a keyword, found " ++ token.lexeme.describe, token.pos,
          some "a keyword"⟩

/-- A call passes the token at which it begins, or it and all later calls are stuck there. -/
theorem stuck_or_advances (holds : parser.input.Holds front stop)
    (left : Left front parser.place rest) (mode : Mode) :
    ∃ token, parser.input.tokens[parser.place]? = some token ∧
      (parser.place < (parser.parse mode).2.place ∨
        (∀ text, ¬ token.lexeme.Values text) ∧ StuckAt token (parser.parse mode).1 ∧
          ∀ later, parser.repeated (mode :: later) =
            List.replicate (later.length + 1) (parser.parse mode).1) := by
  rcases parse_cases holds left with
    ⟨rfl, fixed⟩ | ⟨token, more, rfl, isBrace, fixed⟩ | ⟨token, more, text, rfl, -, passes⟩
  · refine ⟨⟨.endOfInput, stop⟩, holds.getElem?_end left, .inr ⟨by simp [Lexeme.Values], ?_, ?_⟩⟩
    · rw [fixed]
      exact .inl ⟨rfl, rfl⟩
    · intro later
      rw [repeated_of_fixed fixed, fixed]
      rfl
  · refine ⟨token, holds.getElem?_of_left left, .inr ⟨?_, ?_, ?_⟩⟩
    · rcases isBrace with isBrace | isBrace <;> simp [isBrace, Lexeme.Values]
    · rw [fixed]
      exact .inr ⟨isBrace, _, rfl, rfl⟩
    · intro later
      rw [repeated_of_fixed fixed, fixed]
      rfl
  · exact ⟨token, holds.getElem?_of_left left, .inl (passes mode)⟩

/-- No call passes the first end. -/
theorem place_asked_le (holds : parser.input.Holds front stop)
    (inside : parser.place ≤ front.length) (modes : List Mode) :
    (parser.asked modes).place ≤ front.length := by
  induction modes generalizing parser with
  | nil => exact inside
  | cons mode modes ih =>
    have after := (parse_of_holds holds ⟨inside, rfl⟩ mode).2.inside
    exact @ih (parser.parse mode).2 holds after

end

end

end Parser

/-- The place at which a parser of the tokens stands when it was asked once in each mode. -/
def cursorAfter (modes : List Mode) (tokens : List Token) : Nat :=
  ((Parser.ofTokens tokens).asked modes).place

theorem cursorAfter_append (modes : List Mode) (mode : Mode) (tokens : List Token) :
    cursorAfter (modes ++ [mode]) tokens =
      (((Parser.ofTokens tokens).asked modes).parse mode).2.place := by
  rw [cursorAfter, Parser.asked_append]
  rfl

theorem cursorAfter_le_firstEnd (modes : List Mode) (tokens : List Token) :
    cursorAfter modes tokens ≤ firstEnd (withEnd tokens) := by
  have holds := Parser.holds tokens
  rw [show firstEnd (withEnd tokens) = _ from holds.firstEnd_eq]
  exact Parser.place_asked_le holds (Nat.zero_le _) modes

theorem cursorAfter_le (modes : List Mode) (mode : Mode) (tokens : List Token) :
    cursorAfter modes tokens ≤ cursorAfter (modes ++ [mode]) tokens := by
  rw [cursorAfter_append]
  exact Parser.place_le_parse ..

/-- A sequence that never falls rises at most as often as it gains in all. -/
theorem countP_rises_le {f : Nat → Nat} {steps : Nat} (rises : ∀ i < steps, f i ≤ f (i + 1)) :
    (List.range steps).countP (fun i => f i < f (i + 1)) + f 0 ≤ f steps := by
  induction steps with
  | zero => simp
  | succ steps ih =>
    have before := ih fun i inside => rises i (Nat.lt_succ_of_lt inside)
    have last := rises steps (Nat.lt_succ_self _)
    rw [List.range_succ, List.countP_append, List.countP_singleton]
    split
    · rename_i gains
      have gains := of_decide_eq_true gains
      omega
    · omega

/-- Of any calls, at most as many advance as there are tokens before the first end. -/
theorem countP_advancing_le (modes : List Mode) (tokens : List Token) :
    (List.range modes.length).countP (fun i =>
        cursorAfter (modes.take i) tokens < cursorAfter (modes.take (i + 1)) tokens) ≤
      firstEnd (withEnd tokens) := by
  have rises : ∀ i < modes.length,
      cursorAfter (modes.take i) tokens ≤ cursorAfter (modes.take (i + 1)) tokens := by
    intro i inside
    rw [List.take_succ_eq_append_getElem inside]
    exact cursorAfter_le ..
  have counted := countP_rises_le (f := fun i => cursorAfter (modes.take i) tokens) rises
  exact (Nat.le_of_add_right_le counted).trans (cursorAfter_le_firstEnd _ _)

/-- A parser that is asked again and again either advances or is stuck for ever. It never goes back
and never beyond the first end. A call that begins at a word or a literal advances, and one that
succeeds leaves the parser at the end. Where a call does not advance, every later call gives the
same answer, in any mode. So no more calls advance than there are tokens before the first end. -/
theorem repeated_parses_settle (tokens : List Token) :
    (∀ modes mode,
      let here := cursorAfter modes tokens
      let there := cursorAfter (modes ++ [mode]) tokens
      let answer := (((Parser.ofTokens tokens).asked modes).parse mode).1
      (Parser.ofTokens tokens).repeated (modes ++ [mode]) =
        (Parser.ofTokens tokens).repeated modes ++ [answer] ∧
      here ≤ there ∧ there ≤ firstEnd (withEnd tokens) ∧
      (∀ nodes, answer = .ok nodes → there = firstEnd (withEnd tokens)) ∧
      ∃ token, (withEnd tokens)[here]? = some token ∧
        (∀ text, token.lexeme.Values text → here < there) ∧
        (there = here → Parser.StuckAt token answer ∧
          ∀ later, (Parser.ofTokens tokens).repeated (modes ++ mode :: later) =
            (Parser.ofTokens tokens).repeated modes ++
              List.replicate (later.length + 1) answer)) ∧
    ∀ modes : List Mode,
      (List.range modes.length).countP (fun i =>
          cursorAfter (modes.take i) tokens < cursorAfter (modes.take (i + 1)) tokens) ≤
        firstEnd (withEnd tokens) := by
  refine ⟨fun modes mode => ?_, fun modes => countP_advancing_le modes tokens⟩
  have first := Parser.holds tokens
  have holds := (Parser.ofTokens tokens).input_asked modes ▸ first
  have left := Left.mk (Parser.place_asked_le first (Nat.zero_le _) modes) rfl
  -- The call begins at a token of those that the parser holds, at the end if it passed all others.
  obtain ⟨token, begins, outcome⟩ := Parser.stuck_or_advances holds left mode
  refine ⟨Parser.repeated_append .., cursorAfter_le .., cursorAfter_le_firstEnd .., ?_, token, ?_,
    ?_, ?_⟩
  · intro nodes success
    obtain ⟨result, after⟩ := Parser.parse_of_holds holds left mode
    rw [rest_program_of_ok (result.symm.trans success)] at after
    rw [cursorAfter_append, show firstEnd (withEnd tokens) = _ from first.firstEnd_eq]
    exact after.eq_length
  · rw [Parser.input_asked] at begins
    exact begins
  · intro text values
    rcases outcome with advances | ⟨noValue, -⟩
    · rw [cursorAfter_append]
      exact advances
    · exact absurd values (noValue text)
  · intro same
    rcases outcome with advances | ⟨-, stuck, again⟩
    · rw [cursorAfter_append] at same
      exact absurd same advances.ne'
    · refine ⟨stuck, fun later => ?_⟩
      rw [Parser.repeated_append, again]

theorem repeated_brokenTokens :
    0 < cursorAfter [.strict] brokenTokens ∧
    (∀ later, (Parser.ofTokens brokenTokens).repeated (.strict :: .permissive :: later) =
      .error (.parse ⟨1, 11⟩ (.noOperand .tableName .closeBrace)) ::
        List.replicate (later.length + 1) (.error (.parse ⟨1, 11⟩ (.noKeyword .closeBrace)))) ∧
    cursorAfter [.permissive] [⟨.literal "?", ⟨7, 7⟩⟩] = 1 := by
  obtain ⟨calls, -⟩ := repeated_parses_settle brokenTokens
  obtain ⟨-, -, -, -, first, begins, advances, -⟩ := calls [] .strict
  obtain ⟨-, -, -, -, _, -, -, stuck⟩ := calls [.strict] .permissive
  have start : cursorAfter [] brokenTokens = 0 := rfl
  have stops : cursorAfter [.strict] brokenTokens = 3 := by decide +kernel
  have stays : cursorAfter [.strict, .permissive] brokenTokens =
      cursorAfter [.strict] brokenTokens := by decide +kernel
  have failed : parseTokens .strict brokenTokens =
      .error (.parse ⟨1, 11⟩ (.noOperand .tableName .closeBrace)) := by
    rw [parseTokens_eq_program]
    cbv
  have refused : (((Parser.ofTokens brokenTokens).asked [.strict]).parse .permissive).1 =
      .error (.parse ⟨1, 11⟩ (.noKeyword .closeBrace)) := by
    have left : Left (brokenTokens.take 5) (cursorAfter [.strict] brokenTokens)
        [⟨.closeBrace, ⟨1, 11⟩⟩, ⟨.closeBrace, ⟨1, 13⟩⟩] := by
      rw [stops]
      exact ⟨by decide, by decide⟩
    have holds : ((Parser.ofTokens brokenTokens).asked [.strict]).input.Holds (brokenTokens.take 5)
        (stopOf brokenTokens) := Parser.holds brokenTokens
    rw [(Parser.parse_of_holds holds left .permissive).1]
    cbv
  refine ⟨?_, fun later => ?_, ?_⟩
  · rw [start] at begins advances
    obtain rfl : ⟨.word "ui", ⟨1, 1⟩⟩ = first := Option.some.inj begins
    exact advances "ui" (.inl rfl)
  · have same := (stuck stays).2 later
    rw [refused] at same
    exact same.trans (congrArg (fun answer => answer :: _) failed)
  · obtain ⟨-, -, -, ends, -⟩ :=
      (repeated_parses_settle [⟨.literal "?", ⟨7, 7⟩⟩]).1 [] .permissive
    have read : parseTokens .permissive [⟨.literal "?", ⟨7, 7⟩⟩] =
        .ok [.raw ⟨7, 7⟩ "\"?\""] := by
      rw [parseTokens_eq_program]
      cbv
    exact ends _ read

end Pagewright
