import Pagewright.Proofs.SuffixReading

set_option autoImplicit false

namespace Pagewright

/-- The input begins with these tokens, and the first end of input comes behind them. -/
structure Input.Holds (input : Input) (front : List Token) (stop : Position) : Prop where
  whole : ∃ back, input.tokens = front ++ ⟨.endOfInput, stop⟩ :: back
  endless : ∀ token ∈ front, token.lexeme ≠ .endOfInput

/-- What is left at a place of the tokens before the first end. -/
structure Left (front : List Token) (place : Nat) (rest : List Token) : Prop where
  inside : place ≤ front.length
  rest : front.drop place = rest

section

variable {front rest : List Token} {place : Nat} {token : Token}

theorem Left.start (front : List Token) : Left front 0 front := ⟨Nat.zero_le _, rfl⟩

theorem Left.getElem? (left : Left front place (token :: rest)) : front[place]? = some token := by
  rw [← List.head?_drop, left.rest]
  rfl

theorem Left.lt_length (left : Left front place (token :: rest)) : place < front.length := by
  obtain ⟨inside, -⟩ := List.getElem?_eq_some_iff.mp left.getElem?
  exact inside

theorem Left.behind (left : Left front place (token :: rest)) : Left front (place + 1) rest := by
  refine ⟨left.lt_length, ?_⟩
  rw [← List.tail_drop, left.rest, List.tail_cons]

theorem Left.place_add_length (left : Left front place rest) :
    place + rest.length = front.length := by
  have := left.inside
  rw [← left.rest, List.length_drop]
  omega

theorem Left.eq_length (left : Left front place []) : place = front.length :=
  Nat.le_antisymm left.inside (List.drop_eq_nil_iff.mp left.rest)

end

namespace Input

variable {input : Input} {front rest : List Token} {stop : Position} {place : Nat} {token : Token}

/-- Before the last token nothing is clamped. -/
theorem getElem?_eq_peek (inside : place < input.tokens.length) :
    input.tokens[place]? = some (input.peek place) := by
  have here : min place (input.tokens.length - 1) = place := by omega
  unfold peek
  simp only [here]
  exact List.getElem?_eq_getElem inside

theorem peek_eq_of_getElem? (found : input.tokens[place]? = some token) :
    input.peek place = token := by
  obtain ⟨inside, -⟩ := List.getElem?_eq_some_iff.mp found
  exact Option.some.inj ((getElem?_eq_peek inside).symm.trans found)

theorem Holds.getElem?_of_left (holds : input.Holds front stop)
    (left : Left front place (token :: rest)) : input.tokens[place]? = some token := by
  obtain ⟨back, whole⟩ := holds.whole
  rw [whole, List.getElem?_append_left left.lt_length, left.getElem?]

theorem Holds.getElem?_end (holds : input.Holds front stop) (left : Left front place []) :
    input.tokens[place]? = some ⟨.endOfInput, stop⟩ := by
  obtain ⟨back, whole⟩ := holds.whole
  obtain rfl := left.eq_length
  rw [whole, List.getElem?_append_right (Nat.le_refl _), Nat.sub_self, List.getElem?_cons_zero]

theorem Holds.peek_of_left (holds : input.Holds front stop)
    (left : Left front place (token :: rest)) : input.peek place = token :=
  peek_eq_of_getElem? (holds.getElem?_of_left left)

theorem Holds.peek_end (holds : input.Holds front stop) (left : Left front place []) :
    input.peek place = ⟨.endOfInput, stop⟩ :=
  peek_eq_of_getElem? (holds.getElem?_end left)

theorem Holds.goesOn (holds : input.Holds front stop) (left : Left front place (token :: rest)) :
    token.lexeme ≠ .endOfInput :=
  holds.endless token (List.mem_of_getElem? left.getElem?)

theorem Holds.advance (holds : input.Holds front stop)
    (left : Left front place (token :: rest)) : Left front (input.advance place) rest := by
  have goesOn : (input.peek place).lexeme ≠ .endOfInput := by
    rw [holds.peek_of_left left]
    exact holds.goesOn left
  rw [Input.advance, if_pos (input.lt_length_of_not_end goesOn)]
  exact left.behind

end Input

/-- The attempt has the result of the reading and stops at the place where the reading leaves its
rest, which is not behind the first end. -/
structure Attempt.Refines {start : Nat} {tokens : List Token} {α : Type} (front : List Token)
    (attempt : Attempt start α) (reading : Reading tokens α) : Prop where
  result : attempt.result = reading.result
  left : Left front attempt.place reading.rest

namespace Attempt

variable {front tokens : List Token} {start : Nat} {α β : Type}

theorem refines_done (left : Left front start tokens) (value : α) :
    (done value : Attempt start α).Refines front (.done value : Reading tokens α) :=
  ⟨rfl, left⟩

theorem refines_fail (left : Left front start tokens) (pos : Position) (fault : ParseFault) :
    (fail pos fault : Attempt start α).Refines front (.fail pos fault : Reading tokens α) :=
  ⟨rfl, left⟩

variable {attempt : Attempt start α} {reading : Reading tokens α}

theorem Refines.map (refines : attempt.Refines front reading) (f : α → β) :
    (attempt.map f).Refines front (reading.map f) :=
  ⟨congrArg (Except.map f) refines.result, refines.left⟩

theorem Refines.pass {input : Input} {place : Nat} {attempt : Attempt (input.advance place) α}
    (refines : attempt.Refines front reading) (token : Token) :
    (input.pass place attempt).Refines front (reading.behind token) :=
  ⟨refines.result, refines.left⟩

theorem Refines.andThen {next : (value : α) → attempt.result = .ok value → Attempt attempt.place β}
    {readOn : α → (rest : List Token) → rest <:+ tokens → Reading rest β}
    (refines : attempt.Refines front reading)
    (later : ∀ value read, Left front attempt.place reading.rest →
      (next value read).Refines front (readOn value reading.rest reading.suffix)) :
    (attempt.andThen next).Refines front (reading.andThen readOn) := by
  cases begun : attempt.result with
  | error diagnostic =>
    obtain ⟨result, rest⟩ :=
      Reading.andThen_of_error readOn (refines.result.symm.trans begun)
    rw [andThen_of_error next begun]
    exact ⟨result.symm, rest ▸ refines.left⟩
  | ok value =>
    obtain ⟨result, rest⟩ := Reading.andThen_of_ok readOn (refines.result.symm.trans begun)
    obtain ⟨same, left⟩ := later value begun refines.left
    rw [andThen_of_ok next begun]
    exact ⟨same.trans result.symm, rest ▸ left⟩

end Attempt

namespace Input

open Attempt

variable {input : Input} {front tokens : List Token} {stop : Position} {place : Nat}

theorem refines_operand (holds : input.Holds front stop) (left : Left front place tokens)
    {text? : Lexeme → Option String} (noText : text? .endOfInput = none) (construct : Construct) :
    (input.operand text? construct place).Refines front
      (Parse.operand stop text? construct tokens) := by
  unfold operand
  cases tokens with
  | nil =>
    rw [holds.peek_end left, noText]
    exact refines_fail left _ _
  | cons token rest =>
    rw [holds.peek_of_left left, Parse.operand]
    cases text? token.lexeme with
    | none => exact refines_fail left _ _
    | some text => exact (refines_done (holds.advance left) text).pass token

theorem refines_name (holds : input.Holds front stop) (left : Left front place tokens)
    (construct : Construct) :
    (input.name construct place).Refines front (Parse.name stop construct tokens) :=
  refines_operand holds left rfl construct

theorem refines_value (holds : input.Holds front stop) (left : Left front place tokens)
    (construct : Construct) :
    (input.value construct place).Refines front (Parse.value stop construct tokens) :=
  refines_operand holds left rfl construct

theorem refines_opened (holds : input.Holds front stop) (left : Left front place tokens)
    (owner : String) :
    (input.opened owner place).Refines front (Parse.opened stop owner tokens) := by
  unfold opened
  cases tokens with
  | nil =>
    rw [holds.peek_end left]
    exact refines_fail left _ _
  | cons token rest =>
    rw [holds.peek_of_left left, Parse.opened]
    split
    · exact (refines_done (holds.advance left) ()).pass token
    · exact refines_fail left _ _

/-- What the fields of a table do at each token. -/
theorem fields_at {lexeme : Lexeme} {pos : Position} (here : input.peek place = ⟨lexeme, pos⟩) :
    input.fields place =
      match lexeme with
      | .closeBrace => input.pass place (.done [])
      | .endOfInput => .fail pos (.notClosed "table")
      | .word name => input.pass place ((input.fields _).map (⟨name, pos⟩ :: ·))
      | other => .fail pos (.noOperand .fieldName other) := by
  rw [fields]
  split <;> rename_i found <;> rw [here] at found <;> obtain rfl := found <;> simp only [here]

/-- What the rest of a brace group does at each token. -/
theorem group_at {lexeme : Lexeme} {pos : Position} (here : input.peek place = ⟨lexeme, pos⟩)
    (owner : String) (depth : Nat) :
    input.group owner depth place =
      match lexeme, depth with
      | .endOfInput, _ => .fail pos (.notClosed owner)
      | .openBrace, depth => input.pass place (input.group owner (depth + 1) _)
      | .closeBrace, 0 => input.pass place (.done ())
      | .closeBrace, depth + 1 => input.pass place (input.group owner depth _)
      | _, depth => input.pass place (input.group owner depth _) := by
  rw [group]
  cases depth <;>
    split <;> rename_i found <;> rw [here] at found <;> obtain rfl := found <;> simp only [here]

theorem refines_fields (holds : input.Holds front stop) (left : Left front place tokens) :
    (input.fields place).Refines front (Parse.fields stop tokens) := by
  induction tokens generalizing place with
  | nil =>
    rw [fields_at (holds.peek_end left), Parse.fields]
    exact refines_fail left _ _
  | cons token rest ih =>
    obtain ⟨lexeme, pos⟩ := token
    rw [fields_at (holds.peek_of_left left), Parse.fields]
    cases lexeme with
    | closeBrace => exact (refines_done (holds.advance left) []).pass _
    | endOfInput => exact absurd rfl (holds.goesOn left)
    | word name => exact ((ih (holds.advance left)).map _).pass _
    | literal text => exact refines_fail left _ _
    | openBrace => exact refines_fail left _ _

theorem refines_group (holds : input.Holds front stop) (left : Left front place tokens)
    (owner : String) (depth : Nat) :
    (input.group owner depth place).Refines front (Parse.group stop owner depth tokens) := by
  induction tokens generalizing place depth with
  | nil =>
    rw [group_at (holds.peek_end left), Parse.group]
    exact refines_fail left _ _
  | cons token rest ih =>
    obtain ⟨lexeme, pos⟩ := token
    rw [group_at (holds.peek_of_left left), Parse.group.eq_def]
    have deeper := ih (holds.advance left)
    cases lexeme with
    | endOfInput => exact absurd rfl (holds.goesOn left)
    | openBrace => exact (deeper _).pass _
    | closeBrace =>
      cases depth with
      | zero => exact (refines_done (holds.advance left) ()).pass _
      | succ depth => exact (deeper _).pass _
    | word text => exact (deeper _).pass _
    | literal text => exact (deeper _).pass _

theorem refines_raw (holds : input.Holds front stop) (left : Left front place tokens) (mode : Mode)
    (pos : Position) (token : String) :
    (input.raw mode pos token place).Refines front (Parse.raw stop mode pos token tokens) := by
  cases mode with
  | strict => exact refines_fail left _ _
  | permissive =>
    have skipped : ((input.opened token place).andThen fun _ _ =>
        input.group ("'" ++ token ++ "'") 0 _).Refines front
        ((Parse.opened stop token tokens).andThen fun _ rest _ =>
          Parse.group stop ("'" ++ token ++ "'") 0 rest) :=
      (refines_opened holds left token).andThen fun _ _ left => refines_group holds left _ 0
    unfold raw
    cases tokens with
    | nil =>
      rw [holds.peek_end left]
      exact refines_done left _
    | cons next rest =>
      obtain ⟨lexeme, bracePos⟩ := next
      rw [holds.peek_of_left left]
      cases lexeme with
      | openBrace => exact skipped.map _
      | word text => exact refines_done left _
      | literal text => exact refines_done left _
      | closeBrace => exact refines_done left _
      | endOfInput => exact refines_done left _

theorem refines_optionalSource (holds : input.Holds front stop) (left : Left front place tokens) :
    (input.optionalSource place).Refines front (Parse.optionalSource stop tokens) := by
  unfold optionalSource
  cases tokens with
  | nil =>
    rw [holds.peek_end left]
    exact refines_done left _
  | cons token rest =>
    rw [holds.peek_of_left left, Parse.optionalSource]
    split
    · exact ((refines_name holds (holds.advance left) _).map _).pass token
    · exact refines_done left _

end Input

/-- The bodies that are read from places are those that are read from suffixes, with the closing
brace. -/
def Input.BodiesRefine (stop : Position) (front : List Token) {place : Nat} {tokens : List Token}
    (body : Input.BodyReader place) (suffixBody : Parse.BodyReader tokens) : Prop :=
  ∀ context owner inner (within : place ≤ inner) rest (suffix : rest <:+ tokens),
    Left front inner rest →
      (body context owner inner within).Refines front
        (Parse.closing stop owner (suffixBody context owner rest suffix))

namespace Input

open Attempt

variable {input : Input} {front tokens : List Token} {stop : Position} {place : Nat}
  {body : BodyReader place} {suffixBody : Parse.BodyReader tokens}

theorem BodiesRefine.within {inner : Nat} {rest : List Token}
    (bodies : BodiesRefine stop front body suffixBody) (within : place ≤ inner)
    (suffix : rest <:+ tokens) :
    BodiesRefine stop front
      (fun context owner later behind => body context owner later (Nat.le_trans within behind))
      (fun context owner left behind => suffixBody context owner left (behind.trans suffix)) :=
  fun context owner later behind left after =>
    bodies context owner later (Nat.le_trans within behind) left (after.trans suffix)

theorem refines_block (holds : input.Holds front stop) (left : Left front place tokens)
    (bodies : BodiesRefine stop front body suffixBody) (context : Context) (owner : String) :
    (input.block context owner place body).Refines front
      (Parse.block stop context owner tokens suffixBody) :=
  (refines_opened holds left owner).andThen fun _ _ left =>
    bodies context owner _ _ _ _ left

theorem refines_optionalBlock (holds : input.Holds front stop) (left : Left front place tokens)
    (bodies : BodiesRefine stop front body suffixBody) (context : Context) (owner : String) :
    (input.optionalBlock context owner place body).Refines front
      (Parse.optionalBlock stop context owner tokens suffixBody) := by
  have block := refines_block holds left bodies context owner
  unfold optionalBlock Parse.optionalBlock
  cases tokens with
  | nil =>
    rw [holds.peek_end left]
    exact refines_done left _
  | cons token rest =>
    simp only [holds.peek_of_left left, List.head?_cons, Option.map_some, Option.some.injEq]
    split
    · exact block
    · exact refines_done left _

theorem refines_sentence (holds : input.Holds front stop) (left : Left front place tokens)
    (bodies : BodiesRefine stop front body suffixBody) (keyword : Keyword) (pos : Position) :
    (input.sentence keyword pos place body).Refines front
      (Parse.sentence stop keyword pos tokens suffixBody) := by
  cases keyword with
  | app | text | condition => exact (refines_value holds left _).map _
  | refresh | delete => exact (refines_name holds left _).map _
  | input | insert =>
    rw [sentence, Parse.sentence]
    exact (refines_name holds left _).andThen fun _ _ left => (refines_name holds left _).map _
  | button =>
    rw [sentence, Parse.sentence]
    exact (refines_value holds left _).andThen fun _ _ left => (refines_name holds left _).map _
  | update =>
    rw [sentence, Parse.sentence]
    exact (refines_name holds left _).andThen fun _ _ left =>
      (refines_optionalSource holds left).map _
  | table =>
    rw [sentence, Parse.sentence]
    exact (refines_name holds left _).andThen fun _ _ left =>
      (refines_opened holds left _).andThen fun _ _ left => (refines_fields holds left).map _
  | block kind => exact (refines_block holds left bodies _ _).map _
  | list =>
    rw [sentence, Parse.sentence]
    exact (refines_name holds left _).andThen fun _ _ left =>
      have inside := bodies.within (Attempt.forward _) (Reading.suffix _)
      (refines_optionalBlock holds left inside _ _).map _
  | function =>
    rw [sentence, Parse.sentence]
    exact (refines_name holds left _).andThen fun _ _ left =>
      have inside := bodies.within (Attempt.forward _) (Reading.suffix _)
      (refines_block holds left inside _ _).map _

theorem refines_ofWord (holds : input.Holds front stop) (left : Left front place tokens)
    (bodies : BodiesRefine stop front body suffixBody) (mode : Mode) (word : String)
    (pos : Position) :
    (input.ofWord mode word pos place body).Refines front
      (Parse.ofWord stop mode word pos tokens suffixBody) := by
  unfold ofWord Parse.ofWord
  cases Keyword.ofWord? word with
  | none => exact refines_raw holds left mode pos word
  | some keyword => exact refines_sentence holds left bodies keyword pos

end Input

namespace Input

open Attempt

variable {input : Input} {front tokens : List Token} {stop : Position} {place : Nat}

section

variable {mode : Mode} {word : String} {pos : Position}
  {body : Context → String → (inner : Nat) → place < inner → Attempt inner (List Node)}

theorem node_at_word (here : input.peek place = ⟨.word word, pos⟩) :
    ∃ later : place < input.advance place, input.node mode place body =
      input.pass place (input.ofWord mode word pos _ fun context owner inner within =>
        body context owner inner (Nat.lt_of_lt_of_le later within)) := by
  refine ⟨input.lt_advance (by rw [here]; nofun), ?_⟩
  unfold Input.node
  split <;> rename_i found <;> rw [here] at found <;> cases found
  simp only [here]

theorem node_at_literal (here : input.peek place = ⟨.literal word, pos⟩) :
    input.node mode place body =
      input.pass place (input.raw mode pos ("\"" ++ word ++ "\"") _) := by
  unfold Input.node
  split <;> rename_i found <;> rw [here] at found <;> cases found
  simp only [here]

/-- No node begins at a brace. -/
theorem nodeIn_at_brace {lexeme : Lexeme}
    (isBrace : lexeme = .openBrace ∨ lexeme = .closeBrace)
    (here : input.peek place = ⟨lexeme, pos⟩) (context : Context) (owner : String) :
    input.nodeIn mode context owner place body = .fail pos (.noKeyword lexeme) := by
  have failed : input.node mode place body = .fail pos (.noKeyword lexeme) := by
    rcases isBrace with rfl | rfl <;>
      unfold Input.node <;> split <;> rename_i found <;> rw [here] at found <;> cases found <;>
        simp only [here]
  rw [nodeIn, failed]
  rfl

end

theorem refines_nodeIn (holds : input.Holds front stop) {token : Token} {text : String}
    (left : Left front place (token :: tokens)) (values : token.lexeme.Values text) (mode : Mode)
    (context : Context) (owner : String)
    {body : Context → String → (inner : Nat) → place < inner → Attempt inner (List Node)}
    (bodies : ∀ context owner inner later rest, rest <:+ tokens → Left front inner rest →
      (body context owner inner later).Refines front (Parse.body stop mode context owner rest)) :
    (input.nodeIn mode context owner place body).Refines front
      (Parse.nodeIn stop mode context owner token tokens) := by
  have refines : (input.node mode place body).Refines front
      ((Parse.node stop mode token tokens fun context owner rest _ =>
        Parse.nodes stop mode context owner rest).behind token) := by
    obtain ⟨lexeme, pos⟩ := token
    have here := holds.peek_of_left left
    have behind := holds.advance left
    rcases values with rfl | rfl
    · obtain ⟨later, node⟩ : ∃ later : place < input.advance place,
          input.node mode place body = _ := node_at_word here
      rw [node]
      refine (refines_ofWord holds behind ?_ mode text pos).pass _
      exact fun context owner inner _ rest suffix left =>
        bodies context owner inner _ rest suffix left
    · rw [node_at_literal here]
      exact (refines_raw holds behind mode pos _).pass _
  rw [Parse.nodeIn, ← Reading.behind_andThen token _ fun first _ =>
    if context.accepts first then .done first
    else .fail first.pos (.notAccepted context owner first.opening)]
  refine refines.andThen fun first _ left => ?_
  split
  · exact refines_done left _
  · exact refines_fail left _ _

/-- A node of a block and what comes behind it. -/
theorem refines_nodeIn_cons (holds : input.Holds front stop) {token : Token} {text : String}
    (left : Left front place (token :: tokens)) (values : token.lexeme.Values text) (mode : Mode)
    (context : Context) (owner : String)
    {more : (inner : Nat) → Attempt inner (List Node)}
    {readOn : (rest : List Token) → Reading rest (List Node)}
    {body : Context → String → (inner : Nat) → place < inner → Attempt inner (List Node)}
    (bodies : ∀ context owner inner later rest, rest <:+ tokens → Left front inner rest →
      (body context owner inner later).Refines front (Parse.body stop mode context owner rest))
    (others : ∀ inner rest, rest <:+ tokens → Left front inner rest →
      (more inner).Refines front (readOn rest)) :
    ((input.nodeIn mode context owner place body).andThen fun first _ =>
        (more _).map (first :: ·)).Refines front
      ((Parse.nodeIn stop mode context owner token tokens).andThen fun first rest _ =>
        (readOn rest).map (first :: ·)) :=
  (refines_nodeIn holds left values mode context owner bodies).andThen fun _ _ standing =>
    (others _ _ (Parse.rest_nodeIn stop mode context owner token tokens) standing).map _

section

variable {mode : Mode} {context : Context} {owner : String}

theorem body_at_end (here : input.peek place = ⟨.endOfInput, stop⟩) :
    input.body mode context owner place = .fail stop (.notClosed owner) := by
  rw [body, if_neg (by rw [here]; nofun), dif_pos (by rw [here]), here]

theorem body_at_close (here : (input.peek place).lexeme = .closeBrace) :
    input.body mode context owner place = input.pass place (.done []) := by
  rw [body, if_pos here]

theorem body_goes_on (inside : (input.peek place).lexeme ≠ .closeBrace)
    (goesOn : (input.peek place).lexeme ≠ .endOfInput) :
    input.body mode context owner place =
      (input.nodeIn mode context owner place fun context owner inner _ =>
        input.body mode context owner inner).andThen fun first _ =>
          (input.body mode context owner _).map (first :: ·) := by
  rw [body, if_neg inside, dif_neg goesOn]

theorem program_at_end (ended : (input.peek place).lexeme = .endOfInput) :
    input.program mode place = .done [] := by
  rw [program, dif_pos ended]

theorem program_goes_on (goesOn : (input.peek place).lexeme ≠ .endOfInput) :
    input.program mode place =
      (input.nodeIn mode .general "program" place fun context owner inner _ =>
        input.body mode context owner inner).andThen fun first _ =>
          (input.program mode _).map (first :: ·) := by
  rw [program, dif_neg goesOn]

end

theorem refines_body (holds : input.Holds front stop) (mode : Mode) (context : Context)
    (owner : String) (left : Left front place tokens) :
    (input.body mode context owner place).Refines front
      (Parse.body stop mode context owner tokens) := by
  induction size : tokens.length using Nat.strongRecOn generalizing tokens context owner place with
  | ind size ih =>
    subst size
    cases tokens with
    | nil =>
      rw [body_at_end (holds.peek_end left), Parse.body, Parse.nodes]
      exact refines_fail left _ _
    | cons token rest =>
      -- Inner blocks and the rest of this block are read from fewer tokens.
      have shorter : ∀ inner left, left <:+ rest → Left front inner left → ∀ context owner,
          (input.body mode context owner inner).Refines front
            (Parse.body stop mode context owner left) :=
        fun inner left within standing context owner =>
          ih _ (Nat.lt_succ_of_le within.length_le) context owner standing rfl
      obtain ⟨lexeme, pos⟩ := token
      have here := holds.peek_of_left left
      have goesOn : (input.peek place).lexeme ≠ .endOfInput := here ▸ holds.goesOn left
      have atValue : ∀ text, lexeme.Values text →
          (input.body mode context owner place).Refines front
            (Parse.body stop mode context owner (⟨lexeme, pos⟩ :: rest)) := by
        intro text values
        have inside : (input.peek place).lexeme ≠ .closeBrace := by
          rw [here]
          rcases values with rfl | rfl <;> simp
        rw [body_goes_on inside goesOn, Parse.body_cons stop mode context owner values]
        exact refines_nodeIn_cons holds left values mode context owner
          (fun context owner inner _ left within standing =>
            shorter inner left within standing context owner)
          (fun inner left within standing => shorter inner left within standing context owner)
      cases lexeme with
      | word text => exact atValue text (.inl rfl)
      | literal text => exact atValue text (.inr rfl)
      | closeBrace =>
        rw [body_at_close (congrArg Token.lexeme here), Parse.body, Parse.nodes]
        exact (refines_done (holds.advance left) []).pass ⟨.closeBrace, pos⟩
      | openBrace =>
        rw [body_goes_on (by simp [here]) goesOn, nodeIn_at_brace (.inl rfl) here, Parse.body,
          Parse.nodes]
        exact refines_fail left _ _
      | endOfInput => exact absurd rfl (holds.goesOn left)

/-- A program is read from the places of an input as it is read from the tokens before the first
end, and never further than to that end. -/
theorem refines_program (holds : input.Holds front stop) (mode : Mode)
    (left : Left front place tokens) :
    (input.program mode place).Refines front (Parse.program stop mode tokens) := by
  induction size : tokens.length using Nat.strongRecOn generalizing tokens place with
  | ind size ih =>
    subst size
    cases tokens with
    | nil =>
      rw [program_at_end (congrArg Token.lexeme (holds.peek_end left)), Parse.program, Parse.nodes]
      exact refines_done left _
    | cons token rest =>
      obtain ⟨lexeme, pos⟩ := token
      have here := holds.peek_of_left left
      have goesOn : (input.peek place).lexeme ≠ .endOfInput := here ▸ holds.goesOn left
      rw [program_goes_on goesOn]
      have atValue : ∀ text, lexeme.Values text →
          ((input.nodeIn mode .general "program" place fun context owner inner _ =>
            input.body mode context owner inner).andThen fun first _ =>
              (input.program mode _).map (first :: ·)).Refines front
            (Parse.program stop mode (⟨lexeme, pos⟩ :: rest)) := by
        intro text values
        rw [Parse.program_cons stop mode values]
        exact refines_nodeIn_cons holds left values mode .general "program"
          (fun context owner _ _ _ _ standing => refines_body holds mode context owner standing)
          (fun _ _ within standing => ih _ (Nat.lt_succ_of_le within.length_le) standing rfl)
      cases lexeme with
      | word text => exact atValue text (.inl rfl)
      | literal text => exact atValue text (.inr rfl)
      | closeBrace =>
        rw [nodeIn_at_brace (.inr rfl) here, Parse.program, Parse.nodes]
        exact refines_fail left _ _
      | openBrace =>
        rw [nodeIn_at_brace (.inl rfl) here, Parse.program, Parse.nodes]
        exact refines_fail left _ _
      | endOfInput => exact absurd rfl (holds.goesOn left)

end Input

end Pagewright
