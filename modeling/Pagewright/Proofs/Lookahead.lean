import Mathlib.Data.List.TakeWhile
import Pagewright.Proofs.Parsing

set_option autoImplicit false

namespace Pagewright

/-- The same token comes next, or both ends come next and are at the same place. -/
structure SameNext (stop other : Position) (rest others : List Token) : Prop where
  head : others.head? = rest.head?
  atEnd : rest = [] → other = stop

theorem SameNext.append {stop other : Position} {rest others : List Token}
    (same : SameNext stop other rest others) (front : List Token) :
    SameNext stop other (front ++ rest) (front ++ others) := by
  refine ⟨?_, fun empty => same.atEnd (List.append_eq_nil_iff.mp empty).2⟩
  rw [List.head?_append, List.head?_append, same.head]

theorem SameNext.cons {stop other : Position} {token : Token} {back others : List Token}
    (same : SameNext stop other (token :: back) others) : ∃ more, others = token :: more :=
  List.head?_eq_some_iff.mp same.head

theorem SameNext.nil {stop other : Position} {others : List Token}
    (same : SameNext stop other [] others) : others = [] ∧ other = stop :=
  ⟨List.head?_eq_none_iff.mp same.head, same.atEnd rfl⟩

namespace Reading

section

variable {stop other : Position} {tokens others : List Token} {α β : Type}

/-- The second reading does what the first does, provided that its tokens begin with those that the
first passes and that the same comes next. -/
def Echoes (stop other : Position) (first : Reading tokens α) (second : Reading others α) : Prop :=
  ∀ front rest, tokens = front ++ first.rest → others = front ++ rest →
    SameNext stop other first.rest rest → second.result = first.result ∧ second.rest = rest

/-- Readings may look at the next token before they pass it. -/
theorem Echoes.of_sameNext {first : Reading tokens α} {second : Reading others α}
    (echoes : SameNext stop other tokens others → Echoes stop other first second) :
    Echoes stop other first second := by
  intro front rest whole shared same
  have next := same.append front
  rw [← whole, ← shared] at next
  exact echoes next front rest whole shared same

/-- Where the same comes next, both readers are at the end or look at the same token. -/
theorem Echoes.of_read (read : Position → (tokens : List Token) → Reading tokens α)
    (atEnd : Echoes stop stop (read stop []) (read stop []))
    (atToken : ∀ token back more,
      Echoes stop other (read stop (token :: back)) (read other (token :: more))) :
    Echoes stop other (read stop tokens) (read other others) := by
  refine .of_sameNext fun same => ?_
  cases tokens with
  | nil =>
    obtain ⟨rfl, rfl⟩ := same.nil
    exact atEnd
  | cons token back =>
    obtain ⟨more, rfl⟩ := same.cons
    exact atToken token back more

theorem echoes_done (value : α) :
    Echoes stop other (done value : Reading tokens α) (done value : Reading others α) := by
  intro front rest whole shared _
  obtain rfl : front = [] := List.self_eq_append_left.mp whole
  exact ⟨rfl, shared⟩

theorem echoes_fail (pos : Position) (fault : ParseFault) :
    Echoes stop other (fail pos fault : Reading tokens α) (fail pos fault : Reading others α) := by
  intro front rest whole shared _
  obtain rfl : front = [] := List.self_eq_append_left.mp whole
  exact ⟨rfl, shared⟩

theorem Echoes.behind {first : Reading tokens α} {second : Reading others α}
    (echoes : Echoes stop other first second) (token : Token) :
    Echoes stop other (first.behind token) (second.behind token) := by
  intro front rest whole shared same
  obtain ⟨passed, split⟩ := first.suffix
  -- The token itself is passed, since what is left stands behind it.
  have counted : front ++ first.rest = token :: passed ++ first.rest := by
    rw [List.cons_append, split]
    exact whole.symm
  obtain rfl : front = token :: passed := List.append_cancel_right counted
  rw [List.cons_append] at shared
  exact echoes passed rest split.symm (List.cons.inj shared).2 same

theorem Echoes.map {first : Reading tokens α} {second : Reading others α}
    (echoes : Echoes stop other first second) (f : α → β) :
    Echoes stop other (first.map f) (second.map f) := by
  intro front rest whole shared same
  obtain ⟨result, left⟩ := echoes front rest whole shared same
  exact ⟨by rw [map_result, map_result, result], left⟩

/-- The second part goes on where the first stops. -/
theorem andThen_suffix (first : Reading tokens α)
    (next : α → (rest : List Token) → rest <:+ tokens → Reading rest β) :
    (first.andThen next).rest <:+ first.rest := by
  cases outcome : first.result with
  | error diagnostic => exact (andThen_of_error next outcome).2 ▸ List.suffix_rfl
  | ok value =>
    rw [(andThen_of_ok next outcome).2]
    exact (next value first.rest first.suffix).suffix

theorem Echoes.andThen {first : Reading tokens α} {second : Reading others α}
    {firstNext : α → (rest : List Token) → rest <:+ tokens → Reading rest β}
    {secondNext : α → (rest : List Token) → rest <:+ others → Reading rest β}
    (echoes : Echoes stop other first second)
    (next : ∀ value rest within left inside,
      Echoes stop other (firstNext value rest within) (secondNext value left inside)) :
    Echoes stop other (first.andThen firstNext) (second.andThen secondNext) := by
  intro front rest whole shared same
  -- The tokens that the first part passes, and those that the second part passes behind them.
  obtain ⟨passed, split⟩ := first.suffix
  obtain ⟨further, inner⟩ := first.andThen_suffix firstNext
  have counted : front ++ (first.andThen firstNext).rest =
      passed ++ further ++ (first.andThen firstNext).rest := by
    rw [List.append_assoc, inner, split]
    exact whole.symm
  obtain rfl : front = passed ++ further := List.append_cancel_right counted
  rw [List.append_assoc] at shared
  have between := same.append further
  rw [inner] at between
  obtain ⟨result, left⟩ := echoes passed (further ++ rest) split.symm shared between
  cases outcome : first.result with
  | error diagnostic =>
    rw [outcome] at result
    obtain rfl : further = [] := by
      rw [(andThen_of_error firstNext outcome).2] at inner
      exact List.append_left_eq_self.mp inner
    rw [(andThen_of_error firstNext outcome).1, (andThen_of_error secondNext result).1,
      (andThen_of_error secondNext result).2]
    exact ⟨rfl, left⟩
  | ok value =>
    rw [outcome] at result
    rw [(andThen_of_ok firstNext outcome).1, (andThen_of_ok secondNext result).1,
      (andThen_of_ok secondNext result).2]
    rw [(andThen_of_ok firstNext outcome).2] at inner same
    exact next value first.rest first.suffix second.rest second.suffix further rest inner.symm left
      same

end

end Reading

namespace Parse

open Reading

variable (stop other : Position)

theorem echoes_operand (text? : Lexeme → Option String) (construct : Construct)
    (tokens others : List Token) :
    Echoes stop other (operand stop text? construct tokens)
      (operand other text? construct others) := by
  refine .of_read (fun stop => operand stop text? construct) (echoes_fail _ _) ?_
  intro token back more
  unfold operand
  dsimp only
  split
  · exact (echoes_done _).behind token
  · exact echoes_fail _ _

theorem echoes_opened (owner : String) (tokens others : List Token) :
    Echoes stop other (opened stop owner tokens) (opened other owner others) := by
  refine .of_read (fun stop => opened stop owner) (echoes_fail _ _) ?_
  intro token back more
  unfold opened
  dsimp only
  split
  · exact (echoes_done _).behind token
  · exact echoes_fail _ _

theorem echoes_closed (owner : String) (tokens others : List Token) :
    Echoes stop other (closed stop owner tokens) (closed other owner others) := by
  refine .of_read (fun stop => closed stop owner) (echoes_fail _ _) ?_
  intro token back more
  unfold closed
  dsimp only
  split
  · exact (echoes_done _).behind token
  · exact echoes_fail _ _

theorem echoes_fields (tokens others : List Token) :
    Echoes stop other (fields stop tokens) (fields other others) := by
  induction tokens generalizing others with
  | nil =>
    refine .of_sameNext fun same => ?_
    obtain ⟨rfl, rfl⟩ := same.nil
    exact echoes_fail _ _
  | cons token back ih =>
    refine .of_sameNext fun same => ?_
    obtain ⟨more, rfl⟩ := same.cons
    unfold fields
    split
    · exact (echoes_done _).behind token
    · exact ((ih more).map _).behind token
    · exact echoes_fail _ _

theorem echoes_group (owner : String) (depth : Nat) (tokens others : List Token) :
    Echoes stop other (group stop owner depth tokens) (group other owner depth others) := by
  induction tokens generalizing depth others with
  | nil =>
    refine .of_sameNext fun same => ?_
    obtain ⟨rfl, rfl⟩ := same.nil
    exact echoes_fail _ _
  | cons token back ih =>
    refine .of_sameNext fun same => ?_
    obtain ⟨more, rfl⟩ := same.cons
    unfold group
    split
    · exact (ih _ more).behind token
    · cases depth with
      | zero => exact (echoes_done _).behind token
      | succ depth => exact (ih _ more).behind token
    · exact (ih _ more).behind token

theorem echoes_raw (mode : Mode) (pos : Position) (text : String) (tokens others : List Token) :
    Echoes stop other (raw stop mode pos text tokens) (raw other mode pos text others) := by
  cases mode with
  | strict => exact echoes_fail _ _
  | permissive =>
    refine .of_read (fun stop => raw stop .permissive pos text) (echoes_done _) ?_
    intro token back more
    obtain ⟨lexeme, bracePos⟩ := token
    cases lexeme with
    | openBrace => exact ((echoes_group stop other _ _ back more).map _).behind _
    | word | literal | closeBrace | endOfInput => exact echoes_done _

theorem echoes_optionalSource (tokens others : List Token) :
    Echoes stop other (optionalSource stop tokens) (optionalSource other others) := by
  refine .of_read optionalSource (echoes_done _) ?_
  intro token back more
  unfold optionalSource
  dsimp only
  split
  · exact ((echoes_operand stop other _ _ back more).map _).behind token
  · exact echoes_done _

section

variable {tokens others : List Token} {firstBody : BodyReader tokens}
  {secondBody : BodyReader others}

/-- Two readers of bodies of which the second echoes the first on every body. -/
def BodiesEcho (stop other : Position) (firstBody : BodyReader tokens)
    (secondBody : BodyReader others) : Prop :=
  ∀ context owner rest within left inside,
    Echoes stop other (firstBody context owner rest within) (secondBody context owner left inside)

theorem BodiesEcho.within {rest left : List Token}
    (bodies : BodiesEcho stop other firstBody secondBody) (back : rest <:+ tokens)
    (behind : left <:+ others) :
    BodiesEcho stop other
      (fun context owner inner (within : inner <:+ rest) =>
        firstBody context owner inner (within.trans back))
      (fun context owner inner (within : inner <:+ left) =>
        secondBody context owner inner (within.trans behind)) :=
  fun context owner inner within deep inside =>
    bodies context owner inner (within.trans back) deep (inside.trans behind)

theorem echoes_block (bodies : BodiesEcho stop other firstBody secondBody) (context : Context)
    (owner : String) :
    Echoes stop other (block stop context owner tokens firstBody)
      (block other context owner others secondBody) := by
  refine (echoes_opened stop other owner tokens others).andThen fun _ rest within left inside => ?_
  refine (bodies context owner rest within left inside).andThen fun nodes rest _ left _ => ?_
  exact (echoes_closed stop other owner rest left).map _

theorem echoes_optionalBlock (bodies : BodiesEcho stop other firstBody secondBody)
    (context : Context) (owner : String) :
    Echoes stop other (optionalBlock stop context owner tokens firstBody)
      (optionalBlock other context owner others secondBody) := by
  refine .of_sameNext fun same => ?_
  unfold optionalBlock
  rw [same.head]
  split
  · exact echoes_block stop other bodies context owner
  · exact echoes_done _

theorem echoes_sentence (bodies : BodiesEcho stop other firstBody secondBody) (keyword : Keyword)
    (pos : Position) :
    Echoes stop other (sentence stop keyword pos tokens firstBody)
      (sentence other keyword pos others secondBody) := by
  have operands : ∀ text? construct tokens others,
      Echoes stop other (operand stop text? construct tokens)
        (operand other text? construct others) := echoes_operand stop other
  cases keyword with
  | app | text | refresh | delete | condition => exact (operands _ _ _ _).map _
  | input | button | insert =>
    exact (operands _ _ _ _).andThen fun _ _ _ _ _ => (operands _ _ _ _).map _
  | update =>
    refine (operands _ _ _ _).andThen fun _ rest _ left _ => ?_
    exact (echoes_optionalSource stop other rest left).map _
  | table =>
    refine (operands _ _ _ _).andThen fun _ rest _ left _ => ?_
    refine (echoes_opened stop other "table" rest left).andThen fun _ rest _ left _ => ?_
    exact (echoes_fields stop other rest left).map _
  | block kind => exact (echoes_block stop other bodies _ _).map _
  | list =>
    refine (operands _ _ _ _).andThen fun _ rest within left inside => ?_
    exact (echoes_optionalBlock stop other (bodies.within stop other within inside) _ _).map _
  | function =>
    refine (operands _ _ _ _).andThen fun _ rest within left inside => ?_
    exact (echoes_block stop other (bodies.within stop other within inside) _ _).map _

theorem echoes_node (bodies : BodiesEcho stop other firstBody secondBody) (mode : Mode)
    (token : Token) :
    Echoes stop other (node stop mode token tokens firstBody)
      (node other mode token others secondBody) := by
  unfold node
  split
  · unfold ofWord
    split
    · exact echoes_sentence stop other bodies _ _
    · exact echoes_raw stop other _ _ _ tokens others
  · exact echoes_raw stop other _ _ _ tokens others
  · exact echoes_fail _ _

end

theorem echoes_nodes (mode : Mode) (tokens others : List Token) (context : Context)
    (owner : String) :
    Echoes stop other (nodes stop mode context owner tokens)
      (nodes other mode context owner others) := by
  induction size : tokens.length using Nat.strongRecOn generalizing tokens others context owner with
  | ind size ih =>
    subst size
    refine .of_sameNext fun same => ?_
    cases tokens with
    | nil =>
      obtain ⟨rfl, rfl⟩ := same.nil
      rw [nodes]
      exact echoes_done _
    | cons token back =>
      obtain ⟨more, rfl⟩ := same.cons
      -- Inner blocks and the rest of this block are read from fewer tokens.
      have shorter : ∀ rest, rest <:+ back → ∀ left context owner,
          Echoes stop other (nodes stop mode context owner rest)
            (nodes other mode context owner left) := by
        intro rest within left context owner
        exact ih _ (Nat.lt_succ_of_le within.length_le) rest left context owner rfl
      by_cases begins : ∃ text, token.lexeme.Values text
      · obtain ⟨text, values⟩ := begins
        rw [nodes_cons stop mode context owner token text values,
          nodes_cons other mode context owner token text values]
        refine Echoes.behind (Echoes.andThen ?_ fun first rest within left _ => ?_) token
        · refine echoes_node stop other ?_ mode token
          exact fun context owner rest within left _ => shorter rest within left context owner
        · split
          · exact (shorter rest within left context owner).map _
          · exact echoes_fail _ _
      · obtain ⟨lexeme, pos⟩ := token
        cases lexeme with
        | word text => exact absurd ⟨text, .inl rfl⟩ begins
        | literal text => exact absurd ⟨text, .inr rfl⟩ begins
        | closeBrace =>
          rw [nodes, nodes]
          exact echoes_done _
        | openBrace | endOfInput =>
          rw [nodes, nodes]
          exact echoes_fail _ _

theorem echoes_program (mode : Mode) (tokens others : List Token) :
    Echoes stop other (program stop mode tokens) (program other mode others) := by
  refine (echoes_nodes stop other mode tokens others .general "program").andThen
    fun nodes rest _ left _ => ?_
  refine .of_sameNext fun same => ?_
  cases rest with
  | nil =>
    obtain ⟨rfl, -⟩ := same.nil
    exact echoes_done _
  | cons token back =>
    obtain ⟨more, rfl⟩ := same.cons
    exact echoes_fail _ _

end Parse

/-- The index of the first end of input. -/
def firstEnd (tokens : List Token) : Nat :=
  tokens.findIdx fun token => token.lexeme == .endOfInput

/-- The place at which a parser of the tokens stands when it was asked once. -/
def cursor (mode : Mode) (tokens : List Token) : Nat :=
  ((Parser.ofTokens tokens).parse mode).2.place

namespace Input.Holds

variable {input : Input} {front : List Token} {stop : Position}

theorem eq_takeWhile (holds : input.Holds front stop) :
    front = input.tokens.takeWhile fun token => token.lexeme != .endOfInput := by
  obtain ⟨back, whole⟩ := holds.whole
  rw [whole, List.takeWhile_append_of_pos
    fun token member => bne_iff_ne.mpr (holds.endless token member),
    List.takeWhile_cons_of_neg (by simp), List.append_nil]

theorem firstEnd_eq (holds : input.Holds front stop) : firstEnd input.tokens = front.length := by
  obtain ⟨back, whole⟩ := holds.whole
  have absent : front.findIdx (fun token => token.lexeme == .endOfInput) = front.length := by
    rw [List.findIdx_eq_length]
    intro token member
    exact beq_eq_false_iff_ne.mpr (holds.endless token member)
  simp [whole, firstEnd, List.findIdx_append, absent, List.findIdx_cons]

end Input.Holds

/-- What has been passed at a place, and what is left there. -/
theorem Left.exists_passed {front rest : List Token} {place : Nat}
    (left : Left front place rest) : ∃ passed, front = passed ++ rest ∧ place = passed.length := by
  refine ⟨front.take place, ?_, (List.length_take_of_le left.inside).symm⟩
  rw [← left.rest, List.take_append_drop]

/-- What agrees with a list up to the token behind its front, goes on with that token. -/
theorem exists_append_cons_of_agree {front back others : List Token} {next : Token}
    (agree : ∀ i ≤ front.length, others[i]? = (front ++ next :: back)[i]?) :
    ∃ more, others = front ++ next :: more := by
  have first : (front ++ next :: back).take (front.length + 1) = front ++ [next] := by
    rw [List.take_append, List.take_of_length_le (Nat.le_succ _), Nat.add_sub_cancel_left]
    rfl
  have shared : others.take (front.length + 1) = front ++ [next] := by
    rw [← first]
    apply List.ext_getElem?
    intro i
    rw [List.getElem?_take, List.getElem?_take]
    split
    · rename_i inside
      exact agree i (Nat.le_of_lt_succ inside)
    · rfl
  refine ⟨others.drop (front.length + 1), ?_⟩
  calc others = others.take (front.length + 1) ++ others.drop (front.length + 1) :=
        (List.take_append_drop ..).symm
    _ = front ++ next :: others.drop (front.length + 1) := by
        rw [shared, List.append_assoc]
        rfl

/-- A program that is read whole leaves nothing. -/
theorem rest_program_of_ok {stop : Position} {mode : Mode} {tokens : List Token} {nodes : List Node}
    (success : (Parse.program stop mode tokens).result = .ok nodes) :
    (Parse.program stop mode tokens).rest = [] := by
  obtain ⟨read, rest, reads, last⟩ := (Reading.andThen_reads ..).mp (And.intro success rfl)
  cases rest with
  | nil => exact ((Reading.done_reads ..).mp last).2.symm
  | cons token back => exact (Reading.not_fail_reads _ _ _ _ last).elim

/-- An input that agrees with another up to a place begins with the same tokens before it, and there
the same comes next. -/
theorem exists_rest_of_agree {input other : Input} {passed left others : List Token}
    {stop otherStop : Position} (holds : input.Holds (passed ++ left) stop)
    (otherHolds : other.Holds others otherStop)
    (agree : ∀ i ≤ passed.length, other.tokens[i]? = input.tokens[i]?) :
    ∃ rest, others = passed ++ rest ∧ SameNext stop otherStop left rest := by
  obtain ⟨back, whole⟩ := holds.whole
  obtain ⟨otherBack, otherWhole⟩ := otherHolds.whole
  have front := otherHolds.eq_takeWhile
  have readable : ∀ token ∈ passed, (token.lexeme != .endOfInput) = true :=
    fun token member => bne_iff_ne.mpr (holds.endless token (List.mem_append_left _ member))
  rw [whole, List.append_assoc] at agree
  cases left with
  | nil =>
    -- The end itself is agreed on.
    obtain ⟨more, shared⟩ := exists_append_cons_of_agree agree
    rw [shared, List.takeWhile_append_of_pos readable, List.takeWhile_cons_of_neg (by simp),
      List.append_nil] at front
    obtain rfl := front
    have ends := List.append_cancel_left (otherWhole.symm.trans shared)
    cases ends
    exact ⟨[], (List.append_nil _).symm, rfl, fun _ => rfl⟩
  | cons next rest =>
    obtain ⟨more, shared⟩ := exists_append_cons_of_agree agree
    have goesOn : (next.lexeme != .endOfInput) = true :=
      bne_iff_ne.mpr (holds.endless next (List.mem_append_right _ (.head _)))
    rw [shared, List.takeWhile_append_of_pos readable, List.takeWhile_cons, if_pos goesOn] at front
    exact ⟨_, front, rfl, nofun⟩

/-- A parse stops at the first end or before it, and at the end if it succeeds. Its result and the
place where it stops depend only on the tokens up to that place. -/
theorem parse_decided_up_to_cursor (mode : Mode) (tokens : List Token) :
    cursor mode tokens ≤ firstEnd (withEnd tokens) ∧
    (∀ nodes, parseTokens mode tokens = .ok nodes →
      cursor mode tokens = firstEnd (withEnd tokens)) ∧
    ∀ others, (∀ i ≤ cursor mode tokens, (withEnd others)[i]? = (withEnd tokens)[i]?) →
      parseTokens mode others = parseTokens mode tokens ∧
        cursor mode others = cursor mode tokens := by
  have holds := Parser.holds tokens
  obtain ⟨result, left⟩ := Parser.parse_ofTokens mode tokens
  rw [show firstEnd (withEnd tokens) = _ from holds.firstEnd_eq]
  refine ⟨left.inside, fun nodes success => ?_, fun others agree => ?_⟩
  · rw [rest_program_of_ok (result.symm.trans success)] at left
    exact left.eq_length
  · obtain ⟨passed, split, here⟩ := left.exists_passed
    rw [split] at holds
    obtain ⟨rest, shared, same⟩ := exists_rest_of_agree holds (Parser.holds others)
      (here ▸ agree)
    obtain ⟨sameResult, sameRest⟩ :=
      Parse.echoes_program _ _ mode _ _ passed rest split shared same
    obtain ⟨otherResult, otherLeft⟩ := Parser.parse_ofTokens mode others
    rw [sameRest] at otherLeft
    obtain ⟨otherPassed, otherSplit, there⟩ := otherLeft.exists_passed
    obtain rfl := List.append_cancel_right (otherSplit.symm.trans shared)
    exact ⟨otherResult.trans (sameResult.trans result.symm), there.trans here.symm⟩

/-- A sentence without its operand, and an end in the middle. -/
def brokenTokens : List Token :=
  [⟨.word "ui", ⟨1, 1⟩⟩, ⟨.openBrace, ⟨1, 4⟩⟩, ⟨.word "list", ⟨1, 6⟩⟩, ⟨.closeBrace, ⟨1, 11⟩⟩,
    ⟨.closeBrace, ⟨1, 13⟩⟩, ⟨.endOfInput, ⟨1, 14⟩⟩, ⟨.word "app", ⟨2, 1⟩⟩]

theorem parse_brokenTokens :
    cursor .strict brokenTokens = 3 ∧ firstEnd (withEnd brokenTokens) = 5 ∧
    parseTokens .strict (brokenTokens.take 4 ++ [⟨.literal "?", ⟨7, 7⟩⟩]) =
      .error (.parse ⟨1, 11⟩ (.noOperand .tableName .closeBrace)) ∧
    cursor .strict (brokenTokens.take 4 ++ [⟨.literal "?", ⟨7, 7⟩⟩]) = 3 := by
  obtain ⟨-, -, decided⟩ := parse_decided_up_to_cursor .strict brokenTokens
  have stops : cursor .strict brokenTokens = 3 := by decide +kernel
  have failed : parseTokens .strict brokenTokens =
      .error (.parse ⟨1, 11⟩ (.noOperand .tableName .closeBrace)) := by
    rw [parseTokens_eq_program]
    cbv
  obtain ⟨result, place⟩ :=
    decided (brokenTokens.take 4 ++ [⟨.literal "?", ⟨7, 7⟩⟩]) (by rw [stops]; decide)
  exact ⟨stops, by decide, result.trans failed, place.trans stops⟩

end Pagewright
