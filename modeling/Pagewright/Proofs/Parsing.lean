import Mathlib.Data.List.TakeWhile
import Pagewright.Proofs.PlaceReading
import Pagewright.Proofs.Reading

set_option autoImplicit false

namespace Pagewright

namespace Parse

open Reading

variable (stop : Position) (mode : Mode)

theorem nodes_reads_cons (context : Context) (owner : String) (token : Token) (text : String)
    (values : token.lexeme.Values text) (tokens rest : List Token) (result : List Node) :
    (nodes stop mode context owner (token :: tokens)).Reads result rest ↔
      ∃ first middle more,
        (node stop mode token tokens fun context owner rest _ =>
          nodes stop mode context owner rest).Reads first middle ∧
        context.accepts first = true ∧
        (nodes stop mode context owner middle).Reads more rest ∧ first :: more = result := by
  rw [nodes_cons stop mode context owner token text values, behind_reads, andThen_reads]
  constructor
  · rintro ⟨first, middle, reads, second⟩
    split at second
    · rename_i accepted
      obtain ⟨more, others, rfl⟩ := (map_reads ..).mp second
      exact ⟨first, middle, more, reads, accepted, others, rfl⟩
    · exact (not_fail_reads _ _ _ _ second).elim
  · rintro ⟨first, middle, more, reads, accepted, others, rfl⟩
    refine ⟨first, middle, reads, ?_⟩
    simp only [accepted, ↓reduceIte]
    exact (map_reads ..).mpr ⟨more, others, rfl⟩

/-- No block follows a sentence that has ended, since a brace begins none. -/
theorem shut_of_body {context : Context} {tokens rest : List Token} {result : List Node}
    (body : Body mode context tokens result rest) : Shut tokens := by
  obtain ⟨front, rfl, derives, stops⟩ := body
  intro token first isOpen
  cases front with
  | nil =>
    rw [List.nil_append] at first
    have isClose := stops token first
    rw [isOpen] at isClose
    cases isClose
  | cons head back =>
    obtain ⟨text, values⟩ := derives.head token first
    rw [isOpen] at values
    rcases values with impossible | impossible <;> cases impossible

/-- At a brace that closes the block or at the end, nothing is read; any other token that begins no
sentence is a failure. -/
theorem nodes_reads_of_not_begins (context : Context) (owner : String) (tokens rest : List Token)
    (result : List Node)
    (none : ∀ token text, tokens.head? = some token → ¬ token.lexeme.Values text) :
    (nodes stop mode context owner tokens).Reads result rest ↔
      result = [] ∧ tokens = rest ∧ Stops rest := by
  cases tokens with
  | nil =>
    rw [nodes, done_reads]
    constructor
    · rintro ⟨rfl, rfl⟩
      exact ⟨rfl, rfl, stops_nil⟩
    · rintro ⟨rfl, rfl, -⟩
      exact ⟨rfl, rfl⟩
  | cons token tokens =>
    obtain ⟨lexeme, pos⟩ := token
    cases lexeme with
    | word text => exact absurd (.inl rfl) (none _ text rfl)
    | literal text => exact absurd (.inr rfl) (none _ text rfl)
    | closeBrace =>
      rw [nodes, done_reads]
      constructor
      · rintro ⟨rfl, rfl⟩
        exact ⟨rfl, rfl, stops_closeBrace pos tokens⟩
      · rintro ⟨rfl, rfl, -⟩
        exact ⟨rfl, rfl⟩
    | openBrace | endOfInput =>
      rw [nodes]
      constructor
      · intro reads
        exact (not_fail_reads _ _ _ _ reads).elim
      · rintro ⟨-, rfl, stops⟩
        cases stops _ rfl

/-- The nodes of a block are read exactly if the grammar derives them. -/
theorem nodes_reads_iff (tokens : List Token) (context : Context) (owner : String)
    (result : List Node) (rest : List Token) :
    (nodes stop mode context owner tokens).Reads result rest ↔
      Body mode context tokens result rest := by
  induction size : tokens.length using Nat.strongRecOn
    generalizing tokens context owner result rest with
  | ind bound ih =>
    subst size
    by_cases begins : ∃ token text, tokens.head? = some token ∧ token.lexeme.Values text
    · obtain ⟨token, text, first, values⟩ := begins
      obtain ⟨back, rfl⟩ := List.head?_eq_some_iff.mp first
      -- Inner blocks and the rest of this block are read from fewer tokens.
      have shorter : ∀ inner, inner <:+ back → inner.length < (token :: back).length := by
        intro inner within
        exact Nat.lt_succ_of_le within.length_le
      have bodies : @Realizes back
          (fun context owner inner _ => nodes stop mode context owner inner) (Body mode) := by
        intro context owner inner within result after
        exact ih _ (shorter inner within) inner context owner result after rfl
      rw [nodes_reads_cons stop mode context owner token text values]
      cases result with
      | nil =>
        rw [body_nil_iff]
        constructor
        · rintro ⟨_, _, _, -, -, -, impossible⟩
          cases impossible
        · rintro ⟨rfl, stops⟩
          have isClose := stops token rfl
          rw [isClose] at values
          rcases values with impossible | impossible <;> cases impossible
      | cons node more =>
        rw [body_cons_iff]
        constructor
        · rintro ⟨_, middle, _, reads, accepted, others, same⟩
          cases same
          have body := (bodies _ _ _ reads.suffix _ _).mp others
          have sentence :=
            (node_reads_iff stop bodies (shut_of_body mode body) mode token node).mp reads
          exact ⟨middle, sentence, accepted, body⟩
        · rintro ⟨middle, sentence, accepted, body⟩
          have reads :=
            (node_reads_iff stop bodies (shut_of_body mode body) mode token node).mpr sentence
          exact ⟨node, middle, more, reads, accepted, (bodies _ _ _ reads.suffix _ _).mpr body, rfl⟩
    · have none : ∀ token text, tokens.head? = some token → ¬ token.lexeme.Values text :=
        fun token text first values => begins ⟨token, text, first, values⟩
      rw [nodes_reads_of_not_begins stop mode context owner tokens rest result none,
        body_iff_of_not_begins none]

/-- A program ends where its tokens end. -/
theorem program_result_iff (tokens : List Token) (result : List Node) :
    (program stop mode tokens).result = .ok result ↔
      (nodes stop mode .general "program" tokens).Reads result [] := by
  constructor
  · intro success
    obtain ⟨read, middle, reads, second⟩ := (andThen_reads ..).mp (And.intro success rfl)
    cases middle with
    | nil =>
      obtain ⟨rfl, -⟩ := (done_reads ..).mp second
      exact reads
    | cons token back => exact (not_fail_reads _ _ _ _ second).elim
  · intro reads
    have whole : (program stop mode tokens).Reads result [] :=
      (andThen_reads ..).mpr ⟨result, [], reads, (done_reads ..).mpr ⟨rfl, rfl⟩⟩
    exact whole.1

end Parse

theorem body_general_iff (mode : Mode) (tokens : List Token) (nodes : List Node) :
    Body mode .general tokens nodes [] ↔ Derives mode .general tokens nodes := by
  constructor
  · rintro ⟨front, rfl, derives, -⟩
    rw [List.append_nil]
    exact derives
  · intro derives
    exact ⟨tokens, (List.append_nil tokens).symm, derives, stops_nil⟩

/-- A list in which an end of input stands has a first one. -/
theorem exists_first_end {tokens : List Token} {last : Token} (member : last ∈ tokens)
    (isEnd : last.lexeme = .endOfInput) :
    ∃ front stop back, tokens = front ++ ⟨.endOfInput, stop⟩ :: back ∧
      ∀ token ∈ front, token.lexeme ≠ .endOfInput := by
  cases found : tokens.find? fun token => token.lexeme == .endOfInput with
  | none =>
    rw [List.find?_eq_none] at found
    exact absurd (beq_iff_eq.mpr isEnd) (found last member)
  | some first =>
    obtain ⟨firstEnds, front, back, rfl, before⟩ := List.find?_eq_some_iff_append.mp found
    obtain ⟨lexeme, stop⟩ := first
    obtain rfl : lexeme = .endOfInput := beq_iff_eq.mp firstEnds
    refine ⟨front, stop, back, rfl, fun token inFront => ?_⟩
    exact bne_iff_ne.mp (before token inFront)

namespace Parser

theorem holds_ofTokens {front : List Token} (endless : ∀ token ∈ front, token.lexeme ≠ .endOfInput)
    (stop : Position) (back : List Token) :
    (ofTokens (front ++ ⟨.endOfInput, stop⟩ :: back)).input.Holds front stop := by
  refine ⟨?_, endless⟩
  change ∃ more, withEnd _ = _
  unfold withEnd
  split
  · exact ⟨back, rfl⟩
  · exact ⟨_, List.append_assoc ..⟩

/-- A parser holds the tokens before the first end, also if the tokens have none. -/
theorem exists_holds (tokens : List Token) :
    ∃ stop, (ofTokens tokens).input.Holds
      (tokens.takeWhile fun token => token.lexeme != .endOfInput) stop := by
  by_cases hasEnd : ∃ token ∈ tokens, token.lexeme = .endOfInput
  · obtain ⟨last, member, isEnd⟩ := hasEnd
    obtain ⟨front, stop, back, rfl, endless⟩ := exists_first_end member isEnd
    refine ⟨stop, ?_⟩
    rw [List.takeWhile_append_of_pos fun token inFront => bne_iff_ne.mpr (endless token inFront),
      List.takeWhile_cons_of_neg (by simp), List.append_nil]
    exact holds_ofTokens endless stop back
  · have endless : ∀ token ∈ tokens, token.lexeme ≠ .endOfInput :=
      fun token member isEnd => hasEnd ⟨token, member, isEnd⟩
    have notEnded : tokens.getLast?.map Token.lexeme ≠ some .endOfInput := by
      intro isEnd
      obtain ⟨last, found, isEnd⟩ := Option.map_eq_some_iff.mp isEnd
      exact endless last (List.mem_of_getLast? found) isEnd
    rw [List.takeWhile_eq_self_iff.mpr fun token member => bne_iff_ne.mpr (endless token member)]
    exact ⟨_, ⟨[], if_neg notEnded⟩, endless⟩

end Parser

/-- The position of the first end of input that a parser of the tokens meets. -/
def stopOf (tokens : List Token) : Position :=
  match (withEnd tokens).find? fun token => token.lexeme == .endOfInput with
  | some token => token.pos
  | none => .start

theorem stopOf_of_holds {tokens front : List Token} {stop : Position}
    (holds : (Parser.ofTokens tokens).input.Holds front stop) : stopOf tokens = stop := by
  obtain ⟨back, whole⟩ := holds.whole
  replace whole : withEnd tokens = front ++ ⟨.endOfInput, stop⟩ :: back := whole
  have absent : front.find? (fun token => token.lexeme == .endOfInput) = none := by
    rw [List.find?_eq_none]
    intro token member isEnd
    exact holds.endless token member (beq_iff_eq.mp isEnd)
  rw [stopOf, whole, List.find?_append, absent]
  rfl

namespace Parser

theorem holds (tokens : List Token) :
    (ofTokens tokens).input.Holds (tokens.takeWhile fun token => token.lexeme != .endOfInput)
      (stopOf tokens) := by
  obtain ⟨stop, holds⟩ := exists_holds tokens
  rw [stopOf_of_holds holds]
  exact holds

variable {front rest : List Token} {stop : Position} {parser : Parser}

/-- What a parser answers at its place, and where that leaves it. -/
theorem parse_of_holds (holds : parser.input.Holds front stop) (left : Left front parser.place rest)
    (mode : Mode) :
    (parser.parse mode).1 = (Parse.program stop mode rest).result ∧
      Left front (parser.parse mode).2.place (Parse.program stop mode rest).rest := by
  obtain ⟨result, after⟩ := Input.refines_program holds mode left
  exact ⟨result, after⟩

theorem parse_ofTokens (mode : Mode) (tokens : List Token) :
    let front := tokens.takeWhile fun token => token.lexeme != .endOfInput
    ((ofTokens tokens).parse mode).1 = (Parse.program (stopOf tokens) mode front).result ∧
      Left front ((ofTokens tokens).parse mode).2.place
        (Parse.program (stopOf tokens) mode front).rest :=
  parse_of_holds (holds tokens) (.start _) mode

end Parser

/-- Tokens are parsed as those before the first end are read. -/
theorem parseTokens_eq_program (mode : Mode) (tokens : List Token) :
    parseTokens mode tokens = (Parse.program (stopOf tokens) mode
      (tokens.takeWhile fun token => token.lexeme != .endOfInput)).result :=
  (Parser.parse_ofTokens mode tokens).1

theorem parseTokens_append_end {front : List Token}
    (endless : ∀ token ∈ front, token.lexeme ≠ .endOfInput) (stop : Position) (back : List Token)
    (mode : Mode) :
    parseTokens mode (front ++ ⟨.endOfInput, stop⟩ :: back) =
      (Parse.program stop mode front).result :=
  (Parser.parse_of_holds (Parser.holds_ofTokens endless stop back) (.start _) mode).1

/-- A parser reads up to the first end of the input. -/
theorem parseTokens_eq_ok_iff (mode : Mode) (tokens : List Token) (nodes : List Node) :
    parseTokens mode tokens = .ok nodes ↔
      Derives mode .general (tokens.takeWhile fun token => token.lexeme != .endOfInput) nodes := by
  rw [parseTokens_eq_program, Parse.program_result_iff, Parse.nodes_reads_iff, body_general_iff]

/-- In either mode the parser accepts the sequences of its grammar, with the nodes that the grammar
gives them. -/
theorem parseTokens_eq_ok_iff_derives (mode : Mode) (tokens : List Token) (stop : Position)
    (nodes : List Node) (endless : ∀ token ∈ tokens, token.lexeme ≠ .endOfInput) :
    parseTokens mode (tokens ++ [⟨.endOfInput, stop⟩]) = .ok nodes ↔
      Derives mode .general tokens nodes := by
  rw [parseTokens_append_end endless, Parse.program_result_iff, Parse.nodes_reads_iff,
    body_general_iff]

/-- Keywords name a function and a table, and `from` begins no sentence. -/
theorem parseTokens_keywords_as_names :
    parseTokens .permissive
      ([⟨.word "fn", ⟨1, 1⟩⟩, ⟨.word "list", ⟨1, 4⟩⟩, ⟨.openBrace, ⟨1, 9⟩⟩,
        ⟨.word "update", ⟨1, 11⟩⟩, ⟨.word "ui", ⟨1, 18⟩⟩, ⟨.closeBrace, ⟨1, 21⟩⟩,
        ⟨.word "from", ⟨1, 23⟩⟩, ⟨.openBrace, ⟨1, 28⟩⟩, ⟨.closeBrace, ⟨1, 30⟩⟩] ++
        [⟨.endOfInput, ⟨1, 31⟩⟩]) =
      .ok [.function ⟨1, 1⟩ "list" [.statement ⟨1, 11⟩ (.update "ui" none)],
        .raw ⟨1, 23⟩ "from"] := by
  apply (parseTokens_eq_ok_iff_derives _ _ _ _ (by decide)).mpr
  have update : Derives .permissive .function
      [⟨.word "update", ⟨1, 11⟩⟩, ⟨.word "ui", ⟨1, 18⟩⟩]
      [.statement ⟨1, 11⟩ (.update "ui" none)] :=
    .phrase (.update (by simp)) rfl .nil
  have group : Derives .permissive .general
      [⟨.word "from", ⟨1, 23⟩⟩, ⟨.openBrace, ⟨1, 28⟩⟩, ⟨.closeBrace, ⟨1, 30⟩⟩]
      [.raw ⟨1, 23⟩ "from"] :=
    .phrase (.rawGroup rfl (.word ((Keyword.ofWord?_eq_none_iff _).mp (by decide)))
      ((balanced_nil 0).mpr rfl)) rfl .nil
  exact .block .function update rfl group

end Pagewright
