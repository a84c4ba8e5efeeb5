import Pagewright.Proofs.Nesting

set_option autoImplicit false

namespace Pagewright

/-- The first raw node below a node, in preorder. -/
def Node.firstRaw? (node : Node) : Option Node := node.subtree.find? Node.isRaw

/-- The first raw node of a program. -/
def firstRaw? (nodes : List Node) : Option Node := (Node.subtreeAll nodes).find? Node.isRaw

theorem firstRaw?_cons (node : Node) (rest : List Node) :
    firstRaw? (node :: rest) = node.firstRaw?.or (firstRaw? rest) := List.find?_append

theorem firstRaw?_eq_none_iff (nodes : List Node) :
    firstRaw? nodes = none ↔ ∀ node ∈ Node.subtreeAll nodes, node.isRaw = false := by
  simp only [firstRaw?, List.find?_eq_none, Bool.not_eq_true]

namespace Reading

variable {tokens : List Token} {α β : Type}

/-- A strict and a permissive reading of the same tokens, with a function that finds the first raw
node in what was read. -/
inductive Agree (first? : α → Option Node) (strict permissive : Reading tokens α) : Prop
  /-- No raw node was met. -/
  | same (equal : strict = permissive)
      (clean : ∀ value, permissive.result = .ok value → first? value = none)
  /-- The strict reading fails at a token that the permissive one keeps. -/
  | unknown (pos : Position) (token : String)
      (failed : strict.result = .error (.parse pos (.unknownKeyword token)))
      (kept : ∀ value, permissive.result = .ok value → first? value = some (.raw pos token))

/-- Readings of names, values and braces do not depend on the mode. -/
theorem Agree.plain (reading : Reading tokens α) : Agree (fun _ => none) reading reading :=
  .same rfl fun _ _ => rfl

theorem agree_done {first? : α → Option Node} {value : α} (clean : first? value = none) :
    Agree first? (done value : Reading tokens α) (done value) := by
  refine .same rfl fun result read => ?_
  cases read
  exact clean

theorem agree_fail (first? : α → Option Node) (pos : Position) (fault : ParseFault) :
    Agree first? (fail pos fault : Reading tokens α) (fail pos fault) := by
  refine .same rfl fun result read => ?_
  cases read

theorem Agree.behind {first? : α → Option Node} {strict permissive : Reading tokens α}
    (agree : Agree first? strict permissive) (token : Token) :
    Agree first? (strict.behind token) (permissive.behind token) := by
  cases agree with
  | same equal clean => exact .same (congrArg _ equal) clean
  | unknown pos text failed kept => exact .unknown pos text failed kept

theorem Agree.map {first? : β → Option Node} {strict permissive : Reading tokens α} (f : α → β)
    (agree : Agree (fun value => first? (f value)) strict permissive) :
    Agree first? (strict.map f) (permissive.map f) := by
  -- What the mapped reading yields comes from what was read.
  have source : ∀ result, (permissive.map f).result = .ok result →
      ∃ value, permissive.result = .ok value ∧ f value = result := by
    intro result read
    obtain ⟨value, reads, same⟩ := (map_reads f permissive result permissive.rest).mp ⟨read, rfl⟩
    exact ⟨value, reads.1, same⟩
  cases agree with
  | same equal clean =>
    refine .same (congrArg _ equal) fun result read => ?_
    obtain ⟨value, reads, rfl⟩ := source result read
    exact clean value reads
  | unknown pos text failed kept =>
    refine .unknown pos text ?_ fun result read => ?_
    · rw [map_result, failed]
      rfl
    · obtain ⟨value, reads, rfl⟩ := source result read
      exact kept value reads

/-- Behind one reading, two ways to go on that agree on what was read. -/
theorem agree_andThen_left {first? : β → Option Node} (reading : Reading tokens α)
    {strictNext permissiveNext :
      α → (rest : List Token) → rest <:+ tokens → Reading rest β}
    (next : ∀ value, reading.result = .ok value →
      Agree first? (strictNext value reading.rest reading.suffix)
        (permissiveNext value reading.rest reading.suffix)) :
    Agree first? (reading.andThen strictNext) (reading.andThen permissiveNext) := by
  cases outcome : reading.result with
  | error diagnostic =>
    have equal : reading.andThen strictNext = reading.andThen permissiveNext := by
      simp only [andThen, outcome]
    refine .same equal fun result read => ?_
    rw [(andThen_of_error permissiveNext outcome).1] at read
    cases read
  | ok value =>
    have strictResult := (andThen_of_ok strictNext outcome).1
    have permissiveResult := (andThen_of_ok permissiveNext outcome).1
    cases next value outcome with
    | same equal clean =>
      have both : reading.andThen strictNext = reading.andThen permissiveNext := by
        simp only [andThen, outcome, equal]
      refine .same both fun result read => ?_
      rw [permissiveResult] at read
      exact clean result read
    | unknown pos text failed kept =>
      refine .unknown pos text (strictResult.trans failed) fun result read => ?_
      rw [permissiveResult] at read
      exact kept result read

/-- The first raw node of the whole is that of the first part, if the first part has one. -/
theorem Agree.andThen {first? : α → Option Node} {whole? : β → Option Node}
    {strict permissive : Reading tokens α}
    {strictNext permissiveNext :
      α → (rest : List Token) → rest <:+ tokens → Reading rest β}
    (agree : Agree first? strict permissive)
    (next : ∀ value rest suffix, first? value = none →
      Agree whole? (strictNext value rest suffix) (permissiveNext value rest suffix))
    (held : ∀ value rest suffix raw result, first? value = some raw →
      (permissiveNext value rest suffix).result = .ok result → whole? result = some raw) :
    Agree whole? (strict.andThen strictNext) (permissive.andThen permissiveNext) := by
  cases agree with
  | same equal clean =>
    subst equal
    exact agree_andThen_left strict fun value read =>
      next value strict.rest strict.suffix (clean value read)
  | unknown pos text failed kept =>
    refine .unknown pos text (andThen_of_error strictNext failed).1 fun result read => ?_
    obtain ⟨value, middle, reads, second⟩ :=
      (andThen_reads permissive permissiveNext result _).mp ⟨read, rfl⟩
    exact held value middle reads.suffix _ result (kept value reads.1) second.1

end Reading

namespace Parse

open Reading

variable (stop : Position)

section

variable {tokens : List Token} {strict permissive : BodyReader tokens}

/-- Two readers of bodies that agree on every body. -/
def BodiesAgree (strict permissive : BodyReader tokens) : Prop :=
  ∀ context owner rest within,
    Agree firstRaw? (strict context owner rest within) (permissive context owner rest within)

theorem agree_block (bodies : BodiesAgree strict permissive) (context : Context)
    (owner : String) :
    Agree firstRaw? (block stop context owner tokens strict)
      (block stop context owner tokens permissive) := by
  refine agree_andThen_left _ fun _ _ => ?_
  refine (bodies context owner _ _).andThen ?_ ?_
  · intro nodes rest within clean
    refine Agree.map _ (.same rfl ?_)
    exact fun _ _ => clean
  · intro nodes rest within raw result found read
    obtain ⟨_, -, rfl⟩ := (map_reads ..).mp (And.intro read rfl)
    exact found

theorem agree_optionalBlock (bodies : BodiesAgree strict permissive) (context : Context)
    (owner : String) :
    Agree firstRaw? (optionalBlock stop context owner tokens strict)
      (optionalBlock stop context owner tokens permissive) := by
  unfold optionalBlock
  split
  · exact agree_block stop bodies context owner
  · exact agree_done rfl

/-- What follows a keyword: only the bodies of blocks can hold raw nodes. -/
theorem agree_sentence (bodies : BodiesAgree strict permissive) (keyword : Keyword)
    (pos : Position) :
    Agree Node.firstRaw? (sentence stop keyword pos tokens strict)
      (sentence stop keyword pos tokens permissive) := by
  cases keyword with
  | app | text | refresh | delete | condition => exact Agree.map _ (.plain _)
  | input | button | insert | update =>
    simp only [sentence]
    refine agree_andThen_left _ fun _ _ => ?_
    exact Agree.map _ (.plain _)
  | table =>
    simp only [sentence]
    refine agree_andThen_left _ fun _ _ => ?_
    refine agree_andThen_left _ fun _ _ => ?_
    exact Agree.map _ (.plain _)
  | block kind => exact Agree.map _ (agree_block stop bodies kind.context kind.keyword)
  | list =>
    simp only [sentence]
    refine agree_andThen_left _ fun table _ => ?_
    refine Agree.map _ (agree_optionalBlock stop ?_ .list "list")
    exact fun context owner inner _ => bodies context owner inner _
  | function =>
    simp only [sentence]
    refine agree_andThen_left _ fun name _ => ?_
    refine Agree.map _ (agree_block stop ?_ .function "fn")
    exact fun context owner inner _ => bodies context owner inner _

/-- What is unknown is refused in one mode and kept in the other. -/
theorem agree_raw (pos : Position) (text : String) (tokens : List Token) :
    Agree Node.firstRaw? (raw stop .strict pos text tokens)
      (raw stop .permissive pos text tokens) := by
  refine .unknown pos text rfl fun node read => ?_
  simp only [raw] at read
  split at read
  · obtain ⟨_, -, rfl⟩ := (map_reads ..).mp (And.intro read rfl)
    rfl
  · cases read
    rfl

theorem agree_node (bodies : BodiesAgree strict permissive) (token : Token) :
    Agree Node.firstRaw? (node stop .strict token tokens strict)
      (node stop .permissive token tokens permissive) := by
  unfold node
  split
  · unfold ofWord
    split
    · exact agree_sentence stop bodies _ _
    · exact agree_raw stop _ _ tokens
  · exact agree_raw stop _ _ tokens
  · exact agree_fail _ _ _

end

theorem agree_nodes_of_not_begins (tokens : List Token) (context : Context) (owner : String)
    (none : ∀ token text, tokens.head? = some token → ¬ token.lexeme.Values text) :
    Agree firstRaw? (nodes stop .strict context owner tokens)
      (nodes stop .permissive context owner tokens) := by
  cases tokens with
  | nil =>
    rw [nodes, nodes]
    exact agree_done rfl
  | cons token tokens =>
    obtain ⟨lexeme, pos⟩ := token
    cases lexeme with
    | word text => exact absurd (.inl rfl) (none _ text rfl)
    | literal text => exact absurd (.inr rfl) (none _ text rfl)
    | closeBrace =>
      rw [nodes, nodes]
      exact agree_done rfl
    | openBrace | endOfInput =>
      rw [nodes, nodes]
      exact agree_fail _ _ _

/-- The modes agree on the nodes of a block, and so on those of the blocks inside it. -/
theorem agree_nodes (tokens : List Token) (context : Context) (owner : String) :
    Agree firstRaw? (nodes stop .strict context owner tokens)
      (nodes stop .permissive context owner tokens) := by
  induction size : tokens.length using Nat.strongRecOn generalizing tokens context owner with
  | ind bound ih =>
    subst size
    by_cases begins : ∃ token text, tokens.head? = some token ∧ token.lexeme.Values text
    · obtain ⟨token, text, first, values⟩ := begins
      obtain ⟨back, rfl⟩ := List.head?_eq_some_iff.mp first
      have shorter : ∀ inner context owner, inner <:+ back →
          Agree firstRaw? (nodes stop .strict context owner inner)
            (nodes stop .permissive context owner inner) := by
        intro inner context owner within
        exact ih _ (Nat.lt_succ_of_le within.length_le) inner context owner rfl
      rw [nodes_cons stop _ context owner token text values,
        nodes_cons stop _ context owner token text values]
      have bodies : @BodiesAgree back
          (fun context owner rest _ => nodes stop .strict context owner rest)
          fun context owner rest _ => nodes stop .permissive context owner rest :=
        fun context owner rest within => shorter rest context owner within
      refine ((agree_node stop bodies token).andThen ?_ ?_).behind token
      · intro first rest within clean
        split
        · refine Agree.map _ ?_
          simp only [firstRaw?_cons, clean, Option.none_or]
          exact shorter rest context owner within
        · exact agree_fail _ _ _
      · intro first rest within raw result found read
        split at read
        · obtain ⟨more, -, rfl⟩ := (map_reads ..).mp (And.intro read rfl)
          rw [firstRaw?_cons, found, Option.some_or]
        · cases read
    · have none : ∀ token text, tokens.head? = some token → ¬ token.lexeme.Values text :=
        fun token text first values => begins ⟨token, text, first, values⟩
      exact agree_nodes_of_not_begins stop tokens context owner none

theorem agree_program (tokens : List Token) :
    Agree firstRaw? (program stop .strict tokens) (program stop .permissive tokens) := by
  refine (agree_nodes stop tokens .general "program").andThen ?_ ?_
  · intro nodes rest within clean
    cases rest with
    | nil => exact agree_done clean
    | cons token back => exact agree_fail _ _ _
  · intro nodes rest within raw result found read
    cases rest with
    | nil =>
      cases read
      exact found
    | cons token back => cases read

end Parse

/-- How a word that begins no sentence is reported. -/
theorem report_unknownKeyword (pos : Position) (token : String) :
    (Diagnostic.parse pos (.unknownKeyword token)).report =
      ⟨.parse, "expected a keyword, found unknown '" ++ token ++ "'", pos, some "a keyword"⟩ := by
  have front : "expected a keyword, found unknown '" =
      "expected " ++ ("a keyword" ++ ", found unknown '") := by decide
  change Report.mk .parse ("expected " ++ "a keyword" ++ (", found unknown '" ++ token ++ "'")) pos
    (some "a keyword") = _
  rw [front]
  simp only [String.append_assoc]

/-- The modes differ only about raw nodes. What strict parsing accepts, permissive parsing accepts
with the same nodes and none of them raw. What permissive parsing accepts, strict parsing accepts
too, unless there is a raw node: then it refuses the first of them, at its place. What permissive
parsing refuses, strict parsing refuses, for the same reason or for an unknown word before it. -/
theorem parseTokens_modes_agree (tokens : List Token) :
    (∀ nodes, parseTokens .strict tokens = .ok nodes →
      parseTokens .permissive tokens = .ok nodes ∧
        ∀ node ∈ Node.subtreeAll nodes, node.isRaw = false) ∧
    (∀ nodes, parseTokens .permissive tokens = .ok nodes →
      (∀ node ∈ Node.subtreeAll nodes, node.isRaw = false) →
        parseTokens .strict tokens = .ok nodes) ∧
    (∀ nodes, parseTokens .permissive tokens = .ok nodes →
      (∃ node ∈ Node.subtreeAll nodes, node.isRaw = true) →
        ∃ pos token diagnostic,
          (Node.subtreeAll nodes).find? Node.isRaw = some (.raw pos token) ∧
          parseTokens .strict tokens = .error diagnostic ∧
          diagnostic.report = ⟨.parse, "expected a keyword, found unknown '" ++ token ++ "'", pos,
            some "a keyword"⟩) ∧
    ∀ diagnostic, parseTokens .permissive tokens = .error diagnostic →
      parseTokens .strict tokens = .error diagnostic ∨
        ∃ pos token other, parseTokens .strict tokens = .error other ∧
          other.report = ⟨.parse, "expected a keyword, found unknown '" ++ token ++ "'", pos,
            some "a keyword"⟩ := by
  have strict := parseTokens_eq_program .strict tokens
  have permissive := parseTokens_eq_program .permissive tokens
  have agree : Reading.Agree firstRaw? _ _ := Parse.agree_program (stopOf tokens)
    (tokens.takeWhile fun token => token.lexeme != .endOfInput)
  simp only [← firstRaw?_eq_none_iff]
  cases agree with
  | same equal clean =>
    have modes : parseTokens .strict tokens = parseTokens .permissive tokens :=
      strict.trans ((congrArg Reading.result equal).trans permissive.symm)
    rw [← permissive] at clean
    rw [modes]
    refine ⟨fun nodes read => ⟨read, clean nodes read⟩, fun nodes read _ => read, ?_, ?_⟩
    · rintro nodes read ⟨node, member, isRaw⟩
      have absent := (firstRaw?_eq_none_iff nodes).mp (clean nodes read) node member
      rw [isRaw] at absent
      cases absent
    · exact fun diagnostic failed => .inl failed
  | unknown pos token failed kept =>
    rw [← permissive] at kept
    rw [strict.trans failed]
    refine ⟨?_, ?_, ?_, ?_⟩
    · intro nodes impossible
      cases impossible
    · intro nodes read clean
      rw [kept nodes read] at clean
      cases clean
    · intro nodes read _
      exact ⟨pos, token, _, kept nodes read, rfl, report_unknownKeyword pos token⟩
    · intro diagnostic _
      exact .inr ⟨pos, token, _, rfl, report_unknownKeyword pos token⟩

/-- Two raw nodes, the first in a block and before a group, and words behind the end of the
input. -/
def foreignTokens : List Token :=
  [⟨.word "ui", ⟨1, 1⟩⟩, ⟨.openBrace, ⟨1, 4⟩⟩, ⟨.word "colum", ⟨1, 6⟩⟩, ⟨.openBrace, ⟨1, 12⟩⟩,
    ⟨.word "text", ⟨1, 14⟩⟩, ⟨.closeBrace, ⟨1, 19⟩⟩, ⟨.closeBrace, ⟨1, 21⟩⟩,
    ⟨.literal "hi", ⟨2, 1⟩⟩, ⟨.endOfInput, ⟨2, 5⟩⟩, ⟨.word "app", ⟨2, 6⟩⟩]

theorem parseTokens_foreignTokens : ∃ diagnostic,
    parseTokens .permissive foreignTokens =
      .ok [.block ⟨1, 1⟩ .ui [.raw ⟨1, 6⟩ "colum"], .raw ⟨2, 1⟩ "\"hi\""] ∧
    parseTokens .strict foreignTokens = .error diagnostic ∧
    diagnostic.report =
      ⟨.parse, "expected a keyword, found unknown 'colum'", ⟨1, 6⟩, some "a keyword"⟩ := by
  have read : parseTokens .permissive foreignTokens =
      .ok [.block ⟨1, 1⟩ .ui [.raw ⟨1, 6⟩ "colum"], .raw ⟨2, 1⟩ "\"hi\""] := by
    rw [parseTokens_eq_program]
    cbv
  obtain ⟨-, -, refused, -⟩ := parseTokens_modes_agree foreignTokens
  obtain ⟨pos, token, diagnostic, first, failed, report⟩ :=
    refused _ read ⟨.raw ⟨1, 6⟩ "colum", .tail _ (.head _), rfl⟩
  cases first
  exact ⟨diagnostic, read, failed, report⟩

end Pagewright
