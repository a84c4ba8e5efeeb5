import Pagewright.Proofs.Nesting

set_option autoImplicit false

namespace Pagewright

section Balance

theorem Balanced.append_iff {front : List Token} {depth : Nat} (balanced : Balanced depth front)
    (outside : Nat) (back : List Token) :
    Balanced (depth + outside) (front ++ back) ↔ Balanced outside back := by
  induction front generalizing depth with
  | nil =>
    have closed := (balanced_nil depth).mp balanced
    rw [closed, Nat.zero_add, List.nil_append]
  | cons token front ih =>
    obtain ⟨lexeme, pos⟩ := token
    by_cases isOpen : lexeme = .openBrace
    · subst isOpen
      have deeper := ih ((balanced_cons_openBrace ..).mp balanced)
      rw [List.cons_append, balanced_cons_openBrace, ← deeper, Nat.add_right_comm]
    by_cases isClose : lexeme = .closeBrace
    · subst isClose
      cases depth with
      | zero => exact absurd balanced (not_balanced_zero_closeBrace pos front)
      | succ inner =>
        have shallower := ih ((balanced_cons_closeBrace ..).mp balanced)
        rw [List.cons_append, Nat.add_right_comm, balanced_cons_closeBrace, shallower]
    · have same := ih ((balanced_cons_of_ne _ _ _ isOpen isClose).mp balanced)
      rw [List.cons_append, balanced_cons_of_ne _ _ _ isOpen isClose, same]

theorem Balanced.append {front back : List Token} (first : Balanced 0 front)
    (second : Balanced 0 back) : Balanced 0 (front ++ back) :=
  (first.append_iff 0 back).mpr second

/-- A group in braces is balanced if what stands between the braces is. -/
theorem Balanced.group {inner : List Token} (balanced : Balanced 0 inner)
    (openPos closePos : Position) :
    Balanced 0 (⟨.openBrace, openPos⟩ :: inner ++ [⟨.closeBrace, closePos⟩]) := by
  rw [List.cons_append, balanced_cons_openBrace]
  refine (balanced.append_iff 1 _).mpr ?_
  rw [balanced_cons_closeBrace, balanced_nil]

theorem balanced_of_forall {tokens : List Token}
    (plain : ∀ token ∈ tokens, ∃ text, token.lexeme.Values text) : Balanced 0 tokens := by
  induction tokens with
  | nil => exact (balanced_nil 0).mpr rfl
  | cons token rest ih =>
    obtain ⟨⟨text, values⟩, others⟩ := List.forall_mem_cons.mp plain
    have notBrace : token.lexeme ≠ .openBrace ∧ token.lexeme ≠ .closeBrace := by
      rcases values with word | literal
      · simp [word]
      · simp [literal]
    exact (balanced_cons_of_ne _ _ _ notBrace.1 notBrace.2).mpr (ih others)

theorem Phrase.balanced {mode : Mode} {front : List Token} {next : Option Token} {node : Node}
    (phrase : Phrase mode front next node) : Balanced 0 front := by
  have word : ∀ text, ∃ other, (Lexeme.word text).Values other := fun text => ⟨text, .inl rfl⟩
  cases phrase with
  | @table pos namePos openPos closePos _ name fields =>
    have names : ∀ token ∈ fields.map Field.token, ∃ text, token.lexeme.Values text := by
      intro token member
      obtain ⟨field, -, rfl⟩ := List.mem_map.mp member
      exact word field.name
    have header : Balanced 0 [⟨.word "table", pos⟩, ⟨.word name, namePos⟩] :=
      balanced_of_forall (by simp [word])
    exact header.append ((balanced_of_forall names).group openPos closePos)
  | @rawGroup token openPos closePos _ _ _ _ unknown balanced =>
    have header : Balanced 0 [token] := balanced_of_forall (by simpa using unknown.values)
    exact header.append (balanced.group openPos closePos)
  | raw _ unknown => exact balanced_of_forall (by simpa using unknown.values)
  | app values | text values | button values | condition values =>
    have value := Exists.intro _ values
    exact balanced_of_forall (by simp [word, value])
  | _ => exact balanced_of_forall (by simp [word])

theorem Opening.balanced {front : List Token} {inside : Context} {make : List Node → Node}
    (opening : Opening front inside make) : Balanced 0 front := by
  have word : ∀ text, ∃ other, (Lexeme.word text).Values other := fun text => ⟨text, .inl rfl⟩
  cases opening <;> exact balanced_of_forall (by simp [word])

/-- Every brace that the grammar derives is closed. -/
theorem Derives.balanced {mode : Mode} {context : Context} {tokens : List Token}
    {nodes : List Node} (derives : Derives mode context tokens nodes) : Balanced 0 tokens := by
  induction derives with
  | nil => exact (balanced_nil 0).mpr rfl
  | phrase phrase _ _ more => exact phrase.balanced.append more
  | @block _ _ front inner tokens _ openPos closePos _ _ opening _ _ _ within more =>
    have whole : front ++ ⟨.openBrace, openPos⟩ :: inner ++ ⟨.closeBrace, closePos⟩ :: tokens =
        front ++ ((⟨.openBrace, openPos⟩ :: inner ++ [⟨.closeBrace, closePos⟩]) ++ tokens) := by
      simp
    rw [whole]
    exact opening.balanced.append ((within.group openPos closePos).append more)

end Balance

section Paths

/-- The nodes in the block of a node. -/
def Node.children : Node → List Node
  | .block _ _ body | .list _ _ body | .function _ _ body => body
  | _ => []

/-- The node with other nodes in its block. -/
def Node.withChildren (node : Node) (body : List Node) : Node :=
  match node with
  | .block pos kind _ => .block pos kind body
  | .list pos source _ => .list pos source body
  | .function pos name _ => .function pos name body
  | node => node

/-- The node at a path: the numbers of the nodes to go through, from the program downwards. -/
def nodeAt? (nodes : List Node) : List Nat → Option Node
  | [] => none
  | [number] => nodes[number]?
  | number :: path => nodes[number]?.bind fun node => nodeAt? node.children path

/-- The program with another node at the path, and all other nodes as they are. -/
def replaceAt (new : Node) (nodes : List Node) : List Nat → List Node
  | [] => nodes
  | [number] => nodes.set number new
  | number :: path => nodes.modify number fun node =>
      node.withChildren (replaceAt new node.children path)

/-- The sentence of the node at the path begins with the token of the given number. -/
inductive Leads (mode : Mode) : Context → List Token → List Node → List Nat → Nat → Prop
  | here {context : Context} {tokens : List Token} {node : Node} {nodes : List Node}
      (derives : Derives mode context tokens (node :: nodes)) :
      Leads mode context tokens (node :: nodes) [0] 0
  | behindPhrase {context : Context} {front tokens : List Token} {node : Node} {nodes : List Node}
      {number : Nat} {path : List Nat} {index : Nat}
      (phrase : Phrase mode front tokens.head? node) (accepted : context.accepts node = true)
      (more : Leads mode context tokens nodes (number :: path) index) :
      Leads mode context (front ++ tokens) (node :: nodes) ((number + 1) :: path)
        (front.length + index)
  | behindBlock {context inside : Context} {front inner tokens : List Token}
      {make : List Node → Node} {openPos closePos : Position} {body nodes : List Node}
      {number : Nat} {path : List Nat} {index : Nat}
      (opening : Opening front inside make) (within : Derives mode inside inner body)
      (accepted : context.accepts (make body) = true)
      (more : Leads mode context tokens nodes (number :: path) index) :
      Leads mode context
        (front ++ ⟨.openBrace, openPos⟩ :: inner ++ ⟨.closeBrace, closePos⟩ :: tokens)
        (make body :: nodes) ((number + 1) :: path) (front.length + inner.length + 2 + index)
  | inside {context inside : Context} {front inner tokens : List Token}
      {make : List Node → Node} {openPos closePos : Position} {body nodes : List Node}
      {number : Nat} {path : List Nat} {index : Nat}
      (opening : Opening front inside make)
      (within : Leads mode inside inner body (number :: path) index)
      (accepted : context.accepts (make body) = true)
      (more : Derives mode context tokens nodes) :
      Leads mode context
        (front ++ ⟨.openBrace, openPos⟩ :: inner ++ ⟨.closeBrace, closePos⟩ :: tokens)
        (make body :: nodes) (0 :: number :: path) (front.length + 1 + index)

variable {mode : Mode} {context inside : Context} {tokens front : List Token} {nodes : List Node}
  {make : List Node → Node}

theorem Leads.derives {path : List Nat} {index : Nat}
    (leads : Leads mode context tokens nodes path index) : Derives mode context tokens nodes := by
  induction leads with
  | here derives => exact derives
  | behindPhrase phrase accepted _ more => exact .phrase phrase accepted more
  | behindBlock opening within accepted _ more => exact .block opening within accepted more
  | inside opening _ accepted more within => exact .block opening within accepted more

theorem Opening.children (opening : Opening front inside make) (body : List Node) :
    (make body).children = body := by
  cases opening <;> rfl

theorem Opening.withChildren (opening : Opening front inside make) (body other : List Node) :
    (make body).withChildren other = make other := by
  cases opening <;> rfl

/-- Whether a block takes a node does not depend on what stands in the node. -/
theorem Opening.accepts (opening : Opening front inside make) (body other : List Node) :
    context.accepts (make body) = context.accepts (make other) := by
  cases opening with
  | @block pos kind => cases kind <;> rfl
  | _ => rfl

theorem Phrase.children {next : Option Token} {node : Node}
    (phrase : Phrase mode front next node) : node.children = [] := by
  cases phrase <;> rfl

theorem nodeAt?_nil (path : List Nat) : nodeAt? [] path = none := by
  rcases path with _ | ⟨number, _ | _⟩ <;> rfl

theorem nodeAt?_succ (node : Node) (nodes : List Node) (number : Nat) (path : List Nat) :
    nodeAt? (node :: nodes) ((number + 1) :: path) = nodeAt? nodes (number :: path) := by
  cases path <;> simp [nodeAt?]

theorem nodeAt?_children (node : Node) (nodes : List Node) (number : Nat) (path : List Nat) :
    nodeAt? (node :: nodes) (0 :: number :: path) = nodeAt? node.children (number :: path) := rfl

theorem replaceAt_succ (new node : Node) (nodes : List Node) (number : Nat) (path : List Nat) :
    replaceAt new (node :: nodes) ((number + 1) :: path) =
      node :: replaceAt new nodes (number :: path) := by
  cases path <;> simp [replaceAt]

theorem replaceAt_children (new node : Node) (nodes : List Node) (number : Nat)
    (path : List Nat) :
    replaceAt new (node :: nodes) (0 :: number :: path) =
      node.withChildren (replaceAt new node.children (number :: path)) :: nodes := rfl

/-- Every node of a program has a token that leads it. -/
theorem Derives.exists_leads (derives : Derives mode context tokens nodes) {path : List Nat}
    {node : Node} (found : nodeAt? nodes path = some node) :
    ∃ index, Leads mode context tokens nodes path index := by
  induction derives generalizing path with
  | nil =>
    rw [nodeAt?_nil] at found
    cases found
  | phrase phrase accepted more ih =>
    rcases path with _ | ⟨number | number, path⟩
    · cases found
    · cases path with
      | nil => exact ⟨0, .here (.phrase phrase accepted more)⟩
      | cons inner path =>
        rw [nodeAt?_children, phrase.children, nodeAt?_nil] at found
        cases found
    · rw [nodeAt?_succ] at found
      obtain ⟨index, leads⟩ := ih found
      exact ⟨_, .behindPhrase phrase accepted leads⟩
  | block opening within accepted more ihWithin ihMore =>
    rcases path with _ | ⟨number | number, path⟩
    · cases found
    · cases path with
      | nil => exact ⟨0, .here (.block opening within accepted more)⟩
      | cons inner path =>
        rw [nodeAt?_children, opening.children] at found
        obtain ⟨index, leads⟩ := ihWithin found
        exact ⟨_, .inside opening leads accepted more⟩
    · rw [nodeAt?_succ] at found
      obtain ⟨index, leads⟩ := ihMore found
      exact ⟨_, .behindBlock opening within accepted leads⟩

end Paths

section Misspelling

variable {mode : Mode} {context : Context} {tokens : List Token} {nodes : List Node}
  {pos : Position} {kind : BlockKind} {body : List Node}

/-- No block stands in a function. -/
theorem Derives.nodeAt?_function_ne (derives : Derives mode .function tokens nodes)
    (path : List Nat) : nodeAt? nodes path ≠ some (.block pos kind body) := by
  have accepted := (Node.nestedAll_iff .function nodes).mp derives.nestedAll
  intro found
  rcases path with _ | ⟨number, _ | ⟨inner, path⟩⟩
  · cases found
  · have taken := (accepted _ (List.mem_of_getElem? found)).1
    cases taken
  · obtain ⟨node, member, below⟩ := Option.bind_eq_some_iff.mp found
    have taken := (accepted node (List.mem_of_getElem? member)).1
    cases node with
    | statement | raw =>
      change nodeAt? [] (inner :: path) = _ at below
      rw [nodeAt?_nil] at below
      cases below
    | _ => cases taken

theorem Context.isStatement_of_accepts {node : Node} (notFunction : context ≠ .function)
    (accepted : context.accepts node = true) : node.isStatement = false := by
  cases node with
  | statement pos step =>
    cases context with
    | function => exact absurd rfl notFunction
    | _ => cases accepted
  | _ => rfl

/-- Only statements look at the token behind them. -/
theorem Phrase.of_not_statement {front : List Token} {next : Option Token} {node : Node}
    (phrase : Phrase mode front next node) (notStatement : node.isStatement = false)
    (other : Option Token) : Phrase mode front other node := by
  cases phrase with
  | app values => exact .app values
  | text values => exact .text values
  | input => exact .input
  | button values => exact .button values
  | list => exact .list
  | table => exact .table
  | raw permissive unknown => exact .raw permissive unknown
  | rawGroup permissive unknown balanced => exact .rawGroup permissive unknown balanced
  | _ => cases notStatement

theorem Derives.block_inv (derives : Derives mode context tokens (.block pos kind body :: nodes)) :
    ∃ openPos inner closePos back,
      tokens = ⟨.word kind.keyword, pos⟩ :: ⟨.openBrace, openPos⟩ :: inner ++
        ⟨.closeBrace, closePos⟩ :: back ∧
      Derives mode kind.context inner body ∧ Derives mode context back nodes := by
  generalize same : Node.block pos kind body = node at derives
  cases derives with
  | phrase phrase =>
    cases phrase <;> cases same
  | block opening within _ more =>
    cases opening <;> cases same
    exact ⟨_, _, _, _, rfl, within, more⟩

theorem set_behind (front back : List Token) (index : Nat) (token : Token) :
    (front ++ back).set (front.length + index) token = front ++ back.set index token := by
  rw [List.set_append_right _ _ (Nat.le_add_right _ _), Nat.add_sub_cancel_left]

theorem getElem?_behind (front back : List Token) (index : Nat) :
    (front ++ back)[front.length + index]? = back[index]? := by
  rw [List.getElem?_append_right (Nat.le_add_right _ _), Nat.add_sub_cancel_left]

/-- With another word in place of the keyword of a block, the grammar derives the program with a raw
node in place of the block. -/
theorem Leads.misspell {path : List Nat} {index : Nat}
    (leads : Leads .permissive context tokens nodes path index)
    (found : nodeAt? nodes path = some (.block pos kind body)) :
    tokens[index]? = some ⟨.word kind.keyword, pos⟩ ∧
      ∀ word, (∀ keyword : Keyword, keyword.spelling ≠ word) →
        Derives .permissive context (tokens.set index ⟨.word word, pos⟩)
          (replaceAt (.raw pos word) nodes path) := by
  induction leads with
  | here derives =>
    cases found
    obtain ⟨openPos, inner, closePos, back, rfl, within, more⟩ := derives.block_inv
    refine ⟨rfl, fun word foreign => ?_⟩
    -- The group ends where the block ended, because what stood in the block is balanced.
    have group : Phrase .permissive
        (⟨.word word, pos⟩ :: ⟨.openBrace, openPos⟩ :: inner ++ [⟨.closeBrace, closePos⟩])
        back.head? (.raw pos word) := .rawGroup rfl (.word foreign) within.balanced
    have derived := Derives.phrase group rfl more
    simpa [replaceAt] using derived
  | @behindPhrase context front tokens node nodes number path index phrase accepted more ih =>
    rw [nodeAt?_succ] at found
    obtain ⟨leading, misspelled⟩ := ih found
    -- The word may be a `from`, but no update stands before a block.
    have notFunction : context ≠ .function := by
      rintro rfl
      exact more.derives.nodeAt?_function_ne _ found
    have notStatement := Context.isStatement_of_accepts notFunction accepted
    refine ⟨(getElem?_behind ..).trans leading, fun word foreign => ?_⟩
    rw [replaceAt_succ, set_behind]
    exact .phrase (phrase.of_not_statement notStatement _) accepted (misspelled word foreign)
  | @behindBlock context _ front inner tokens make openPos closePos body nodes number path index
      opening within accepted more ih =>
    rw [nodeAt?_succ] at found
    obtain ⟨leading, misspelled⟩ := ih found
    let group : List Token := ⟨.openBrace, openPos⟩ :: inner ++ [⟨.closeBrace, closePos⟩]
    have whole : ∀ back, front ++ ⟨.openBrace, openPos⟩ :: inner ++
        ⟨.closeBrace, closePos⟩ :: back = (front ++ group) ++ back := by
      simp [group]
    have length : front.length + inner.length + 2 = (front ++ group).length := by
      simp [group, Nat.add_assoc]
    rw [whole, length]
    refine ⟨(getElem?_behind ..).trans leading, fun word foreign => ?_⟩
    rw [replaceAt_succ, set_behind, ← whole]
    exact .block opening within accepted (misspelled word foreign)
  | @inside context _ front inner tokens make openPos closePos body nodes number path index opening
      within accepted more ih =>
    rw [nodeAt?_children, opening.children] at found
    obtain ⟨leading, misspelled⟩ := ih found
    have short : index < inner.length := (List.getElem?_eq_some_iff.mp leading).1
    let opened : List Token := front ++ [⟨.openBrace, openPos⟩]
    have whole : ∀ middle, front ++ ⟨.openBrace, openPos⟩ :: middle ++
        ⟨.closeBrace, closePos⟩ :: tokens =
          opened ++ (middle ++ ⟨.closeBrace, closePos⟩ :: tokens) := by
      simp [opened]
    have length : front.length + 1 = opened.length := by
      simp [opened]
    rw [whole, length]
    refine ⟨?_, fun word foreign => ?_⟩
    · rw [getElem?_behind, List.getElem?_append_left short, leading]
    · rw [replaceAt_children, opening.children, opening.withChildren, set_behind,
        List.set_append_left _ _ short, ← whole]
      exact .block opening (misspelled word foreign) ((opening.accepts _ _).trans accepted) more

theorem takeWhile_set (readable : Token → Bool) {token : Token} (kept : readable token = true)
    {tokens : List Token} {index : Nat} (short : index < (tokens.takeWhile readable).length) :
    (tokens.set index token).takeWhile readable = (tokens.takeWhile readable).set index token := by
  induction tokens generalizing index with
  | nil => rfl
  | cons first rest ih =>
    by_cases read : readable first = true
    · rw [List.takeWhile_cons_of_pos read] at short ⊢
      cases index with
      | zero => simp [kept]
      | succ index =>
        have shorter := Nat.lt_of_succ_lt_succ short
        rw [List.set_cons_succ, List.set_cons_succ, List.takeWhile_cons_of_pos read, ih shorter]
    · rw [List.takeWhile_cons_of_neg read] at short
      cases short

end Misspelling

/-- A misspelled keyword damages nothing but its own block. Every node of a program that parses has a
token that leads it. If the node is a block and another word that is no keyword stands in place of
that token, the program parses to the same nodes, with a raw node in place of the block. -/
theorem parseTokens_misspelled_block {tokens : List Token} {nodes : List Node} {path : List Nat}
    {pos : Position} {kind : BlockKind} {body : List Node}
    (parsed : parseTokens .permissive tokens = .ok nodes)
    (found : nodeAt? nodes path = some (.block pos kind body)) :
    let read := tokens.takeWhile fun token => token.lexeme != .endOfInput
    (∃ index, Leads .permissive .general read nodes path index) ∧
    ∀ index, Leads .permissive .general read nodes path index →
      tokens[index]? = some ⟨.word kind.keyword, pos⟩ ∧
      ∀ word, (∀ keyword : Keyword, keyword.spelling ≠ word) →
        parseTokens .permissive (tokens.set index ⟨.word word, pos⟩) =
          .ok (replaceAt (.raw pos word) nodes path) := by
  intro read
  have derives := (parseTokens_eq_ok_iff ..).mp parsed
  refine ⟨derives.exists_leads found, fun index leads => ?_⟩
  obtain ⟨leading, misspelled⟩ := leads.misspell found
  have short : index < read.length := (List.getElem?_eq_some_iff.mp leading).1
  refine ⟨?_, fun word foreign => ?_⟩
  · obtain ⟨back, whole⟩ : read <+: tokens := List.takeWhile_prefix _
    rw [← whole, List.getElem?_append_left short, leading]
  · rw [parseTokens_eq_ok_iff, takeWhile_set _ rfl short]
    exact misspelled word foreign

/-- A column that holds a row, and a text behind it. -/
def columnTokens : List Token :=
  [⟨.word "ui", ⟨1, 1⟩⟩, ⟨.openBrace, ⟨1, 4⟩⟩, ⟨.word "column", ⟨1, 6⟩⟩, ⟨.openBrace, ⟨1, 13⟩⟩,
    ⟨.word "row", ⟨1, 15⟩⟩, ⟨.openBrace, ⟨1, 19⟩⟩, ⟨.closeBrace, ⟨1, 21⟩⟩, ⟨.closeBrace, ⟨1, 23⟩⟩,
    ⟨.word "text", ⟨1, 25⟩⟩, ⟨.literal "b", ⟨1, 30⟩⟩, ⟨.closeBrace, ⟨1, 34⟩⟩,
    ⟨.endOfInput, ⟨1, 35⟩⟩]

theorem parseTokens_misspelled_column :
    let row := Node.block ⟨1, 15⟩ .row []
    let program := [Node.block ⟨1, 1⟩ .ui [.block ⟨1, 6⟩ .column [row], .text ⟨1, 25⟩ "b"]]
    parseTokens .permissive columnTokens = .ok program ∧
      nodeAt? program [0, 0] = some (.block ⟨1, 6⟩ .column [row]) ∧
      parseTokens .permissive (columnTokens.set 2 ⟨.word "colum", ⟨1, 6⟩⟩) =
        .ok [.block ⟨1, 1⟩ .ui [.raw ⟨1, 6⟩ "colum", .text ⟨1, 25⟩ "b"]] := by
  intro row program
  have opening : ∀ pos (kind : BlockKind),
      Opening [⟨.word kind.keyword, pos⟩] kind.context (.block pos kind) := fun _ _ => .block
  have text : Derives .permissive .general
      [⟨.word "text", ⟨1, 25⟩⟩, ⟨.literal "b", ⟨1, 30⟩⟩] [.text ⟨1, 25⟩ "b"] :=
    .phrase (.text (.inr rfl)) rfl .nil
  have empty : Derives .permissive .general
      [⟨.word "row", ⟨1, 15⟩⟩, ⟨.openBrace, ⟨1, 19⟩⟩, ⟨.closeBrace, ⟨1, 21⟩⟩] [row] :=
    .block (opening ⟨1, 15⟩ .row) .nil rfl .nil
  have leads : Leads .permissive .general
      (columnTokens.takeWhile fun token => token.lexeme != .endOfInput) program [0, 0] 2 :=
    .inside (opening ⟨1, 1⟩ .ui) (.here (.block (opening ⟨1, 6⟩ .column) empty rfl text)) rfl .nil
  have parsed := (parseTokens_eq_ok_iff ..).mpr leads.derives
  have found : nodeAt? program [0, 0] = some (.block ⟨1, 6⟩ .column [row]) := rfl
  have misspelled := (parseTokens_misspelled_block parsed found).2 2 leads
  have foreign := (Keyword.ofWord?_eq_none_iff "colum").mp (by decide)
  exact ⟨parsed, found, misspelled.2 "colum" foreign⟩

end Pagewright
