import Pagewright.Compile
import Pagewright.Proofs.Acceptance

set_option autoImplicit false

namespace Pagewright

theorem parse_eq_ok_iff (mode : Mode) (source : String) (nodes : List Node) :
    parse mode source = .ok nodes ↔
      ∃ tokens, tokenize source = .ok tokens ∧ parseTokens mode tokens = .ok nodes := by
  rw [parse]
  cases tokenize source with
  | error diagnostic =>
    constructor
    · intro success
      cases success
    · rintro ⟨_, impossible, -⟩
      cases impossible
  | ok tokens =>
    constructor
    · intro success
      exact ⟨tokens, rfl, success⟩
    · rintro ⟨_, same, success⟩
      cases same
      exact success

theorem compile_eq_ok_iff (settings : Settings) (source : String) (page : Page) :
    compile settings source = .ok page ↔
      ∃ nodes, parse settings.mode source = .ok nodes ∧ generate settings nodes = .ok page := by
  rw [compile]
  cases parse settings.mode source with
  | error diagnostic =>
    constructor
    · intro success
      cases success
    · rintro ⟨_, impossible, -⟩
      cases impossible
  | ok nodes =>
    constructor
    · intro success
      exact ⟨nodes, rfl, success⟩
    · rintro ⟨_, same, success⟩
      cases same
      exact success

theorem parse_eq_error {mode : Mode} {source : String} {diagnostic : Diagnostic}
    (failed : parse mode source = .error diagnostic) :
    tokenize source = .error diagnostic ∨
      ∃ tokens, tokenize source = .ok tokens ∧ parseTokens mode tokens = .error diagnostic := by
  rw [parse] at failed
  cases scanned : tokenize source with
  | error fault =>
    rw [scanned] at failed
    cases failed
    exact .inl rfl
  | ok tokens =>
    rw [scanned] at failed
    exact .inr ⟨tokens, rfl, failed⟩

theorem compile_eq_error {settings : Settings} {source : String} {diagnostic : Diagnostic}
    (failed : compile settings source = .error diagnostic) :
    parse settings.mode source = .error diagnostic ∨
      ∃ nodes, parse settings.mode source = .ok nodes ∧
        generate settings nodes = .error diagnostic := by
  rw [compile] at failed
  cases parsed : parse settings.mode source with
  | error fault =>
    rw [parsed] at failed
    cases failed
    exact .inl rfl
  | ok nodes =>
    rw [parsed] at failed
    exact .inr ⟨nodes, rfl, failed⟩

/-- What the page of a fixed program satisfies is decided by running the compiler. -/
theorem exists_page_of_any {result : Except Diagnostic Page} {holds : Page → Bool}
    (accepted : result.toOption.any holds = true) :
    ∃ page, result = .ok page ∧ holds page = true := by
  cases result with
  | error diagnostic => cases accepted
  | ok page => exact ⟨page, rfl, accepted⟩

/-- The page that the live nodes of a program describe. -/
def livePage (settings : Settings) (nodes : List Node) : Page where
  title := ((liveNodes nodes).filterMap Node.title?).getLast?.getD defaultTitle
  style := settings.style.rules
  markup := Node.markupAll 0 nodes
  bootstrap := ⟨settings.store, (liveNodes nodes).filterMap Node.schema?⟩
  behavior :=
    ⟨((liveNodes nodes).filterMap Node.schema?).map fun schema =>
        ⟨schema, slotsOf schema ((liveNodes nodes).filterMap Node.list?)⟩,
      (liveNodes nodes).filterMap (Node.handler? settings.updatePlaceholder)⟩

theorem collected_page (settings : Settings) (nodes : List Node) :
    (collected settings.updatePlaceholder nodes).page settings (Node.markupAll 0 nodes) =
      livePage settings nodes := by
  have title : (collected settings.updatePlaceholder nodes).title =
      ((liveNodes nodes).filterMap Node.title?).getLast? := by
    rw [collected, Draft.notes_title]
    exact Option.or_none
  have handlers : (collected settings.updatePlaceholder nodes).handlers =
      (liveNodes nodes).filterMap (Node.handler? settings.updatePlaceholder) :=
    Draft.notes_handlers ..
  have functions : (collected settings.updatePlaceholder nodes).renderFunction = fun schema =>
      ⟨schema, slotsOf schema ((liveNodes nodes).filterMap Node.list?)⟩ :=
    funext (collected_renderFunction _ nodes)
  simp only [Draft.page, collected_schemas, title, handlers, functions, livePage]

/-- A program that has a page passed all checks, and its page is the one that its live nodes
describe. -/
theorem generate_eq_ok_iff_livePage (settings : Settings) (nodes : List Node) (page : Page) :
    generate settings nodes = .ok page ↔
      (∀ node ∈ liveNodes nodes, node.WellPlaced) ∧
      (settings.checkTables = true → WellDeclared nodes) ∧
      page = livePage settings nodes := by
  rw [generate_eq_ok_iff, collected_check_eq_ok_iff, collected_page,
    @eq_comm _ (livePage settings nodes)]
  simp only [checkLive_eq_ok_iff]

theorem mem_list?_iff (nodes : List Node) (table : String) (body : List Node) :
    (table, body) ∈ nodes.filterMap Node.list? ↔ ∃ pos, .list pos table body ∈ nodes := by
  rw [List.mem_filterMap]
  constructor
  · rintro ⟨node, member, found⟩
    cases node with
    | list pos _ _ =>
      cases found
      exact ⟨pos, member⟩
    | _ => cases found
  · rintro ⟨pos, member⟩
    exact ⟨_, member, rfl⟩

theorem mem_schema?_iff (nodes : List Node) (schema : Schema) :
    schema ∈ nodes.filterMap Node.schema? ↔
      ∃ pos name fields, .table pos name fields ∈ nodes ∧
        Schema.declared name (fields.map Field.name) = schema := by
  rw [List.mem_filterMap]
  constructor
  · rintro ⟨node, member, found⟩
    cases node with
    | table pos name fields => exact ⟨pos, name, fields, member, Option.some.inj found⟩
    | _ => cases found
  · rintro ⟨pos, name, fields, member, rfl⟩
    exact ⟨_, member, rfl⟩

theorem schemas_names (nodes : List Node) :
    (nodes.filterMap Node.schema?).map Schema.name = nodes.filterMap Node.tableName? := by
  rw [List.map_filterMap]
  apply List.filterMap_congr
  intro node _
  cases node <;> rfl

theorem mem_handler?_iff (placeholder : String) (nodes : List Node) (handler : Handler) :
    handler ∈ nodes.filterMap (Node.handler? placeholder) ↔
      ∃ pos name body, .function pos name body ∈ nodes ∧
        ⟨name, (body.filterMap (Node.effect? placeholder)).map Prod.snd⟩ = handler := by
  rw [List.mem_filterMap]
  constructor
  · rintro ⟨node, member, found⟩
    cases node with
    | function pos name body => exact ⟨pos, name, body, member, Option.some.inj found⟩
    | _ => cases found
  · rintro ⟨pos, name, body, member, rfl⟩
    exact ⟨_, member, rfl⟩

/-- An effect comes from a statement that names its table. -/
theorem mem_effect?_iff (placeholder : String) (body : List Node) (table : String) :
    (∃ effect ∈ (body.filterMap (Node.effect? placeholder)).map Prod.snd, effect.table = table) ↔
      ∃ pos step, .statement pos step ∈ body ∧ step.table? = some table := by
  simp only [List.mem_map, List.mem_filterMap]
  constructor
  · rintro ⟨effect, ⟨⟨pos, _⟩, ⟨child, member, found⟩, rfl⟩, rfl⟩
    cases child with
    | statement pos step =>
      rw [Node.effect?_statement] at found
      obtain ⟨effect, active, same⟩ := Option.map_eq_some_iff.mp found
      cases same
      refine ⟨pos, step, member, ?_⟩
      rw [← Statement.effect?_table placeholder, active]
      rfl
    | _ => cases found
  · rintro ⟨pos, step, member, named⟩
    rw [← Statement.effect?_table placeholder] at named
    obtain ⟨effect, active, same⟩ := Option.map_eq_some_iff.mp named
    refine ⟨effect, ⟨(pos, effect), ⟨_, member, ?_⟩, rfl⟩, same⟩
    rw [Node.effect?_statement, active]
    rfl

end Pagewright
