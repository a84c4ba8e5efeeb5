import Pagewright.Proofs.Readers
import Pagewright.Proofs.Tags

set_option autoImplicit false

namespace Pagewright

namespace Rule

section Reading

/-- The texts before each closing brace at the end of a line, and the text behind the last. -/
def splitRules : List Char → List (List Char)
  | [] => [[]]
  | '}' :: '\n' :: rest => [] :: splitRules rest
  | c :: rest => (splitRules rest).modifyHead (c :: ·)

/-- The property before the first colon and the value behind it. -/
def readDeclaration (text : List Char) : Option (String × String) := do
  let (property, rest) := upTo ':' text
  let value ← expect ":" rest
  some (property, String.ofList value)

/-- What stands between the braces of a rule. Nothing at all is no declaration. -/
def readDeclarations (body : List Char) : Option (List (String × String)) :=
  if body = [] then some [] else (body.splitOn ';').mapM readDeclaration

def readRule (text : List Char) : Option Rule := do
  let (selector, rest) := upTo '{' text
  let body ← expect "\x7b" rest
  let declarations ← readDeclarations body
  some ⟨selector, declarations⟩

/-- The rules of a stylesheet, if nothing stands behind the last. -/
def readAll (text : String) : Option (List Rule) :=
  let pieces := splitRules text.toList
  if pieces.getLast? = some [] then pieces.dropLast.mapM readRule else none

end Reading

def Lacks (marks : List Char) (text : String) : Prop := ∀ mark ∈ marks, mark ∉ text.toList

instance (marks : List Char) (text : String) : Decidable (Lacks marks text) :=
  decidable_of_iff ((marks.all fun mark => decide (mark ∉ text.toList)) = true) (by simp [Lacks])

/-- The marks that a rule is cut at stand in neither its selector nor its properties. -/
structure Divisible (rule : Rule) : Prop where
  selector : Lacks ['{', '}'] rule.selector
  properties : ∀ declaration ∈ rule.declarations, Lacks ['{', '}', ';', ':'] declaration.1

/-- A declaration whose value has lost five characters and nothing else. -/
def stripDeclaration (declaration : String × String) : String × String :=
  (declaration.1,
    String.ofList (declaration.2.toList.filter fun c => c ∉ ['{', '}', ';', '<', '>']))

def strip (rule : Rule) : Rule := ⟨rule.selector, rule.declarations.map stripDeclaration⟩

section Cuts

theorem splitRules_cons {c : Char} (noBrace : c ≠ '}') (rest : List Char) :
    splitRules (c :: rest) = (splitRules rest).modifyHead (c :: ·) := by
  rw [splitRules]
  rintro _ rfl -
  exact noBrace rfl

theorem splitRules_append {front : List Char} (noBrace : '}' ∉ front) (back : List Char) :
    splitRules (front ++ '}' :: '\n' :: back) = front :: splitRules back := by
  induction front with
  | nil => rfl
  | cons c front ih =>
    rw [List.mem_cons, not_or] at noBrace
    rw [List.cons_append, splitRules_cons (Ne.symm noBrace.1), ih noBrace.2, List.modifyHead_cons]

/-- A rule without the brace and the line feed that end it. -/
def opened (rule : Rule) : List Char :=
  rule.selector.toList ++
    ("\x7b".toList ++ (";".intercalate (rule.declarations.map renderDeclaration)).toList)

theorem toList_render (rule : Rule) : rule.render.toList = rule.opened ++ ['}', '\n'] := by
  simp [render, opened]

theorem toList_renderDeclaration (declaration : String × String) :
    (renderDeclaration declaration).toList =
      declaration.1.toList ++ (":".toList ++ (sanitize declaration.2).toList) := by
  simp [renderDeclaration]

theorem toList_sanitize (value : String) :
    (sanitize value).toList = value.toList.filter fun c => c ∉ ['{', '}', ';', '<', '>'] := by
  rw [sanitize, String.toList_ofList]
  congr 1
  funext c
  rw [Bool.eq_iff_iff]
  simp [isDelimiter, and_assoc]

/-- A mark of a rule is in none of its declarations, if not in a property. -/
theorem not_mem_renderDeclaration {mark : Char} {declaration : String × String}
    (removed : mark ∈ ['{', '}', ';', '<', '>']) (noColon : mark ≠ ':')
    (absent : mark ∉ declaration.1.toList) : mark ∉ (renderDeclaration declaration).toList := by
  have notKept : mark ∉ (sanitize declaration.2).toList := by
    rw [toList_sanitize, List.mem_filter, decide_eq_true_eq]
    exact fun kept => kept.2 removed
  rw [toList_renderDeclaration, List.mem_append, List.mem_append, not_or, not_or]
  exact ⟨absent, by simpa using noColon, notKept⟩

theorem readDeclaration_render {declaration : String × String}
    (noColon : ':' ∉ declaration.1.toList) :
    readDeclaration (renderDeclaration declaration).toList =
      some (stripDeclaration declaration) := by
  have cut : upTo ':' (renderDeclaration declaration).toList =
      (declaration.1, ":".toList ++ (sanitize declaration.2).toList) := by
    rw [toList_renderDeclaration]
    exact upTo_append noColon rfl
  simp only [readDeclaration, cut, expect_append, Option.bind_eq_bind, Option.bind_some,
    toList_sanitize, stripDeclaration]

theorem renderDeclaration_ne_nil (declaration : String × String) :
    (renderDeclaration declaration).toList ≠ [] := by
  simp [renderDeclaration]

theorem readDeclarations_render {declarations : List (String × String)}
    (absent : ∀ declaration ∈ declarations, Lacks ['{', '}', ';', ':'] declaration.1) :
    readDeclarations (";".intercalate (declarations.map renderDeclaration)).toList =
      some (declarations.map stripDeclaration) := by
  cases declarations with
  | nil => rfl
  | cons first others =>
    have filled : (";".intercalate ((first :: others).map renderDeclaration)).toList ≠ [] := by
      rw [List.map_cons, intercalate_cons_eq_join, String.toList_append]
      exact List.append_ne_nil_of_left_ne_nil (renderDeclaration_ne_nil first) _
    have parts : (";".intercalate ((first :: others).map renderDeclaration)).toList.splitOn ';' =
        (first :: others).map fun declaration => (renderDeclaration declaration).toList := by
      rw [String.toList_intercalate, List.map_map]
      refine List.splitOn_intercalate ';' (List.forall_mem_map.mpr fun declaration member => ?_)
        (by simp)
      exact not_mem_renderDeclaration (by decide) (by decide)
        (absent declaration member ';' (by decide))
    rw [readDeclarations, if_neg filled, parts]
    exact mapM_map_eq_some fun declaration member =>
      readDeclaration_render (absent declaration member ':' (by decide))

theorem readRule_opened {rule : Rule} (divisible : rule.Divisible) :
    readRule rule.opened = some rule.strip := by
  have cut : upTo '{' rule.opened = (rule.selector, "\x7b".toList ++
      (";".intercalate (rule.declarations.map renderDeclaration)).toList) :=
    upTo_append (divisible.selector '{' (by decide)) rfl
  simp only [readRule, cut, expect_append, readDeclarations_render divisible.properties,
    Option.bind_eq_bind, Option.bind_some, strip]

theorem brace_not_mem_opened {rule : Rule} (divisible : rule.Divisible) : '}' ∉ rule.opened := by
  have declarations :
      '}' ∉ (";".intercalate (rule.declarations.map renderDeclaration)).toList := by
    have append : ∀ {first second : String}, '}' ∉ first.toList → '}' ∉ second.toList →
        '}' ∉ (first ++ second).toList := by
      intro first second noFirst noSecond
      rw [String.toList_append, List.mem_append, not_or]
      exact ⟨noFirst, noSecond⟩
    refine @intercalate_of_forall (fun text => '}' ∉ text.toList) List.not_mem_nil append _ _
      (by decide) (List.forall_mem_map.mpr fun declaration member => ?_)
    exact not_mem_renderDeclaration (by decide) (by decide)
        (divisible.properties declaration member '}' (by decide))
  rw [opened, List.mem_append, List.mem_append, not_or, not_or]
  exact ⟨divisible.selector '}' (by decide), by decide, declarations⟩

theorem splitRules_renderAll {rules : List Rule} (divisible : ∀ rule ∈ rules, rule.Divisible) :
    splitRules (renderAll rules).toList = rules.map opened ++ [[]] := by
  rw [renderAll, String.toList_join, List.flatMap_map]
  induction rules with
  | nil => rfl
  | cons rule rules ih =>
    obtain ⟨first, others⟩ := List.forall_mem_cons.mp divisible
    rw [List.flatMap_cons, toList_render, List.append_assoc]
    exact (splitRules_append (brace_not_mem_opened first) _).trans (congrArg _ (ih others))

theorem divisible_rules (style : Style) : ∀ rule ∈ style.rules, rule.Divisible := by
  have fixed : ∀ entry ∈ Style.outline style.rules,
      Lacks ['{', '}'] entry.1 ∧
        ∀ property ∈ entry.2, Lacks ['{', '}', ';', ':'] property := by
    rw [Style.outline_rules]
    decide
  intro rule member
  have entry := fixed _ (List.mem_map_of_mem member)
  exact ⟨entry.1, fun declaration listed => entry.2 _ (List.mem_map_of_mem listed)⟩

end Cuts

/-- The rules are read back with their selectors and their properties as they are; of the values
only the characters that could end them are missing. So every page sets the same properties under
the same selectors. -/
theorem readAll_renderAll :
    (∀ rules : List Rule, (∀ rule ∈ rules, rule.Divisible) →
      readAll (renderAll rules) = some (rules.map strip)) ∧
    ∀ style : Style, (readAll (renderAll style.rules)).map Style.outline =
      some [("body", ["font-family", "padding"]),
        (".col", ["display", "flex-direction", "gap"]),
        (".row", ["display", "flex-direction", "gap"]),
        (".item", ["display", "align-items", "gap"]),
        ("button", ["padding"])] := by
  have reads : ∀ rules : List Rule, (∀ rule ∈ rules, rule.Divisible) →
      readAll (renderAll rules) = some (rules.map strip) := by
    intro rules divisible
    rw [readAll, splitRules_renderAll divisible, List.getLast?_concat, if_pos rfl,
      List.dropLast_concat]
    exact mapM_map_eq_some fun rule member => readRule_opened (divisible rule member)
  refine ⟨reads, fun style => ?_⟩
  rw [reads style.rules (divisible_rules style), Option.map_some]
  rfl

/-- A value that imitates the end of its declaration and of its rule, an empty value, and a rule
without declarations. -/
def crowdedRules : List Rule :=
  [⟨"a:hover", [("font-family", "x;\x7d\nb\x7bc:d</style>"), ("color", "")]⟩, ⟨"\n.p", []⟩]

theorem readAll_crowdedRules : (∀ rule ∈ crowdedRules, rule.Divisible) ∧
    readAll (renderAll crowdedRules) =
      some [⟨"a:hover", [("font-family", "x\nbc:d/style"), ("color", "")]⟩, ⟨"\n.p", []⟩] := by
  have divisible : ∀ rule ∈ crowdedRules, rule.Divisible := by
    rw [crowdedRules, List.forall_mem_cons, List.forall_mem_singleton]
    exact ⟨⟨by decide, by decide⟩, by decide, by decide⟩
  exact ⟨divisible, readAll_renderAll.1 crowdedRules divisible⟩

end Rule

end Pagewright
