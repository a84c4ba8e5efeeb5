import Pagewright.Proofs.Blanking
import Pagewright.Proofs.Delimiting

set_option autoImplicit false

namespace Pagewright

open Text

/-- What stands before a word: a dot, the word that defines a function, or neither. -/
inductive Lead where
  | free | member | definition
deriving DecidableEq, Repr

/-- Where a reader of a script stands. -/
inductive Spot where
  | code (lead : Lead)
  | word (lead : Lead) (read : List Char)
  | literal | escape | pattern
deriving DecidableEq, Repr

namespace Spot

/-- Behind a character that goes on with no word. -/
def enter (lead : Lead) (c : Char) : Spot :=
  if startsIdentifier c then .word lead [c]
  else if c = '"' then .literal
  else if c = '/' then .pattern
  else if c = '.' then .code .member
  else .code .free

def next : Spot → Char → Spot
  | .code lead, c => enter lead c
  | .word lead read, c =>
    if continuesIdentifier c then .word lead (read ++ [c])
    else if c = ' ' ∧ read = "function".toList then .code .definition
    else enter .free c
  | .literal, c => if c = '"' then .code .free else if c = '\\' then .escape else .literal
  | .escape, _ => .literal
  -- The flags behind a pattern are no name.
  | .pattern, c => if c = '/' then .code .member else .pattern

/-- The name that ends before a character. -/
def ended : Spot → Char → List (List Char)
  | .word .free read, c => if continuesIdentifier c then [] else [read]
  | _, _ => []

end Spot

/-- The names that a text uses and ends, and where its reader stands behind it. -/
def scanNames (spot : Spot) : List Char → List (List Char) × Spot
  | [] => ([], spot)
  | c :: rest =>
    let behind := scanNames (spot.next c) rest
    (spot.ended c ++ behind.1, behind.2)

/-- The names that a script uses. -/
def usedNames (script : String) : List String :=
  (scanNames (.code .free) script.toList).1.map String.ofList

/-- Words of the language. -/
def languageWords : List String :=
  ["async", "await", "const", "function", "if", "let", "new", "null", "return", "throw"]

/-- Names that the scripts bind where they use them: constants inside of functions, parameters, and
the key of an object. -/
def boundNames : List String :=
  ["SQL", "arg", "c", "cols", "el", "f", "i", "id", "locateFile", "name", "res", "row", "rows",
    "slots", "sql", "table", "v", "value"]

/-- Names of elements, such as `n0`. -/
def isNumbered (name : String) : Bool :=
  match name.toList with
  | 'n' :: digits => !digits.isEmpty && digits.all Char.isDigit
  | _ => false

theorem isNumbered_localName (number : Nat) : isNumbered (localName number) = true := by
  have digits : ∀ c ∈ (toString number).toList, c.isDigit = true :=
    fun c member => isDigit_of_mem_toString member
  rw [isNumbered, toList_localName]
  simpa [toString_ne_nil number] using digits

/-- Whether a name of the scripts means nothing global. -/
def isBound (name : String) : Bool :=
  (languageWords ++ boundNames).contains name || isNumbered name

/-- The fixed globals that the scripts use: those of the runtime, and those of the browser and of
the language that it needs. -/
def scriptGlobals : List String :=
  Bootstrap.runtimeNames ++ ["window", "document", "String", "Error"]

/-- The global names that the scripts of a page use. -/
def Page.usedGlobals (page : Page) : List String :=
  (usedNames page.bootstrap.render ++ usedNames page.behavior.render).filter
    fun name => !isBound name

/-- What the scripts may use. -/
def Known (name : String) : Prop :=
  isBound name = true ∨ name ∈ scriptGlobals ∨ ∃ table, name = renderFunctionName table

/-- Between two spots, a text uses known names only. -/
structure Uses (start stop : Spot) (text : String) : Prop where
  ends : (scanNames start text.toList).2 = stop
  known : ∀ read ∈ (scanNames start text.toList).1, Known (String.ofList read)

/-- Whether the characters of a fixed text use known names only, found out by running the reader. -/
def passes (start stop : Spot) (text : List Char) : Bool :=
  decide ((scanNames start text).2 = stop) && (scanNames start text).1.all fun read =>
    (languageWords ++ boundNames ++ scriptGlobals).contains (String.ofList read)

/-- Whether a name ends before the text. Behind a blank it could be that of a function. -/
def separates (text : List Char) : Bool :=
  text.head?.any fun c => !continuesIdentifier c && c != ' '

/-- A text that is code from its start to its end. -/
abbrev IsCode (text : String) : Prop := Uses (.code .free) (.code .free) text

theorem scanNames_cons (spot : Spot) (c : Char) (rest : List Char) :
    scanNames spot (c :: rest) =
      (spot.ended c ++ (scanNames (spot.next c) rest).1, (scanNames (spot.next c) rest).2) := rfl

theorem scanNames_append (spot : Spot) (first second : List Char) :
    scanNames spot (first ++ second) =
      ((scanNames spot first).1 ++ (scanNames (scanNames spot first).2 second).1,
        (scanNames (scanNames spot first).2 second).2) := by
  induction first generalizing spot with
  | nil => rfl
  | cons c rest ih => rw [List.cons_append, scanNames_cons, scanNames_cons, ih, List.append_assoc]

/-- A word goes on as long as its characters do. -/
theorem scanNames_word (lead : Lead) (read : List Char) {text : List Char}
    (continues : ∀ c ∈ text, continuesIdentifier c = true) :
    scanNames (.word lead read) text = ([], .word lead (read ++ text)) := by
  induction text generalizing read with
  | nil => rw [List.append_nil]; rfl
  | cons c text ih =>
    obtain ⟨first, others⟩ := List.forall_mem_cons.mp continues
    have stays : (Spot.word lead read).next c = .word lead (read ++ [c]) := if_pos first
    have goesOn : (Spot.word lead read).ended c = [] := by
      cases lead with
      | free => exact if_pos first
      | member | definition => rfl
    rw [scanNames_cons, stays, goesOn, ih _ others, List.append_assoc]
    rfl

theorem scanNames_identifier {name : String} (identifier : Identifier name) (lead : Lead) :
    scanNames (.code lead) name.toList = ([], .word lead name.toList) := by
  obtain ⟨c, rest, spelling, start, -⟩ := id identifier
  have begins : (Spot.code lead).next c = .word lead [c] :=
    if_pos ((startsIdentifier_iff c).mpr start)
  have continues : ∀ d ∈ rest, continuesIdentifier d = true := by
    intro d member
    exact identifier.continues (spelling ▸ .tail _ member)
  rw [spelling, scanNames_cons, begins, scanNames_word lead [c] continues]
  rfl

theorem exists_of_separates {text : List Char} (apart : separates text = true) :
    ∃ c rest, text = c :: rest ∧ continuesIdentifier c = false ∧ c ≠ ' ' := by
  obtain ⟨c, first, breaks⟩ := (Option.any_eq_true ..).mp apart
  obtain ⟨rest, spelling⟩ := List.head?_eq_some_iff.mp first
  rw [Bool.and_eq_true, Bool.not_eq_true', bne_iff_ne] at breaks
  exact ⟨c, rest, spelling, breaks⟩

theorem separates_append {front : List Char} (apart : separates front = true) (back : List Char) :
    separates (front ++ back) = true := by
  obtain ⟨c, rest, rfl, -⟩ := exists_of_separates apart
  exact apart

namespace Uses

variable {start middle stop : Spot}

theorem append {first second : String} (front : Uses start middle first)
    (back : Uses middle stop second) : Uses start stop (first ++ second) := by
  constructor
  · rw [String.toList_append, scanNames_append, front.ends, back.ends]
  · rw [String.toList_append, scanNames_append, front.ends, List.forall_mem_append]
    exact ⟨front.known, back.known⟩

theorem fixed {text : List Char} (checked : passes start stop text = true) :
    Uses start stop (String.ofList text) := by
  obtain ⟨ends, all⟩ := Bool.and_eq_true_iff.mp checked
  rw [← String.toList_ofList (l := text)] at ends all
  refine ⟨of_decide_eq_true ends, fun read member => ?_⟩
  have listed := List.contains_iff_mem.mp (List.all_eq_true.mp all read member)
  rcases List.mem_append.mp listed with own | fixed
  · refine .inl ?_
    rw [isBound, List.contains_iff_mem.mpr own, Bool.true_or]
  · exact .inr (.inl fixed)

/-- A fixed text before another text. -/
theorem opening {front : List Char} {back : String} (checked : passes start middle front = true)
    (behind : Uses middle stop back) : Uses start stop (String.ofList front ++ back) :=
  (fixed checked).append behind

/-- A name before a text that cannot go on with it. It is used unless it is a member or being
defined. -/
theorem name {lead : Lead} {name after : String} (identifier : Identifier name)
    (known : lead = .free → Known name) (apart : separates after.toList = true)
    (behind : Uses (.code .free) stop after) : Uses (.code lead) stop (name ++ after) := by
  obtain ⟨c, rest, spelling, noWord, noSpace⟩ := exists_of_separates apart
  -- Behind the name, the reader goes on as from code.
  have goesOn : (Spot.word lead name.toList).next c = (Spot.code .free).next c := by
    simp only [Spot.next, noWord, noSpace, false_and, Bool.false_eq_true, ↓reduceIte]
  have reads : scanNames (.word lead name.toList) after.toList =
      ((Spot.word lead name.toList).ended c ++ (scanNames (.code .free) after.toList).1,
        (scanNames (.code .free) after.toList).2) := by
    rw [spelling, scanNames_cons, scanNames_cons, goesOn]
    rfl
  constructor
  · rw [String.toList_append, scanNames_append, scanNames_identifier identifier, reads, behind.ends]
  · rw [String.toList_append, scanNames_append, scanNames_identifier identifier, reads,
      List.nil_append, List.forall_mem_append]
    refine ⟨fun read member => ?_, behind.known⟩
    cases lead with
    | free =>
      have own : (Spot.word .free name.toList).ended c = [name.toList] := by
        simp only [Spot.ended, noWord, Bool.false_eq_true, ↓reduceIte]
      rw [own, List.mem_singleton] at member
      rw [member, String.ofList_toList]
      exact known rfl
    | member | definition => cases member

theorem nil : Uses start start "" := ⟨rfl, List.forall_mem_nil _⟩

theorem join {texts : List String} (each : ∀ text ∈ texts, Uses start start text) :
    Uses start start (String.join texts) := join_of_forall nil append each

theorem intercalate {separator : String} {texts : List String}
    (between : Uses start start separator) (each : ∀ text ∈ texts, Uses start start text) :
    Uses start start (separator.intercalate texts) :=
  intercalate_of_forall nil append between each

/-- What is passed without a name. -/
theorem passed {text : String} (scanned : scanNames start text.toList = ([], stop)) :
    Uses start stop text := by
  refine ⟨?_, ?_⟩ <;> rw [scanned]
  exact List.forall_mem_nil _

end Uses

section Passed

theorem not_startsIdentifier_of_isDigit {c : Char} (digit : c.isDigit = true) :
    startsIdentifier c = false := by
  obtain ⟨-, small⟩ := (isDigit_iff c).mp digit
  rw [Bool.eq_false_iff, ne_eq, startsIdentifier_iff]
  rintro ((⟨large, -⟩ | ⟨large, -⟩) | rfl | rfl)
  · exact absurd (Char.le_trans large small) (by decide)
  · exact absurd (Char.le_trans large small) (by decide)
  · cases digit
  · cases digit

theorem next_digit {c : Char} (digit : c.isDigit = true) :
    (Spot.code .free).next c = .code .free := by
  have noQuote : c ≠ '"' := by rintro rfl; cases digit
  have noSlash : c ≠ '/' := by rintro rfl; cases digit
  have noDot : c ≠ '.' := by rintro rfl; cases digit
  simp only [Spot.next, Spot.enter, not_startsIdentifier_of_isDigit digit, noQuote, noSlash, noDot,
    Bool.false_eq_true, ↓reduceIte]

/-- A number is no name. -/
theorem isCode_toString (number : Nat) : IsCode (toString number) := by
  apply Uses.passed
  have digits : ∀ c ∈ (toString number).toList, c.isDigit = true :=
    fun c member => isDigit_of_mem_toString member
  generalize (toString number).toList = text at digits
  induction text with
  | nil => rfl
  | cons c text ih =>
    obtain ⟨digit, others⟩ := List.forall_mem_cons.mp digits
    rw [scanNames_cons, next_digit digit, ih others]
    rfl

/-- The spot of a region. -/
def Region.spot : Region → Spot
  | .code => .code .free
  | .literal => .literal
  | .escape => .escape

/-- The reader passes over what blanking drops. -/
theorem scanNames_of_scanCode {region stop : Region} {text : List Char} (inside : region ≠ .code)
    (dropped : scanCode region text = ([], stop)) :
    scanNames region.spot text = ([], stop.spot) := by
  induction text generalizing region with
  | nil =>
    cases dropped
    rfl
  | cons c text ih =>
    rw [scanCode_cons] at dropped
    obtain ⟨kept, ends⟩ := Prod.mk.inj dropped
    split at kept
    · cases kept
    · rename_i lost
      have rest : scanCode (region.next c) text = ([], stop) := Prod.ext kept ends
      cases region with
      | code => exact absurd rfl inside
      | literal =>
        have noQuote : c ≠ '"' := by simpa [Region.keeps] using lost
        have stays : Region.literal.next c ≠ .code := by
          rw [Region.next, if_neg noQuote]
          split <;> simp
        have same : Spot.literal.next c = (Region.literal.next c).spot := by
          rw [Region.next, Spot.next, if_neg noQuote, if_neg noQuote]
          split <;> rfl
        exact (congrArg (scanNames · text) same).trans (ih stays rest)
      | escape => exact ih (by simp [Region.next]) rest

/-- A literal uses no name, whatever text it stands for. -/
theorem uses_script (lead : Lead) (text : String) :
    Uses (.code lead) (.code .free) (Literal.script text) := by
  have inside : scanNames .literal (text.toList.flatMap Literal.spelling) = ([], .literal) :=
    scanNames_of_scanCode (by decide : Region.literal ≠ .code) (scanCode_flatMap_spelling _)
  have opens : (Spot.code lead).next '"' = .literal := by cases lead <;> decide
  apply Uses.passed
  rw [Literal.toList_script_eq, scanNames_cons, opens, scanNames_append, inside]
  rfl

end Passed

section Scripts

theorem isCode_append {first second : String} (front : IsCode first) (back : IsCode second) :
    IsCode (first ++ second) := front.append back

theorem usedNames_append {first : String} (code : IsCode first) (second : String) :
    usedNames (first ++ second) = usedNames first ++ usedNames second := by
  rw [usedNames, String.toList_append, scanNames_append, code.ends, List.map_append]
  rfl

/-- A script uses what its lines use. -/
theorem usedNames_scriptText {lines : List String} (code : ∀ line ∈ lines, IsCode line) :
    usedNames (scriptText lines) = lines.flatMap usedNames := by
  induction lines with
  | nil => rfl
  | cons line rest ih =>
    obtain ⟨first, others⟩ := List.forall_mem_cons.mp code
    have feed : IsCode "\n" := .fixed (by decide)
    have step : scriptText (line :: rest) = line ++ ("\n" ++ scriptText rest) := by
      simp [scriptText, String.append_assoc]
    have noName : usedNames "\n" = [] := rfl
    rw [step, usedNames_append first, usedNames_append feed, ih others, noName, List.nil_append,
      List.flatMap_cons]

theorem known_of_mem_usedNames {text name : String} (code : IsCode text)
    (used : name ∈ usedNames text) : Known name := by
  obtain ⟨read, ended, rfl⟩ := List.mem_map.mp used
  exact code.known read ended

/-- For fixed texts, in which a name is found by running the reader. -/
theorem mem_usedNames_ofList {text name : List Char}
    (found : (scanNames (.code .free) text).1.contains name = true) :
    String.ofList name ∈ usedNames (String.ofList text) := by
  rw [usedNames, String.toList_ofList]
  exact List.mem_map_of_mem (List.contains_iff_mem.mp found)

end Scripts

end Pagewright
