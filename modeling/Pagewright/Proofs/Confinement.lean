import Mathlib.Data.List.Forall2
import Pagewright.Proofs.Pages

set_option autoImplicit false

namespace Pagewright

/-- What a statement does, with the text that an update without a source writes. -/
inductive Statement.Causes (text : String) : Statement → Effect → Prop
  | insert {table source : String} : Causes text (.insert table source) (.insert table source)
  | refresh {table : String} : Causes text (.refresh table) (.render table)
  | delete {table : String} : Causes text (.delete table) (.delete table)
  | updateFrom {table source : String} :
      Causes text (.update table (some source)) (.update table (.input source))
  | update {table : String} : Causes text (.update table none) (.update table (.literal text))

/-- The statement of a node, if it does something. -/
def Node.activeStep? : Node → Option Statement
  | .statement _ step => step.table?.map fun _ => step
  | _ => none

/-- The name of a function and the statements in it that do something. -/
def Node.procedure? : Node → Option (String × List Statement)
  | .function _ name body => some (name, body.filterMap Node.activeStep?)
  | _ => none

/-- The functions of a program with what they do. -/
def procedures (nodes : List Node) : List (String × List Statement) :=
  (liveNodes nodes).filterMap Node.procedure?

/-- The handler has the name of the function, and one effect for each of its statements. -/
structure Handler.Performs (text : String) (procedure : String × List Statement)
    (handler : Handler) : Prop where
  name : handler.name = procedure.1
  effects : List.Forall₂ (Statement.Causes text) procedure.2 handler.effects

/-- Two effects that differ at most in the text that they write. -/
inductive Effect.Alike : Effect → Effect → Prop
  | same {effect : Effect} : Alike effect effect
  | update {table text other : String} :
      Alike (.update table (.literal text)) (.update table (.literal other))

structure Handler.Alike (handler other : Handler) : Prop where
  name : handler.name = other.name
  effects : List.Forall₂ Effect.Alike handler.effects other.effects

/-- Two pages that differ at most in their style, the place of their store and the texts that their
handlers write. -/
structure Page.Alike (page other : Page) : Prop where
  title : page.title = other.title
  markup : page.markup = other.markup
  tables : page.bootstrap.tables = other.bootstrap.tables
  renderFunctions : page.behavior.renderFunctions = other.behavior.renderFunctions
  handlers : List.Forall₂ Handler.Alike page.behavior.handlers other.behavior.handlers

theorem Statement.Causes.alike {text other : String} {step : Statement} {effect changed : Effect}
    (causes : step.Causes text effect) (causesOther : step.Causes other changed) :
    effect.Alike changed := by
  cases causes with
  | update =>
    cases causesOther
    exact .update
  | _ =>
    cases causesOther
    exact .same

/-- What stands over one list, each item over its own, stands side by side. -/
theorem forall₂_of_common {α β γ : Type} {left : α → β → Prop} {right : α → γ → Prop}
    {both : β → γ → Prop} (meet : ∀ item first second, left item first → right item second →
      both first second) {items : List α} {firsts : List β} {seconds : List γ}
    (lefts : List.Forall₂ left items firsts) (rights : List.Forall₂ right items seconds) :
    List.Forall₂ both firsts seconds := by
  induction lefts generalizing seconds with
  | nil =>
    cases rights
    exact .nil
  | cons first _ ih =>
    cases rights with
    | cons second others => exact .cons (meet _ _ _ first second) (ih others)

theorem Handler.Performs.alike {text other : String} {procedure : String × List Statement}
    {handler changed : Handler} (performs : handler.Performs text procedure)
    (performsOther : changed.Performs other procedure) : handler.Alike changed := by
  refine ⟨performs.name.trans performsOther.name.symm,
    forall₂_of_common ?_ performs.effects performsOther.effects⟩
  intro step effect otherEffect causes causesOther
  exact causes.alike causesOther

theorem causes_effects (text : String) (body : List Node) :
    List.Forall₂ (Statement.Causes text) (body.filterMap Node.activeStep?)
      ((body.filterMap (Node.effect? text)).map Prod.snd) := by
  induction body with
  | nil => exact .nil
  | cons child rest ih =>
    cases child with
    | statement pos step =>
      cases step with
      | insert table source => exact .cons .insert ih
      | refresh table => exact .cons .refresh ih
      | delete table => exact .cons .delete ih
      | update table source =>
        cases source with
        | none => exact .cons .update ih
        | some source => exact .cons .updateFrom ih
      | condition text => exact ih
    | _ => exact ih

theorem performs_handlers (text : String) (nodes : List Node) :
    List.Forall₂ (fun procedure handler => Handler.Performs text procedure handler)
      (nodes.filterMap Node.procedure?) (nodes.filterMap (Node.handler? text)) := by
  induction nodes with
  | nil => exact .nil
  | cons node rest ih =>
    cases node with
    | function pos name body => exact .cons ⟨rfl, causes_effects text body⟩ ih
    | _ => exact ih

/-- Whether a program has a page, and otherwise why not. -/
def verdict (checked : Bool) (nodes : List Node) : Walk Unit := do
  forM (liveNodes nodes) checkLive
  if checked then (collected "" nodes).check else .ok ()

theorem collected_check_eq (text other : String) (nodes : List Node) :
    (collected text nodes).check = (collected other nodes).check := by
  simp only [Draft.check, collected, Draft.notes_tables, Draft.notes_functions,
    Draft.notes_references]

/-- The settings decide about the page of a program, and about nothing before it but the checks. -/
theorem generate_eq_verdict (settings : Settings) (nodes : List Node) :
    generate settings nodes =
      (verdict settings.checkTables nodes).map fun _ => livePage settings nodes := by
  rw [generate_eq, collected_page, collected_check_eq settings.updatePlaceholder "", verdict]
  cases forM (liveNodes nodes) checkLive with
  | error diagnostic => rfl
  | ok _ =>
    cases settings.checkTables with
    | false => rfl
    | true =>
      change ((collected "" nodes).check >>= fun _ => .ok _) = ((collected "" nodes).check).map _
      cases (collected "" nodes).check <;> rfl

theorem livePage_alike (first second : Settings) (nodes : List Node) :
    (livePage first nodes).Alike (livePage second nodes) where
  title := rfl
  markup := rfl
  tables := rfl
  renderFunctions := rfl
  handlers := by
    refine forall₂_of_common ?_ (performs_handlers first.updatePlaceholder (liveNodes nodes))
      (performs_handlers second.updatePlaceholder (liveNodes nodes))
    intro procedure handler other performs performsOther
    exact performs.alike performsOther

/-- Settings reach a page where they should and nowhere else. If two settings ask for the same
checks, a program is refused under both with one diagnostic or accepted under both, and the pages
differ at most in style, store and the texts of updates without a source. If they also read in the
same mode, the same holds of every source text. -/
theorem settings_confined (first second : Settings)
    (checks : first.checkTables = second.checkTables) :
    (∀ nodes,
      (∃ diagnostic, generate first nodes = .error diagnostic ∧
        generate second nodes = .error diagnostic) ∨
      ∃ page other, generate first nodes = .ok page ∧ generate second nodes = .ok other ∧
        page.Alike other ∧
        List.Forall₂ (Handler.Performs first.updatePlaceholder) (procedures nodes)
          page.behavior.handlers ∧
        List.Forall₂ (Handler.Performs second.updatePlaceholder) (procedures nodes)
          other.behavior.handlers) ∧
    (first.strict = second.strict → ∀ source,
      (∃ diagnostic, compile first source = .error diagnostic ∧
        compile second source = .error diagnostic) ∨
      ∃ page other, compile first source = .ok page ∧ compile second source = .ok other ∧
        page.Alike other) := by
  have generated : ∀ nodes,
      (∃ diagnostic, generate first nodes = .error diagnostic ∧
        generate second nodes = .error diagnostic) ∨
      generate first nodes = .ok (livePage first nodes) ∧
        generate second nodes = .ok (livePage second nodes) := by
    intro nodes
    rw [generate_eq_verdict, generate_eq_verdict, checks]
    cases verdict second.checkTables nodes with
    | error diagnostic => exact .inl ⟨diagnostic, rfl, rfl⟩
    | ok _ => exact .inr ⟨rfl, rfl⟩
  refine ⟨fun nodes => ?_, fun strict source => ?_⟩
  · rcases generated nodes with refused | ⟨accepted, acceptedToo⟩
    · exact .inl refused
    · exact .inr ⟨_, _, accepted, acceptedToo, livePage_alike first second nodes,
        performs_handlers _ _, performs_handlers _ _⟩
  · have modes : first.mode = second.mode := by rw [Settings.mode, Settings.mode, strict]
    rw [compile, compile, modes]
    cases parse second.mode source with
    | error diagnostic => exact .inl ⟨diagnostic, rfl, rfl⟩
    | ok nodes =>
      rcases generated nodes with refused | ⟨accepted, acceptedToo⟩
      · exact .inl refused
      · exact .inr ⟨_, _, accepted, acceptedToo, livePage_alike first second nodes⟩

/-- Settings that differ from the usual ones in all that a compile may still change. -/
def otherSettings : Settings where
  updatePlaceholder := "edited"
  output := "page.html"
  store := ⟨"store.js", "store/"⟩
  style := ⟨"serif", 1, 2⟩

def updateProgram : String := "table t \x7b \x7d fn f \x7b update t update t from box \x7d"

theorem compile_updateProgram : ∃ page other,
    compile {} updateProgram = .ok page ∧ compile otherSettings updateProgram = .ok other ∧
    page.behavior.handlers =
      [⟨"f", [.update "t" (.literal "new text"), .update "t" (.input "box")]⟩] ∧
    other.behavior.handlers =
      [⟨"f", [.update "t" (.literal "edited"), .update "t" (.input "box")]⟩] ∧
    page.Alike other := by
  have handlers : (compile {} updateProgram).toOption.map (fun page => page.behavior.handlers) =
      some [⟨"f", [.update "t" (.literal "new text"), .update "t" (.input "box")]⟩] := by
    decide +kernel
  have otherHandlers : (compile otherSettings updateProgram).toOption.map
      (fun page => page.behavior.handlers) =
      some [⟨"f", [.update "t" (.literal "edited"), .update "t" (.input "box")]⟩] := by
    decide +kernel
  obtain ⟨-, compiled⟩ := settings_confined {} otherSettings rfl
  rcases compiled rfl updateProgram with ⟨diagnostic, failed, -⟩ | ⟨page, other, success,
    otherSuccess, alike⟩
  · rw [failed] at handlers
    cases handlers
  · rw [success] at handlers
    rw [otherSuccess] at otherHandlers
    exact ⟨page, other, success, otherSuccess, Option.some.inj handlers,
      Option.some.inj otherHandlers, alike⟩

end Pagewright
