import Pagewright.Proofs.MarkupText
import Pagewright.Proofs.ScriptText

set_option autoImplicit false

namespace Pagewright

open Text Markup

theorem scriptText_inj {first second : List String} (inline : ∀ line ∈ first, Inline line)
    (otherInline : ∀ line ∈ second, Inline line) (same : scriptText first = scriptText second) :
    first = second := by
  rw [← linesOf_scriptText inline, same, linesOf_scriptText otherInline]

theorem render_title (title : String) :
    (Markup.element "title" [] [.text title]).render =
      renderOpening "title" [] ++ (Entity.escapeText title ++ renderClosing "title") := by
  rw [render, if_neg (by decide), renderAll, renderAll, render, String.append_empty,
    String.append_assoc]

/-- The parts of a document that are told apart by tags. -/
theorem Page.parts_of_render {page other : Page} (style : page.style = other.style)
    (store : page.bootstrap.store = other.bootstrap.store)
    (proper : ProperAll page.markup) (otherProper : ProperAll other.markup)
    (bootstrap : '<' ∉ page.bootstrap.render.toList)
    (otherBootstrap : '<' ∉ other.bootstrap.render.toList)
    (behavior : '<' ∉ page.behavior.render.toList)
    (otherBehavior : '<' ∉ other.behavior.render.toList)
    (same : page.render = other.render) :
    page.title = other.title ∧ page.markup = other.markup ∧
      page.bootstrap.render = other.bootstrap.render ∧
      page.behavior.render = other.behavior.render := by
  have lineFeed : Heads '\n' "\n" := heads_ofList rfl
  have between : Heads '<' "</script>\n<script>\n" := heads_ofList rfl
  have closing : Heads '<' "</script></body></html>\n" := heads_ofList rfl
  -- The title and the scripts end at the next tag, the markup where no further element opens.
  delta Page.render at same
  simp only [render_title, style, store, String.append_assoc, String.append_right_inj] at same
  obtain ⟨titles, inBody⟩ := append_inj_of_mark (Entity.lessThan_not_mem_escapeText page.title)
    (Entity.lessThan_not_mem_escapeText other.title) (heads_renderClosing ..)
    (heads_renderClosing ..) same
  simp only [String.append_right_inj] at inBody
  obtain ⟨markups, inScripts⟩ := renderAll_append_inj page.markup other.markup proper otherProper
    (not_opens_of_heads (lineFeed.append _) (by decide))
    (not_opens_of_heads (lineFeed.append _) (by decide)) inBody
  simp only [String.append_right_inj] at inScripts
  obtain ⟨bootstraps, inLast⟩ := append_inj_of_mark bootstrap otherBootstrap (between.append _)
    (between.append _) inScripts
  rw [String.append_right_inj] at inLast
  obtain ⟨behaviors, -⟩ := append_inj_of_mark behavior otherBehavior closing closing inLast
  exact ⟨Entity.escapeText_inj titles, markups, bootstraps, behaviors⟩

theorem generate_fixed_parts {settings : Settings} {nodes : List Node} {page : Page}
    (success : generate settings nodes = .ok page) :
    page.style = settings.style.rules ∧ page.bootstrap.store = settings.store ∧
      page.behavior.renderFunctions.map RenderFunction.table = page.bootstrap.tables := by
  obtain ⟨-, -, rfl⟩ := (generate_eq_ok_iff_livePage settings nodes page).mp success
  refine ⟨rfl, rfl, ?_⟩
  rw [livePage, List.map_map]
  exact List.map_id _

/-- Two programs with one document under the same settings have one page. -/
theorem generate_render_injective {settings : Settings} {first second : List Node}
    {page other : Page} (success : generate settings first = .ok page)
    (otherSuccess : generate settings second = .ok other) (same : page.render = other.render) :
    page = other := by
  obtain ⟨style, store, functionTables⟩ := generate_fixed_parts success
  obtain ⟨otherStyle, otherStore, otherFunctionTables⟩ := generate_fixed_parts otherSuccess
  have bootstrapLines := Bootstrap.inline_lines (generate_tables_identifiers success)
  have otherBootstrapLines := Bootstrap.inline_lines (generate_tables_identifiers otherSuccess)
  have behaviorLines := (generate_wellNamed success).inline_lines
  have otherBehaviorLines := (generate_wellNamed otherSuccess).inline_lines
  have styles : page.style = other.style := style.trans otherStyle.symm
  have stores : page.bootstrap.store = other.bootstrap.store := store.trans otherStore.symm
  obtain ⟨titles, markups, bootstraps, behaviors⟩ := Page.parts_of_render styles stores
    (generate_properAll success) (generate_properAll otherSuccess)
    (lessThan_not_mem_scriptText bootstrapLines) (lessThan_not_mem_scriptText otherBootstrapLines)
    (lessThan_not_mem_scriptText behaviorLines) (lessThan_not_mem_scriptText otherBehaviorLines)
    same
  have tables : page.bootstrap.tables = other.bootstrap.tables :=
    Bootstrap.tables_inj (scriptText_inj bootstrapLines otherBootstrapLines bootstraps)
  have functions : page.behavior = other.behavior := by
    apply Behavior.lines_inj
    · rw [functionTables, otherFunctionTables, tables]
    · exact scriptText_inj behaviorLines otherBehaviorLines behaviors
  obtain ⟨title, style, markup, ⟨store, schemas⟩, behavior⟩ := page
  cases titles
  cases styles
  cases markups
  cases stores
  cases tables
  cases functions
  rfl

/-- A table, a list that shows its only column, and a function. -/
def bareProgram : List Node :=
  [.table ⟨1, 1⟩ "t" [],
    .list ⟨2, 1⟩ "t" [.block ⟨2, 8⟩ .item [.text ⟨2, 13⟩ "text"]],
    .function ⟨3, 1⟩ "go" [.statement ⟨3, 6⟩ (.delete "t")]]

/-- The same page from another program: the column is declared, the item names one that does not
exist, and words are skipped. -/
def paddedProgram : List Node :=
  [.raw ⟨1, 1⟩ "note",
    .block ⟨1, 6⟩ .db [.table ⟨1, 9⟩ "t" [⟨"text", ⟨1, 15⟩⟩]],
    .block ⟨2, 1⟩ .ui [.list ⟨2, 4⟩ "t" [.block ⟨2, 11⟩ .item [.text ⟨2, 16⟩ "body"]]],
    .function ⟨3, 1⟩ "go" [.statement ⟨3, 6⟩ (.condition "x"), .statement ⟨3, 9⟩ (.delete "t")]]

theorem generate_paddedProgram : ∃ page other,
    generate {} bareProgram = .ok page ∧ generate {} paddedProgram = .ok other ∧
      page.render = other.render ∧ page = other := by
  obtain ⟨other, otherSuccess⟩ : ∃ other, generate {} paddedProgram = .ok other := ⟨_, rfl⟩
  obtain ⟨page, success⟩ : ∃ page, generate {} bareProgram = .ok page := ⟨_, rfl⟩
  have documents : (generate {} bareProgram).map Page.render =
      (generate {} paddedProgram).map Page.render := rfl
  rw [success, otherSuccess] at documents
  have same : page.render = other.render := Except.ok.inj documents
  exact ⟨page, other, success, otherSuccess, same,
    generate_render_injective success otherSuccess same⟩

end Pagewright
