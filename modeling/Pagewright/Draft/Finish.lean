import Pagewright.Draft.Check

set_option autoImplicit false

namespace Pagewright

def defaultTitle : String := "UIX"

def TableDeclaration.schema (table : TableDeclaration) : Schema :=
  .declared table.name (table.fields.map Field.name)

/-- The slot that a list fills from a table with the given columns. -/
def ListTemplate.slotFor (fields : List String) (list : ListTemplate) : Slot :=
  ⟨list.slot, list.items.map (Template.resolveAll fields)⟩

/-- The function that fills all lists of a table. -/
def Draft.renderFunction (draft : Draft) (schema : Schema) : RenderFunction :=
  ⟨schema, (draft.lists.filter fun list => list.table == schema.name).map
    (ListTemplate.slotFor schema.fields)⟩

/-- One schema, one render function and one call at the start for each declared table. -/
def Draft.page (draft : Draft) (settings : Settings) (markup : List Markup) : Page :=
  let schemas := draft.tables.map TableDeclaration.schema
  { title := draft.title.getD defaultTitle
    style := settings.style.rules
    markup := markup
    bootstrap := ⟨settings.store, schemas⟩
    behavior := ⟨schemas.map draft.renderFunction, draft.handlers⟩ }

/-- The page of a program. -/
def generate (settings : Settings) (nodes : List Node) : Except Diagnostic Page := do
  let (markup, draft) ← walkAll settings.updatePlaceholder nodes {}
  if settings.checkTables then
    draft.check
  .ok (draft.page settings markup)

end Pagewright
