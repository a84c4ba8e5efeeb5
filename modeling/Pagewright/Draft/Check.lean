import Pagewright.Draft

set_option autoImplicit false

namespace Pagewright

def checkFields (table : String) (seen : List String) : List Field → Walk Unit
  | [] => .ok ()
  | field :: rest =>
    if field.name = Schema.keyColumn then
      .error (.generation field.pos (.reservedField field.name table))
    else if seen.contains field.name then
      .error (.generation field.pos (.repeatedField field.name table))
    else
      checkFields table (field.name :: seen) rest

def checkTables (seen : List String) : List TableDeclaration → Walk Unit
  | [] => .ok ()
  | table :: rest =>
    if seen.contains table.name then
      .error (.generation table.pos (.repeatedTable table.name))
    else do
      checkFields table.name [] table.fields
      checkTables (table.name :: seen) rest

def checkFunctions (seen : List String) : List Site → Walk Unit
  | [] => .ok ()
  | function :: rest =>
    if seen.contains function.name then
      .error (.generation function.pos (.repeatedFunction function.name))
    else
      checkFunctions (function.name :: seen) rest

def checkReferences (declared : List String) : List Site → Walk Unit
  | [] => .ok ()
  | reference :: rest =>
    if declared.contains reference.name then
      checkReferences declared rest
    else
      .error (.generation reference.pos (.unknownTable reference.name))

/-- First the tables in order, each with its fields, then the functions, then the tables in use. -/
def Draft.check (draft : Draft) : Walk Unit := do
  checkTables [] draft.tables
  checkFunctions [] draft.functions
  checkReferences (draft.tables.map TableDeclaration.name) draft.references

end Pagewright
