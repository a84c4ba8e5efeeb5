set_option autoImplicit false

namespace Pagewright

/-- A table and its columns, without the key column that every table has. -/
structure Schema where
  name : String
  fields : List String
deriving DecidableEq, Repr, Inhabited

/-- The name of the function that shows the rows of a table. -/
def renderFunctionName (table : String) : String := "render_" ++ table

namespace Schema

def keyColumn : String := "id"

/-- The column of a table that declares none. -/
def defaultField : String := "text"

/-- The schema of a declared table. -/
def declared (name : String) (fields : List String) : Schema :=
  ⟨name, if fields.isEmpty then [defaultField] else fields⟩

/-- A name between quotes, as the store reads it: a quote inside is written twice. -/
def quoteName (name : String) : String :=
  "\"" ++ String.ofList (name.toList.flatMap fun c => if c = '"' then ['"', '"'] else [c]) ++ "\""

/-- The statement that makes the table. -/
def create (schema : Schema) : String :=
  "CREATE TABLE IF NOT EXISTS " ++ quoteName schema.name ++ "(" ++
    ", ".intercalate ((quoteName keyColumn ++ " INTEGER PRIMARY KEY AUTOINCREMENT") ::
      schema.fields.map fun field => quoteName field ++ " TEXT") ++ ")"

/-- The query for all rows. -/
def select (schema : Schema) : String :=
  "SELECT " ++ ", ".intercalate (quoteName keyColumn :: schema.fields.map quoteName) ++
    " FROM " ++ quoteName schema.name

end Schema

end Pagewright
