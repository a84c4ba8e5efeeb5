import Pagewright.Page.Behavior
import Pagewright.Settings

set_option autoImplicit false

namespace Pagewright

open Text

/-- What opens the store of a page, makes its tables and shows them at the start. -/
structure Bootstrap where
  store : Store
  /-- In the order of their declaration. -/
  tables : List Schema
deriving DecidableEq, Repr, Inhabited

namespace Bootstrap

/-- The globals that the script defines or needs. A program may not define them again. -/
def runtimeNames : List String :=
  ["DB", "FIELDS", "initDB", "initSqlJs", "requireDB", "quoteIdent", "queryRows", "insert",
    "deleteById", "updateById"]

/-- The columns of a table, as an entry of the `FIELDS` object. -/
def fieldsEntry (table : Schema) : String :=
  Literal.script table.name ++ ":[" ++ ",".intercalate (table.fields.map Literal.script) ++ "]"

def createLine (table : Schema) : String :=
  "DB.run(" ++ Literal.script table.create ++ ");"

/-- The functions that every page has. -/
def runtimeLines : List String :=
  ["function requireDB()\x7bif(!DB)throw new Error(\"store not initialized\");return DB;\x7d",
    "function quoteIdent(name)\x7breturn \"\\\"\"+String(name).replace(/\"/g,\"\\\"\\\"\")+\"\\\"\";\x7d",
    "function queryRows(sql)\x7bconst res=requireDB().exec(sql);if(!res.length)return [];" ++
      "const cols=res[0].columns;return res[0].values.map(v=>\x7bconst row=\x7b\x7d;" ++
      "cols.forEach((c,i)=>\x7brow[c]=v[i];\x7d);return row;\x7d);\x7d",
    "function insert(table,value)\x7brequireDB().run(\"INSERT INTO \"+quoteIdent(table)+\"(\"+" ++
      "quoteIdent(FIELDS[table][0])+\") VALUES(?)\",[value]);\x7d",
    "function deleteById(table,id)\x7brequireDB().run(\"DELETE FROM \"+quoteIdent(table)+" ++
      "\" WHERE \\\"id\\\"=?\",[id]);\x7d",
    "function updateById(table,id,value)\x7brequireDB().run(\"UPDATE \"+quoteIdent(table)+" ++
      "\" SET \"+quoteIdent(FIELDS[table][0])+\"=? WHERE \\\"id\\\"=?\",[value,id]);\x7d"]

def lines (bootstrap : Bootstrap) : List String :=
  ["let DB=null;",
    "const FIELDS=\x7b" ++ ",".intercalate (bootstrap.tables.map fieldsEntry) ++ "\x7d;",
    "async function initDB()\x7b",
    "const SQL=await initSqlJs(\x7blocateFile:f=>" ++ Literal.script bootstrap.store.wasmBase ++
      "+f\x7d);",
    "DB=new SQL.Database();"] ++
    bootstrap.tables.map createLine ++ ["\x7d"] ++ runtimeLines ++
    ["window.addEventListener(\"DOMContentLoaded\",async()=>\x7bawait initDB();" ++
      String.join (bootstrap.tables.map fun table => renderLine table.name) ++ "\x7d);"]

def render (bootstrap : Bootstrap) : String := scriptText bootstrap.lines

end Bootstrap

end Pagewright
