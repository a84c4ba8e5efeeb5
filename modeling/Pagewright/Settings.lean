import Pagewright.Node.Parse

set_option autoImplicit false

namespace Pagewright

/-- Where a page finds its store. -/
structure Store where
  scriptUrl : String := "https://sql.js.org/dist/sql-wasm.js"
  /-- What is put before the name of the binary that the store loads. -/
  wasmBase : String := "https://sql.js.org/dist/"
deriving DecidableEq, Repr, Inhabited

/-- How a page looks. Sizes are in pixels. -/
structure Style where
  fontFamily : String := "sans-serif"
  padding : UInt32 := 20
  gap : UInt32 := 10
deriving DecidableEq, Repr, Inhabited

/-- The settings of a compile. Each has a default. -/
structure Settings where
  /-- Refuse words that begin no sentence. -/
  strict : Bool := false
  /-- Check that names are declared once and that tables in use are declared. -/
  checkTables : Bool := true
  /-- The value that an update without a source writes. -/
  updatePlaceholder : String := "new text"
  /-- The path of the document that a build writes. -/
  output : String := "dist/index.html"
  store : Store := {}
  style : Style := {}
deriving DecidableEq, Repr, Inhabited

def Settings.mode (settings : Settings) : Mode :=
  if settings.strict then .strict else .permissive

end Pagewright
