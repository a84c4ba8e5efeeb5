set_option autoImplicit false

namespace Pagewright

/-- Documents of the settings format: YAML without anchors, aliases, tags and directives. -/
inductive Yaml where
  /-- A text; only a plain one can stand for a number or a truth value. -/
  | scalar (plain : Bool) (text : String)
  | sequence (items : List Yaml)
  | mapping (entries : List (Yaml × Yaml))
deriving Repr, Inhabited

/-- What stands where nothing is written. -/
def Yaml.empty : Yaml := .scalar true ""

end Pagewright
