import Pagewright.Page.Markup
import Pagewright.Page.Stylesheet
import Pagewright.Page.Bootstrap

set_option autoImplicit false

namespace Pagewright

/-- A compiled page. Nothing of it becomes text before it is rendered, and all escaping happens
there. -/
structure Page where
  title : String
  style : List Rule
  markup : List Markup
  bootstrap : Bootstrap
  behavior : Behavior
deriving Repr, Inhabited

/-- The whole document. -/
def Page.render (page : Page) : String :=
  "<!doctype html><html><head><meta charset=\"utf-8\">" ++
    (Markup.element "title" [] [.text page.title]).render ++
    "<style>\n" ++ Rule.renderAll page.style ++ "</style></head><body>" ++
    Markup.renderAll page.markup ++ "\n" ++
    (Markup.element "script" [("src", page.bootstrap.store.scriptUrl)] []).render ++
    "\n<script>\n" ++ page.bootstrap.render ++
    "</script>\n<script>\n" ++ page.behavior.render ++
    "</script></body></html>\n"

end Pagewright
