set_option autoImplicit false

namespace Pagewright

/-- A place in a source text. Lines and columns count from one, columns count characters. -/
structure Position where
  line : Nat
  col : Nat
deriving DecidableEq, Repr, Inhabited

namespace Position

/-- The first character of a text. -/
def start : Position := ⟨1, 1⟩

/-- The place after one character. Only a line feed starts a new line. -/
def advance (pos : Position) (c : Char) : Position :=
  if c = '\n' then ⟨pos.line + 1, 1⟩ else ⟨pos.line, pos.col + 1⟩

/-- The place after a text that begins here. -/
def after (pos : Position) (text : List Char) : Position :=
  text.foldl advance pos

@[simp] theorem after_nil (pos : Position) : pos.after [] = pos := rfl

@[simp] theorem after_cons (pos : Position) (c : Char) (text : List Char) :
    pos.after (c :: text) = (pos.advance c).after text := rfl

theorem after_append (pos : Position) (first second : List Char) :
    pos.after (first ++ second) = (pos.after first).after second :=
  List.foldl_append

end Position

end Pagewright
