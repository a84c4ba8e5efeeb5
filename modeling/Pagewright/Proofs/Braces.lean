import Pagewright.Token

set_option autoImplicit false

namespace Pagewright

def opens (tokens : List Token) : Nat :=
  tokens.countP fun token => token.lexeme == .openBrace

def closes (tokens : List Token) : Nat :=
  tokens.countP fun token => token.lexeme == .closeBrace

/-- Behind `depth` open braces, no brace of the tokens closes nothing. -/
def Enclosed (depth : Nat) (tokens : List Token) : Prop :=
  ∀ front, front <+: tokens → closes front ≤ opens front + depth

/-- How many braces are open before and behind a token. -/
inductive Nests : Nat → Lexeme → Nat → Prop
  | openBrace {depth : Nat} : Nests depth .openBrace (depth + 1)
  | closeBrace {depth : Nat} : Nests (depth + 1) .closeBrace depth
  | other {depth : Nat} {lexeme : Lexeme} (notOpen : lexeme ≠ .openBrace)
      (notClose : lexeme ≠ .closeBrace) : Nests depth lexeme depth

/-- The tokens close the `depth` braces that are open before them and all that they open. -/
def Balanced (depth : Nat) (tokens : List Token) : Prop :=
  Enclosed depth tokens ∧ closes tokens = opens tokens + depth

theorem enclosed_nil (depth : Nat) : Enclosed depth [] := by
  intro front isPrefix
  rw [List.prefix_nil.mp isPrefix]
  exact Nat.zero_le _

/-- The empty prefix never decides. -/
theorem enclosed_cons (depth : Nat) (token : Token) (tokens : List Token) :
    Enclosed depth (token :: tokens) ↔
      ∀ front, front <+: tokens → closes (token :: front) ≤ opens (token :: front) + depth := by
  constructor
  · intro enclosed front isPrefix
    exact enclosed (token :: front) (List.cons_prefix_cons.mpr ⟨rfl, isPrefix⟩)
  · intro enclosed front isPrefix
    rcases List.prefix_cons_iff.mp isPrefix with rfl | ⟨back, rfl, backPrefix⟩
    · exact Nat.zero_le _
    · exact enclosed back backPrefix

section

variable (depth : Nat) (pos : Position) (token : Token) (tokens : List Token)

theorem opens_cons_openBrace : opens (⟨.openBrace, pos⟩ :: tokens) = opens tokens + 1 :=
  List.countP_cons_of_pos rfl

theorem opens_cons_of_ne (notOpen : token.lexeme ≠ .openBrace) :
    opens (token :: tokens) = opens tokens :=
  List.countP_cons_of_neg (by simpa using notOpen)

theorem closes_cons_closeBrace : closes (⟨.closeBrace, pos⟩ :: tokens) = closes tokens + 1 :=
  List.countP_cons_of_pos rfl

theorem closes_cons_of_ne (notClose : token.lexeme ≠ .closeBrace) :
    closes (token :: tokens) = closes tokens :=
  List.countP_cons_of_neg (by simpa using notClose)

theorem enclosed_cons_openBrace :
    Enclosed depth (⟨.openBrace, pos⟩ :: tokens) ↔ Enclosed (depth + 1) tokens := by
  rw [enclosed_cons, Enclosed]
  refine forall_congr' fun front => imp_congr_right fun _ => ?_
  rw [opens_cons_openBrace, closes_cons_of_ne _ _ (by simp)]
  omega

theorem enclosed_cons_closeBrace :
    Enclosed (depth + 1) (⟨.closeBrace, pos⟩ :: tokens) ↔ Enclosed depth tokens := by
  rw [enclosed_cons, Enclosed]
  refine forall_congr' fun front => imp_congr_right fun _ => ?_
  rw [closes_cons_closeBrace, opens_cons_of_ne _ _ (by simp)]
  omega

theorem not_enclosed_zero_closeBrace : ¬ Enclosed 0 (⟨.closeBrace, pos⟩ :: tokens) := by
  intro enclosed
  have first := (enclosed_cons _ _ _).mp enclosed [] List.nil_prefix
  rw [closes_cons_closeBrace, opens_cons_of_ne _ _ (by simp)] at first
  exact Nat.not_succ_le_zero _ first

theorem enclosed_cons_of_ne (notOpen : token.lexeme ≠ .openBrace)
    (notClose : token.lexeme ≠ .closeBrace) :
    Enclosed depth (token :: tokens) ↔ Enclosed depth tokens := by
  rw [enclosed_cons, Enclosed]
  refine forall_congr' fun front => imp_congr_right fun _ => ?_
  rw [opens_cons_of_ne _ _ notOpen, closes_cons_of_ne _ _ notClose]

theorem enclosed_cons_iff_nests :
    Enclosed depth (token :: tokens) ↔
      ∃ inner, Nests depth token.lexeme inner ∧ Enclosed inner tokens := by
  obtain ⟨lexeme, pos⟩ := token
  constructor
  · intro enclosed
    by_cases isOpen : lexeme = .openBrace
    · subst isOpen
      exact ⟨depth + 1, .openBrace, (enclosed_cons_openBrace _ _ _).mp enclosed⟩
    by_cases isClose : lexeme = .closeBrace
    · subst isClose
      cases depth with
      | zero => exact absurd enclosed (not_enclosed_zero_closeBrace _ _)
      | succ inner => exact ⟨inner, .closeBrace, (enclosed_cons_closeBrace _ _ _).mp enclosed⟩
    exact ⟨depth, .other isOpen isClose, (enclosed_cons_of_ne _ _ _ isOpen isClose).mp enclosed⟩
  · rintro ⟨inner, nests, enclosed⟩
    cases nests with
    | openBrace => exact (enclosed_cons_openBrace _ _ _).mpr enclosed
    | closeBrace => exact (enclosed_cons_closeBrace _ _ _).mpr enclosed
    | other notOpen notClose => exact (enclosed_cons_of_ne _ _ _ notOpen notClose).mpr enclosed

theorem balanced_nil : Balanced depth [] ↔ depth = 0 := by
  have counts : closes [] = opens [] + depth ↔ depth = 0 := by
    change 0 = 0 + depth ↔ depth = 0
    omega
  exact ⟨fun balanced => counts.mp balanced.2, fun zero => ⟨enclosed_nil depth, counts.mpr zero⟩⟩

theorem balanced_cons_openBrace :
    Balanced depth (⟨.openBrace, pos⟩ :: tokens) ↔ Balanced (depth + 1) tokens := by
  rw [Balanced, Balanced, enclosed_cons_openBrace, opens_cons_openBrace,
    closes_cons_of_ne _ _ (by simp), Nat.add_right_comm, Nat.add_assoc]

theorem balanced_cons_closeBrace :
    Balanced (depth + 1) (⟨.closeBrace, pos⟩ :: tokens) ↔ Balanced depth tokens := by
  rw [Balanced, Balanced, enclosed_cons_closeBrace, closes_cons_closeBrace,
    opens_cons_of_ne _ _ (by simp), ← Nat.add_assoc, Nat.add_right_cancel_iff]

theorem not_balanced_zero_closeBrace : ¬ Balanced 0 (⟨.closeBrace, pos⟩ :: tokens) :=
  fun balanced => not_enclosed_zero_closeBrace pos tokens balanced.1

theorem balanced_cons_of_ne (notOpen : token.lexeme ≠ .openBrace)
    (notClose : token.lexeme ≠ .closeBrace) :
    Balanced depth (token :: tokens) ↔ Balanced depth tokens := by
  rw [Balanced, Balanced, enclosed_cons_of_ne _ _ _ notOpen notClose,
    opens_cons_of_ne _ _ notOpen, closes_cons_of_ne _ _ notClose]

end

end Pagewright
