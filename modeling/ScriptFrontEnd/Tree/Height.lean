import ScriptFrontEnd.Tree.Basic

namespace ScriptFrontEnd.Expr

def height : Expr → Nat
  | unary _ _ right => right.height + 1
  | binary _ left _ right => max left.height right.height + 1
  | _ => 1

/-- The number of expressions that are open at once where the canonical text is read: the text of an
application opens its parentheses, and a right operand one more expression inside of them. -/
def textNesting : Expr → Nat
  | unary _ _ right => right.textNesting + 2
  | binary _ left _ right => max left.textNesting (right.textNesting + 1) + 1
  | _ => 1

inductive Path : Expr → (nodes lefts : Nat) → Prop
  | identifier {name} : Path (identifier name) 1 0
  | integer {token value} : Path (integer token value) 1 0
  | boolean {token value} : Path (boolean token value) 1 0
  | unary {token operator right n k} : Path right n k → Path (unary token operator right) (n + 1) k
  | left {token left operator right n k} : Path left n k →
      Path (binary token left operator right) (n + 1) (k + 1)
  | right {token left operator right n k} : Path right n k →
      Path (binary token left operator right) (n + 1) k

theorem Path.le_height {e : Expr} {n k : Nat} (h : e.Path n k) : n ≤ e.height := by
  induction h with
  | identifier => exact Nat.le_refl 1
  | integer => exact Nat.le_refl 1
  | boolean => exact Nat.le_refl 1
  | unary h ih => exact Nat.succ_le_succ ih
  | left h ih => exact Nat.succ_le_succ (Nat.le_trans ih (Nat.le_max_left _ _))
  | right h ih => exact Nat.succ_le_succ (Nat.le_trans ih (Nat.le_max_right _ _))

theorem exists_path_of_height (e : Expr) : ∃ k, e.Path e.height k := by
  induction e with
  | identifier name => exact ⟨0, .identifier⟩
  | integer token value => exact ⟨0, .integer⟩
  | boolean token value => exact ⟨0, .boolean⟩
  | unary token operator right ih =>
    obtain ⟨k, h⟩ := ih
    exact ⟨k, h.unary⟩
  | binary token left operator right ihl ihr =>
    obtain ⟨k, hl⟩ := ihl
    obtain ⟨m, hr⟩ := ihr
    rcases Nat.le_total left.height right.height with hle | hle
    · rw [height, Nat.max_eq_right hle]
      exact ⟨m, hr.right⟩
    · rw [height, Nat.max_eq_left hle]
      exact ⟨k + 1, hl.left⟩

end ScriptFrontEnd.Expr
