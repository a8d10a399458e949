import ScriptFrontEnd.Parser.Expression
import ScriptFrontEnd.Grammar.Phrase

namespace ScriptFrontEnd

namespace Cursor

variable (t eof : Token) (ts : List Token)

@[simp] theorem current_nil : (⟨[], eof⟩ : Cursor).current = eof := rfl

@[simp] theorem current_cons : (⟨t :: ts, eof⟩ : Cursor).current = t := rfl

@[simp] theorem peek_nil : (⟨[], eof⟩ : Cursor).peek = eof := rfl

@[simp] theorem peek_cons : (⟨t :: ts, eof⟩ : Cursor).peek = ts.headD eof := rfl

@[simp] theorem advance_nil : (⟨[], eof⟩ : Cursor).advance = ⟨[], eof⟩ := rfl

@[simp] theorem advance_cons : (⟨t :: ts, eof⟩ : Cursor).advance = ⟨ts, eof⟩ := rfl

end Cursor

namespace Reader

variable {α β : Type}

theorem bind_eq_ok {x : Reader α} {f : α → Reader β} {c d : Cursor} {b : β} :
    (x >>= f) c = .ok b d ↔ ∃ a c', x c = .ok a c' ∧ f a c' = .ok b d := by
  rw [bind_apply]
  constructor
  · intro h
    cases hx : x c with
    | ok a c' =>
      rw [hx] at h
      exact ⟨a, c', rfl, h⟩
    | error e c' =>
      rw [hx] at h
      cases h
  · rintro ⟨a, c', hx, hf⟩
    rw [hx]
    exact hf

theorem pure_eq_ok {a b : α} {c d : Cursor} :
    (pure a : Reader α) c = .ok b d ↔ a = b ∧ c = d := by
  rw [pure_apply, EStateM.Result.ok.injEq]

theorem expect_eq_ok {kind : Kind} {c d : Cursor} {t : Token} :
    expect kind c = .ok t d ↔ c.peek.kind = kind ∧ t = c.peek ∧ d = c.advance := by
  unfold expect
  split
  · rename_i h
    rw [EStateM.Result.ok.injEq]
    exact ⟨fun ⟨ht, hd⟩ => ⟨h, ht.symm, hd.symm⟩, fun ⟨_, ht, hd⟩ => ⟨ht.symm, hd.symm⟩⟩
  · rename_i h
    exact ⟨nofun, fun h' => absurd h'.1 h⟩

theorem primary_eq_ok {c d : Cursor} {e : Expr} :
    primary c = .ok e d ↔ (Phrase.leaf c.current).Denotes e ∧ d = c := by
  unfold primary
  rw [bind_apply]
  simp only [Reader.current]
  constructor
  · intro h
    cases hk : c.current.kind <;> simp only [hk] at h
    case int =>
      cases hv : Numeral.value? c.current.text with
      | none => simp [hv, fail] at h
      | some v =>
        simp only [hv] at h
        obtain ⟨rfl, rfl⟩ := pure_eq_ok.mp h
        exact ⟨.integer hk hv, rfl⟩
    case identifier =>
      obtain ⟨rfl, rfl⟩ := pure_eq_ok.mp h
      exact ⟨.identifier hk, rfl⟩
    case trueWord =>
      obtain ⟨rfl, rfl⟩ := pure_eq_ok.mp h
      exact ⟨.isTrue hk, rfl⟩
    case falseWord =>
      obtain ⟨rfl, rfl⟩ := pure_eq_ok.mp h
      exact ⟨.isFalse hk, rfl⟩
    all_goals cases h
  · rintro ⟨h, rfl⟩
    cases h with
    | identifier hk => simp [hk, pure_apply]
    | integer hk hv => simp [hk, hv, pure_apply]
    | isTrue hk => simp [hk, pure_apply]
    | isFalse hk => simp [hk, pure_apply]

section Compound

variable {operand : Precedence → Reader Expr} {c d : Cursor} {e : Expr}

theorem unary_eq_ok : unary operand c = .ok e d ↔
    ∃ x, operand .unary c.advance = .ok x d ∧ e = .unary c.current c.current.text x := by
  unfold unary
  rw [bind_apply]
  simp only [Reader.advance, bind_eq_ok, pure_eq_ok]
  constructor
  · rintro ⟨x, c', hx, rfl, rfl⟩
    exact ⟨x, hx, rfl⟩
  · rintro ⟨x, hx, rfl⟩
    exact ⟨x, d, hx, rfl, rfl⟩

theorem binary_eq_ok {left : Expr} {p : Precedence} : binary operand left p c = .ok e d ↔
    ∃ x, operand p c.advance = .ok x d ∧ e = .binary c.current left c.current.text x := by
  unfold binary
  rw [bind_apply]
  simp only [Reader.advance, bind_eq_ok, pure_eq_ok]
  constructor
  · rintro ⟨x, c', hx, rfl, rfl⟩
    exact ⟨x, hx, rfl⟩
  · rintro ⟨x, hx, rfl⟩
    exact ⟨x, d, hx, rfl, rfl⟩

theorem grouping_eq_ok : grouping operand c = .ok e d ↔
    ∃ c', operand .lowest c.advance = .ok e c' ∧ c'.peek.kind = .closeParen ∧ d = c'.advance := by
  unfold grouping
  rw [bind_apply]
  simp only [Reader.advance, bind_eq_ok, pure_eq_ok, expect_eq_ok]
  constructor
  · rintro ⟨x, c', hx, t, c'', ⟨hk, rfl, rfl⟩, rfl, rfl⟩
    exact ⟨c', hx, hk, rfl⟩
  · rintro ⟨c', hx, hk, rfl⟩
    exact ⟨e, c', hx, c'.peek, c'.advance, ⟨hk, rfl, rfl⟩, rfl, rfl⟩

theorem lead_eq_ok {rules : Rules} : lead operand rules c = .ok e d ↔
    (rules.operand c.current.kind = some .primary ∧ primary c = .ok e d) ∨
    (rules.operand c.current.kind = some .unary ∧ unary operand c = .ok e d) ∨
    (rules.operand c.current.kind = some .grouping ∧ grouping operand c = .ok e d) := by
  unfold lead
  rw [bind_apply]
  simp only [Reader.current]
  cases h : rules.operand c.current.kind with
  | none => simp [fail]
  | some rule => cases rule <;> simp

theorem extend_cons_eq_ok {rules : Rules} {floor : Precedence} {b : Token} {bound : List Token}
    {left : Expr} : extend operand rules floor (b :: bound) left c = .ok e d ↔
    (floor < rules.precedence c.peek.kind ∧ ∃ x c',
      binary operand left (rules.precedence c.peek.kind) c.advance = .ok x c' ∧
      extend operand rules floor bound x c' = .ok e d) ∨
    (¬ floor < rules.precedence c.peek.kind ∧ left = e ∧ c = d) := by
  rw [extend, bind_apply]
  simp only [Reader.peek]
  split
  · rename_i h
    rw [bind_apply]
    simp only [Reader.advance, bind_eq_ok, h, true_and, not_true_eq_false, false_and, or_false]
  · rename_i h
    simp only [h, pure_eq_ok, false_and, not_false_eq_true, true_and, false_or]

end Compound

section Result

variable {rules : Rules} {operand : Precedence → Reader Expr} {c d : Cursor} {e : Expr}

theorem extend_cons_of_binary {floor : Precedence} {b : Token} {bound : List Token} {left : Expr}
    (hfloor : floor < rules.precedence c.peek.kind)
    (h : binary operand left (rules.precedence c.peek.kind) c.advance = .ok e d) :
    extend operand rules floor (b :: bound) left c = extend operand rules floor bound e d := by
  rw [extend, bind_apply]
  simp only [Reader.peek, if_pos hfloor, bind_apply, Reader.advance, h]

theorem expression_succ_of_lead {levels : Nat} {floor : Precedence}
    (h : lead (expression rules levels) rules c = .ok e d) :
    expression rules (levels + 1) floor c =
      extend (expression rules levels) rules floor d.ahead e d := by
  rw [expression, bind_apply, h]
  rfl

end Result

theorem expression_succ_eq_ok {rules : Rules} {levels : Nat} {floor : Precedence} {c d : Cursor}
    {e : Expr} : expression rules (levels + 1) floor c = .ok e d ↔
    ∃ left c', lead (expression rules levels) rules c = .ok left c' ∧
      extend (expression rules levels) rules floor c'.ahead left c' = .ok e d := by
  rw [expression, bind_eq_ok]
  simp only [bind_apply, Reader.ahead]

end Reader

end ScriptFrontEnd
