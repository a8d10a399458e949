import ScriptFrontEnd.Grammar.Fragment
import ScriptFrontEnd.Proofs.Parser.Readers

namespace ScriptFrontEnd.Reader

variable {α β : Type} {c d : Cursor} {e : Diagnostic}

theorem bind_eq_error {x : Reader α} {f : α → Reader β} : (x >>= f) c = .error e d ↔
    x c = .error e d ∨ ∃ a c', x c = .ok a c' ∧ f a c' = .error e d := by
  rw [bind_apply]
  cases x c with
  | ok a c' =>
    constructor
    · exact fun h => .inr ⟨a, c', rfl, h⟩
    · rintro (h | ⟨_, _, hx, h⟩)
      · cases h
      · cases hx
        exact h
  | error e' c' => simp

theorem fail_eq_error {cause : Cause} : (fail cause : Reader α) c = .error e d ↔
    e.cause = cause ∧ e.position = c.current.start ∧ d = c := by
  unfold fail
  constructor
  · rintro ⟨⟩
    exact ⟨rfl, rfl, rfl⟩
  · rintro ⟨rfl, hp, rfl⟩
    rw [← hp]

theorem expect_eq_error {kind : Kind} : expect kind c = .error e d ↔ c.peek.kind ≠ kind ∧
    e.cause = .unexpectedToken kind c.peek.kind ∧ e.position = c.peek.start ∧ d = c := by
  unfold expect
  split
  · rename_i h
    exact ⟨nofun, fun h' => absurd h h'.1⟩
  · rename_i h
    constructor
    · rintro ⟨⟩
      exact ⟨h, rfl, rfl, rfl⟩
    · rintro ⟨-, hc, hp, rfl⟩
      rw [← hc, ← hp]

theorem primary_eq_error : primary c = .error e d ↔
    ((c.current.kind = .int ∧ Numeral.value? c.current.text = none ∧
        e.cause = .badNumeral c.current.text) ∨
      (c.current.kind ∉ [.identifier, .int, .trueWord, .falseWord] ∧
        e.cause = .noOperand c.current.kind)) ∧
    e.position = c.current.start ∧ d = c := by
  unfold primary
  rw [bind_apply]
  simp only [Reader.current]
  cases hk : c.current.kind
  case int =>
    cases hv : Numeral.value? c.current.text with
    | none => simp [fail_eq_error]
    | some v => simp [pure_apply]
  case identifier => simp [pure_apply]
  case trueWord => simp [pure_apply]
  case falseWord => simp [pure_apply]
  all_goals simp [fail_eq_error]

section Compound

variable {rules : Rules} {operand : Precedence → Reader Expr}

theorem unary_eq_error :
    unary operand c = .error e d ↔ operand .unary c.advance = .error e d := by
  unfold unary
  rw [bind_apply]
  simp only [Reader.advance, bind_eq_error, pure_apply]
  simp

theorem binary_eq_error {left : Expr} {p : Precedence} :
    binary operand left p c = .error e d ↔ operand p c.advance = .error e d := by
  unfold binary
  rw [bind_apply]
  simp only [Reader.advance, bind_eq_error, pure_apply]
  simp

theorem grouping_eq_error : grouping operand c = .error e d ↔
    operand .lowest c.advance = .error e d ∨
      ∃ x c', operand .lowest c.advance = .ok x c' ∧ c'.peek.kind ≠ .closeParen ∧
        e.cause = .unexpectedToken .closeParen c'.peek.kind ∧ e.position = c'.peek.start ∧
        d = c' := by
  unfold grouping
  rw [bind_apply]
  simp only [Reader.advance, bind_eq_error, pure_apply, expect_eq_error]
  simp

theorem lead_eq_error : lead operand rules c = .error e d ↔
    (rules.Refuses c.current e.cause ∧ e.position = c.current.start ∧ d = c) ∨
    (rules.operand c.current.kind = some .unary ∧ unary operand c = .error e d) ∨
    (rules.operand c.current.kind = some .grouping ∧ grouping operand c = .error e d) := by
  have hrefuses : rules.Refuses c.current e.cause ↔
      (rules.operand c.current.kind = none ∧ e.cause = .noOperand c.current.kind) ∨
      (rules.operand c.current.kind = some .primary ∧
        ((c.current.kind = .int ∧ Numeral.value? c.current.text = none ∧
            e.cause = .badNumeral c.current.text) ∨
          (c.current.kind ∉ [.identifier, .int, .trueWord, .falseWord] ∧
            e.cause = .noOperand c.current.kind))) := by
    constructor
    · intro h
      generalize e.cause = cause at h
      cases h with
      | unknown h => exact .inl ⟨h, rfl⟩
      | unfit h hk => exact .inr ⟨h, .inr ⟨hk, rfl⟩⟩
      | numeral h hk hv => exact .inr ⟨h, .inl ⟨hk, hv, rfl⟩⟩
    · rintro (⟨h, hc⟩ | ⟨h, ⟨hk, hv, hc⟩ | ⟨hk, hc⟩⟩)
      · rw [hc]
        exact .unknown h
      · rw [hc]
        exact .numeral h hk hv
      · rw [hc]
        exact .unfit h hk
  rw [hrefuses]
  unfold lead
  rw [bind_apply]
  simp only [Reader.current]
  cases h : rules.operand c.current.kind with
  | none => simp [fail_eq_error]
  | some rule =>
    cases rule with
    | primary => simp [primary_eq_error]
    | unary => simp
    | grouping => simp

theorem extend_cons_eq_error {floor : Precedence} {b : Token} {bound : List Token} {left : Expr} :
    extend operand rules floor (b :: bound) left c = .error e d ↔
      floor < rules.precedence c.peek.kind ∧
        (binary operand left (rules.precedence c.peek.kind) c.advance = .error e d ∨
          ∃ x c', binary operand left (rules.precedence c.peek.kind) c.advance = .ok x c' ∧
            extend operand rules floor bound x c' = .error e d) := by
  rw [extend, bind_apply]
  simp only [Reader.peek]
  split
  · rename_i h
    simp only [bind_apply (x := Reader.advance), Reader.advance, bind_eq_error, h, true_and]
  · rename_i h
    simp [h, pure_apply]

theorem expression_succ_eq_error {levels : Nat} {floor : Precedence} :
    expression rules (levels + 1) floor c = .error e d ↔
      lead (expression rules levels) rules c = .error e d ∨
        ∃ left c', lead (expression rules levels) rules c = .ok left c' ∧
          extend (expression rules levels) rules floor c'.ahead left c' = .error e d := by
  rw [expression, bind_eq_error]
  simp only [bind_apply, Reader.ahead]

end Compound

end ScriptFrontEnd.Reader
