import ScriptFrontEnd.Proofs.Parser.Accounting

namespace ScriptFrontEnd

structure Rules.EqExcept (kind : Kind) (rules rules' : Rules) : Prop where
  statement : ∀ k ≠ kind, rules.statement k = rules'.statement k
  operand : ∀ k ≠ kind, rules.operand k = rules'.operand k
  operator : ∀ k ≠ kind, rules.operator k = rules'.operator k

namespace Rules.EqExcept

variable {kind : Kind} {rules rules' : Rules}

theorem refl (kind : Kind) (rules : Rules) : rules.EqExcept kind rules :=
  ⟨fun _ _ => rfl, fun _ _ => rfl, fun _ _ => rfl⟩

theorem withStatement (h : rules.EqExcept kind rules') (rule : StatementRule) :
    (rules.withStatement kind rule).EqExcept kind rules' where
  statement k hk := (if_neg hk).trans (h.statement k hk)
  operand := h.operand
  operator := h.operator

theorem withOperand (h : rules.EqExcept kind rules') (rule : OperandRule) :
    (rules.withOperand kind rule).EqExcept kind rules' where
  statement := h.statement
  operand k hk := (if_neg hk).trans (h.operand k hk)
  operator := h.operator

theorem withOperator (h : rules.EqExcept kind rules') (power : Precedence) :
    (rules.withOperator kind power).EqExcept kind rules' where
  statement := h.statement
  operand := h.operand
  operator k hk := (if_neg hk).trans (h.operator k hk)

theorem precedence_eq (h : rules.EqExcept kind rules') {k : Kind} (hk : k ≠ kind) :
    rules.precedence k = rules'.precedence k := by
  rw [precedence, precedence, h.operator k hk]

theorem statementRule_eq (h : rules.EqExcept kind rules') {k : Kind} (hk : k ≠ kind) :
    rules.statementRule k = rules'.statementRule k := by
  rw [statementRule, statementRule, h.statement k hk]

end Rules.EqExcept

def Cursor.Lacks (kind : Kind) (c : Cursor) : Prop :=
  c.eof.kind ≠ kind ∧ ∀ t ∈ c.ahead, t.kind ≠ kind

namespace Cursor.Lacks

variable {kind : Kind} {c d : Cursor}

theorem of_reaches (h : c.Lacks kind) (hd : c.Reaches d) : d.Lacks kind :=
  ⟨hd.2 ▸ h.1, fun t ht => h.2 t (hd.1.subset ht)⟩

theorem current_ne (h : c.Lacks kind) : c.current.kind ≠ kind := by
  obtain ⟨ahead, eof⟩ := c
  cases ahead with
  | nil => exact h.1
  | cons t ahead => exact h.2 t (List.mem_cons_self ..)

theorem peek_ne (h : c.Lacks kind) : c.peek.kind ≠ kind :=
  (h.of_reaches c.reaches_advance).current_ne

end Cursor.Lacks

namespace Reader

variable {α β : Type} {kind : Kind}

def EqWithout (kind : Kind) (x y : Reader α) : Prop :=
  ∀ c : Cursor, c.Lacks kind → x c = y c

namespace EqWithout

theorem refl (x : Reader α) : EqWithout kind x x := fun _ _ => rfl

theorem bind {x y : Reader α} {f g : α → Reader β} (hx : x.Forward) (h : EqWithout kind x y)
    (hf : ∀ a, EqWithout kind (f a) (g a)) : EqWithout kind (x >>= f) (y >>= g) := by
  intro c hc
  have hreaches := hx c
  rw [leaves] at hreaches
  rw [bind_apply, bind_apply, ← h c hc]
  cases hxc : x c with
  | ok a d =>
    rw [hxc] at hreaches
    exact hf a d (hc.of_reaches hreaches)
  | error e d => rfl

theorem bind_current {f g : Token → Reader β}
    (hf : ∀ t, t.kind ≠ kind → EqWithout kind (f t) (g t)) :
    EqWithout kind (current >>= f) (current >>= g) :=
  fun c hc => hf c.current hc.current_ne c hc

theorem bind_peek {f g : Token → Reader β}
    (hf : ∀ t, t.kind ≠ kind → EqWithout kind (f t) (g t)) :
    EqWithout kind (peek >>= f) (peek >>= g) :=
  fun c hc => hf c.peek hc.peek_ne c hc

theorem andThen {x y : Reader α} (h : EqWithout kind x y) (f : Cursor → Cursor) :
    EqWithout kind (x.andThen f) (y.andThen f) := by
  intro c hc
  rw [Reader.andThen, Reader.andThen, h c hc]

section Compound

variable {x y : Precedence → Reader Expr} (hx : ∀ p, (x p).Forward)
  (h : ∀ p, EqWithout kind (x p) (y p)) {rules rules' : Rules}
  (hrules : rules.EqExcept kind rules')

include hx h

theorem unary : EqWithout kind (unary x) (unary y) :=
  .bind .advance (.refl _) fun _ => .bind (hx _) (h _) fun _ => .refl _

theorem binary (left : Expr) (p : Precedence) : EqWithout kind (binary x left p) (binary y left p) :=
  .bind .advance (.refl _) fun _ => .bind (hx _) (h _) fun _ => .refl _

theorem grouping : EqWithout kind (grouping x) (grouping y) :=
  .bind .advance (.refl _) fun _ => .bind (hx _) (h _) fun _ => .refl _

include hrules

theorem lead : EqWithout kind (lead x rules) (lead y rules') := by
  refine .bind_current fun t ht => ?_
  rw [hrules.operand _ ht]
  cases rules'.operand t.kind with
  | none => exact .refl _
  | some rule =>
    cases rule with
    | primary => exact .refl _
    | unary => exact .unary hx h
    | grouping => exact .grouping hx h

theorem extend (floor : Precedence) (bound : List Token) (left : Expr) :
    EqWithout kind (extend x rules floor bound left) (extend y rules' floor bound left) := by
  induction bound generalizing left with
  | nil => exact .refl _
  | cons _ bound ih =>
    refine .bind_peek fun t ht => ?_
    rw [hrules.precedence_eq ht]
    by_cases hp : floor < rules'.precedence t.kind
    · simp only [if_pos hp]
      exact .bind .advance (.refl _) fun _ =>
        .bind (.binary hx left _) (.binary hx h left _) fun left => ih left
    · simp only [if_neg hp]
      exact .refl _

omit hx h

theorem expression (levels : Nat) (floor : Precedence) :
    EqWithout kind (expression rules levels floor) (expression rules' levels floor) := by
  induction levels generalizing floor with
  | zero => exact .refl _
  | succ levels ih =>
    have hforward := Forward.expression rules levels
    exact .bind (.lead hforward rules) (.lead hforward ih hrules) fun left =>
      .bind .ahead (.refl _) fun bound => .extend hforward ih hrules floor bound left

theorem expressionStatement (levels : Nat) :
    EqWithout kind (expressionStatement rules levels) (expressionStatement rules' levels) :=
  .bind_current fun _ _ =>
    .bind (.andThen (.expression rules levels _) Cursor.reaches_passSemicolon)
      (.andThen (.expression hrules levels _) _) fun _ => .refl _

theorem statement (levels : Nat) :
    EqWithout kind (statement rules levels) (statement rules' levels) := by
  refine .bind_current fun t ht => ?_
  rw [hrules.statementRule_eq ht]
  cases rules'.statementRule t.kind with
  | letBinding => exact .refl _
  | returning => exact .refl _
  | expression => exact .expressionStatement hrules levels

end Compound

end EqWithout

end Reader

section

variable {kind : Kind} {rules rules' : Rules} (hrules : rules.EqExcept kind rules')

include hrules

theorem attempt_eq_of_lacks (levels : Nat) {c : Cursor} (hc : c.Lacks kind) :
    attempt rules levels c = attempt rules' levels c := by
  rw [attempt, attempt, Reader.EqWithout.statement hrules levels c hc]

theorem attempts_eq_of_lacks (levels : Nat) {c : Cursor} (hc : c.Lacks kind) :
    attempts rules levels c = attempts rules' levels c := by
  induction c using attempts_induction rules levels with
  | nil eof => rw [attempts_nil, attempts_nil]
  | cons t tokens eof ih =>
    rw [attempts_cons, attempts_cons, ← attempt_eq_of_lacks hrules levels hc,
      ih (hc.of_reaches (reaches_attempt rules levels _))]

end

def Operation.RegistersFor (kind : Kind) : Operation → Prop
  | registerStatement k _ | registerOperand k _ | registerOperator k _ => k = kind
  | _ => False

namespace Parser

theorem exists_rules_perform (p : Parser) {kind : Kind} {o : Operation}
    (ho : o.RegistersFor kind) {rules : Rules} (h : p.rules.EqExcept kind rules) :
    ∃ rules', (p.perform o).2 = { p with rules := rules' } ∧ rules'.EqExcept kind rules := by
  cases o with
  | registerStatement k rule =>
    obtain rfl : k = kind := ho
    exact ⟨_, rfl, h.withStatement rule⟩
  | registerOperand k rule =>
    obtain rfl : k = kind := ho
    exact ⟨_, rfl, h.withOperand rule⟩
  | registerOperator k power =>
    obtain rfl : k = kind := ho
    exact ⟨_, rfl, h.withOperator power⟩
  | _ => exact ho.elim

theorem exists_rules_after (p : Parser) {kind : Kind} {registered : List Operation}
    (hreg : ∀ o ∈ registered, o.RegistersFor kind) {rules : Rules}
    (h : p.rules.EqExcept kind rules) :
    ∃ rules', p.after registered = { p with rules := rules' } ∧ rules'.EqExcept kind rules := by
  induction registered generalizing p with
  | nil => exact ⟨p.rules, rfl, h⟩
  | cons o registered ih =>
    obtain ⟨ho, hreg⟩ := List.forall_mem_cons.mp hreg
    obtain ⟨rules', hp, h⟩ := p.exists_rules_perform ho h
    obtain ⟨rules'', hafter, h⟩ := ih (p.perform o).2 hreg (hp ▸ h)
    refine ⟨rules'', ?_, h⟩
    rw [hp] at hafter
    exact (congrArg (after · registered) hp).trans hafter

theorem parseProgram_withRules (p : Parser) {rules : Rules}
    (h : attempts rules p.levels p.cursor = attempts p.rules p.levels p.cursor) :
    parseProgram { p with rules := rules } =
      (p.parseProgram.1, { p.parseProgram.2 with rules := rules }) := by
  have hread : attempts rules (levels { p with rules := rules }) p.cursor =
      attempts p.rules p.levels p.cursor := h
  simp only [parseProgram, hread]

theorem parseProgram_of_registered (source : String) (file : Option String) {kind : Kind}
    (habsent : kind ∉ (tokenize source file).map Token.kind) {registered : List Operation}
    (hreg : ∀ o ∈ registered, o.RegistersFor kind) :
    let p := ofSource source file
    (p.after registered).parseProgram.1 = p.parseProgram.1 ∧
      (p.after registered).parseProgram.2.diagnostics = p.parseProgram.2.diagnostics := by
  intro p
  have hlacks : ∀ t ∈ tokenize source file, t.kind ≠ kind :=
    fun t ht hk => habsent (List.mem_map.mpr ⟨t, ht, hk⟩)
  have hc : p.cursor.Lacks kind :=
    ⟨hlacks _ (List.mem_append_right _ (List.mem_singleton_self _)),
      fun t ht => hlacks t (List.mem_append_left _ ht)⟩
  obtain ⟨rules, hafter, hrules⟩ := p.exists_rules_after hreg (.refl kind p.rules)
  rw [hafter, p.parseProgram_withRules (attempts_eq_of_lacks hrules p.levels hc)]
  exact ⟨rfl, rfl⟩

theorem parseProgram_of_registered_comma :
    let p := ofSource "let x 1; -y * (2" none
    let registered : List Operation := [.registerOperator .comma .multiplicative,
      .registerOperand .comma .grouping, .registerStatement .comma .returning]
    .comma ∉ (tokenize "let x 1; -y * (2" none).map Token.kind ∧
      (∀ o ∈ registered, o.RegistersFor .comma) ∧ p.parseProgram.1.statements.length = 1 ∧
      p.parseProgram.2.diagnostics.length = 2 ∧
      (p.after registered).parseProgram.1 = p.parseProgram.1 ∧
      (p.after registered).parseProgram.2.diagnostics = p.parseProgram.2.diagnostics := by
  intro p registered
  have habsent : .comma ∉ (tokenize "let x 1; -y * (2" none).map Token.kind := by decide +kernel
  have hreg : ∀ o ∈ registered, o.RegistersFor .comma := by
    simp [registered, Operation.RegistersFor]
  refine ⟨habsent, hreg, by decide +kernel, by decide +kernel, ?_⟩
  exact parseProgram_of_registered "let x 1; -y * (2" none habsent hreg

end Parser

end ScriptFrontEnd
