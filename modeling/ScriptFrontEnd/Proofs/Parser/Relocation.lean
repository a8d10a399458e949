import ScriptFrontEnd.Parser.Attempts
import ScriptFrontEnd.Tree.Tokens

namespace ScriptFrontEnd

def Token.relocate (g : Position → Position) (t : Token) : Token :=
  { t with span := ⟨g t.span.start, g t.span.stop⟩ }

def Diagnostic.relocate (g : Position → Position) (d : Diagnostic) : Diagnostic :=
  { d with position := g d.position }

variable {g : Position → Position}

@[simp] theorem Token.kind_relocate (t : Token) : (t.relocate g).kind = t.kind := rfl

namespace Cursor

def relocate (g : Position → Position) (c : Cursor) : Cursor :=
  ⟨c.ahead.map (Token.relocate g), c.eof.relocate g⟩

theorem current_relocate (c : Cursor) : (c.relocate g).current = c.current.relocate g := by
  obtain ⟨ahead, eof⟩ := c
  cases ahead <;> rfl

theorem advance_relocate (c : Cursor) : (c.relocate g).advance = c.advance.relocate g := by
  obtain ⟨ahead, eof⟩ := c
  cases ahead <;> rfl

theorem peek_relocate (c : Cursor) : (c.relocate g).peek = c.peek.relocate g := by
  have h := current_relocate (g := g) c.advance
  rwa [← advance_relocate] at h

theorem skipToSemicolon_relocate (c : Cursor) :
    (c.relocate g).skipToSemicolon = c.skipToSemicolon.relocate g := by
  rw [skipToSemicolon, relocate, List.dropWhile_map]
  rfl

theorem passSemicolon_relocate (c : Cursor) :
    (c.relocate g).passSemicolon = c.passSemicolon.relocate g := by
  rw [passSemicolon, passSemicolon, peek_relocate, Token.kind_relocate, advance_relocate]
  split <;> rfl

end Cursor

namespace Reader

variable {α β : Type}

def Relocates (g : Position → Position) (m : α → α) (x y : Reader α) : Prop :=
  ∀ c : Cursor, y (c.relocate g) = match x c with
    | .ok a d => .ok (m a) (d.relocate g)
    | .error e d => .error (e.relocate g) (d.relocate g)

namespace Relocates

theorem pure {m : α → α} (a : α) : Relocates g m (Pure.pure a) (Pure.pure (m a)) :=
  fun _ => rfl

theorem bind {m : α → α} {n : β → β} {x y : Reader α} {f f' : α → Reader β}
    (hx : Relocates g m x y) (hf : ∀ a, Relocates g n (f a) (f' (m a))) :
    Relocates g n (x >>= f) (y >>= f') := by
  intro c
  rw [bind_apply, bind_apply, hx c]
  cases x c with
  | ok a d => exact hf a d
  | error e d => rfl

theorem current : Relocates g (Token.relocate g) current current := by
  intro c
  rw [Reader.current, Cursor.current_relocate]
  rfl

theorem peek : Relocates g (Token.relocate g) peek peek := by
  intro c
  rw [Reader.peek, Cursor.peek_relocate]
  rfl

theorem ahead : Relocates g (List.map (Token.relocate g)) ahead ahead := fun _ => rfl

theorem advance : Relocates g (Token.relocate g) advance advance := by
  intro c
  rw [Reader.advance, Cursor.current_relocate, Cursor.advance_relocate]
  rfl

theorem fail {m : α → α} (cause : Cause) : Relocates g m (fail cause) (fail cause) := by
  intro c
  rw [Reader.fail, Cursor.current_relocate]
  rfl

theorem expect (kind : Kind) : Relocates g (Token.relocate g) (expect kind) (expect kind) := by
  intro c
  rw [Reader.expect, Reader.expect, Cursor.peek_relocate, Cursor.advance_relocate,
    Token.kind_relocate]
  by_cases h : c.peek.kind = kind
  · rw [if_pos h, if_pos h]
  · rw [if_neg h, if_neg h]
    rfl

theorem move {f : Cursor → Cursor} (hf : ∀ c : Cursor, f (c.relocate g) = (f c).relocate g) :
    Relocates g id (move f) (move f) := by
  intro c
  rw [Reader.move, hf]
  rfl

theorem andThen {m : α → α} {x : Reader α} {f : Cursor → Cursor} (hx : Relocates g m x x)
    (hf : ∀ c : Cursor, f (c.relocate g) = (f c).relocate g) :
    Relocates g m (x.andThen f) (x.andThen f) := by
  intro c
  rw [Reader.andThen, Reader.andThen, hx c]
  cases x c with
  | ok a d => exact congrArg _ (hf d)
  | error e d => exact congrArg _ (hf d)

theorem primary : Relocates g (Expr.mapTokens (Token.relocate g)) primary primary := by
  refine .bind .current fun token => ?_
  obtain ⟨kind, text, span⟩ := token
  cases kind with
  | int =>
    dsimp only [Token.relocate]
    cases Numeral.value? text with
    | none => exact .fail _
    | some v => exact .pure _
  | identifier => exact .pure _
  | trueWord => exact .pure _
  | falseWord => exact .pure _
  | _ => exact .fail _

section Compound

variable {operand : Precedence → Reader Expr}
  (h : ∀ p, Relocates g (Expr.mapTokens (Token.relocate g)) (operand p) (operand p))

include h

theorem unary : Relocates g (Expr.mapTokens (Token.relocate g)) (unary operand) (unary operand) :=
  .bind .advance fun _ => .bind (h _) fun _ => .pure _

theorem binary (left : Expr) (p : Precedence) :
    Relocates g (Expr.mapTokens (Token.relocate g)) (binary operand left p)
      (binary operand (left.mapTokens (Token.relocate g)) p) :=
  .bind .advance fun _ => .bind (h _) fun _ => .pure _

theorem grouping :
    Relocates g (Expr.mapTokens (Token.relocate g)) (grouping operand) (grouping operand) :=
  .bind .advance fun _ => .bind (h _) fun _ => .bind (.expect _) fun _ => .pure _

theorem lead (rules : Rules) :
    Relocates g (Expr.mapTokens (Token.relocate g)) (lead operand rules) (lead operand rules) := by
  refine .bind .current fun token => ?_
  rw [Token.kind_relocate]
  cases rules.operand token.kind with
  | none => exact .fail _
  | some rule =>
    cases rule with
    | primary => exact .primary
    | unary => exact .unary h
    | grouping => exact .grouping h

theorem extend (rules : Rules) (floor : Precedence) (bound : List Token) (left : Expr) :
    Relocates g (Expr.mapTokens (Token.relocate g)) (extend operand rules floor bound left)
      (extend operand rules floor (bound.map (Token.relocate g))
        (left.mapTokens (Token.relocate g))) := by
  induction bound generalizing left with
  | nil => exact .pure left
  | cons _ bound ih =>
    refine .bind .peek fun next => ?_
    rw [Token.kind_relocate]
    by_cases hp : floor < rules.precedence next.kind
    · simp only [if_pos hp]
      exact .bind .advance fun _ => .bind (.binary h left _) ih
    · simp only [if_neg hp]
      exact .pure left

omit h

theorem expression (rules : Rules) (levels : Nat) (floor : Precedence) :
    Relocates g (Expr.mapTokens (Token.relocate g)) (expression rules levels floor)
      (expression rules levels floor) := by
  induction levels generalizing floor with
  | zero => exact .fail _
  | succ levels ih =>
    exact .bind (.lead ih rules) fun left =>
      .bind .ahead fun bound => .extend ih rules floor bound left

end Compound

theorem letBinding :
    Relocates g (Statement.mapTokens (Token.relocate g)) letBinding letBinding :=
  .bind .current fun _ => .bind (.expect _) fun _ => .bind (.expect _) fun _ =>
    .bind (.move Cursor.skipToSemicolon_relocate) fun _ => .pure _

theorem returning :
    Relocates g (Statement.mapTokens (Token.relocate g)) returning returning :=
  .bind .current fun _ => .bind (.move Cursor.skipToSemicolon_relocate) fun _ => .pure _

theorem expressionStatement (rules : Rules) (levels : Nat) :
    Relocates g (Statement.mapTokens (Token.relocate g)) (expressionStatement rules levels)
      (expressionStatement rules levels) :=
  .bind .current fun _ =>
    .bind (.andThen (.expression rules levels _) Cursor.passSemicolon_relocate) fun _ => .pure _

theorem statement (rules : Rules) (levels : Nat) :
    Relocates g (Statement.mapTokens (Token.relocate g)) (statement rules levels)
      (statement rules levels) := by
  refine .bind .current fun token => ?_
  rw [Token.kind_relocate]
  cases rules.statementRule token.kind with
  | letBinding => exact .letBinding
  | returning => exact .returning
  | expression => exact .expressionStatement rules levels

end Relocates

end Reader

def relocateOutcome (g : Position → Position) :
    Except Diagnostic Statement → Except Diagnostic Statement
  | .ok s => .ok (s.mapTokens (Token.relocate g))
  | .error d => .error (d.relocate g)

theorem attempt_relocate (rules : Rules) (levels : Nat) (c : Cursor) :
    attempt rules levels (c.relocate g) =
      (relocateOutcome g (attempt rules levels c).1, (attempt rules levels c).2.relocate g) := by
  rw [attempt, attempt, Reader.Relocates.statement rules levels c]
  cases Reader.statement rules levels c with
  | ok s d => exact congrArg _ (Cursor.advance_relocate d)
  | error e d => exact congrArg _ (Cursor.advance_relocate d)

theorem attempts_relocate (rules : Rules) (levels : Nat) (c : Cursor) :
    attempts rules levels (c.relocate g) =
      ((attempts rules levels c).1.map (relocateOutcome g),
        (attempts rules levels c).2.relocate g) := by
  induction c using attempts_induction rules levels with
  | nil eof =>
    rw [attempts_nil]
    exact attempts_nil rules levels _
  | cons t tokens eof ih =>
    have hne : ((⟨t :: tokens, eof⟩ : Cursor).relocate g).ahead ≠ [] := by
      simp [Cursor.relocate]
    rw [attempts_of_attempt hne (attempt_relocate rules levels _), attempts_cons, ih]
    rfl

theorem succeeded_relocate (outcomes : List (Except Diagnostic Statement)) :
    succeeded (outcomes.map (relocateOutcome g)) =
      (succeeded outcomes).map (Statement.mapTokens (Token.relocate g)) := by
  rw [succeeded, succeeded, List.filterMap_map, List.map_filterMap]
  refine congrArg (List.filterMap · outcomes) (funext fun outcome => ?_)
  cases outcome <;> rfl

theorem failed_relocate (outcomes : List (Except Diagnostic Statement)) :
    failed (outcomes.map (relocateOutcome g)) = (failed outcomes).map (Diagnostic.relocate g) := by
  rw [failed, failed, List.filterMap_map, List.map_filterMap]
  refine congrArg (List.filterMap · outcomes) (funext fun outcome => ?_)
  cases outcome <;> rfl

end ScriptFrontEnd
