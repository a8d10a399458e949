import ScriptFrontEnd.Parser.Pull
import ScriptFrontEnd.Proofs.Parser.Balance
import ScriptFrontEnd.Proofs.Token.Stream

namespace ScriptFrontEnd

namespace Parser

variable {p : Parser}

theorem expect_of_eq {kind : Kind} (h : p.peek.kind = kind) :
    p.expect kind = (some p.peek, p.advance.2) := by
  have hread : Reader.expect kind p.cursor = .ok p.cursor.peek p.cursor.advance := if_pos h
  rw [expect, run, hread]
  rfl

theorem expect_of_ne {kind : Kind} (h : p.peek.kind ≠ kind) :
    p.expect kind = (none, p.report ⟨.unexpectedToken kind p.peek.kind, p.peek.start⟩) := by
  have hread : Reader.expect kind p.cursor =
      .error ⟨.unexpectedToken kind p.cursor.peek.kind, p.cursor.peek.start⟩ p.cursor := if_neg h
  rw [expect, run, hread]
  rfl

theorem parsePrimary_eq (p : Parser) : p.parsePrimary = match p.current.kind with
    | .int =>
      match Numeral.value? p.current.text with
      | some value => (some (.integer p.current value), p)
      | none => (none, p.report ⟨.badNumeral p.current.text, p.position⟩)
    | .identifier => (some (.identifier ⟨p.current, p.current.text⟩), p)
    | .trueWord => (some (.boolean p.current true), p)
    | .falseWord => (some (.boolean p.current false), p)
    | kind => (none, p.report ⟨.noOperand kind, p.position⟩) := by
  have hcurrent : p.current = p.cursor.current := rfl
  rw [parsePrimary, run, Reader.primary, Reader.bind_apply, hcurrent]
  simp only [Reader.current]
  cases p.cursor.current.kind with
  | int => cases Numeral.value? p.cursor.current.text <;> rfl
  | _ => rfl

def skipToSemicolon (p : Parser) : Parser := { p with cursor := p.cursor.skipToSemicolon }

theorem parseLetBinding_eq (p : Parser) : p.parseLetBinding = match p.expect .identifier with
    | (none, q) => (none, q)
    | (some name, q) => match q.expect .assignment with
      | (none, r) => (none, r)
      | (some _, r) =>
        (some (.letBinding p.current ⟨name, name.text⟩ none), r.skipToSemicolon) := by
  rw [parseLetBinding, run, Reader.letBinding, expect, run]
  simp only [Reader.bind_apply, Reader.current]
  cases Reader.expect .identifier p.cursor with
  | error d c => rfl
  | ok name c =>
    dsimp only
    rw [expect, run]
    dsimp only
    cases Reader.expect .assignment c <;> rfl

end Parser

namespace Settles

variable {α β : Type} {found : Nat → Option α} {a : α}

theorem const (a : α) : Settles (fun _ => some a) a where
  given := ⟨0, fun _ _ => rfl⟩
  unique _ _ h := (Option.some.inj h).symm

theorem of_succ (hzero : found 0 = none) (h : Settles (fun fuel => found (fuel + 1)) a) :
    Settles found a where
  given := by
    obtain ⟨enough, hgiven⟩ := h.given
    refine ⟨enough + 1, fun fuel hle => ?_⟩
    obtain ⟨n, rfl⟩ := Nat.exists_eq_add_of_le' (Nat.le_of_add_left_le hle)
    exact hgiven n (Nat.le_of_succ_le_succ hle)
  unique
    | 0, b, hb => by
      rw [hzero] at hb
      cases hb
    | fuel + 1, b, hb => h.unique fuel b hb

theorem bind {f : Nat → α → Option β} {b : β} (h : Settles found a)
    (hf : Settles (fun fuel => f fuel a) b) : Settles (fun fuel => found fuel >>= f fuel) b where
  given := by
    obtain ⟨m, hm⟩ := h.given
    obtain ⟨n, hn⟩ := hf.given
    refine ⟨max m n, fun fuel hle => ?_⟩
    have hfound := hm fuel (Nat.le_trans (Nat.le_max_left m n) hle)
    have hlater := hn fuel (Nat.le_trans (Nat.le_max_right m n) hle)
    exact (congrArg (· >>= f fuel) hfound).trans hlater
  unique fuel b hb := by
    obtain ⟨a', ha, hb⟩ := Option.bind_eq_some_iff.mp hb
    obtain rfl := h.unique fuel a' ha
    exact hf.unique fuel b hb

theorem map (h : Settles found a) (f : α → β) : Settles (fun fuel => (found fuel).map f) (f a) := by
  simp only [Option.map_eq_bind]
  exact h.bind (.const (f a))

theorem of_map {f : α → β} (hf : ∀ a a', f a = f a' → a = a')
    (h : Settles (fun fuel => (found fuel).map f) (f a)) : Settles found a where
  given := by
    obtain ⟨enough, hgiven⟩ := h.given
    refine ⟨enough, fun fuel hle => ?_⟩
    obtain ⟨a', ha, heq⟩ := Option.map_eq_some_iff.mp (hgiven fuel hle)
    rw [ha, hf a' a heq]
  unique fuel b hb := hf b a (h.unique fuel (f b) (Option.mem_map_of_mem f hb))

end Settles

namespace PullParser

/-- The first parser is where the second one is. Its scanner reads on behind the two tokens that it
holds. -/
structure Shows (w : PullParser) (p : Parser) : Prop where
  coherent : w.scanner.Coherent
  closed : p.cursor.Closed
  current : w.current = p.current
  peek : w.peek = p.peek
  behind : Cursor.ofLexer w.scanner.lexer = p.cursor.advance.advance
  rules : w.rules = p.rules
  depth : w.depth = p.depth
  diagnostics : w.diagnostics = p.diagnostics

def Agrees {α : Type} (found : Nat → Option (α × PullParser)) (result : α × Parser) : Prop :=
  ∃ w, Settles found (result.1, w) ∧ w.Shows result.2

variable {α β : Type} {w : PullParser} {p q : Parser}

theorem Shows.agrees (h : w.Shows p) (a : α) : Agrees (fun _ => some (a, w)) (a, p) :=
  ⟨w, .const _, h⟩

theorem Shows.currentPrecedence (h : w.Shows p) :
    w.rules.precedence w.current.kind = p.currentPrecedence := by
  rw [h.rules, h.current, Parser.currentPrecedence]

theorem Shows.peekPrecedence (h : w.Shows p) :
    w.rules.precedence w.peek.kind = p.peekPrecedence := by
  rw [h.rules, h.peek, Parser.peekPrecedence]

section Agrees

variable {found : Nat → Option (α × PullParser)} {result : α × Parser}

theorem Agrees.of_succ (hzero : found 0 = none) (h : Agrees (fun fuel => found (fuel + 1)) result) :
    Agrees found result := by
  obtain ⟨w, hfound, hw⟩ := h
  exact ⟨w, hfound.of_succ hzero, hw⟩

theorem Agrees.bind {f : Nat → α × PullParser → Option (β × PullParser)} {final : β × Parser}
    (h : Agrees found result)
    (hf : ∀ w : PullParser, w.Shows result.2 → Agrees (fun fuel => f fuel (result.1, w)) final) :
    Agrees (fun fuel => found fuel >>= f fuel) final := by
  obtain ⟨w, hfound, hw⟩ := h
  obtain ⟨v, hfinal, hv⟩ := hf w hw
  exact ⟨v, hfound.bind hfinal, hv⟩

theorem Agrees.map (h : Agrees found result) (f : α → β) :
    Agrees (fun fuel => (found fuel).map (·.map f id)) (result.map f id) := by
  obtain ⟨w, hfound, hw⟩ := h
  exact ⟨w, hfound.map _, hw⟩

theorem agrees_map_iff {f : α → β} (hf : ∀ a a', f a = f a' → a = a') {a : α} :
    Agrees (fun fuel => (found fuel).map (·.map f id)) (f a, p) ↔ Agrees found (a, p) := by
  constructor
  · intro h
    obtain ⟨w, hfound, hw⟩ := h
    refine ⟨w, hfound.of_map (a := (a, w)) fun x y hxy => ?_, hw⟩
    obtain ⟨hfst, hsnd⟩ := Prod.mk.inj hxy
    exact Prod.ext (hf _ _ hfst) hsnd
  · exact fun h => h.map f

end Agrees

theorem Shows.advance (h : w.Shows p) : Agrees (fun _ => w.advance) (p.current, p.advance.2) := by
  obtain ⟨n, t, hnext, hahead, hlexer, -⟩ := h.coherent.exists_next?
  have hpeek : w.scanner.lexer.next.1 = p.cursor.advance.peek := by
    rw [← Cursor.current_ofLexer, h.behind]
    rfl
  let v : PullParser := ⟨t, w.peek, w.scanner.lexer.next.1, w.rules, w.depth, w.diagnostics⟩
  have hv : w.advance = some (p.current, v) := by
    rw [PullParser.advance, hnext, h.current]
    rfl
  refine ⟨v, hv ▸ .const _, hahead.coherent, h.closed.of_reaches p.cursor.reaches_advance, h.peek,
    hpeek, ?_, h.rules, h.depth, h.diagnostics⟩
  change Cursor.ofLexer t.lexer = p.cursor.advance.advance.advance
  rw [hlexer, ← Cursor.advance_ofLexer, h.behind]

theorem Shows.report (h : w.Shows p) {d e : Diagnostic} (hd : d = e) :
    (w.report d).Shows (p.report e) := by
  refine { h with diagnostics := ?_ }
  rw [PullParser.report, h.diagnostics, hd]
  rfl

theorem Shows.expect (h : w.Shows p) (kind : Kind) :
    Agrees (fun _ => w.expect kind) (p.expect kind) := by
  simp only [PullParser.expect, h.peek]
  by_cases hk : p.peek.kind = kind
  · simp only [if_pos hk, Parser.expect_of_eq hk]
    refine h.advance.bind fun v hv => ?_
    have hcurrent : v.current = p.peek := hv.current
    simp only [hcurrent]
    exact hv.agrees _
  · simp only [if_neg hk, Parser.expect_of_ne hk]
    exact (h.report rfl).agrees none

theorem Shows.enter (h : w.Shows p) : ∃ v, w.enter = (p.enter.1, v) ∧ v.Shows p.enter.2 := by
  rw [PullParser.enter, Parser.enter, h.depth]
  by_cases hlt : p.depth < nestingLimit
  · rw [if_neg (Nat.not_le.mpr hlt), if_pos hlt]
    exact ⟨_, rfl, { h with depth := rfl }⟩
  · rw [if_pos (Nat.le_of_not_lt hlt), if_neg hlt]
    exact ⟨_, rfl, h.report (by rw [h.current]; rfl)⟩

theorem Shows.leave (h : w.Shows p) : w.leave.Shows p.leave := by
  refine { h with depth := ?_ }
  rw [PullParser.leave, h.depth]
  rfl

theorem Shows.withRules (h : w.Shows p) (f : Rules → Rules) :
    Shows { w with rules := f w.rules } { p with rules := f p.rules } :=
  { h with rules := congrArg f h.rules }

theorem Shows.primary (h : w.Shows p) :
    Agrees (fun _ => some w.parsePrimary) p.parsePrimary := by
  rw [parsePrimary, Parser.parsePrimary_eq, h.current]
  cases p.current.kind with
  | int =>
    cases Numeral.value? p.current.text with
    | some value => exact h.agrees _
    | none => exact (h.report rfl).agrees _
  | identifier | trueWord | falseWord => exact h.agrees _
  | _ => exact (h.report rfl).agrees _

theorem Shows.skipToSemicolon_of_skips {d : Cursor} (h : w.Shows p) (hskips : p.cursor.Skips d) :
    ∃ v, Settles w.skipToSemicolon v ∧ v.Shows { p with cursor := d } := by
  generalize hc : p.cursor = c at hskips
  induction hskips generalizing w p with
  | @stop c hk =>
    subst hc
    have hk : w.current.kind = .semicolon ∨ w.current.kind = .eof := h.current ▸ hk
    refine ⟨w, Settles.of_succ rfl ?_, h⟩
    simp only [PullParser.skipToSemicolon, if_pos hk]
    exact .const w
  | @next c d hsemicolon heof _ ih =>
    subst hc
    obtain ⟨v, hv, hshows⟩ := h.advance
    obtain ⟨u, hu, hends⟩ := ih hshows rfl
    have hk : ¬ (w.current.kind = .semicolon ∨ w.current.kind = .eof) := by
      rw [h.current, not_or]
      exact ⟨hsemicolon, heof⟩
    refine ⟨u, Settles.of_succ rfl ?_, hends⟩
    simp only [PullParser.skipToSemicolon, if_neg hk]
    exact hv.bind hu

theorem Shows.skipToSemicolon (h : w.Shows p) :
    ∃ v, Settles w.skipToSemicolon v ∧ v.Shows p.skipToSemicolon :=
  h.skipToSemicolon_of_skips h.closed.skips_skipToSemicolon

theorem Shows.passSemicolon (h : w.Shows p) (a : α) :
    Agrees (fun _ => if w.peek.kind = .semicolon then do
        let (_, w) ← w.advance
        return (a, w)
      else return (a, w)) (a, p.passSemicolon) := by
  have hpeek : p.cursor.peek = p.peek := rfl
  rw [Parser.passSemicolon, Cursor.passSemicolon, h.peek, hpeek]
  by_cases hk : p.peek.kind = .semicolon
  · simp only [if_pos hk]
    exact h.advance.bind fun v hv => hv.agrees a
  · simp only [if_neg hk]
    exact h.agrees a

theorem Shows.letBinding (h : w.Shows p) : Agrees w.parseLetBinding p.parseLetBinding := by
  have hname := h.expect .identifier
  unfold PullParser.parseLetBinding
  rw [Parser.parseLetBinding_eq, h.current]
  generalize p.expect .identifier = found at hname ⊢
  obtain ⟨name, q⟩ := found
  refine hname.bind fun v hv => ?_
  cases name with
  | none => exact hv.agrees none
  | some name =>
    have hassignment := hv.expect .assignment
    dsimp only at hassignment ⊢
    generalize q.expect .assignment = found at hassignment ⊢
    obtain ⟨assignment, r⟩ := found
    refine hassignment.bind fun u hu => ?_
    cases assignment with
    | none => exact hu.agrees none
    | some assignment =>
      obtain ⟨x, hx, hends⟩ := hu.skipToSemicolon
      exact ⟨x, hx.bind (.const _), hends⟩

theorem Shows.returning (h : w.Shows p) : Agrees w.parseReturning p.parseReturning := by
  obtain ⟨v, hv, hends⟩ := h.skipToSemicolon
  unfold PullParser.parseReturning
  rw [h.current]
  exact ⟨v, hv.bind (.const _), hends⟩

section Operand

variable {operand : Nat → Precedence → PullParser → Option (Option Expr × PullParser)}

theorem Shows.unary {e : Option Expr} (h : w.Shows p)
    (ho : ∀ v : PullParser, v.Shows p.advance.2 → Agrees (operand · .unary v) (e, q)) :
    Agrees (fun fuel => parseUnary (operand fuel) w)
      (e.map (.unary p.current p.current.text), q) :=
  h.advance.bind fun v hv => (ho v hv).bind fun _ hu => hu.agrees _

theorem Shows.binary {left : Expr} {power : Precedence} {e : Option Expr} (h : w.Shows p)
    (ho : ∀ v : PullParser, v.Shows p.advance.2 → Agrees (operand · power v) (e, q)) :
    Agrees (fun fuel => parseBinary (operand fuel) left power w)
      (e.map (.binary p.current left p.current.text), q) :=
  h.advance.bind fun v hv => (ho v hv).bind fun _ hu => hu.agrees _

theorem Shows.grouping {e : Expr} (h : w.Shows p)
    (ho : ∀ v : PullParser, v.Shows p.advance.2 → Agrees (operand · .lowest v) (some e, q)) :
    Agrees (fun fuel => parseGrouping (operand fuel) w)
      ((q.expect .closeParen).1.map fun _ => e, (q.expect .closeParen).2) := by
  refine h.advance.bind fun v hv => (ho v hv).bind fun u hu => ?_
  exact (hu.expect .closeParen).bind fun x hx => hx.agrees _

theorem Shows.groupFails (h : w.Shows p)
    (ho : ∀ v : PullParser, v.Shows p.advance.2 → Agrees (operand · .lowest v) (none, q)) :
    Agrees (fun fuel => parseGrouping (operand fuel) w) (none, q) :=
  h.advance.bind fun v hv => (ho v hv).bind fun _ hu => hu.agrees none

end Operand

section Expression

variable {floor : Precedence} {r : Parser}

theorem Shows.refused (h : w.Shows p) (hq : p.enter = (false, q)) :
    Agrees (parseExpression · floor w) (none, q) := by
  obtain ⟨v, hv, hshows⟩ := h.enter
  rw [hq] at hv hshows
  refine Agrees.of_succ rfl ?_
  simp only [parseExpression, hv]
  exact hshows.agrees none

theorem Shows.entered {e : Option Expr} (h : w.Shows p) (hq : p.enter = (true, q))
    (hbody : ∀ v : PullParser, v.Shows q → Agrees (parseBody · floor v) (e, r)) :
    Agrees (parseExpression · floor w) (e, r.leave) := by
  obtain ⟨v, hv, hshows⟩ := h.enter
  rw [hq] at hv hshows
  refine Agrees.of_succ rfl ?_
  simp only [parseExpression, hv]
  exact (hbody v hshows).bind fun u hu => hu.leave.agrees e

theorem Shows.unknown (h : w.Shows p) (hrule : p.rules.operand p.current.kind = none) :
    Agrees (parseBody · floor w)
      (none, p.report ⟨.noOperand p.current.kind, p.position⟩) := by
  refine Agrees.of_succ rfl ?_
  simp only [parseBody, h.rules, h.current, hrule]
  exact (h.report rfl).agrees none

theorem Shows.operand {rule : OperandRule} {left : Expr} {result : Option Expr × Parser}
    (h : w.Shows p) (hrule : p.rules.operand p.current.kind = some rule)
    (hlead : Agrees (fun fuel => parseLead (parseExpression fuel) rule w) (some left, q))
    (hrest : ∀ v : PullParser, v.Shows q → Agrees (parseOperators · floor left v) result) :
    Agrees (parseBody · floor w) result := by
  refine Agrees.of_succ rfl ?_
  simp only [parseBody, h.rules, h.current, hrule]
  exact hlead.bind hrest

theorem Shows.operandFails {rule : OperandRule} (h : w.Shows p)
    (hrule : p.rules.operand p.current.kind = some rule)
    (hlead : Agrees (fun fuel => parseLead (parseExpression fuel) rule w) (none, q)) :
    Agrees (parseBody · floor w) (none, q) := by
  refine Agrees.of_succ rfl ?_
  simp only [parseBody, h.rules, h.current, hrule]
  exact hlead.bind fun v hv => hv.agrees none

theorem Shows.stop {left : Expr} (h : w.Shows p) (hfloor : ¬ floor < p.peekPrecedence) :
    Agrees (parseOperators · floor left w) (some left, p) := by
  refine Agrees.of_succ rfl ?_
  simp only [parseOperators, h.peekPrecedence, if_neg hfloor]
  exact h.agrees _

theorem Shows.more {left e : Expr} {result : Option Expr × Parser} (h : w.Shows p)
    (hfloor : floor < p.peekPrecedence)
    (ho : ∀ v : PullParser, v.Shows p.advance.2 →
      Agrees (fun fuel => parseBinary (parseExpression fuel) left p.advance.2.currentPrecedence v)
        (some e, q))
    (hrest : ∀ v : PullParser, v.Shows q → Agrees (parseOperators · floor e v) result) :
    Agrees (parseOperators · floor left w) result := by
  refine Agrees.of_succ rfl ?_
  simp only [parseOperators, h.peekPrecedence, if_pos hfloor]
  refine h.advance.bind fun v hv => ?_
  simp only [hv.currentPrecedence]
  exact (ho v hv).bind hrest

theorem Shows.operatorFails {left : Expr} (h : w.Shows p) (hfloor : floor < p.peekPrecedence)
    (ho : ∀ v : PullParser, v.Shows p.advance.2 →
      Agrees (fun fuel => parseBinary (parseExpression fuel) left p.advance.2.currentPrecedence v)
        (none, q)) :
    Agrees (parseOperators · floor left w) (none, q) := by
  refine Agrees.of_succ rfl ?_
  simp only [parseOperators, h.peekPrecedence, if_pos hfloor]
  refine h.advance.bind fun v hv => ?_
  simp only [hv.currentPrecedence]
  exact (ho v hv).bind fun u hu => hu.agrees none

end Expression

theorem Shows.expressionStatement {e : Option Expr} (h : w.Shows p)
    (hexpression : Agrees (parseExpression · .lowest w) (e, q)) :
    Agrees w.parseExpressionStatement (e.map (.expression p.current), q.passSemicolon) := by
  unfold PullParser.parseExpressionStatement
  rw [h.current]
  exact hexpression.bind fun v hv => hv.passSemicolon _

theorem Shows.done (h : w.Shows p) (hk : p.current.kind = .eof) :
    Agrees w.parseProgram (⟨[]⟩, p) := by
  refine Agrees.of_succ rfl ?_
  simp only [parseProgram, h.current, if_pos hk]
  exact h.agrees _

theorem Shows.attempt {s : Option Statement} {ss : List Statement} {r : Parser} (h : w.Shows p)
    (hk : p.current.kind ≠ .eof) (hs : Agrees w.parseStatement (s, q))
    (hss : ∀ v : PullParser, v.Shows q.advance.2 → Agrees v.parseProgram (⟨ss⟩, r)) :
    Agrees w.parseProgram (⟨s.toList ++ ss⟩, r) := by
  refine Agrees.of_succ rfl ?_
  simp only [parseProgram, h.current, if_neg hk]
  refine hs.bind fun v hv => hv.advance.bind fun u hu => ?_
  exact (hss u hu).bind fun x hx => hx.agrees _

end PullParser

def Routine.pull (fuel : Nat) (w : PullParser) : Routine → Option (Answer × PullParser)
  | .operation o => w.perform fuel o
  | .body floor => (PullParser.parseBody fuel floor w).map (·.map .expression id)
  | .operators floor left =>
    (PullParser.parseOperators fuel floor left w).map (·.map .expression id)

namespace PullParser

variable {w : PullParser} {p q : Parser}

theorem agrees_expression_iff {found : Nat → Option (Option Expr × PullParser)}
    {e : Option Expr} : Agrees (fun fuel => (found fuel).map (·.map Answer.expression id))
      (.expression e, p) ↔ Agrees found (e, p) :=
  agrees_map_iff fun _ _ => Answer.expression.inj

theorem agrees_statement_iff {found : Nat → Option (Option Statement × PullParser)}
    {s : Option Statement} : Agrees (fun fuel => (found fuel).map (·.map Answer.statement id))
      (.statement s, p) ↔ Agrees found (s, p) :=
  agrees_map_iff fun _ _ => Answer.statement.inj

theorem agrees_program_iff {found : Nat → Option (Program × PullParser)} {program : Program} :
    Agrees (fun fuel => (found fuel).map (·.map Answer.program id)) (.program program, p) ↔
      Agrees found (program, p) :=
  agrees_map_iff fun _ _ => Answer.program.inj

theorem agrees_lead_iff {rule : OperandRule} {e : Option Expr} :
    Agrees (w.perform · rule.operation) (.expression e, p) ↔
      Agrees (fun fuel => parseLead (parseExpression fuel) rule w) (e, p) := by
  rw [← agrees_expression_iff]
  cases rule <;> rfl

theorem perform_statement (fuel : Nat) (w : PullParser) :
    w.perform fuel (w.rules.statementRule w.current.kind).operation =
      (w.parseStatement fuel).map (·.map .statement id) := by
  rw [parseStatement]
  cases w.rules.statementRule w.current.kind <;> rfl

theorem Shows.executes {k : Routine} {result : Answer × Parser} (h : w.Shows p)
    (hk : p.Executes k result) : Agrees (k.pull · w) result := by
  -- the two parsers take the same branches, since they hold the same tokens and the same rules
  induction hk generalizing w with
  | refused hq => exact agrees_expression_iff.mpr (h.refused hq)
  | entered hq hbody ih =>
    obtain ⟨hdepth, rfl⟩ := Parser.enter_eq_true.mp hq
    obtain ⟨n, ending, -, hending⟩ := hbody.evaluated _ rfl hdepth
    obtain ⟨rfl, rfl⟩ := Prod.mk.inj hending
    exact agrees_expression_iff.mpr
      (h.entered hq fun v hv => agrees_expression_iff.mp (ih hv))
  | unknown hrule => exact agrees_expression_iff.mpr (h.unknown hrule)
  | operand hrule _ hrest iho ihr =>
    obtain ⟨n, ending, -, rfl⟩ := hrest.evaluated
    exact agrees_expression_iff.mpr
      (h.operand hrule (agrees_lead_iff.mp (iho h)) fun v hv => agrees_expression_iff.mp (ihr hv))
  | operandFails hrule _ ih =>
    exact agrees_expression_iff.mpr (h.operandFails hrule (agrees_lead_iff.mp (ih h)))
  | stop hfloor => exact agrees_expression_iff.mpr (h.stop hfloor)
  | more hfloor _ hrest iho ihr =>
    obtain ⟨n, ending, -, rfl⟩ := hrest.evaluated
    exact agrees_expression_iff.mpr (h.more hfloor (fun v hv => agrees_expression_iff.mp (iho hv))
      fun v hv => agrees_expression_iff.mp (ihr hv))
  | operatorFails hfloor _ ih =>
    exact agrees_expression_iff.mpr
      (h.operatorFails hfloor fun v hv => agrees_expression_iff.mp (ih hv))
  | primary => exact h.primary.map Answer.expression
  | unary _ ih =>
    exact agrees_expression_iff.mpr (h.unary fun v hv => agrees_expression_iff.mp (ih hv))
  | grouping _ ih =>
    exact agrees_expression_iff.mpr (h.grouping fun v hv => agrees_expression_iff.mp (ih hv))
  | groupFails _ ih =>
    exact agrees_expression_iff.mpr (h.groupFails fun v hv => agrees_expression_iff.mp (ih hv))
  | binary _ ih =>
    exact agrees_expression_iff.mpr (h.binary fun v hv => agrees_expression_iff.mp (ih hv))
  | letBinding => exact h.letBinding.map Answer.statement
  | returning => exact h.returning.map Answer.statement
  | expressionStatement _ ih =>
    exact agrees_statement_iff.mpr (h.expressionStatement (agrees_expression_iff.mp (ih h)))
  | statement _ ih =>
    have hstatement := ih h
    simp only [Routine.pull, ← h.rules, ← h.current, perform_statement] at hstatement
    exact hstatement
  | done hk => exact agrees_program_iff.mpr (h.done hk)
  | attempt hk _ _ ihs ihr =>
    exact agrees_program_iff.mpr (h.attempt hk (agrees_statement_iff.mp (ihs h))
      fun v hv => agrees_program_iff.mp (ihr hv))

theorem Shows.perform_of_parses (h : w.Shows p) {o : Operation} (ho : o.Parses) :
    Agrees (w.perform · o) (p.perform o) :=
  h.executes ((Parser.executes_iff h.closed ho).mpr rfl)

theorem Shows.perform (h : w.Shows p) (o : Operation) : Agrees (w.perform · o) (p.perform o) := by
  by_cases ho : o.Parses
  · exact h.perform_of_parses ho
  · cases o with
    | advance => exact h.advance.map (Answer.token ∘ some)
    | expect kind => exact (h.expect kind).map Answer.token
    | report d => exact (h.report rfl).agrees _
    | enter =>
      obtain ⟨v, hv, hshows⟩ := h.enter
      simp only [PullParser.perform, hv]
      exact hshows.agrees _
    | leave => exact h.leave.agrees _
    | registerStatement kind rule => exact (h.withRules (·.withStatement kind rule)).agrees _
    | registerOperand kind rule => exact (h.withRules (·.withOperand kind rule)).agrees _
    | registerOperator kind power => exact (h.withRules (·.withOperator kind power)).agrees _
    | _ => exact absurd trivial ho

theorem Shows.after (h : w.Shows p) (operations : List Operation) :
    ∃ v, Settles (w.after · operations) v ∧ v.Shows (p.after operations) := by
  induction operations generalizing w p with
  | nil => exact ⟨w, .const w, h⟩
  | cons o operations ih =>
    obtain ⟨v, hv, hshows⟩ := h.perform o
    obtain ⟨u, hu, hends⟩ := ih hshows
    refine ⟨u, ?_, hends⟩
    simp only [PullParser.after, List.foldlM_cons]
    exact (hv.map Prod.snd).bind hu

theorem exists_shows_ofSource (source : String) (file : Option String) :
    ∃ w, ofSource source file = some w ∧ w.Shows (Parser.ofSource source file) := by
  obtain ⟨m, s, hfirst, hs, hlexer, -⟩ := (Scanner.coherent_ofSource source file).exists_next?
  obtain ⟨n, t, hsecond, ht, hbehind, -⟩ := hs.coherent.exists_next?
  rw [Scanner.lexer_ofSource] at hfirst hlexer
  have hadvance : (Parser.ofSource source file).cursor.advance = .ofLexer s.lexer := by
    rw [hlexer, ← Cursor.advance_ofLexer]
    rfl
  have hclosed : (Parser.ofSource source file).cursor.Closed := Parser.closed_after source file []
  refine ⟨⟨t, (Lexer.ofSource source file).next.1, s.lexer.next.1, .standard, 0, []⟩, ?_,
    ht.coherent, hclosed, (Cursor.current_ofLexer _).symm, ?_, ?_, rfl, rfl, rfl⟩
  · rw [ofSource, hfirst, Option.bind_eq_bind, Option.bind_some]
    dsimp only
    rw [hsecond]
    rfl
  · change s.lexer.next.1 = (Parser.ofSource source file).cursor.advance.current
    rw [hadvance, Cursor.current_ofLexer]
  · rw [hadvance, Cursor.advance_ofLexer, hbehind]

theorem Shows.accounts (h : w.Shows p) (o : Operation) :
    ∃ answer v, Settles (w.perform · o) (answer, v) ∧
      (o.ReadsConstruct → answer.Found ∧ v.diagnostics = w.diagnostics ∨
        ¬ answer.Found ∧ ∃ d, v.diagnostics = w.diagnostics ++ [d]) ∧
      (¬ o.Registers → v.rules = w.rules) := by
  obtain ⟨v, hv, hshows⟩ := h.perform o
  refine ⟨_, v, hv, fun ho => ?_, fun ho => ?_⟩
  · rw [hshows.diagnostics, h.diagnostics]
    exact p.accounts_perform ho
  · rw [hshows.rules, h.rules]
    exact p.rules_perform ho

theorem accounts_for_failures (source : String) (file : Option String)
    (operations : List Operation) :
    ∃ w, Settles (fun fuel => (ofSource source file).bind (·.after fuel operations)) w ∧
      ∀ o : Operation, ∃ answer v, Settles (w.perform · o) (answer, v) ∧
        (o.ReadsConstruct → answer.Found ∧ v.diagnostics = w.diagnostics ∨
          ¬ answer.Found ∧ ∃ d, v.diagnostics = w.diagnostics ++ [d]) ∧
        (¬ o.Registers → v.rules = w.rules) := by
  obtain ⟨start, hstart, hshows⟩ := exists_shows_ofSource source file
  obtain ⟨w, hw, hends⟩ := hshows.after operations
  exact ⟨w, hstart ▸ hw, hends.accounts⟩

theorem exists_parseProgram (source : String) (file : Option String) :
    ∃ w, Settles (fun fuel => (ofSource source file).bind (parseProgram fuel))
        ((parse source file).1, w) ∧
      w.diagnostics = (parse source file).2 := by
  obtain ⟨start, hstart, hshows⟩ := exists_shows_ofSource source file
  have hprogram := hshows.perform .parseProgram
  obtain ⟨w, hw, hends⟩ := (agrees_map_iff fun _ _ => Answer.program.inj).mp hprogram
  refine ⟨w, ?_, hends.diagnostics⟩
  rw [hstart]
  exact hw

end PullParser

end ScriptFrontEnd
