import ScriptFrontEnd.Grammar.Fault
import ScriptFrontEnd.Proofs.Parser.Breaking
import ScriptFrontEnd.Proofs.Parser.Statement

namespace ScriptFrontEnd

namespace Reader

variable {c d : Cursor} {e : Diagnostic}

theorem letBinding_eq_error : letBinding c = .error e d ↔
    (c.peek.kind ≠ .identifier ∧ e.cause = .unexpectedToken .identifier c.peek.kind ∧
      e.position = c.peek.start ∧ d = c) ∨
    (c.peek.kind = .identifier ∧ c.advance.peek.kind ≠ .assignment ∧
      e.cause = .unexpectedToken .assignment c.advance.peek.kind ∧
      e.position = c.advance.peek.start ∧ d = c.advance) := by
  unfold letBinding
  rw [bind_apply]
  simp only [Reader.current, Reader.move, bind_eq_error, expect_eq_ok, expect_eq_error, pure_apply]
  constructor
  · rintro (h | ⟨_, _, ⟨hn, rfl, rfl⟩, h | ⟨_, _, ⟨-, rfl, rfl⟩, h | ⟨_, _, -, h⟩⟩⟩)
    · exact .inl h
    · exact .inr ⟨hn, h⟩
    · cases h
    · cases h
  · rintro (h | ⟨hn, h⟩)
    · exact .inl h
    · exact .inr ⟨_, _, ⟨hn, rfl, rfl⟩, .inl h⟩

theorem returning_ne_error : returning c ≠ .error e d := by
  unfold returning
  rw [bind_apply]
  simp only [Reader.current, Reader.move, ne_eq, bind_eq_error, pure_apply]
  rintro (h | ⟨_, _, -, h⟩)
  · cases h
  · cases h

theorem andThen_eq_error {α : Type} {x : Reader α} {f : Cursor → Cursor} :
    x.andThen f c = .error e d ↔ ∃ c', x c = .error e c' ∧ d = f c' := by
  unfold andThen
  cases x c with
  | ok b c' => simp
  | error e' c' =>
    simp only [EStateM.Result.error.injEq]
    constructor
    · rintro ⟨rfl, rfl⟩
      exact ⟨c', ⟨rfl, rfl⟩, rfl⟩
    · rintro ⟨_, ⟨rfl, rfl⟩, rfl⟩
      exact ⟨rfl, rfl⟩

variable {rules : Rules} {levels : Nat}

theorem expressionStatement_eq_error : expressionStatement rules levels c = .error e d ↔
    ∃ c', expression rules levels .lowest c = .error e c' ∧ d = c'.passSemicolon := by
  unfold expressionStatement
  rw [bind_apply]
  simp only [Reader.current, bind_eq_error, andThen_eq_error, pure_apply]
  simp

theorem statement_eq_error : statement rules levels c = .error e d ↔
    (rules.statementRule c.current.kind = .letBinding ∧ letBinding c = .error e d) ∨
    (rules.statementRule c.current.kind = .expression ∧
      expressionStatement rules levels c = .error e d) := by
  unfold statement
  rw [bind_apply]
  simp only [Reader.current]
  cases rules.statementRule c.current.kind <;> simp [returning_ne_error]

end Reader

variable {rules : Rules} {levels : Nat} {eof : Token}

theorem attempt_eq_error_iff {c d : Cursor} {e : Diagnostic} :
    attempt rules levels c = (.error e, d) ↔
      ∃ c', Reader.statement rules levels c = .error e c' ∧ d = c'.advance := by
  unfold attempt
  cases Reader.statement rules levels c with
  | ok s c' => simp
  | error e' c' =>
    simp only [Prod.mk.injEq, Except.error.injEq, EStateM.Result.error.injEq]
    constructor
    · rintro ⟨rfl, rfl⟩
      exact ⟨c', ⟨rfl, rfl⟩, rfl⟩
    · rintro ⟨_, ⟨rfl, rfl⟩, rfl⟩
      exact ⟨rfl, rfl⟩

theorem advance_passSemicolon (he : eof.kind = .eof) (tokens : List Token) :
    (Cursor.passSemicolon ⟨tokens, eof⟩).advance = ⟨dropSemicolon tokens.tail, eof⟩ := by
  match tokens with
  | [] => simp [Cursor.passSemicolon, dropSemicolon, he]
  | [t] => simp [Cursor.passSemicolon, dropSemicolon, he]
  | t :: s :: rest =>
    by_cases hs : s.kind = .semicolon
    · rw [advance_passSemicolon_of_eq hs, List.tail_cons, dropSemicolon, if_pos hs]
    · rw [advance_passSemicolon_of_ne he t (by simpa using hs), List.tail_cons, dropSemicolon,
        if_neg hs]

theorem fault_of_attempt (hr : rules.Regular) (he : eof.kind = .eof) {t : Token}
    {tokens : List Token} {e : Diagnostic} {d : Cursor}
    (h : attempt rules levels ⟨t :: tokens, eof⟩ = (.error e, d)) :
    ∃ passed rest left, t :: tokens = passed ++ rest ∧
      Fault rules levels eof passed rest e.cause left ∧
      e.position = (rest.headD eof).start ∧ d = ⟨left, eof⟩ := by
  obtain ⟨c, hs, rfl⟩ := attempt_eq_error_iff.mp h
  rcases Reader.statement_eq_error.mp hs with ⟨ht, hs⟩ | ⟨ht, hs⟩
  · rcases Reader.letBinding_eq_error.mp hs with ⟨hn, hc, hp, rfl⟩ | ⟨hn, ha, hc, hp, rfl⟩
    · exact ⟨[t], tokens, tokens, rfl, hc ▸ .unnamed ht hn, hp, rfl⟩
    · cases tokens with
      | nil => simp [he] at hn
      | cons n tokens => exact ⟨[t, n], tokens, tokens, rfl, hc ▸ .unassigned ht hn ha, hp, rfl⟩
  · obtain ⟨c', hexpr, rfl⟩ := Reader.expressionStatement_eq_error.mp hs
    obtain ⟨f, rest, hf⟩ := (Fragment.expression_eq_error_iff hr he).mp hexpr
    refine ⟨f.tokens, rest, _, hf.split, .expression hf.split.symm ht hf.breaks, hf.position, ?_⟩
    rw [hf.stays, advance_passSemicolon he]

theorem Fault.attempt_eq_error (hr : rules.Regular) (he : eof.kind = .eof)
    {passed rest left : List Token} {cause : Cause}
    (h : Fault rules levels eof passed rest cause left) :
    attempt rules levels ⟨passed ++ rest, eof⟩ =
      (.error ⟨cause, (rest.headD eof).start⟩, ⟨left, eof⟩) := by
  rw [attempt_eq_error_iff]
  cases h with
  | @unnamed t rest ht hn =>
    refine ⟨⟨t :: rest, eof⟩, Reader.statement_eq_error.mpr (.inl ⟨ht, ?_⟩), rfl⟩
    exact Reader.letBinding_eq_error.mpr (.inl ⟨hn, rfl, rfl, rfl⟩)
  | @unassigned t n rest ht hn ha =>
    refine ⟨⟨n :: rest, eof⟩, Reader.statement_eq_error.mpr (.inl ⟨ht, ?_⟩), rfl⟩
    exact Reader.letBinding_eq_error.mpr (.inr ⟨hn, ha, rfl, rfl, rfl⟩)
  | @expression f rest t tokens cause htokens ht hf =>
    have hexpr := Fragment.expression_eq_error_of_breaks hr he hf
    refine ⟨_, Reader.statement_eq_error.mpr (.inr ⟨?_, ?_⟩), (advance_passSemicolon he _).symm⟩
    · simpa [htokens] using ht
    · exact Reader.expressionStatement_eq_error.mpr ⟨_, hexpr, rfl⟩

theorem Fault.ne_nil {passed rest left : List Token} {cause : Cause}
    (h : Fault rules levels eof passed rest cause left) : passed ++ rest ≠ [] := by
  cases h with
  | unnamed => simp
  | unassigned => simp
  | expression htokens => simp [htokens]

theorem Transcript.attempts_eq (hr : rules.Regular) (he : eof.kind = .eof) {tokens : List Token}
    {outcomes : List (Except Diagnostic Statement)}
    (h : Transcript rules levels eof tokens outcomes) :
    (attempts rules levels ⟨tokens, eof⟩).1 = outcomes := by
  induction h with
  | nil => rw [attempts_nil]
  | read hs h ih => rw [attempts_of_attempt hs.ne_nil (hs.attempt_eq_ok hr he), ih]
  | dropped hf h ih => rw [attempts_of_attempt hf.ne_nil (hf.attempt_eq_error hr he), ih]

theorem transcript_attempts (hr : rules.Regular) (levels : Nat) (c : Cursor)
    (he : c.eof.kind = .eof) :
    Transcript rules levels c.eof c.ahead (attempts rules levels c).1 := by
  induction c using attempts_induction rules levels with
  | nil eof =>
    rw [attempts_nil]
    exact .nil
  | cons t tokens eof ih =>
    rw [attempts_cons]
    obtain ⟨outcome, d, hout⟩ :
        ∃ outcome d, attempt rules levels ⟨t :: tokens, eof⟩ = (outcome, d) := ⟨_, _, rfl⟩
    rw [hout] at ih ⊢
    cases outcome with
    | ok s =>
      obtain ⟨rest, hs, rfl⟩ := segment_of_attempt hr he hout
      exact .read hs (ih he)
    | error e =>
      obtain ⟨passed, rest, left, hsplit, hf, hp, rfl⟩ := fault_of_attempt hr he hout
      have h := Transcript.dropped hf (ih he)
      rwa [← hsplit, ← hp] at h

end ScriptFrontEnd
