import Mathlib.Data.List.TakeWhile
import ScriptFrontEnd.Parser.Attempts
import ScriptFrontEnd.Proofs.Parser.Expression

namespace ScriptFrontEnd

theorem skipped_iff {tokens rest : List Token} :
    Skipped tokens rest ↔ rest = (tokens.dropWhile (·.kind ≠ .semicolon)).tail := by
  constructor
  · intro h
    cases h with
    | @closed value t rest hvalue ht =>
      rw [List.dropWhile_append_of_pos (by simpa using hvalue)]
      simp [ht]
    | unclosed hvalue =>
      rw [List.dropWhile_eq_nil_iff.mpr (by simpa using hvalue)]
      rfl
  · rintro rfl
    have hvalue : ∀ u ∈ tokens.takeWhile (·.kind ≠ .semicolon), u.kind ≠ .semicolon :=
      fun u hu => by simpa using List.mem_takeWhile_imp hu
    have hsplit := List.takeWhile_append_dropWhile (p := (·.kind ≠ .semicolon)) (l := tokens)
    cases hd : tokens.dropWhile (·.kind ≠ .semicolon) with
    | nil =>
      rw [hd, List.append_nil] at hsplit
      rw [← hsplit]
      exact .unclosed hvalue
    | cons t rest =>
      rw [hd] at hsplit
      rw [← hsplit]
      have ht := List.head?_dropWhile_not (·.kind ≠ .semicolon) tokens
      rw [hd] at ht
      exact .closed hvalue (by simpa using ht)

namespace Reader

variable {c d : Cursor} {s : Statement}

theorem letBinding_eq_ok : letBinding c = .ok s d ↔
    c.peek.kind = .identifier ∧ c.advance.peek.kind = .assignment ∧
      s = .letBinding c.current ⟨c.peek, c.peek.text⟩ none ∧
      d = c.advance.advance.skipToSemicolon := by
  unfold letBinding
  rw [bind_apply]
  simp only [Reader.current, Reader.move, bind_eq_ok, expect_eq_ok, pure_eq_ok,
    EStateM.Result.ok.injEq]
  constructor
  · rintro ⟨n, _, ⟨hn, rfl, rfl⟩, a, _, ⟨ha, rfl, rfl⟩, _, _, ⟨-, rfl⟩, rfl, rfl⟩
    exact ⟨hn, ha, rfl, rfl⟩
  · rintro ⟨hn, ha, rfl, rfl⟩
    exact ⟨_, _, ⟨hn, rfl, rfl⟩, _, _, ⟨ha, rfl, rfl⟩, (), _, ⟨trivial, rfl⟩, rfl, rfl⟩

theorem returning_eq_ok : returning c = .ok s d ↔
    s = .returning c.current none ∧ d = c.skipToSemicolon := by
  unfold returning
  rw [bind_apply]
  simp only [Reader.current, Reader.move, bind_eq_ok, pure_eq_ok, EStateM.Result.ok.injEq]
  constructor
  · rintro ⟨_, _, ⟨-, rfl⟩, rfl, rfl⟩
    exact ⟨rfl, rfl⟩
  · rintro ⟨rfl, rfl⟩
    exact ⟨(), _, ⟨trivial, rfl⟩, rfl, rfl⟩

theorem andThen_eq_ok {α : Type} {x : Reader α} {f : Cursor → Cursor} {a : α} :
    x.andThen f c = .ok a d ↔ ∃ c', x c = .ok a c' ∧ d = f c' := by
  unfold andThen
  cases x c with
  | ok b c' =>
    simp only [EStateM.Result.ok.injEq]
    constructor
    · rintro ⟨rfl, rfl⟩
      exact ⟨c', ⟨rfl, rfl⟩, rfl⟩
    · rintro ⟨_, ⟨rfl, rfl⟩, rfl⟩
      exact ⟨rfl, rfl⟩
  | error e c' => simp

variable {rules : Rules} {levels : Nat}

theorem expressionStatement_eq_ok : expressionStatement rules levels c = .ok s d ↔
    ∃ e c', expression rules levels .lowest c = .ok e c' ∧ s = .expression c.current e ∧
      d = c'.passSemicolon := by
  unfold expressionStatement
  rw [bind_apply]
  simp only [Reader.current, bind_eq_ok, andThen_eq_ok, pure_eq_ok]
  constructor
  · rintro ⟨e, _, ⟨c', he, rfl⟩, rfl, rfl⟩
    exact ⟨e, c', he, rfl, rfl⟩
  · rintro ⟨e, c', he, rfl, rfl⟩
    exact ⟨e, _, ⟨c', he, rfl⟩, rfl, rfl⟩

theorem statement_eq_ok : statement rules levels c = .ok s d ↔
    (rules.statementRule c.current.kind = .letBinding ∧ letBinding c = .ok s d) ∨
    (rules.statementRule c.current.kind = .returning ∧ returning c = .ok s d) ∨
    (rules.statementRule c.current.kind = .expression ∧
      expressionStatement rules levels c = .ok s d) := by
  unfold statement
  rw [bind_apply]
  simp only [Reader.current]
  cases rules.statementRule c.current.kind <;> simp

end Reader

variable {rules : Rules} {levels : Nat} {eof : Token}

theorem attempt_eq_ok_iff {c d : Cursor} {s : Statement} :
    attempt rules levels c = (.ok s, d) ↔
      ∃ c', Reader.statement rules levels c = .ok s c' ∧ d = c'.advance := by
  unfold attempt
  cases Reader.statement rules levels c with
  | ok s' c' =>
    simp only [Prod.mk.injEq, Except.ok.injEq, EStateM.Result.ok.injEq]
    constructor
    · rintro ⟨rfl, rfl⟩
      exact ⟨c', ⟨rfl, rfl⟩, rfl⟩
    · rintro ⟨_, ⟨rfl, rfl⟩, rfl⟩
      exact ⟨rfl, rfl⟩
  | error e c' => simp

theorem advance_skipToSemicolon (tokens : List Token) :
    ((⟨tokens, eof⟩ : Cursor).skipToSemicolon).advance =
      ⟨(tokens.dropWhile (·.kind ≠ .semicolon)).tail, eof⟩ := rfl

theorem advance_passSemicolon_of_eq {t s : Token} (hs : s.kind = .semicolon)
    (rest : List Token) :
    (Cursor.passSemicolon ⟨t :: s :: rest, eof⟩).advance = ⟨rest, eof⟩ := by
  simp [Cursor.passSemicolon, hs]

theorem advance_passSemicolon_of_ne (he : eof.kind = .eof) (t : Token) {rest : List Token}
    (h : ∀ u ∈ rest.head?, u.kind ≠ .semicolon) :
    (Cursor.passSemicolon ⟨t :: rest, eof⟩).advance = ⟨rest, eof⟩ := by
  cases rest with
  | nil => simp [Cursor.passSemicolon, he]
  | cons u rest =>
    have hu : u.kind ≠ .semicolon := h u rfl
    simp [Cursor.passSemicolon, hu]

theorem segment_of_attempt (hr : rules.Regular) (he : eof.kind = .eof) {t : Token}
    {tokens : List Token} {s : Statement} {d : Cursor}
    (h : attempt rules levels ⟨t :: tokens, eof⟩ = (.ok s, d)) :
    ∃ rest, Segment rules levels (t :: tokens) s rest ∧ d = ⟨rest, eof⟩ := by
  obtain ⟨c, hs, rfl⟩ := attempt_eq_ok_iff.mp h
  rcases Reader.statement_eq_ok.mp hs with ⟨ht, hs⟩ | ⟨ht, hs⟩ | ⟨ht, hs⟩
  · obtain ⟨hn, ha, rfl, rfl⟩ := Reader.letBinding_eq_ok.mp hs
    match tokens with
    | [] => simp [he] at hn
    | [n] => simp [he] at ha
    | n :: a :: tokens =>
      have ha : a.kind = .assignment := ha
      refine ⟨_, .letBinding ht hn ha (skipped_iff.mpr rfl), ?_⟩
      simp [advance_skipToSemicolon, ha]
  · obtain ⟨rfl, rfl⟩ := Reader.returning_eq_ok.mp hs
    exact ⟨_, .returning ht (skipped_iff.mpr rfl), rfl⟩
  · have ht : rules.statementRule t.kind = .expression := ht
    obtain ⟨e, c', hexpr, rfl, rfl⟩ := Reader.expressionStatement_eq_ok.mp hs
    obtain ⟨w, rest, hw, rfl⟩ := (Phrase.expression_eq_ok_iff hr he).mp hexpr
    obtain ⟨u, more, hwt⟩ := List.exists_cons_of_ne_nil w.tokens_ne_nil
    have hsplit := hw.split
    obtain rfl : t = u := by
      rw [hwt] at hsplit
      exact (List.cons.inj hsplit).1
    rw [Cursor.current_cons, hsplit]
    by_cases hk : ∀ u ∈ rest.head?, u.kind ≠ .semicolon
    · refine ⟨rest, .unterminated ht hwt hw.wellFormed hw.denotes hw.nesting_le hk hw.stops, ?_⟩
      exact advance_passSemicolon_of_ne he _ hk
    · cases rest with
      | nil => simp at hk
      | cons s rest =>
        have hs : s.kind = .semicolon := by simpa using hk
        refine ⟨rest, .terminated ht hwt hw.wellFormed hw.denotes hw.nesting_le hs hw.stops, ?_⟩
        exact advance_passSemicolon_of_eq hs rest

theorem Tried.exists_segment (hr : rules.Regular) {c d : Cursor} (h : Tried rules levels c d)
    (he : c.eof.kind = .eof) {s : Statement} (hs : (attempt rules levels d).1 = .ok s) :
    ∃ rest, Segment rules levels d.ahead s rest ∧ (attempt rules levels d).2 = ⟨rest, c.eof⟩ := by
  obtain ⟨ahead, eof⟩ := d
  obtain ⟨-, heof⟩ := h.reaches
  obtain ⟨t, tokens, rfl⟩ := List.exists_cons_of_ne_nil h.ne_nil
  have he : eof.kind = .eof := (congrArg Token.kind heof).trans he
  obtain ⟨rest, hseg, hrest⟩ := segment_of_attempt hr he (Prod.ext hs rfl)
  exact ⟨rest, hseg, hrest.trans (congrArg (Cursor.mk rest) heof)⟩

theorem Segment.ne_nil {tokens rest : List Token} {s : Statement}
    (h : Segment rules levels tokens s rest) : tokens ≠ [] := by
  cases h with
  | letBinding ht hn ha hs => simp
  | returning ht hs => simp
  | terminated ht hw => simp
  | unterminated ht hw => simp [hw]

theorem Segment.attempt_eq_ok (hr : rules.Regular) (he : eof.kind = .eof)
    {tokens rest : List Token} {s : Statement} (h : Segment rules levels tokens s rest) :
    attempt rules levels ⟨tokens, eof⟩ = (.ok s, ⟨rest, eof⟩) := by
  have hexpr {w : Phrase} {e : Expr} {t : Token} {more rest : List Token}
      (ht : rules.statementRule t.kind = .expression) (hw : w.tokens = t :: more)
      (hwf : w.WellFormed rules) (hd : w.Denotes e) (hn : w.nesting ≤ levels)
      (hs : Stops rules .lowest rest) :
      Reader.statement rules levels ⟨w.tokens ++ rest, eof⟩ =
        .ok (.expression t e) (Cursor.passSemicolon ⟨w.last :: rest, eof⟩) := by
    refine Reader.statement_eq_ok.mpr (.inr (.inr ⟨?_, Reader.expressionStatement_eq_ok.mpr ?_⟩))
    · simpa [hw] using ht
    · refine ⟨e, _, (Phrase.expression_eq_ok_iff hr he).mpr ⟨w, rest, ?_, rfl⟩, ?_, rfl⟩
      · exact ⟨rfl, hwf, hd, hn, hwf.above_lowest, hs⟩
      · simp [hw]
  rw [attempt_eq_ok_iff]
  cases h with
  | @letBinding t n a tokens rest ht hn ha hs =>
    refine ⟨(⟨a :: tokens, eof⟩ : Cursor).skipToSemicolon, ?_, ?_⟩
    · exact Reader.statement_eq_ok.mpr (.inl ⟨ht, Reader.letBinding_eq_ok.mpr ⟨hn, ha, rfl, rfl⟩⟩)
    · simp [advance_skipToSemicolon, ha, skipped_iff.mp hs]
  | @returning t tokens rest ht hs =>
    refine ⟨(⟨t :: tokens, eof⟩ : Cursor).skipToSemicolon, ?_, ?_⟩
    · exact Reader.statement_eq_ok.mpr (.inr (.inl ⟨ht, Reader.returning_eq_ok.mpr ⟨rfl, rfl⟩⟩))
    · rw [advance_skipToSemicolon, ← skipped_iff.mp hs]
  | terminated ht hw hwf hd hn hs hstops =>
    refine ⟨_, hexpr ht hw hwf hd hn hstops, ?_⟩
    exact (advance_passSemicolon_of_eq hs _).symm
  | unterminated ht hw hwf hd hn hrest hstops =>
    refine ⟨_, hexpr ht hw hwf hd hn hstops, ?_⟩
    exact (advance_passSemicolon_of_ne he _ hrest).symm

theorem Segment.unique (hr : rules.Regular) {tokens rest rest' : List Token} {s s' : Statement}
    (h : Segment rules levels tokens s rest) (h' : Segment rules levels tokens s' rest') :
    s = s' ∧ rest = rest' := by
  let eof : Token := ⟨.eof, "", ⟨.nowhere, .nowhere⟩⟩
  have he : eof.kind = .eof := rfl
  have heq := (h.attempt_eq_ok hr he).symm.trans (h'.attempt_eq_ok hr he)
  simpa using heq

end ScriptFrontEnd
