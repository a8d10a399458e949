import ScriptFrontEnd.Proofs.Grammar.Uses
import ScriptFrontEnd.Proofs.Parser.Fault
import ScriptFrontEnd.Proofs.Parser.Program

namespace ScriptFrontEnd

theorem append_eq_append_cons {α : Type} {front rest before after : List α} {t : α}
    (h : front ++ rest = before ++ t :: after) :
    (∃ between, front = before ++ t :: between) ∨
      ∃ between, before = front ++ between ∧ rest = between ++ t :: after := by
  rcases List.append_eq_append_iff.mp h with ⟨between, rfl, hrest⟩ | ⟨between, rfl, hafter⟩
  · exact .inr ⟨between, rfl, hrest⟩
  · cases between with
    | nil => exact .inr ⟨[], by simp, hafter.symm⟩
    | cons u between =>
      obtain ⟨rfl, -⟩ := List.cons.inj hafter
      exact .inl ⟨between, rfl⟩

inductive Statement.Heading : Statement → List Token → Prop
  | letBinding {t n a value} : a.kind = .assignment →
      Heading (.letBinding t n value) [t, n.token, a]
  | returning {t value} : Heading (.returning t value) [t]

def Statement.Skips (s : Statement) (before : List Token) : Prop :=
  ∃ front heading value, before = front ++ (heading ++ value) ∧ s.Heading heading ∧
    ∀ u ∈ value, u.kind ≠ .semicolon

theorem Statement.Skips.append_left {s : Statement} {before : List Token} (h : s.Skips before)
    (front : List Token) : s.Skips (front ++ before) := by
  obtain ⟨front', heading, value, rfl, hheading, hvalue⟩ := h
  exact ⟨front ++ front', heading, value, by simp, hheading, hvalue⟩

variable {limit : Nat} {eof t : Token} {before after : List Token}

theorem Segment.exists_parts {tokens rest : List Token} {s : Statement}
    (h : Segment .standard limit tokens s rest) :
    ∃ front value ending, tokens = front ++ (value ++ (ending ++ rest)) ∧
      (∀ u ∈ front, u.kind ∉ Kind.meaningless) ∧ (∀ u ∈ value, u.kind ≠ .semicolon) ∧
      (∀ u ∈ ending, u.kind = .semicolon) ∧ (value = [] ∨ s.Heading front) := by
  have hphrase {w : Phrase} (hw : w.WellFormed .standard) :
      ∀ u ∈ w.tokens, u.kind ∉ Kind.meaningless :=
    fun u hu hk => Rules.not_uses_standard (List.mem_cons_of_mem _ hk) (hw.uses u hu)
  cases h with
  | @letBinding t n a tokens rest ht hn ha hs =>
    obtain ⟨value, ending, rfl, hvalue, hending⟩ := hs.exists_value
    refine ⟨[t, n, a], value, ending, rfl, ?_, hvalue, hending, .inr (.letBinding ha)⟩
    have ht := (Rules.statementRule_standard_eq_letBinding_iff _).mp ht
    simp [ht, hn, ha, Kind.meaningless]
  | @returning t tokens rest ht hs =>
    have ht := (Rules.statementRule_standard_eq_returning_iff _).mp ht
    obtain ⟨value, ending, rfl, hvalue, hending⟩ := (hs.of_cons (by simp [ht])).exists_value
    refine ⟨[t], value, ending, rfl, ?_, hvalue, hending, .inr .returning⟩
    simp [ht, Kind.meaningless]
  | @terminated w e t s tokens rest ht hw hwf hd hn hs hstops =>
    exact ⟨w.tokens, [], [s], rfl, hphrase hwf, by simp, by simpa using hs, .inl rfl⟩
  | @unterminated w e t tokens rest ht hw hwf hd hn hrest hstops =>
    exact ⟨w.tokens, [], [], rfl, hphrase hwf, by simp, by simp, .inl rfl⟩

theorem Segment.skips_or (htm : t.kind ∈ Kind.meaningless) {tokens rest : List Token}
    {s : Statement} (h : Segment .standard limit tokens s rest)
    (ht : tokens = before ++ t :: after) :
    s.Skips before ∨ ∃ front between, before = front ++ between ∧ rest = between ++ t :: after := by
  obtain ⟨front, value, ending, rfl, hfront, hvalue, hending, hheading⟩ := h.exists_parts
  rcases append_eq_append_cons ht with ⟨between, rfl⟩ | ⟨before, rfl, htvalue⟩
  · exact absurd htm (hfront t (by simp))
  rcases append_eq_append_cons htvalue with ⟨between, rfl⟩ | ⟨before, rfl, htending⟩
  · have hheading : s.Heading front := hheading.resolve_left (by simp)
    refine .inl ⟨[], front, before, rfl, hheading, fun u hu => hvalue u (by simp [hu])⟩
  rcases append_eq_append_cons htending with ⟨between, rfl⟩ | ⟨before, rfl, htrest⟩
  · have hsemicolon : t.kind = .semicolon := hending t (by simp)
    exact absurd (hsemicolon ▸ htm) (by decide)
  exact .inr ⟨front ++ (value ++ ending), before, by simp, htrest⟩

theorem Fault.located_or (htm : t.kind ∈ Kind.meaningless) {passed rest left : List Token}
    {cause : Cause} (h : Fault .standard limit eof passed rest cause left)
    (ht : passed ++ rest = before ++ t :: after) :
    rest.headD eof = t ∨
      ∃ front between, before = front ++ between ∧ left = between ++ t :: after := by
  rcases append_eq_append_cons ht with ⟨between, rfl⟩ | ⟨before, rfl, htrest⟩
  · exact absurd (List.mem_cons_of_mem _ htm) (h.kind_passed t (by simp))
  obtain ⟨gone, hgone, hgone'⟩ := h.exists_gone
  rcases append_eq_append_cons (hgone.symm.trans htrest) with
    ⟨between, rfl⟩ | ⟨before, rfl, htleft⟩
  · rcases hgone' t (by simp) with hhead | hsemicolon
    · exact .inl (by simp [List.headD_eq_head?_getD, Option.mem_def.mp hhead])
    · exact absurd (hsemicolon ▸ htm) (by decide)
  exact .inr ⟨passed ++ gone, before, by simp, htleft⟩

theorem Transcript.reported_or_skipped (htm : t.kind ∈ Kind.meaningless) {tokens : List Token}
    {outcomes : List (Except Diagnostic Statement)}
    (h : Transcript .standard limit eof tokens outcomes) (ht : tokens = before ++ t :: after) :
    (∃ d ∈ failed outcomes, d.position = t.start) ∨ ∃ s ∈ succeeded outcomes, s.Skips before := by
  induction h generalizing before with
  | nil => simp at ht
  | @read tokens s rest outcomes hs h ih =>
    rw [failed_cons_ok, succeeded_cons_ok]
    rcases hs.skips_or htm ht with hskips | ⟨front, between, rfl, hrest⟩
    · exact .inr ⟨s, List.mem_cons_self .., hskips⟩
    · refine (ih hrest).imp id ?_
      rintro ⟨s', hs', hskips⟩
      exact ⟨s', List.mem_cons_of_mem _ hs', hskips.append_left front⟩
  | @dropped passed rest cause left outcomes hf h ih =>
    rw [failed_cons_error, succeeded_cons_error]
    rcases hf.located_or htm ht with hnext | ⟨front, between, rfl, hleft⟩
    · exact .inl ⟨_, List.mem_cons_self .., congrArg Token.start hnext⟩
    · refine (ih hleft).imp ?_ ?_
      · rintro ⟨d, hd, hposition⟩
        exact ⟨d, List.mem_cons_of_mem _ hd, hposition⟩
      · rintro ⟨s', hs', hskips⟩
        exact ⟨s', hs', hskips.append_left front⟩

theorem reported_or_skipped_of_meaningless {source : String} {file : Option String}
    (h : tokenize source file = before ++ t :: after)
    (ht : t.kind ∈ [.illegal, .comma, .openCurly, .closeCurly, .fnWord, .ifWord, .elseWord]) :
    (∃ d ∈ (parse source file).2, d.position = t.start) ∨
      ∃ s ∈ (parse source file).1.statements, ∃ front heading value,
        before = front ++ (heading ++ value) ∧ s.Heading heading ∧
          ∀ u ∈ value, u.kind ≠ .semicolon := by
  have heof : t.kind ≠ .eof := by
    intro hk
    rw [hk] at ht
    exact absurd ht (by decide)
  rcases append_eq_append_cons h with ⟨between, htokens⟩ | ⟨between, rfl, hend⟩
  · have hread := transcript_attempts Rules.regular_standard nestingLimit
      (Cursor.ofSource source file) rfl
    exact hread.reported_or_skipped ht htokens
  · have ht : t ∈ [(Lexer.ofSource source file).eofToken] := hend ▸ by simp
    exact absurd (List.mem_singleton.mp ht ▸ rfl) heof

theorem exists_diagnostic_at_closing_brace :
    ∃ d ∈ (parse "\x7d x" none).2, d.position = ⟨0, "shell"⟩ := by
  let token (kind : Kind) (text : String) (start stop : Nat) : Token :=
    ⟨kind, text, Span.ofOffsets start stop "shell"⟩
  have htokens : tokenize "\x7d x" none =
      [] ++ token .closeCurly "\x7d" 0 1 :: [token .identifier "x" 2 3, token .eof "" 3 3] := by
    decide +kernel
  rcases reported_or_skipped_of_meaningless htokens (by decide) with h | ⟨s, -, _, _, _, h, hs, -⟩
  · exact h
  · cases hs with
    | letBinding => simp at h
    | returning => simp at h

end ScriptFrontEnd
