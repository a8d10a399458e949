import ScriptFrontEnd.Grammar.Fault
import ScriptFrontEnd.Proofs.Parser.Program
import ScriptFrontEnd.Proofs.Parser.Fault
import ScriptFrontEnd.Proofs.Token.Places
import ScriptFrontEnd.Proofs.Tree.Yield

namespace ScriptFrontEnd

theorem Kind.not_mem_leading_iff {k : Kind} : k ∉ leading ↔ Rules.standard.operand k = none := by
  cases k <;> decide

theorem Rules.Refuses.fits {t : Token} {cause : Cause} (h : Rules.standard.Refuses t cause)
    (passed : List Token) : cause.Fits passed t := by
  cases h with
  | unknown hnone => exact ⟨rfl, Kind.not_mem_leading_iff.mpr hnone⟩
  | unfit hprimary hk => exact absurd ((operand_standard_eq_primary_iff _).mp hprimary) hk
  | numeral hprimary hk hv => exact ⟨hk, rfl, hv⟩

namespace Breaks

variable {rules : Rules} {next : Token} {levels : Nat} {floor : Precedence} {f : Fragment}
  {cause : Cause}

theorem opened_eq_iff (h : Breaks rules next levels floor f cause) :
    f.opened = levels ↔ cause = .nestingTooDeep 256 := by
  induction h with
  | tooDeep => exact ⟨fun _ => rfl, fun _ => rfl⟩
  | refused h => cases h <;> simp [Fragment.opened]
  | unary ht h ih => rw [← ih, Fragment.opened, Nat.succ_inj]
  | group ho h ih => rw [← ih, Fragment.opened, Nat.succ_inj]
  | @unclosed levels floor o w e ho hw hd hn hnext hk =>
    have hpos := w.nesting_pos
    simp only [Fragment.opened, reduceCtorEq, iff_false]
    omega
  | binary hl hd hn ha hfloor hleft h ih => rw [← ih, Fragment.opened, Nat.succ_inj]

theorem fits (h : Breaks .standard next levels floor f cause)
    (hc : cause ≠ .nestingTooDeep 256) (front : List Token) :
    cause.Fits (front ++ f.tokens) next := by
  induction h generalizing front with
  | tooDeep => exact absurd rfl hc
  | refused h => exact h.fits _
  | @unary levels floor t f cause ht h ih =>
    have hfits := ih hc (front ++ [t])
    rwa [List.append_assoc, List.singleton_append] at hfits
  | @group levels floor o f cause ho h ih =>
    have hfits := ih hc (front ++ [o])
    rwa [List.append_assoc, List.singleton_append] at hfits
  | @unclosed levels floor o w e ho hw hd hn hnext hk =>
    have ho := (Rules.operand_standard_eq_grouping_iff _).mp ho
    exact ⟨rfl, hk, .inr (.inr ⟨rfl, front, o, w.tokens, rfl, ho, hw.balanced⟩)⟩
  | @binary levels floor l e o f cause hl hd hn ha hfloor hleft h ih =>
    have hfits := ih hc (front ++ (l.tokens ++ [o]))
    rwa [List.append_assoc, List.append_assoc, List.singleton_append] at hfits

end Breaks

theorem Fault.fits {eof : Token} {passed rest left : List Token} {cause : Cause}
    (h : Fault .standard nestingLimit eof passed rest cause left) :
    cause.Fits passed (rest.headD eof) := by
  have hlet {t : Token} (ht : Rules.standard.statementRule t.kind = .letBinding) :
      t.kind = .letWord := (Rules.statementRule_standard_eq_letBinding_iff _).mp ht
  cases h with
  | @unnamed t rest ht hn => exact ⟨rfl, hn, .inl ⟨rfl, by simp [hlet ht]⟩⟩
  | @unassigned t n rest ht hn ha => exact ⟨rfl, ha, .inr (.inl ⟨rfl, by simp [hlet ht, hn]⟩)⟩
  | @expression f rest t tokens cause htokens ht hf =>
    by_cases hc : cause = .nestingTooDeep 256
    · subst hc
      exact ⟨rfl, f, rfl, hf.opened_eq_iff.mpr rfl, hf⟩
    · exact hf.fits hc []

theorem exists_token_of_attempt {c : Cursor} {d : Diagnostic} (hc : c.ahead ≠ [])
    (he : c.eof.kind = .eof) (h : (attempt .standard nestingLimit c).1 = .error d) :
    ∃ passed t after, c.ahead ++ [c.eof] = passed ++ t :: after ∧ d.position = t.start ∧
      d.cause.Fits passed t := by
  obtain ⟨ahead, eof⟩ := c
  obtain ⟨first, tokens, rfl⟩ := List.exists_cons_of_ne_nil hc
  obtain ⟨passed, rest, left, hsplit, hfault, hposition, -⟩ :=
    fault_of_attempt Rules.regular_standard he (Prod.ext h rfl)
  refine ⟨passed, rest.headD eof, (rest ++ [eof]).tail, ?_, hposition, hfault.fits⟩
  dsimp only
  rw [hsplit, List.append_assoc]
  cases rest <;> rfl

theorem exists_fits_of_mem_parse {source : String} {file : Option String} {d : Diagnostic}
    (hd : d ∈ (parse source file).2) :
    ∃ passed, ∃ t ∈ tokenize source file, d.position = t.start ∧ d.cause.Fits passed t := by
  obtain ⟨c, hc, hout⟩ := mem_attempts_iff.mp (mem_failed_iff.mp hd)
  obtain ⟨⟨before, hbefore⟩, heof⟩ := hc.reaches
  obtain ⟨passed, t, after, hsplit, hposition, hfits⟩ :=
    exists_token_of_attempt hc.ne_nil (heof ▸ rfl) hout
  have htokens : tokenize source file = before ++ (passed ++ t :: after) := by
    rw [← hsplit, ← List.append_assoc, hbefore, heof]
    rfl
  exact ⟨passed, t, by simp [htokens], hposition, hfits⟩

theorem exists_token_of_mem_parse {source : String} (h : source.utf8ByteSize < 2 ^ 32)
    (file : Option String) {d : Diagnostic} (hd : d ∈ (parse source file).2) :
    ∃ c before passed t after,
      Tried .standard nestingLimit (.ofSource source file) c ∧
        (attempt .standard nestingLimit c).1 = .error d ∧
        c.ahead ++ [c.eof] = passed ++ t :: after ∧
        tokenize source file = before ++ (passed ++ t :: after) ∧
        d.position = t.start ∧ d.position.file = file.getD "shell" ∧
        (∀ u ∈ tokenize source file, u.start = d.position → u = t) ∧
        d.cause.Fits passed t := by
  obtain ⟨c, hc, hout⟩ := mem_attempts_iff.mp (mem_failed_iff.mp hd)
  obtain ⟨⟨before, hbefore⟩, heof⟩ := hc.reaches
  obtain ⟨passed, t, after, hsplit, hposition, hfits⟩ :=
    exists_token_of_attempt hc.ne_nil (heof ▸ rfl) hout
  have htokens : tokenize source file = before ++ (passed ++ t :: after) := by
    rw [← hsplit, ← List.append_assoc, hbefore, heof]
    rfl
  have ht : t ∈ tokenize source file := by
    simp [htokens]
  refine ⟨c, before, passed, t, after, hc, hout, hsplit, htokens, hposition, ?_, ?_, hfits⟩
  · rw [hposition]
    exact (files_of_mem_tokenize ht).1
  · intro u hu heq
    exact eq_of_mem_of_start_eq h hu ht (heq.trans hposition)

theorem exists_token_of_open_group :
    let d : Diagnostic := ⟨.unexpectedToken .closeParen .identifier, ⟨6, "shell"⟩⟩
    "1; (2 y".utf8ByteSize < 2 ^ 32 ∧ d ∈ (parse "1; (2 y" none).2 ∧
      ∃ passed t, t ∈ tokenize "1; (2 y" none ∧ d.position = t.start ∧ d.cause.Fits passed t := by
  intro d
  have hsize : "1; (2 y".utf8ByteSize < 2 ^ 32 := by decide
  have hd : d ∈ (parse "1; (2 y" none).2 := by decide +kernel
  obtain ⟨c, before, passed, t, after, -, -, -, htokens, hposition, -, -, hfits⟩ :=
    exists_token_of_mem_parse hsize none hd
  have ht : t ∈ tokenize "1; (2 y" none := by
    simp [htokens]
  exact ⟨hsize, hd, passed, t, ht, hposition, hfits⟩

end ScriptFrontEnd
