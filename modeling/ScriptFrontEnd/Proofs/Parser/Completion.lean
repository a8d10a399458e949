import ScriptFrontEnd.Proofs.Grammar.Uses
import ScriptFrontEnd.Proofs.Parser.Fault
import ScriptFrontEnd.Proofs.Tree.Written

namespace ScriptFrontEnd

variable {limit : Nat} {eof : Token}

def Clean (limit : Nat) (tokens : List Token) : Prop :=
  ∃ ss, Segments .standard limit tokens ss

theorem clean_nil (limit : Nat) : Clean limit [] := ⟨[], .nil⟩

theorem Segment.clean_iff {tokens rest : List Token} {s : Statement}
    (h : Segment .standard limit tokens s rest) : Clean limit tokens ↔ Clean limit rest := by
  constructor
  · rintro ⟨ss, hss⟩
    cases hss with
    | nil => exact absurd rfl h.ne_nil
    | cons hs hss =>
      obtain ⟨-, rfl⟩ := h.unique Rules.regular_standard hs
      exact ⟨_, hss⟩
  · rintro ⟨ss, hss⟩
    exact ⟨s :: ss, .cons h hss⟩

namespace Fault

variable {passed rest left : List Token} {cause : Cause}

theorem not_clean (h : Fault .standard limit eof passed rest cause left) (he : eof.kind = .eof) :
    ¬ Clean limit (passed ++ rest) := by
  rintro ⟨ss, hss⟩
  have herror := h.attempt_eq_error Rules.regular_standard he
  generalize hall : passed ++ rest = tokens at hss herror
  cases hss with
  | nil => exact h.ne_nil hall
  | cons hs hss =>
    rw [hs.attempt_eq_ok Rules.regular_standard he] at herror
    cases herror

theorem replace_rest (h : Fault .standard limit eof passed rest cause left) {rest' : List Token}
    (hrest : rest'.head? = rest.head?) :
    ∃ left', Fault .standard limit eof passed rest' cause left' := by
  have hnext : rest'.headD eof = rest.headD eof := by
    rw [List.headD_eq_head?_getD, List.headD_eq_head?_getD, hrest]
  cases h with
  | unnamed ht hn =>
    rw [← hnext] at hn ⊢
    exact ⟨_, .unnamed ht hn⟩
  | unassigned ht hn ha =>
    rw [← hnext] at ha ⊢
    exact ⟨_, .unassigned ht hn ha⟩
  | @expression f rest t tokens cause htokens ht hf =>
    have hhead : (f.tokens ++ rest').head? = some t := by
      rw [List.head?_append, hrest, ← List.head?_append, htokens]
      rfl
    obtain ⟨more, hmore⟩ := List.head?_eq_some_iff.mp hhead
    exact ⟨_, .expression hmore ht (hnext ▸ hf)⟩

end Fault

namespace Token

def placeholder : Token := ⟨.identifier, "x", ⟨.nowhere, .nowhere⟩⟩

theorem spelled_placeholder : placeholder.Spelled := by
  have hword : Lexeme.Legal ⟨Kind.ofWord (String.ofList ['x']), ['x']⟩ :=
    .word (List.forall_mem_singleton.mpr rfl)
  have hlexeme : placeholder.lexeme = ⟨Kind.ofWord (String.ofList ['x']), ['x']⟩ := rfl
  rw [Spelled, hlexeme]
  exact hword

theorem spelled_closing : closing.Spelled := Lexeme.Legal.punctuation (by decide)

theorem spelled_assigning : assigning.Spelled := Lexeme.Legal.assignment

end Token

structure Fragment.Completed (levels : Nat) (floor : Precedence) (f : Fragment) (w : Phrase)
    (e : Expr) (missing : List Token) : Prop where
  split : w.tokens = f.tokens ++ missing
  wellFormed : w.WellFormed .standard
  denotes : w.Denotes e
  nesting_le : w.nesting ≤ levels
  above : w.Above .standard floor
  spelled : ∀ t ∈ missing, t.Spelled

theorem Breaks.exists_completed {next : Token} {levels : Nat} {floor : Precedence} {f : Fragment}
    {cause : Cause} (h : Breaks .standard next levels floor f cause)
    (hc : ∀ n, cause ≠ .nestingTooDeep n) :
    ∃ w e missing, f.Completed levels floor w e missing := by
  have hspelled : ∀ t ∈ [Token.closing], t.Spelled :=
    List.forall_mem_singleton.mpr Token.spelled_closing
  induction h with
  | tooDeep => exact absurd rfl (hc 256)
  | @refused levels floor cause h =>
    exact ⟨.leaf .placeholder, _, [.placeholder], rfl, rfl, .identifier rfl,
      Nat.succ_le_succ (Nat.zero_le levels), by simp [Phrase.Above, Phrase.operators],
      List.forall_mem_singleton.mpr Token.spelled_placeholder⟩
  | @unary levels floor t f cause ht h ih =>
    obtain ⟨w, e, missing, hw⟩ := ih hc
    exact ⟨.unary t w, _, missing, congrArg (List.cons t) hw.split, ⟨ht, hw.wellFormed, hw.above⟩,
      .unary hw.denotes, Nat.succ_le_succ hw.nesting_le, by simp [Phrase.Above, Phrase.operators],
      hw.spelled⟩
  | @group levels floor o f cause ho h ih =>
    obtain ⟨w, e, missing, hw⟩ := ih hc
    refine ⟨.group o w .closing, e, missing ++ [.closing], ?_, ⟨ho, rfl, hw.wellFormed⟩,
      .group hw.denotes, Nat.succ_le_succ hw.nesting_le, by simp [Phrase.Above, Phrase.operators],
      List.forall_mem_append.mpr ⟨hw.spelled, hspelled⟩⟩
    simp [Phrase.tokens, Fragment.tokens, hw.split]
  | @unclosed levels floor o w e ho hw hd hn hp hk =>
    exact ⟨.group o w .closing, e, [.closing], rfl, ⟨ho, rfl, hw⟩, .group hd, Nat.succ_le_succ hn,
      by simp [Phrase.Above, Phrase.operators], hspelled⟩
  | @binary levels floor l e o f cause hl hd hn ha hfloor hleft h ih =>
    obtain ⟨w, e', missing, hw⟩ := ih hc
    have hlowest := Precedence.lt_of_le_of_lt (Precedence.lowest_le _) hfloor
    refine ⟨.binary l o w, _, missing, by simp [Phrase.tokens, Fragment.tokens, hw.split],
      ⟨hl, hw.wellFormed, hlowest, hleft, hw.above⟩, .binary hd hw.denotes,
      Nat.max_le.mpr ⟨hn, Nat.succ_le_succ hw.nesting_le⟩, ?_, hw.spelled⟩
    refine List.forall_mem_append.mpr ⟨ha, List.forall_mem_cons.mpr ⟨hfloor, ?_⟩⟩
    exact hw.above.mono (Precedence.le_of_lt hfloor)

theorem Fault.exists_completion {passed rest left : List Token} {cause : Cause}
    (h : Fault .standard limit eof passed rest cause left)
    (hc : ∀ n, cause ≠ .nestingTooDeep n) :
    ∃ missing, Clean limit (passed ++ missing) ∧ ∀ t ∈ missing, t.Spelled := by
  have hended : Skipped [] [] := .unclosed (by simp)
  cases h with
  | @unnamed t rest ht hn =>
    refine ⟨[.placeholder, .assigning], ⟨_, .cons (.letBinding ht rfl rfl hended) .nil⟩, ?_⟩
    exact List.forall_mem_cons.mpr ⟨Token.spelled_placeholder,
      List.forall_mem_singleton.mpr Token.spelled_assigning⟩
  | @unassigned t n rest ht hn ha =>
    refine ⟨[.assigning], ⟨_, .cons (.letBinding ht hn rfl hended) .nil⟩, ?_⟩
    exact List.forall_mem_singleton.mpr Token.spelled_assigning
  | @expression f rest t tokens cause htokens ht hf =>
    obtain ⟨w, e, missing, hw⟩ := hf.exists_completed hc
    obtain ⟨u, more, hu⟩ := List.exists_cons_of_ne_nil w.tokens_ne_nil
    have hsegment : Segment .standard limit (w.tokens ++ []) (.expression u e) [] :=
      hw.wellFormed.segment hw.denotes hw.nesting_le hu (by simp) (stops_nil _ _)
    rw [List.append_nil, hw.split] at hsegment
    exact ⟨missing, ⟨_, .cons hsegment .nil⟩, hw.spelled⟩

end ScriptFrontEnd
