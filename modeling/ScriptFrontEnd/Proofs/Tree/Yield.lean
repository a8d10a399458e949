import ScriptFrontEnd.Tree.Tokens
import ScriptFrontEnd.Proofs.Grammar.Uses
import ScriptFrontEnd.Proofs.Parser.Fault
import ScriptFrontEnd.Proofs.Parser.Program
import ScriptFrontEnd.Proofs.Token.Places

namespace ScriptFrontEnd

theorem withoutParens_append (a b : List Token) :
    withoutParens (a ++ b) = withoutParens a ++ withoutParens b :=
  List.filter_append ..

theorem withoutParens_cons_of_paren {t : Token} (h : t.IsParen) (rest : List Token) :
    withoutParens (t :: rest) = withoutParens rest :=
  List.filter_cons_of_neg (by simpa using h)

theorem withoutParens_cons_of_not_paren {t : Token} (h : ¬ t.IsParen) (rest : List Token) :
    withoutParens (t :: rest) = t :: withoutParens rest :=
  List.filter_cons_of_pos (by simpa using h)

theorem not_isParen_of_rule {t : Token}
    (h : Rules.standard.operand t.kind ∈ [some .primary, some .unary] ∨
      .lowest < Rules.standard.precedence t.kind) : ¬ t.IsParen := by
  rintro (hk | hk)
  all_goals
    rw [hk] at h
    exact absurd h (by decide)

namespace Phrase

variable {w : Phrase}

theorem WellFormed.balanced (h : w.WellFormed .standard) : Balanced w.tokens := by
  induction w with
  | leaf t =>
    have ht : Rules.standard.operand t.kind = some .primary := h
    exact .single (not_isParen_of_rule (.inl (by simp [ht])))
  | unary t x ih =>
    obtain ⟨ht, hx, -⟩ := h
    have hsign : Balanced [t] := .single (not_isParen_of_rule (.inl (by simp [ht])))
    exact hsign.append (ih hx)
  | binary l o x ihl ihx =>
    obtain ⟨hl, hx, ho, -⟩ := h
    have hsign : Balanced [o] := .single (not_isParen_of_rule (.inr ho))
    exact (ihl hl).append (hsign.append (ihx hx))
  | group o x c ih =>
    obtain ⟨ho, hc, hx⟩ := h
    exact .enclosed ((Rules.operand_standard_eq_grouping_iff _).mp ho) (ih hx) hc

theorem Denotes.withoutParens_tokens {e : Expr} (h : w.Denotes e) (hw : w.WellFormed .standard) :
    withoutParens w.tokens = e.tokens := by
  have hleaf {t : Token} (hw : (leaf t).WellFormed .standard) : withoutParens [t] = [t] := by
    have ht : Rules.standard.operand t.kind = some .primary := hw
    exact withoutParens_cons_of_not_paren (not_isParen_of_rule (.inl (by simp [ht]))) []
  induction h with
  | identifier hk => exact hleaf hw
  | integer hk hv => exact hleaf hw
  | isTrue hk => exact hleaf hw
  | isFalse hk => exact hleaf hw
  | @unary t x e hd ih =>
    obtain ⟨ht, hx, -⟩ := hw
    have hsign : ¬ t.IsParen := not_isParen_of_rule (.inl (by simp [ht]))
    rw [tokens, withoutParens_cons_of_not_paren hsign, ih hx, Expr.tokens]
  | @binary o l x e f hl hx ihl ihx =>
    obtain ⟨hwl, hwx, ho, -⟩ := hw
    have hsign : ¬ o.IsParen := not_isParen_of_rule (.inr ho)
    rw [tokens, withoutParens_append, withoutParens_cons_of_not_paren hsign, ihl hwl, ihx hwx,
      Expr.tokens]
  | @group o c x e hd ih =>
    obtain ⟨ho, hc, hx⟩ := hw
    have ho : o.IsParen := .inl ((Rules.operand_standard_eq_grouping_iff _).mp ho)
    have hclosing : withoutParens [c] = [] := withoutParens_cons_of_paren (.inr hc) []
    rw [tokens, withoutParens_cons_of_paren ho, withoutParens_append, ih hx, hclosing,
      List.append_nil]

end Phrase

theorem Segment.exists_slice {limit : Nat} {tokens rest : List Token} {s : Statement}
    (h : Segment .standard limit tokens s rest) :
    ∃ slice skipped, tokens = slice ++ (skipped ++ rest) ∧ s.MadeOf slice := by
  have hphrase {w : Phrase} {e : Expr} {t : Token} {more : List Token} (hw : w.tokens = t :: more)
      (hwf : w.WellFormed .standard) (hd : w.Denotes e) :
      (Statement.expression t e).MadeOf w.tokens := by
    have hbalanced := hwf.balanced
    have htokens := hd.withoutParens_tokens hwf
    rw [hw] at hbalanced htokens ⊢
    exact .expression hbalanced htokens
  cases h with
  | @letBinding t n a tokens rest ht hn ha hs =>
    obtain ⟨value, ending, rfl, -⟩ := hs.exists_value
    have ht := (Rules.statementRule_standard_eq_letBinding_iff _).mp ht
    exact ⟨[t, n, a], value ++ ending, by simp, .letBinding ht hn ha⟩
  | @returning t tokens rest ht hs =>
    have ht := (Rules.statementRule_standard_eq_returning_iff _).mp ht
    obtain ⟨value, ending, rfl, -⟩ := (hs.of_cons (by simp [ht])).exists_value
    exact ⟨[t], value ++ ending, by simp, .returning ht⟩
  | terminated ht hw hwf hd hn hs =>
    exact ⟨_, [_], rfl, hphrase hw hwf hd⟩
  | unterminated ht hw hwf hd hn hs =>
    exact ⟨_, [], rfl, hphrase hw hwf hd⟩

namespace Yields

variable {tokens : List Token} {ss : List Statement}

theorem prepend (h : Yields tokens ss) (front : List Token) : Yields (front ++ tokens) ss := by
  cases h with
  | nil => exact .nil
  | cons hs hss =>
    rw [← List.append_assoc]
    exact .cons hs hss

theorem append (h : Yields tokens ss) (more : List Token) : Yields (tokens ++ more) ss := by
  induction h with
  | nil => exact .nil
  | cons hs hss ih =>
    rw [List.append_assoc, List.append_assoc]
    exact .cons hs ih

end Yields

theorem Transcript.yields {limit : Nat} {eof : Token} {tokens : List Token}
    {outcomes : List (Except Diagnostic Statement)}
    (h : Transcript .standard limit eof tokens outcomes) :
    Yields tokens (succeeded outcomes) := by
  induction h with
  | nil => exact .nil
  | read hs h ih =>
    obtain ⟨slice, skipped, rfl, hslice⟩ := hs.exists_slice
    rw [← List.nil_append (slice ++ _)]
    exact .cons hslice (ih.prepend skipped)
  | @dropped passed rest cause left outcomes hf h ih =>
    obtain ⟨gone, rfl, -⟩ := hf.exists_gone
    exact (ih.prepend gone).prepend passed

namespace Statement

theorem MadeOf.sublist {s : Statement} {slice : List Token} (h : s.MadeOf slice) :
    s.tokens.Sublist slice := by
  cases h with
  | letBinding ht hn ha => exact List.sublist_append_left [_, _] [_]
  | returning ht => exact .refl _
  | expression hbalanced htokens =>
    rw [tokens, ← htokens]
    exact List.filter_sublist

theorem MadeOf.token_mem {s : Statement} {slice : List Token} (h : s.MadeOf slice) :
    s.token ∈ slice := by
  cases h <;> exact List.mem_cons_self ..

end Statement

theorem Yields.sublist {tokens : List Token} {ss : List Statement} (h : Yields tokens ss) :
    (ss.flatMap Statement.tokens).Sublist tokens := by
  induction h with
  | nil => exact List.nil_sublist _
  | @cons gap slice rest s ss hs hss ih =>
    rw [List.flatMap_cons]
    exact (hs.sublist.append ih).trans (List.sublist_append_right _ _)

theorem Yields.mem {tokens : List Token} {ss : List Statement} (h : Yields tokens ss) :
    ∀ s ∈ ss, ∀ t ∈ s.token :: s.tokens, t ∈ tokens := by
  induction h with
  | nil => simp
  | @cons gap slice rest s ss hs hss ih =>
    have hslice : ∀ t ∈ s.token :: s.tokens, t ∈ slice :=
      List.forall_mem_cons.mpr ⟨hs.token_mem, fun t ht => hs.sublist.subset ht⟩
    refine List.forall_mem_cons.mpr ⟨fun t ht => ?_, fun s' hs' t ht => ?_⟩
    · simp [hslice t ht]
    · simp [ih s' hs' t ht]

theorem parse_yields (source : String) (file : Option String) :
    Yields (tokenize source file) (parse source file).1.statements ∧
      ((parse source file).1.statements.flatMap Statement.tokens).Sublist (tokenize source file) ∧
      ∀ s ∈ (parse source file).1.statements, ∀ t ∈ s.token :: s.tokens,
        t ∈ tokenize source file ∧ t.span.start.file = file.getD "shell" ∧
          t.span.stop.file = file.getD "shell" := by
  have hrun := transcript_attempts Rules.regular_standard nestingLimit (.ofSource source file) rfl
  have hyields : Yields (tokenize source file) (parse source file).1.statements :=
    hrun.yields.append _
  refine ⟨hyields, hyields.sublist, fun s hs t ht => ?_⟩
  have hmem := hyields.mem s hs t ht
  exact ⟨hmem, files_of_mem_tokenize hmem⟩

theorem parse_yields_between_faults :
    let o : Token := ⟨.openParen, "(", Span.ofOffsets 2 3 "shell"⟩
    let x : Token := ⟨.identifier, "x", Span.ofOffsets 3 4 "shell"⟩
    (parse ") (x) )" none).1.statements = [.expression o (.identifier ⟨x, "x"⟩)] ∧
      (o ∈ tokenize ") (x) )" none ∧ o.span.start.file = "shell" ∧ o.span.stop.file = "shell") ∧
      x ∈ tokenize ") (x) )" none ∧ x.span.start.file = "shell" ∧ x.span.stop.file = "shell" := by
  intro o x
  have hparse : (parse ") (x) )" none).1.statements = [.expression o (.identifier ⟨x, "x"⟩)] := by
    decide +kernel
  obtain ⟨-, -, hmem⟩ := parse_yields ") (x) )" none
  have hmem := hmem (.expression o (.identifier ⟨x, "x"⟩)) (by rw [hparse]; exact .head _)
  exact ⟨hparse, hmem o (.head _), hmem x (.tail _ (.head _))⟩

end ScriptFrontEnd
