import Mathlib.Data.List.Basic
import ScriptFrontEnd.Grammar.Fault
import ScriptFrontEnd.Proofs.Grammar.Layered

namespace ScriptFrontEnd

namespace Rules

def Uses (rules : Rules) (k : Kind) : Prop :=
  rules.operand k ≠ none ∨ .lowest < rules.precedence k ∨ k = .closeParen

instance (rules : Rules) (k : Kind) : Decidable (rules.Uses k) :=
  inferInstanceAs (Decidable (_ ∨ _ ∨ _))

theorem Uses.of_operand {rules : Rules} {k : Kind} {rule : OperandRule}
    (h : rules.operand k = some rule) : rules.Uses k :=
  .inl (by simp [h])

end Rules

namespace Kind

def meaningless : List Kind :=
  [illegal, comma, openCurly, closeCurly, fnWord, ifWord, elseWord]

end Kind

theorem Rules.not_uses_standard {k : Kind} (h : k ∈ .semicolon :: Kind.meaningless) :
    ¬ standard.Uses k := by
  revert k
  decide

variable {rules : Rules} {limit : Nat} {eof : Token}

theorem Phrase.WellFormed.uses {w : Phrase} (h : w.WellFormed rules) :
    ∀ t ∈ w.tokens, rules.Uses t.kind := by
  induction w with
  | leaf t =>
    have ht : rules.operand t.kind = some .primary := h
    simpa [tokens] using Rules.Uses.of_operand ht
  | unary t x ih => exact List.forall_mem_cons.mpr ⟨.of_operand h.1, ih h.2.1⟩
  | binary l o x ihl ihx =>
    obtain ⟨hl, hx, ho, -⟩ := h
    exact List.forall_mem_append.mpr ⟨ihl hl, List.forall_mem_cons.mpr ⟨.inr (.inl ho), ihx hx⟩⟩
  | group o x c ih =>
    obtain ⟨ho, hc, hx⟩ := h
    have hclosing : ∀ t ∈ [c], rules.Uses t.kind := by simpa using .inr (.inr hc)
    exact List.forall_mem_cons.mpr
      ⟨.of_operand ho, List.forall_mem_append.mpr ⟨ih hx, hclosing⟩⟩

theorem Breaks.uses {next : Token} {levels : Nat} {floor : Precedence} {f : Fragment}
    {cause : Cause} (h : Breaks rules next levels floor f cause) :
    ∀ t ∈ f.tokens, rules.Uses t.kind := by
  induction h with
  | tooDeep => simp [Fragment.tokens]
  | refused h => simp [Fragment.tokens]
  | unary ht h ih => exact List.forall_mem_cons.mpr ⟨.of_operand ht, ih⟩
  | group ho h ih => exact List.forall_mem_cons.mpr ⟨.of_operand ho, ih⟩
  | unclosed ho hw => exact List.forall_mem_cons.mpr ⟨.of_operand ho, hw.uses⟩
  | binary hl hd hn ha hfloor hleft h ih =>
    have ho := Precedence.lt_of_le_of_lt (Precedence.lowest_le _) hfloor
    exact List.forall_mem_append.mpr ⟨hl.uses, List.forall_mem_cons.mpr ⟨.inr (.inl ho), ih⟩⟩

theorem Fragment.tail_held_append (f : Fragment) (rest : List Token) :
    (f.held ++ rest).tail = rest ∨ (f.held ++ rest).tail = rest.tail := by
  induction f with
  | operand => exact .inr rfl
  | unary t x ih => exact ih
  | binary l o x ih => exact ih
  | group o x ih => exact ih
  | unclosed o w => exact .inl rfl

theorem exists_append_dropSemicolon (tokens : List Token) :
    ∃ gone, tokens = gone ++ dropSemicolon tokens ∧ ∀ u ∈ gone, u.kind = .semicolon := by
  cases tokens with
  | nil => exact ⟨[], rfl, by simp⟩
  | cons t rest =>
    by_cases ht : t.kind = .semicolon
    · exact ⟨[t], by simp [dropSemicolon, ht], by simpa using ht⟩
    · exact ⟨[], by simp [dropSemicolon, ht], by simp⟩

theorem dropSemicolon_eq_self {tokens : List Token}
    (h : ∀ t ∈ tokens.head?, t.kind ≠ .semicolon) : dropSemicolon tokens = tokens := by
  cases tokens with
  | nil => rfl
  | cons t tokens => exact if_neg (h t rfl)

theorem dropSemicolon_append {tokens more : List Token}
    (h : tokens = [] → ∀ t ∈ more.head?, t.kind ≠ .semicolon) :
    dropSemicolon (tokens ++ more) = dropSemicolon tokens ++ more := by
  cases tokens with
  | nil =>
    cases more with
    | nil => rfl
    | cons t more => simpa [dropSemicolon] using h rfl
  | cons t tokens =>
    rw [List.cons_append, dropSemicolon, dropSemicolon]
    split <;> rfl

namespace Fault

variable {passed rest left : List Token} {cause : Cause}

theorem kind_passed (h : Fault .standard limit eof passed rest cause left) :
    ∀ t ∈ passed, t.kind ∉ .semicolon :: Kind.meaningless := by
  have hlet {k : Kind} (hk : Rules.standard.statementRule k = .letBinding) :
      k ∉ .semicolon :: Kind.meaningless := by
    rw [(Rules.statementRule_standard_eq_letBinding_iff k).mp hk]
    decide
  have hname {k : Kind} (hk : k = .identifier) : k ∉ .semicolon :: Kind.meaningless := by
    rw [hk]
    decide
  cases h with
  | unnamed ht hn => exact List.forall_mem_singleton.mpr (hlet ht)
  | unassigned ht hn ha =>
    exact List.forall_mem_cons.mpr ⟨hlet ht, List.forall_mem_singleton.mpr (hname hn)⟩
  | expression htokens ht hf => exact fun t ht hk => Rules.not_uses_standard hk (hf.uses t ht)

theorem exists_gone (h : Fault rules limit eof passed rest cause left) :
    ∃ gone, rest = gone ++ left ∧ ∀ u ∈ gone, u ∈ rest.head? ∨ u.kind = .semicolon := by
  cases h with
  | unnamed ht hn => exact ⟨[], rfl, by simp⟩
  | unassigned ht hn ha => exact ⟨[], rfl, by simp⟩
  | @expression f rest t tokens cause htokens ht hf =>
    obtain ⟨gone, hgone, hsemicolon⟩ := exists_append_dropSemicolon (f.held ++ rest).tail
    have hlater : ∀ u ∈ gone, u ∈ rest.head? ∨ u.kind = .semicolon :=
      fun u hu => .inr (hsemicolon u hu)
    rcases f.tail_held_append rest with htail | htail
    · exact ⟨gone, htail.symm.trans hgone, hlater⟩
    · have hrest := htail.symm.trans hgone
      cases rest with
      | nil => exact ⟨gone, hrest, hlater⟩
      | cons v rest =>
        exact ⟨v :: gone, congrArg (List.cons v) hrest, List.forall_mem_cons.mpr ⟨.inl rfl, hlater⟩⟩

end Fault

def Ended (tokens : List Token) : Prop :=
  ∀ t ∈ tokens.getLast?, t.kind = .semicolon

theorem Ended.right {front rest : List Token} (h : Ended (front ++ rest)) : Ended rest :=
  fun t ht => h t (List.mem_getLast?_append_of_mem_getLast? ht)

theorem not_ended {tokens : List Token} (hne : tokens ≠ [])
    (h : ∀ t ∈ tokens, t.kind ≠ .semicolon) : ¬ Ended tokens :=
  fun hended => h _ (List.getLast_mem hne) (hended _ (List.getLast?_eq_some_getLast hne))

theorem ended_concat {tokens : List Token} {t : Token} (ht : t.kind = .semicolon) :
    Ended (tokens ++ [t]) := by
  intro u hu
  rw [List.getLast?_concat] at hu
  exact Option.some.inj hu ▸ ht

theorem Segment.exists_front {tokens rest : List Token} {s : Statement}
    (h : Segment .standard limit tokens s rest) :
    ∃ front, tokens = front ++ rest ∧
      (Ended front ∧ (∀ rest', Segment .standard limit (front ++ rest') s rest') ∨
        ¬ Ended front ∧ (rest = [] ∨ ∀ t ∈ front, Rules.standard.Uses t.kind) ∧
          ∀ rest', rest' = [] ∨ rest'.head? = rest.head? →
            Segment .standard limit (front ++ rest') s rest') := by
  cases h with
  | @letBinding t n a tokens rest ht hn ha hs =>
    have hlet : t.kind ≠ .semicolon := by
      simp [(Rules.statementRule_standard_eq_letBinding_iff _).mp ht]
    cases hs with
    | @closed value u rest hvalue hu =>
      refine ⟨(t :: n :: a :: value) ++ [u], by simp, .inl ⟨ended_concat hu, fun rest' => ?_⟩⟩
      rw [List.append_assoc]
      exact .letBinding ht hn ha (.closed hvalue hu)
    | unclosed hvalue =>
      refine ⟨t :: n :: a :: tokens, by simp, .inr ⟨not_ended (by simp) ?_, .inl rfl, ?_⟩⟩
      · simpa [hlet, hn, ha] using hvalue
      · intro rest' hrest
        obtain rfl : rest' = [] := by simpa using hrest
        exact (List.append_nil _).symm ▸ .letBinding ht hn ha (.unclosed hvalue)
  | @returning t tokens rest ht hs =>
    have hreturn : t.kind ≠ .semicolon := by
      simp [(Rules.statementRule_standard_eq_returning_iff _).mp ht]
    cases hs.of_cons hreturn with
    | @closed value u rest hvalue hu =>
      refine ⟨(t :: value) ++ [u], by simp, .inl ⟨ended_concat hu, fun rest' => ?_⟩⟩
      have hskipped : Skipped (value ++ u :: rest') rest' := .closed hvalue hu
      rw [List.append_assoc]
      exact .returning ht (hskipped.cons hreturn)
    | unclosed hvalue =>
      refine ⟨t :: tokens, by simp, .inr ⟨not_ended (by simp) ?_, .inl rfl, ?_⟩⟩
      · exact List.forall_mem_cons.mpr ⟨hreturn, hvalue⟩
      · intro rest' hrest
        obtain rfl : rest' = [] := by simpa using hrest
        exact (List.append_nil _).symm ▸ .returning ht hs
  | @terminated w e t s tokens rest ht hw hwf hd hn hs hstops =>
    refine ⟨w.tokens ++ [s], by simp, .inl ⟨ended_concat hs, fun rest' => ?_⟩⟩
    rw [List.append_assoc]
    exact .terminated ht hw hwf hd hn hs (stops_cons.mpr (stops_cons.mp hstops))
  | @unterminated w e t tokens rest ht hw hwf hd hn hrest hstops =>
    refine ⟨w.tokens, rfl, .inr ⟨not_ended w.tokens_ne_nil ?_, .inr hwf.uses, ?_⟩⟩
    · exact fun t ht hk => Rules.not_uses_standard (hk ▸ List.mem_cons_self ..) (hwf.uses t ht)
    · rintro rest' (rfl | hsame)
      · exact .unterminated ht hw hwf hd hn (by simp) (stops_nil _ _)
      · exact .unterminated ht hw hwf hd hn (hsame ▸ hrest) fun u hu => hstops u (hsame ▸ hu)

end ScriptFrontEnd
