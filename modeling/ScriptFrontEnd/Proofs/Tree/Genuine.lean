import ScriptFrontEnd.Proofs.Parser.Program
import ScriptFrontEnd.Proofs.Token.Spelling
import ScriptFrontEnd.Tree.Node

namespace ScriptFrontEnd

variable {rules : Rules} {levels : Nat}

theorem exists_segment_of_mem_succeeded (hr : rules.Regular) {c : Cursor}
    (he : c.eof.kind = .eof) {s : Statement} (h : s ∈ succeeded (attempts rules levels c).1) :
    ∃ later rest, later <:+ c.ahead ∧ Segment rules levels later s rest := by
  obtain ⟨d, hd, hout⟩ := mem_attempts_iff.mp (mem_succeeded_iff.mp h)
  obtain ⟨rest, hseg, -⟩ := hd.exists_segment hr he hout
  exact ⟨d.ahead, rest, hd.reaches.1, hseg⟩

namespace Expr

inductive Genuine : Expr → Prop
  | identifier {t} : t.kind = .identifier → t.Spelled → Genuine (.identifier ⟨t, t.text⟩)
  | integer {t v} : t.kind = .int → t.Spelled → Numeral.value? t.text = some v →
      Genuine (.integer t v)
  | isTrue {t} : t.kind = .trueWord → t.Spelled → Genuine (.boolean t true)
  | isFalse {t} : t.kind = .falseWord → t.Spelled → Genuine (.boolean t false)
  | unary {t e} : t.kind ∈ [.not, .dash] → t.Spelled → Genuine e → Genuine (.unary t t.text e)
  | binary {t l r} : t.kind ∈ Kind.operators → t.Spelled → Genuine l → Genuine r →
      Genuine (.binary t l t.text r)

end Expr

namespace Statement

inductive Genuine : Statement → Prop
  | letBinding {t n} : t.kind = .letWord → t.Spelled → n.kind = .identifier → n.Spelled →
      Genuine (.letBinding t ⟨n, n.text⟩ none)
  | returning {t} : t.kind = .returnWord → t.Spelled → Genuine (.returning t none)
  | expression {t e} : e.Genuine → Genuine (.expression t e)

end Statement

theorem Phrase.Denotes.genuine {w : Phrase} {e : Expr} (hd : w.Denotes e)
    (hw : w.WellFormed .standard) (hs : ∀ t ∈ w.tokens, t.kind ≠ .illegal → t.Spelled) :
    e.Genuine := by
  induction hd with
  | @identifier t hk => exact .identifier hk (hs t (by simp [tokens]) (by simp [hk]))
  | @integer t v hk hv => exact .integer hk (hs t (by simp [tokens]) (by simp [hk])) hv
  | @isTrue t hk => exact .isTrue hk (hs t (by simp [tokens]) (by simp [hk]))
  | @isFalse t hk => exact .isFalse hk (hs t (by simp [tokens]) (by simp [hk]))
  | @unary t w e hd ih =>
    have hk := (Rules.operand_standard_eq_unary_iff _).mp hw.1
    refine .unary hk (hs t (by simp [tokens]) ?_)
      (ih hw.2.1 fun u hu => hs u (by simp [tokens, hu]))
    rintro hi
    simp [hi] at hk
  | @binary t w x e f hd hd' ihl ihr =>
    have hk : t.kind ∈ Kind.operators := by
      refine Decidable.byContradiction fun hn => ?_
      exact Precedence.not_lt_of_le ((Rules.precedence_standard_le_lowest_iff _).mpr hn) hw.2.2.1
    refine .binary hk (hs t (by simp [tokens]) ?_)
      (ihl hw.1 fun u hu => hs u (by simp [tokens, hu]))
      (ihr hw.2.1 fun u hu => hs u (by simp [tokens, hu]))
    rintro hi
    simp [hi, Kind.operators] at hk
  | @group o c w e hd ih => exact ih hw.2.2 fun u hu => hs u (by simp [tokens, hu])

theorem Segment.genuine {limit : Nat} {tokens rest : List Token} {s : Statement}
    (h : Segment .standard limit tokens s rest)
    (hs : ∀ t ∈ tokens, t.kind ≠ .illegal → t.Spelled) : s.Genuine := by
  cases h with
  | @letBinding t n a tokens rest ht hn ha =>
    have ht := (Rules.statementRule_standard_eq_letBinding_iff _).mp ht
    exact .letBinding ht (hs t (by simp) (by simp [ht])) hn (hs n (by simp) (by simp [hn]))
  | @returning t tokens rest ht =>
    have ht := (Rules.statementRule_standard_eq_returning_iff _).mp ht
    exact .returning ht (hs t (by simp) (by simp [ht]))
  | terminated ht hw hwf hd =>
    exact .expression (hd.genuine hwf fun t ht => hs t (List.mem_append_left _ ht))
  | unterminated ht hw hwf hd =>
    exact .expression (hd.genuine hwf fun t ht => hs t (List.mem_append_left _ ht))

theorem genuine_of_mem_parse {source : String} {file : Option String} {s : Statement}
    (h : s ∈ (parse source file).1.statements) : s.Genuine := by
  rw [parse_eq] at h
  obtain ⟨later, rest, hl, hseg⟩ := exists_segment_of_mem_succeeded Rules.regular_standard rfl h
  refine hseg.genuine fun t ht hk => ?_
  have hmem : t ∈ (tokenize source file).dropLast := by
    rw [tokenize, List.dropLast_concat]
    exact hl.subset ht
  exact Token.spelled_of_mem_tokenize hmem hk

namespace Node

def Genuine : Node → Prop
  | program p => ∀ s ∈ p.statements, s.Genuine
  | statement s => s.Genuine
  | name n => n.token.kind = .identifier ∧ n.token.Spelled ∧ n.value = n.token.text
  | expression e => e.Genuine

end Node

theorem Expr.Genuine.of_mem_nodes {e : Expr} (h : e.Genuine) : ∀ n ∈ e.nodes, n.Genuine := by
  induction h with
  | identifier hk hs => exact List.forall_mem_singleton.mpr (.identifier hk hs)
  | integer hk hs hv => exact List.forall_mem_singleton.mpr (.integer hk hs hv)
  | isTrue hk hs => exact List.forall_mem_singleton.mpr (.isTrue hk hs)
  | isFalse hk hs => exact List.forall_mem_singleton.mpr (.isFalse hk hs)
  | unary hk hs h ih => exact List.forall_mem_cons.mpr ⟨.unary hk hs h, ih⟩
  | binary hk hs hl hr ihl ihr =>
    exact List.forall_mem_cons.mpr ⟨.binary hk hs hl hr, List.forall_mem_append.mpr ⟨ihl, ihr⟩⟩

theorem Statement.Genuine.of_mem_nodes {s : Statement} (h : s.Genuine) :
    ∀ n ∈ s.nodes, n.Genuine := by
  cases h with
  | letBinding ht hts hn hns =>
    exact List.forall_mem_cons.mpr
      ⟨.letBinding ht hts hn hns, List.forall_mem_singleton.mpr ⟨hn, hns, rfl⟩⟩
  | returning ht hts => exact List.forall_mem_singleton.mpr (.returning ht hts)
  | expression he => exact List.forall_mem_cons.mpr ⟨.expression he, he.of_mem_nodes⟩

theorem genuine_of_mem_nodes {source : String} {file : Option String} {n : Node}
    (h : n ∈ (parse source file).1.nodes) : n.Genuine := by
  have hall : ∀ s ∈ (parse source file).1.statements, s.Genuine :=
    fun s hs => genuine_of_mem_parse hs
  rcases List.mem_cons.mp h with rfl | h
  · exact hall
  · obtain ⟨s, hs, hn⟩ := List.mem_flatMap.mp h
    exact (hall s hs).of_mem_nodes n hn

end ScriptFrontEnd
