import ScriptFrontEnd.Grammar.Layered
import ScriptFrontEnd.Proofs.Grammar.Unambiguous

namespace ScriptFrontEnd

namespace Rules

theorem precedence_standard_le (k : Kind) : standard.precedence k ≤ .multiplicative := by
  cases k <;> decide

theorem precedence_standard_le_lowest_iff (k : Kind) :
    standard.precedence k ≤ .lowest ↔ k ∉ Kind.operators := by
  cases k <;> decide

theorem operand_standard_eq_primary_iff (k : Kind) :
    standard.operand k = some .primary ↔ k ∈ [.identifier, .int, .trueWord, .falseWord] := by
  cases k <;> decide

theorem operand_standard_eq_unary_iff (k : Kind) :
    standard.operand k = some .unary ↔ k ∈ [.not, .dash] := by
  cases k <;> decide

theorem operand_standard_eq_grouping_iff (k : Kind) :
    standard.operand k = some .grouping ↔ k = .openParen := by
  cases k <;> decide

theorem statementRule_standard_eq_letBinding_iff (k : Kind) :
    standard.statementRule k = .letBinding ↔ k = .letWord := by
  cases k <;> decide

theorem statementRule_standard_eq_returning_iff (k : Kind) :
    standard.statementRule k = .returning ↔ k = .returnWord := by
  cases k <;> decide

theorem statementRule_standard_of_operand {k : Kind} (h : standard.operand k ≠ none) :
    standard.statementRule k = .expression := by
  revert h
  cases k <;> decide

theorem ne_semicolon_of_operand {k : Kind} (h : standard.operand k ≠ none) : k ≠ .semicolon := by
  rintro rfl
  exact h rfl

theorem stops_standard_iff {rest : List Token} :
    Stops standard .lowest rest ↔ ∀ u ∈ rest.head?, u.kind ∉ Kind.operators := by
  simp only [Stops, precedence_standard_le_lowest_iff]

end Rules

namespace Phrase

variable {w : Phrase}

theorem WellFormed.statementRule_eq (hw : w.WellFormed .standard) {t : Token} {tokens : List Token}
    (ht : w.tokens = t :: tokens) : Rules.standard.statementRule t.kind = .expression :=
  Rules.statementRule_standard_of_operand (hw.operand_ne_none ht)

theorem WellFormed.head_ne_semicolon (hw : w.WellFormed .standard) (rest : List Token) :
    ∀ t ∈ (w.tokens ++ rest).head?, t.kind ≠ .semicolon := by
  obtain ⟨t, tokens, ht⟩ := List.exists_cons_of_ne_nil w.tokens_ne_nil
  rw [ht]
  rintro u ⟨⟩
  exact Rules.ne_semicolon_of_operand (hw.operand_ne_none ht)

theorem WellFormed.segment (hw : w.WellFormed .standard) {e : Expr} (hd : w.Denotes e)
    {levels : Nat} (hn : w.nesting ≤ levels) {t : Token} {tokens rest : List Token}
    (ht : w.tokens = t :: tokens) (hs : ∀ u ∈ rest.head?, u.kind ≠ .semicolon)
    (hstops : Stops .standard .lowest rest) :
    Segment .standard levels (w.tokens ++ rest) (.expression t e) rest :=
  .unterminated (hw.statementRule_eq ht) ht hw hd hn hs hstops

end Phrase

namespace Layer

def power : Layer → Precedence
  | equality => .equality
  | relational => .relational
  | additive => .additive
  | multiplicative => .multiplicative
  | unary => .unary
  | primary => .call

theorem power_le_power_tighter (layer : Layer) : layer.power ≤ layer.tighter.power := by
  cases layer <;> decide

theorem precedence_of_mem_operators {layer : Layer} {k : Kind} (h : k ∈ layer.operators) :
    Rules.standard.precedence k = layer.power ∧
      layer.tighter.power.level = layer.power.level + 1 := by
  cases layer <;> simp only [operators, List.mem_cons, List.not_mem_nil, or_false] at h
  all_goals rcases h with rfl | rfl <;> decide

theorem exists_mem_operators {k : Kind} (h : .lowest < Rules.standard.precedence k) :
    ∃ layer : Layer, k ∈ layer.operators := by
  have hk : k ∈ Kind.operators := by
    refine Decidable.byContradiction fun hn => ?_
    exact Precedence.not_lt_of_le ((Rules.precedence_standard_le_lowest_iff k).mpr hn) h
  simp only [Kind.operators, List.mem_cons, List.not_mem_nil, or_false] at hk
  rcases hk with rfl | rfl | rfl | rfl | rfl | rfl | rfl | rfl
  · exact ⟨equality, by decide⟩
  · exact ⟨equality, by decide⟩
  · exact ⟨relational, by decide⟩
  · exact ⟨relational, by decide⟩
  · exact ⟨additive, by decide⟩
  · exact ⟨additive, by decide⟩
  · exact ⟨multiplicative, by decide⟩
  · exact ⟨multiplicative, by decide⟩

theorem exists_repeat_tighter (layer layer' : Layer) (h : layer'.power ≤ layer.power) :
    ∃ n < 6, Nat.repeat tighter n layer' = layer := by
  revert h
  cases layer <;> cases layer' <;> decide

theorem Derives.loosen {layer layer' : Layer} {w : Phrase} (h : Derives layer w)
    (hp : layer'.power ≤ layer.power) : Derives layer' w := by
  obtain ⟨n, -, rfl⟩ := exists_repeat_tighter layer layer' hp
  clear hp
  induction n with
  | zero => exact h
  | succ n ih => exact ih (.tighter h)

theorem above_of_power_le {layer : Layer} {floor : Precedence} {w : Phrase}
    (h : ∀ t ∈ w.operators, layer.power ≤ Rules.standard.precedence t.kind)
    (hf : floor < layer.power) : w.Above .standard floor :=
  fun t ht => Precedence.lt_of_lt_of_le hf (h t ht)

theorem Derives.wellFormed {layer : Layer} {w : Phrase} (h : Derives layer w) :
    w.WellFormed .standard ∧
      ∀ t ∈ w.operators, layer.power ≤ Rules.standard.precedence t.kind := by
  induction h with
  | leaf ht => exact ⟨(Rules.operand_standard_eq_primary_iff _).mpr ht, by simp [Phrase.operators]⟩
  | group ho h hc ih =>
    exact ⟨⟨(Rules.operand_standard_eq_grouping_iff _).mpr ho, hc, ih.1⟩,
      by simp [Phrase.operators]⟩
  | @unary t w ht h ih =>
    have habove : w.Above .standard .unary := by
      intro u hu
      have hle := Precedence.le_trans (ih.2 u hu) (Rules.precedence_standard_le u.kind)
      exact absurd hle (by decide)
    exact ⟨⟨(Rules.operand_standard_eq_unary_iff _).mpr ht, ih.1, habove⟩,
      by simp [Phrase.operators]⟩
  | @binary layer l o x hl ho hx ihl ihx =>
    obtain ⟨hpower, hlevel⟩ := precedence_of_mem_operators ho
    have hlt : layer.power < layer.tighter.power := Nat.lt_of_succ_le (Nat.le_of_eq hlevel.symm)
    have hlowest : Precedence.lowest < layer.power := by cases layer <;> decide
    refine ⟨⟨ihl.1, ihx.1, ?_, ?_, ?_⟩, ?_⟩
    · rw [hpower]
      exact hlowest
    · rw [hpower]
      exact ihl.2
    · rw [hpower]
      exact above_of_power_le ihx.2 hlt
    · intro t ht
      simp only [Phrase.operators, List.mem_append, List.mem_cons] at ht
      rcases ht with ht | rfl | ht
      · exact ihl.2 t ht
      · exact Nat.le_of_eq (congrArg Precedence.level hpower.symm)
      · exact Precedence.le_trans (power_le_power_tighter layer) (ihx.2 t ht)
  | tighter h ih =>
    exact ⟨ih.1, fun t ht => Precedence.le_trans (power_le_power_tighter _) (ih.2 t ht)⟩

theorem derives_of_wellFormed {w : Phrase} (hw : w.WellFormed .standard) {layer : Layer}
    (hlayer : layer.power ≤ .unary)
    (h : ∀ t ∈ w.operators, layer.power ≤ Rules.standard.precedence t.kind) :
    Derives layer w := by
  induction w generalizing layer with
  | leaf t =>
    have hleaf : Derives primary (.leaf t) :=
      .leaf ((Rules.operand_standard_eq_primary_iff _).mp hw)
    exact hleaf.loosen (Precedence.le_trans hlayer (by decide))
  | unary t x ih =>
    obtain ⟨ht, hx, ha⟩ := hw
    have hunary : Derives unary (.unary t x) :=
      .unary ((Rules.operand_standard_eq_unary_iff _).mp ht)
        (ih hx (by decide) fun u hu => Precedence.le_of_lt (ha u hu))
    exact hunary.loosen hlayer
  | group o x c ih =>
    obtain ⟨ho, hc, hx⟩ := hw
    have hgroup : Derives primary (.group o x c) :=
      .group ((Rules.operand_standard_eq_grouping_iff _).mp ho)
        (ih hx (by decide) hx.above_lowest) hc
    exact hgroup.loosen (Precedence.le_trans hlayer (by decide))
  | binary l o x ihl ihx =>
    obtain ⟨hl, hx, ho, hleft, hright⟩ := hw
    obtain ⟨own, hown⟩ := exists_mem_operators ho
    obtain ⟨hpower, hlevel⟩ := precedence_of_mem_operators hown
    rw [hpower] at hleft hright
    have hunary : own.power ≤ .unary ∧ own.tighter.power ≤ .unary := by
      cases own <;> first | decide | simp [operators] at hown
    have hxown : ∀ t ∈ x.operators, own.tighter.power ≤ Rules.standard.precedence t.kind :=
      fun t ht => Nat.le_trans (Nat.le_of_eq hlevel) (hright t ht)
    have hbinary : Derives own (.binary l o x) :=
      .binary (ihl hl hunary.1 hleft) hown (ihx hx hunary.2 hxown)
    refine hbinary.loosen ?_
    rw [← hpower]
    exact h o (by simp [Phrase.operators])

theorem derives_iff_wellFormed {w : Phrase} :
    Derives .equality w ↔ w.WellFormed .standard :=
  ⟨fun h => h.wellFormed.1, fun h => derives_of_wellFormed h (by decide) h.above_lowest⟩

end Layer

theorem Skipped.cons {t : Token} {tokens rest : List Token} (h : Skipped tokens rest)
    (ht : t.kind ≠ .semicolon) : Skipped (t :: tokens) rest := by
  cases h with
  | closed hvalue hs => exact .closed (List.forall_mem_cons.mpr ⟨ht, hvalue⟩) hs
  | unclosed hvalue => exact .unclosed (List.forall_mem_cons.mpr ⟨ht, hvalue⟩)

theorem Skipped.of_cons {t : Token} {tokens rest : List Token} (h : Skipped (t :: tokens) rest)
    (ht : t.kind ≠ .semicolon) : Skipped tokens rest := by
  generalize hts : t :: tokens = all at h
  cases h with
  | @closed value s rest hvalue hs =>
    cases value with
    | nil => exact absurd hs ((List.cons.inj hts).1 ▸ ht)
    | cons u value =>
      obtain ⟨rfl, rfl⟩ := List.cons.inj hts
      exact .closed (List.forall_mem_cons.mp hvalue).2 hs
  | unclosed hvalue =>
    subst hts
    exact .unclosed (List.forall_mem_cons.mp hvalue).2

theorem Skipped.exists_value {tokens rest : List Token} (h : Skipped tokens rest) :
    ∃ value ending, tokens = value ++ (ending ++ rest) ∧ (∀ u ∈ value, u.kind ≠ .semicolon) ∧
      ∀ u ∈ ending, u.kind = .semicolon := by
  cases h with
  | @closed value t rest hvalue ht => exact ⟨value, [t], rfl, hvalue, by simpa using ht⟩
  | unclosed hvalue => exact ⟨tokens, [], by simp, hvalue, by simp⟩

theorem Segment.clause {tokens rest : List Token} {s : Statement}
    (h : Segment .standard 256 tokens s rest) : Clause tokens s rest := by
  cases h with
  | letBinding ht hn ha hs =>
    exact .letBinding ((Rules.statementRule_standard_eq_letBinding_iff _).mp ht) hn ha hs
  | returning ht hs =>
    have ht := (Rules.statementRule_standard_eq_returning_iff _).mp ht
    exact .returning ht (hs.of_cons (by simp [ht]))
  | terminated ht hw hwf hd hn hs hstops =>
    exact .terminated hw (Layer.derives_iff_wellFormed.mpr hwf) hd hn hs
  | unterminated ht hw hwf hd hn hs hstops =>
    exact .unterminated hw (Layer.derives_iff_wellFormed.mpr hwf) hd hn
      (Rules.stops_standard_iff.mp hstops)

theorem Clause.segment {tokens rest : List Token} {s : Statement} (h : Clause tokens s rest)
    (hrest : ∀ u ∈ rest.head?, u.kind ≠ .semicolon) : Segment .standard 256 tokens s rest := by
  cases h with
  | letBinding ht hn ha hs =>
    exact .letBinding ((Rules.statementRule_standard_eq_letBinding_iff _).mpr ht) hn ha hs
  | returning ht hs =>
    exact .returning ((Rules.statementRule_standard_eq_returning_iff _).mpr ht)
      (hs.cons (by simp [ht]))
  | terminated hw hderives hd hn hs =>
    have hwf := Layer.derives_iff_wellFormed.mp hderives
    exact .terminated (hwf.statementRule_eq hw) hw hwf hd hn hs
      (Rules.stops_standard_iff.mpr (by simp [hs, Kind.operators]))
  | unterminated hw hderives hd hn hstops =>
    have hwf := Layer.derives_iff_wellFormed.mp hderives
    exact hwf.segment hd hn hw hrest (Rules.stops_standard_iff.mpr hstops)

theorem Clause.head_ne_semicolon {tokens rest : List Token} {s : Statement}
    (h : Clause tokens s rest) : ∀ u ∈ tokens.head?, u.kind ≠ .semicolon := by
  cases h with
  | letBinding ht hn ha hs => simp [ht]
  | returning ht hs => simp [ht]
  | terminated hw hderives hd hn hs =>
    exact (Layer.derives_iff_wellFormed.mp hderives).head_ne_semicolon _
  | unterminated hw hderives hd hn hstops =>
    exact (Layer.derives_iff_wellFormed.mp hderives).head_ne_semicolon _

theorem clauses_iff_segments {tokens : List Token} {ss : List Statement} :
    Clauses tokens ss ↔ Segments .standard 256 tokens ss := by
  constructor
  · intro h
    induction h with
    | nil => exact .nil
    | cons hs hss ih =>
      refine .cons (hs.segment ?_) ih
      cases hss with
      | nil => simp
      | cons hs hss => exact hs.head_ne_semicolon
  · intro h
    induction h with
    | nil => exact .nil
    | cons hs hss ih => exact .cons hs.clause ih

end ScriptFrontEnd
