import ScriptFrontEnd.Grammar.Phrase

namespace ScriptFrontEnd

structure Rules.Regular (rules : Rules) : Prop where
  operand_eof : rules.operand .eof = none
  precedence_eof : rules.precedence .eof = .lowest
  precedence_closeParen : rules.precedence .closeParen = .lowest
  precedence_le (k : Kind) : rules.precedence k ≤ .unary

theorem Rules.regular_standard : standard.Regular where
  operand_eof := rfl
  precedence_eof := rfl
  precedence_closeParen := rfl
  precedence_le k := by cases k <;> decide

namespace Precedence

theorem lowest_le (p : Precedence) : lowest ≤ p := Nat.zero_le _

theorem le_trans {p q r : Precedence} (h : p ≤ q) (h' : q ≤ r) : p ≤ r := Nat.le_trans h h'

theorem lt_of_le_of_lt {p q r : Precedence} (h : p ≤ q) (h' : q < r) : p < r :=
  Nat.lt_of_le_of_lt h h'

theorem lt_of_lt_of_le {p q r : Precedence} (h : p < q) (h' : q ≤ r) : p < r :=
  Nat.lt_of_lt_of_le h h'

theorem le_of_lt {p q : Precedence} (h : p < q) : p ≤ q := Nat.le_of_lt h

theorem not_lt_of_le {p q : Precedence} (h : p ≤ q) : ¬ q < p := not_lt.mpr h

end Precedence

theorem stops_cons {rules : Rules} {floor : Precedence} {t : Token} {rest : List Token} :
    Stops rules floor (t :: rest) ↔ rules.precedence t.kind ≤ floor := by
  simp [Stops]

theorem stops_nil (rules : Rules) (floor : Precedence) : Stops rules floor [] := by
  simp [Stops]

theorem Rules.Regular.stops_closeParen {rules : Rules} (hr : rules.Regular) {c : Token}
    (hc : c.kind = .closeParen) (rest : List Token) : Stops rules .lowest (c :: rest) := by
  rw [stops_cons, hc, hr.precedence_closeParen]
  exact Precedence.lowest_le _

theorem Rules.Regular.stops_unary {rules : Rules} (hr : rules.Regular) (rest : List Token) :
    Stops rules .unary rest :=
  fun t _ => hr.precedence_le t.kind

theorem Stops.mono {rules : Rules} {floor floor' : Precedence} {rest : List Token}
    (h : Stops rules floor rest) (hf : floor ≤ floor') : Stops rules floor' rest :=
  fun t ht => Precedence.le_trans (h t ht) hf

namespace Phrase

variable {rules : Rules}

def Tight (rules : Rules) (w : Phrase) (rest : List Token) : Prop :=
  ∀ o ∈ w.operators, Stops rules (rules.precedence o.kind) rest

theorem Above.mono {floor floor' : Precedence} {w : Phrase} (h : w.Above rules floor')
    (hf : floor ≤ floor') : w.Above rules floor :=
  fun t ht => Precedence.lt_of_le_of_lt hf (h t ht)

theorem Above.tight {floor : Precedence} {w : Phrase} {rest : List Token}
    (h : w.Above rules floor) (hs : Stops rules floor rest) : w.Tight rules rest :=
  fun o ho => hs.mono (Precedence.le_of_lt (h o ho))

theorem Above.of_binary {floor : Precedence} {l x : Phrase} {o : Token}
    (h : (binary l o x).Above rules floor) :
    l.Above rules floor ∧ floor < rules.precedence o.kind :=
  ⟨fun t ht => h t (by simp [operators, ht]), h o (by simp [operators])⟩

theorem Tight.of_binary {l x : Phrase} {o : Token} {rest : List Token}
    (h : (binary l o x).Tight rules rest) : Stops rules (rules.precedence o.kind) rest :=
  h o (by simp [operators])

theorem WellFormed.tight_left {l x : Phrase} {o : Token} (h : (binary l o x).WellFormed rules)
    (rest : List Token) : l.Tight rules (o :: rest) :=
  fun t ht => stops_cons.mpr (h.2.2.2.1 t ht)

theorem WellFormed.above_lowest {w : Phrase} (h : w.WellFormed rules) :
    w.Above rules .lowest := by
  induction w with
  | leaf t => simp [Above, operators]
  | unary t x ih => simp [Above, operators]
  | group o x c ih => simp [Above, operators]
  | binary l o x ihl ihx =>
    obtain ⟨hl, hx, ho, _, _⟩ := h
    intro t ht
    simp only [operators, List.mem_append, List.mem_cons] at ht
    rcases ht with ht | rfl | ht
    · exact ihl hl t ht
    · exact ho
    · exact ihx hx t ht

theorem WellFormed.operand_ne_none {w : Phrase} (h : w.WellFormed rules) {t : Token}
    {rest : List Token} (ht : w.tokens = t :: rest) : rules.operand t.kind ≠ none := by
  induction w generalizing rest with
  | leaf u =>
    obtain ⟨rfl, -⟩ := List.cons.inj ht
    simp [show rules.operand u.kind = some .primary from h]
  | unary u x ih =>
    obtain ⟨rfl, -⟩ := List.cons.inj ht
    simp [h.1]
  | group u x c ih =>
    obtain ⟨rfl, -⟩ := List.cons.inj ht
    simp [h.1]
  | binary l o x ihl ihx =>
    obtain ⟨u, more, hl⟩ := List.exists_cons_of_ne_nil l.tokens_ne_nil
    simp only [tokens, hl, List.cons_append, List.cons.injEq] at ht
    exact ihl h.1 (ht.1 ▸ hl)

theorem operators_eq_nil_of_above (hr : rules.Regular) {w : Phrase} (h : w.Above rules .unary) :
    w.operators = [] := by
  refine List.eq_nil_iff_forall_not_mem.mpr fun t ht => ?_
  exact Precedence.not_lt_of_le (hr.precedence_le t.kind) (h t ht)

inductive LeftOf (v : Phrase) : Phrase → Prop
  | refl : LeftOf v v
  | step {w o x} : LeftOf v w → LeftOf v (binary w o x)

theorem LeftOf.eq_or_operator {v w : Phrase} (h : LeftOf v w) :
    v = w ∨ ∃ o ∈ w.operators, ∃ later, w.tokens = v.tokens ++ o :: later := by
  induction h with
  | refl => exact .inl rfl
  | @step w o x h ih =>
    right
    rcases ih with rfl | ⟨p, hp, later, htokens⟩
    · exact ⟨o, by simp [operators], x.tokens, rfl⟩
    · exact ⟨p, by simp [operators, hp], later ++ o :: x.tokens, by simp [tokens, htokens]⟩

theorem LeftOf.eq_of_stops {v w : Phrase} {floor : Precedence} {rest more : List Token}
    (h : LeftOf v w) (ha : w.Above rules floor) (hs : Stops rules floor rest)
    (he : v.tokens ++ rest = w.tokens ++ more) : v = w := by
  rcases h.eq_or_operator with rfl | ⟨o, ho, later, htokens⟩
  · rfl
  · rw [htokens, List.append_assoc, List.append_cancel_left_eq] at he
    rw [he, List.cons_append, stops_cons] at hs
    exact absurd (ha o ho) (Precedence.not_lt_of_le hs)

theorem eq_of_leftOf_or_leftOf {w v : Phrase} {floor : Precedence} {rest more : List Token}
    (h : LeftOf w v ∨ LeftOf v w) (hw : w.Above rules floor) (hv : v.Above rules floor)
    (hrest : Stops rules floor rest) (hmore : Stops rules floor more)
    (he : w.tokens ++ rest = v.tokens ++ more) : w = v ∧ rest = more := by
  have hwv : w = v := by
    rcases h with h | h
    · exact h.eq_of_stops hv hrest he
    · exact (h.eq_of_stops hw hmore he.symm).symm
  subst hwv
  exact ⟨rfl, List.append_cancel_left he⟩

theorem exists_leftOf_operand {w : Phrase} (hw : w.WellFormed rules) :
    ∃ a later, LeftOf a w ∧ a.WellFormed rules ∧ a.operators = [] ∧
      w.tokens = a.tokens ++ later := by
  induction w with
  | leaf t => exact ⟨leaf t, [], .refl, hw, rfl, by simp⟩
  | unary t x => exact ⟨unary t x, [], .refl, hw, rfl, by simp⟩
  | group o x c => exact ⟨group o x c, [], .refl, hw, rfl, by simp⟩
  | binary l o x ihl =>
    obtain ⟨a, later, ha, hwf, hops, htokens⟩ := ihl hw.1
    exact ⟨a, later ++ o :: x.tokens, ha.step, hwf, hops, by simp [tokens, htokens]⟩

theorem operand_cases {a : Phrase} {t : Token} {later tokens : List Token}
    (ha : a.WellFormed rules) (hops : a.operators = []) (he : a.tokens ++ later = t :: tokens) :
    (rules.operand t.kind = some .primary ∧ a = leaf t) ∨
    (rules.operand t.kind = some .unary ∧ ∃ x, a = unary t x ∧ x.tokens ++ later = tokens) ∨
    (rules.operand t.kind = some .grouping ∧
      ∃ x c, a = group t x c ∧ x.tokens ++ c :: later = tokens) := by
  cases a with
  | leaf u =>
    obtain ⟨rfl, rfl⟩ := List.cons.inj he
    exact .inl ⟨ha, rfl⟩
  | unary u x =>
    obtain ⟨rfl, rfl⟩ := List.cons.inj he
    exact .inr (.inl ⟨ha.1, x, rfl, rfl⟩)
  | group u x c =>
    obtain ⟨rfl, rfl⟩ := List.cons.inj he
    exact .inr (.inr ⟨ha.1, x, c, rfl, by simp⟩)
  | binary l o x => simp [operators] at hops

theorem head_cases {v : Phrase} {t : Token} {tokens more : List Token} (hv : v.WellFormed rules)
    (he : t :: tokens = v.tokens ++ more) :
    (rules.operand t.kind = some .primary ∧ LeftOf (leaf t) v) ∨
    (rules.operand t.kind = some .unary ∧ ∃ x later, LeftOf (unary t x) v ∧
      (unary t x).WellFormed rules ∧ x.tokens ++ later = tokens) ∨
    (rules.operand t.kind = some .grouping ∧ ∃ x c later, LeftOf (group t x c) v ∧
      (group t x c).WellFormed rules ∧ x.tokens ++ c :: later = tokens) := by
  obtain ⟨a, later, ha, hwf, hops, htokens⟩ := exists_leftOf_operand hv
  rw [htokens, List.append_assoc] at he
  rcases operand_cases hwf hops he.symm with ⟨ht, rfl⟩ | ⟨ht, x, rfl, hx⟩ | ⟨ht, x, c, rfl, hx⟩
  · exact .inl ⟨ht, ha⟩
  · exact .inr (.inl ⟨ht, x, _, ha, hwf, hx⟩)
  · exact .inr (.inr ⟨ht, x, c, _, ha, hwf, hx⟩)

theorem LeftOf.eq_or_applied {v w : Phrase} {rest : List Token} (h : LeftOf v w)
    (hw : w.WellFormed rules) (ht : w.Tight rules rest) :
    v = w ∨ ∃ o x later, LeftOf (binary v o x) w ∧ (binary v o x).WellFormed rules ∧
      (binary v o x).Tight rules (later ++ rest) ∧
      w.tokens = (binary v o x).tokens ++ later := by
  induction h generalizing rest with
  | refl => exact .inl rfl
  | @step w o x h ih =>
    right
    rcases ih hw.1 (hw.tight_left (x.tokens ++ rest)) with rfl | ⟨p, y, later, hl, hwf, htight, htokens⟩
    · exact ⟨o, x, [], .refl, hw, ht, by simp⟩
    · exact ⟨p, y, later ++ o :: x.tokens, hl.step, hwf, by simpa using htight,
        by simp [tokens, htokens]⟩

theorem leftOf_or_leftOf (hr : rules.Regular) {w v : Phrase} (hw : w.WellFormed rules)
    (hv : v.WellFormed rules) {rest more : List Token} (htw : w.Tight rules rest)
    (htv : v.Tight rules more) (he : w.tokens ++ rest = v.tokens ++ more) :
    LeftOf w v ∨ LeftOf v w := by
  -- an operand of `v` is compared with `w` first, then the operators that follow it in `v`
  induction w generalizing v rest more with
  | leaf t =>
    left
    rcases head_cases hv he with ⟨_, h⟩ | ⟨ht, _⟩ | ⟨ht, _⟩
    · exact h
    · cases hw.symm.trans ht
    · cases hw.symm.trans ht
  | unary t x ih =>
    left
    rcases head_cases hv he with ⟨ht, _⟩ | ⟨_, y, later, h, hwf, hy⟩ | ⟨ht, _⟩
    · cases hw.1.symm.trans ht
    · have hrest := hr.stops_unary rest
      have hlater := hr.stops_unary later
      have hxy := ih hw.2.1 hwf.2.1 (hw.2.2.tight hrest) (hwf.2.2.tight hlater) hy.symm
      obtain ⟨rfl, -⟩ := eq_of_leftOf_or_leftOf hxy hw.2.2 hwf.2.2 hrest hlater hy.symm
      exact h
    · cases hw.1.symm.trans ht
  | group o x c ih =>
    left
    have he' : o :: (x.tokens ++ c :: rest) = v.tokens ++ more := by simpa [tokens] using he
    rcases head_cases hv he' with ⟨ht, _⟩ | ⟨ht, _⟩ | ⟨_, y, d, later, h, hwf, hy⟩
    · cases hw.1.symm.trans ht
    · cases hw.1.symm.trans ht
    · have hx := hw.2.2.above_lowest
      have hy' := hwf.2.2.above_lowest
      have hc := hr.stops_closeParen hw.2.1 rest
      have hd := hr.stops_closeParen hwf.2.1 later
      have hxy := ih hw.2.2 hwf.2.2 (hx.tight hc) (hy'.tight hd) hy.symm
      obtain ⟨rfl, hcd⟩ := eq_of_leftOf_or_leftOf hxy hx hy' hc hd hy.symm
      rw [(List.cons.inj hcd).1]
      exact h
  | binary l o x ihl ihx =>
    have htl := hw.tight_left (x.tokens ++ rest)
    obtain ⟨hl, hx, -, -, hright⟩ := hw
    have he' : l.tokens ++ o :: (x.tokens ++ rest) = v.tokens ++ more := by
      simpa [tokens] using he
    rcases ihl hl hv htl htv he' with h | h
    · rcases h.eq_or_applied hv htv with rfl | ⟨p, y, later, hlv, hwf, htight, htokens⟩
      · exact .inr (.step .refl)
      · have hop : o :: (x.tokens ++ rest) = p :: (y.tokens ++ (later ++ more)) := by
          simpa [htokens, tokens] using he'
        obtain ⟨rfl, hxy⟩ := List.cons.inj hop
        have hy := hwf.2.2.2.2
        have hrest := htw.of_binary
        have hmore := htight.of_binary
        have h := ihx hx hwf.2.1 (hright.tight hrest) (hy.tight hmore) hxy
        obtain ⟨rfl, -⟩ := eq_of_leftOf_or_leftOf h hright hy hrest hmore hxy
        exact .inl hlv
    · exact .inr h.step

theorem WellFormed.unique_of_append (hr : rules.Regular) {w v : Phrase} {floor : Precedence}
    {rest more : List Token} (hw : w.WellFormed rules) (hv : v.WellFormed rules)
    (haw : w.Above rules floor) (hav : v.Above rules floor) (hrest : Stops rules floor rest)
    (hmore : Stops rules floor more) (he : w.tokens ++ rest = v.tokens ++ more) :
    w = v ∧ rest = more :=
  eq_of_leftOf_or_leftOf (leftOf_or_leftOf hr hw hv (haw.tight hrest) (hav.tight hmore) he)
    haw hav hrest hmore he

theorem WellFormed.unique (hr : rules.Regular) {w v : Phrase} (hw : w.WellFormed rules)
    (hv : v.WellFormed rules) (he : w.tokens = v.tokens) : w = v :=
  (hw.unique_of_append hr hv hw.above_lowest hv.above_lowest (stops_nil _ _) (stops_nil _ _)
    (congrArg (· ++ []) he)).1

end Phrase

end ScriptFrontEnd
