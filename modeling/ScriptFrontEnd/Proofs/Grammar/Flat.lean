import ScriptFrontEnd.Proofs.Grammar.Unambiguous

namespace ScriptFrontEnd

/-- An operand for `none`, and for `some floor` operands with operators between them that bind
tighter than `floor`. -/
inductive Flat (rules : Rules) : Option Precedence → List Token → Prop
  | leaf {t} : rules.operand t.kind = some .primary → Flat rules none [t]
  | unary {t w} : rules.operand t.kind = some .unary → Flat rules none w →
      Flat rules none (t :: w)
  | group {o w c} : rules.operand o.kind = some .grouping → Flat rules (some .lowest) w →
      c.kind = .closeParen → Flat rules none (o :: (w ++ [c]))
  | single {floor w} : Flat rules none w → Flat rules (some floor) w
  | append {floor v o w} : Flat rules (some floor) v → floor < rules.precedence o.kind →
      Flat rules none w → Flat rules (some floor) (v ++ o :: w)

namespace Flat

variable {rules : Rules}

theorem mono {floor floor' : Precedence} {w : List Token} (h : Flat rules (some floor') w)
    (hf : floor ≤ floor') : Flat rules (some floor) w := by
  generalize hs : some floor' = shape at h
  induction h with
  | leaf ht => cases hs
  | unary ht h ih => cases hs
  | group ho h hc ih => cases hs
  | single h ih => exact .single h
  | append hv ho hw ihv ihw =>
    cases hs
    exact .append (ihv rfl) (Precedence.lt_of_le_of_lt hf ho) hw

theorem join {floor : Precedence} {v w : List Token} {o : Token} (hv : Flat rules (some floor) v)
    (ho : floor < rules.precedence o.kind) (hw : Flat rules (some floor) w) :
    Flat rules (some floor) (v ++ o :: w) := by
  generalize hs : some floor = shape at hw
  induction hw with
  | leaf ht => cases hs
  | unary ht h ih => cases hs
  | group ho h hc ih => cases hs
  | single h ih =>
    cases hs
    exact .append hv ho h
  | append hx hp hy ihx ihy =>
    cases hs
    simpa using Flat.append (ihx rfl) hp hy

end Flat

namespace Phrase

variable {rules : Rules}

theorem WellFormed.flat (hr : rules.Regular) {w : Phrase} {floor : Precedence}
    (hw : w.WellFormed rules) (ha : w.Above rules floor) :
    Flat rules (some floor) w.tokens ∧ (w.operators = [] → Flat rules none w.tokens) := by
  induction w generalizing floor with
  | leaf t =>
    have h : Flat rules none (leaf t).tokens := .leaf hw
    exact ⟨.single h, fun _ => h⟩
  | unary t x ih =>
    have hx := (ih hw.2.1 hw.2.2).2 (operators_eq_nil_of_above hr hw.2.2)
    have h : Flat rules none (unary t x).tokens := .unary hw.1 hx
    exact ⟨.single h, fun _ => h⟩
  | group o x c ih =>
    have hx := (ih hw.2.2 hw.2.2.above_lowest).1
    have h : Flat rules none (group o x c).tokens := .group hw.1 hx hw.2.1
    exact ⟨.single h, fun _ => h⟩
  | binary l o x ihl ihx =>
    obtain ⟨hl, hx, -, -, hright⟩ := hw
    obtain ⟨hfl, hfloor⟩ := ha.of_binary
    have hfx := (ihx hx hright).1.mono (Precedence.le_of_lt hfloor)
    exact ⟨.join (ihl hl hfl).1 hfloor hfx, fun h => by simp [operators] at h⟩

def attach (rules : Rules) (o : Token) (x : Phrase) : Phrase → Phrase
  | binary l p y =>
    if rules.precedence p.kind < rules.precedence o.kind then binary l p (attach rules o x y)
    else binary (binary l p y) o x
  | w => binary w o x

theorem tokens_attach (o : Token) (x w : Phrase) :
    (attach rules o x w).tokens = w.tokens ++ o :: x.tokens := by
  induction w with
  | leaf t => rfl
  | unary t y ih => rfl
  | group p y c ih => rfl
  | binary l p y ihl ihy =>
    simp only [attach]
    split
    · simp [tokens, ihy]
    · rfl

theorem operators_attach {o : Token} {x : Phrase} (hx : x.operators = []) (w : Phrase) :
    (attach rules o x w).operators = w.operators ++ [o] := by
  induction w with
  | leaf t => simp [attach, operators, hx]
  | unary t y ih => simp [attach, operators, hx]
  | group p y c ih => simp [attach, operators, hx]
  | binary l p y ihl ihy =>
    simp only [attach]
    split
    · simp [operators, ihy]
    · simp [operators, hx]

theorem WellFormed.attach {o : Token} {x w : Phrase} (hw : w.WellFormed rules)
    (hx : x.WellFormed rules) (hops : x.operators = [])
    (ho : .lowest < rules.precedence o.kind) : (attach rules o x w).WellFormed rules := by
  have hright : x.Above rules (rules.precedence o.kind) := by simp [Above, hops]
  have happly {v : Phrase} (hv : v.WellFormed rules)
      (hleft : ∀ t ∈ v.operators, rules.precedence o.kind ≤ rules.precedence t.kind) :
      (binary v o x).WellFormed rules := ⟨hv, hx, ho, hleft, hright⟩
  induction w with
  | leaf t => exact happly hw (by simp [operators])
  | unary t y ih => exact happly hw (by simp [operators])
  | group p y c ih => exact happly hw (by simp [operators])
  | binary l p y ihl ihy =>
    obtain ⟨hl, hy, hp, hleft, hbelow⟩ := hw
    simp only [Phrase.attach]
    split
    · rename_i hlt
      refine ⟨hl, ihy hy, hp, hleft, fun t ht => ?_⟩
      rw [operators_attach hops, List.mem_append, List.mem_singleton] at ht
      rcases ht with ht | rfl
      · exact hbelow t ht
      · exact hlt
    · rename_i hle
      have hop : rules.precedence o.kind ≤ rules.precedence p.kind := Precedence.not_lt.mp hle
      refine happly ⟨hl, hy, hp, hleft, hbelow⟩ fun t ht => ?_
      simp only [operators, List.mem_append, List.mem_cons] at ht
      rcases ht with ht | rfl | ht
      · exact Precedence.le_trans hop (hleft t ht)
      · exact hop
      · exact Precedence.le_trans hop (Precedence.le_of_lt (hbelow t ht))

end Phrase

theorem Flat.exists_phrase {rules : Rules} {shape : Option Precedence} {w : List Token}
    (h : Flat rules shape w) :
    ∃ v : Phrase, v.tokens = w ∧ v.WellFormed rules ∧ (∀ floor ∈ shape, v.Above rules floor) ∧
      (shape = none → v.operators = []) := by
  induction h with
  | @leaf t ht => exact ⟨.leaf t, rfl, ht, by simp, fun _ => rfl⟩
  | @unary t w ht h ih =>
    obtain ⟨v, rfl, hv, -, hops⟩ := ih
    exact ⟨.unary t v, rfl, ⟨ht, hv, by simp [Phrase.Above, hops rfl]⟩, by simp, fun _ => rfl⟩
  | @group o w c ho h hc ih =>
    obtain ⟨v, rfl, hv, -, -⟩ := ih
    exact ⟨.group o v c, rfl, ⟨ho, hc, hv⟩, by simp, fun _ => rfl⟩
  | @single floor w h ih =>
    obtain ⟨v, rfl, hv, -, hops⟩ := ih
    exact ⟨v, rfl, hv, by simp [Phrase.Above, hops rfl], by simp⟩
  | @append floor v o w hv ho hw ihv ihw =>
    obtain ⟨x, rfl, hx, hax, -⟩ := ihv
    obtain ⟨y, rfl, hy, -, hops⟩ := ihw
    have hlowest := Precedence.lt_of_le_of_lt (Precedence.lowest_le _) ho
    refine ⟨Phrase.attach rules o y x, Phrase.tokens_attach o y x,
      hx.attach hy (hops rfl) hlowest, ?_, by simp⟩
    intro floor' hf t ht
    cases Option.some.inj hf
    rw [Phrase.operators_attach (hops rfl), List.mem_append, List.mem_singleton] at ht
    rcases ht with ht | rfl
    · exact hax floor rfl t ht
    · exact ho

theorem Flat.existsUnique_phrase {rules : Rules} (hr : rules.Regular) {floor : Precedence}
    {w : List Token} (h : Flat rules (some floor) w) :
    ∃ v : Phrase, (v.tokens = w ∧ v.WellFormed rules ∧ v.Above rules floor) ∧
      ∀ u : Phrase, u.tokens = w → u.WellFormed rules → u = v := by
  obtain ⟨v, rfl, hv, ha, -⟩ := h.exists_phrase
  exact ⟨v, ⟨rfl, hv, ha floor rfl⟩, fun u hu hwf => hwf.unique hr hv hu⟩

end ScriptFrontEnd
