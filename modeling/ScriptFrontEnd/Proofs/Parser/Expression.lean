import ScriptFrontEnd.Proofs.Parser.Readers
import ScriptFrontEnd.Proofs.Grammar.Unambiguous

namespace ScriptFrontEnd

variable {rules : Rules}

theorem not_lt_of_stops {eof : Token} (he : rules.precedence eof.kind = .lowest)
    {floor : Precedence} {rest : List Token} (h : Stops rules floor rest) :
    ¬ floor < rules.precedence (rest.headD eof).kind := by
  cases rest with
  | nil =>
    rw [List.headD_nil, he]
    exact Precedence.not_lt_of_le (Precedence.lowest_le floor)
  | cons t rest => exact Precedence.not_lt_of_le (stops_cons.mp h)

theorem stops_of_not_lt {eof : Token} {floor : Precedence} {rest : List Token}
    (h : ¬ floor < rules.precedence (rest.headD eof).kind) : Stops rules floor rest := by
  cases rest with
  | nil => exact stops_nil rules floor
  | cons t rest => exact stops_cons.mpr (Precedence.not_lt.mp h)

namespace Phrase

def last : Phrase → Token
  | leaf token => token
  | unary _ operand => operand.last
  | binary _ _ right => right.last
  | group _ _ closing => closing

structure Reading (rules : Rules) (levels : Nat) (floor : Precedence) (tokens : List Token)
    (e : Expr) (w : Phrase) (rest : List Token) : Prop where
  split : tokens = w.tokens ++ rest
  wellFormed : w.WellFormed rules
  denotes : w.Denotes e
  nesting_le : w.nesting ≤ levels
  above : w.Above rules floor
  stops : Stops rules floor rest

def Continues (rules : Rules) (eof : Token) (w : Phrase) (e : Expr) : Prop :=
  ∀ ⦃levels : Nat⦄ ⦃floor : Precedence⦄ ⦃rest : List Token⦄
    ⦃r : EStateM.Result Diagnostic Cursor Expr⦄,
    w.nesting ≤ levels + 1 → w.Above rules floor → w.Tight rules rest →
    (∀ bound : List Token, rest.length < bound.length →
      Reader.extend (Reader.expression rules levels) rules floor bound e ⟨w.last :: rest, eof⟩ =
        r) →
    Reader.expression rules (levels + 1) floor ⟨w.tokens ++ rest, eof⟩ = r

def LeadsTo (rules : Rules) (eof : Token) (w : Phrase) (e : Expr) : Prop :=
  ∀ ⦃levels : Nat⦄ ⦃floor : Precedence⦄ ⦃rest : List Token⦄ ⦃f : Expr⦄ ⦃d : Cursor⦄,
    w.nesting ≤ levels + 1 → w.Above rules floor → w.Tight rules rest →
    (∀ bound : List Token, rest.length < bound.length →
      Reader.extend (Reader.expression rules levels) rules floor bound e ⟨w.last :: rest, eof⟩ =
        .ok f d) →
    Reader.expression rules (levels + 1) floor ⟨w.tokens ++ rest, eof⟩ = .ok f d

section

variable {eof : Token} {w : Phrase} {e : Expr} {levels : Nat} {floor : Precedence}
  {rest : List Token}

theorem Continues.leadsTo (h : Continues rules eof w e) : LeadsTo rules eof w e :=
  fun _ _ _ _ _ hn ha ht hf => h hn ha ht hf

theorem LeadsTo.expression_eq_ok (h : LeadsTo rules eof w e)
    (he : rules.precedence eof.kind = .lowest) (hn : w.nesting ≤ levels)
    (ha : w.Above rules floor) (hs : Stops rules floor rest) :
    Reader.expression rules levels floor ⟨w.tokens ++ rest, eof⟩ = .ok e ⟨w.last :: rest, eof⟩ := by
  have hpos := w.nesting_pos
  obtain ⟨n, rfl⟩ : ∃ n, levels = n + 1 := ⟨levels - 1, by omega⟩
  refine h hn ha (ha.tight hs) fun bound hb => ?_
  cases bound with
  | nil => simp at hb
  | cons b bound => exact Reader.extend_cons_eq_ok.mpr (.inr ⟨not_lt_of_stops he hs, rfl, rfl⟩)

theorem continues_of_lead
    (h : ∀ (levels : Nat) (rest : List Token), w.nesting ≤ levels + 1 →
      Reader.lead (Reader.expression rules levels) rules ⟨w.tokens ++ rest, eof⟩ =
        .ok e ⟨w.last :: rest, eof⟩) :
    Continues rules eof w e := by
  intro levels floor rest r hn ha ht hf
  rw [Reader.expression_succ_of_lead (h levels rest hn)]
  exact hf _ (by simp)

end

theorem WellFormed.continues (hr : rules.Regular) {eof : Token} (he : eof.kind = .eof) {w : Phrase}
    {e : Expr} (hd : w.Denotes e) (hw : w.WellFormed rules) : Continues rules eof w e := by
  have hlowest : rules.precedence eof.kind = .lowest := he ▸ hr.precedence_eof
  have hleaf {t : Token} {e : Expr} (hd : (leaf t).Denotes e) (hw : (leaf t).WellFormed rules) :
      Continues rules eof (leaf t) e := continues_of_lead fun _ _ _ =>
    Reader.lead_eq_ok.mpr (.inl ⟨hw, Reader.primary_eq_ok.mpr ⟨hd, rfl⟩⟩)
  induction hd with
  | identifier hk => exact hleaf (.identifier hk) hw
  | integer hk hv => exact hleaf (.integer hk hv) hw
  | isTrue hk => exact hleaf (.isTrue hk) hw
  | isFalse hk => exact hleaf (.isFalse hk) hw
  | @unary t w e hd ih =>
    obtain ⟨ht, hw, ha⟩ := hw
    refine continues_of_lead fun levels rest hn => ?_
    have hs := hr.stops_unary rest
    have hx := (ih hw).leadsTo.expression_eq_ok hlowest (Nat.le_of_succ_le_succ hn) ha hs
    exact Reader.lead_eq_ok.mpr (.inr (.inl ⟨ht, Reader.unary_eq_ok.mpr ⟨e, hx, rfl⟩⟩))
  | @group o c w e hd ih =>
    obtain ⟨ho, hc, hw⟩ := hw
    refine continues_of_lead fun levels rest hn => ?_
    have hs := hr.stops_closeParen hc rest
    have hx := (ih hw).leadsTo.expression_eq_ok hlowest (Nat.le_of_succ_le_succ hn)
      hw.above_lowest hs
    refine Reader.lead_eq_ok.mpr (.inr (.inr ⟨?_, Reader.grouping_eq_ok.mpr ?_⟩))
    · exact ho
    · exact ⟨⟨w.last :: c :: rest, eof⟩, by simpa [tokens] using hx, hc, rfl⟩
  | @binary o l x e f hdl hdx ihl ihx =>
    intro levels floor rest r hn ha ht hf
    have htl := hw.tight_left (x.tokens ++ rest)
    obtain ⟨hl, hx, -, -, hright⟩ := hw
    have hnl : l.nesting ≤ levels + 1 := Nat.le_trans (Nat.le_max_left _ _) hn
    have hnx : x.nesting ≤ levels := Nat.le_of_succ_le_succ (Nat.le_trans (Nat.le_max_right _ _) hn)
    obtain ⟨hal, hfloor⟩ := ha.of_binary
    have hread := (ihx hx).leadsTo.expression_eq_ok hlowest hnx hright ht.of_binary
    have hbinary : Reader.binary (Reader.expression rules levels) e (rules.precedence o.kind)
        ⟨o :: (x.tokens ++ rest), eof⟩ = .ok (.binary o e o.text f) ⟨x.last :: rest, eof⟩ :=
      Reader.binary_eq_ok.mpr ⟨f, hread, rfl⟩
    have htokens : (binary l o x).tokens ++ rest = l.tokens ++ o :: (x.tokens ++ rest) := by
      simp [tokens]
    rw [htokens]
    refine ihl hl hnl hal htl fun bound hb => ?_
    cases bound with
    | nil => simp at hb
    | cons b bound =>
      rw [Reader.extend_cons_of_binary hfloor hbinary]
      refine hf bound ?_
      have := List.length_pos_iff.mpr x.tokens_ne_nil
      simp only [List.length_cons, List.length_append] at hb
      omega

theorem WellFormed.leadsTo (hr : rules.Regular) {eof : Token} (he : eof.kind = .eof) {w : Phrase}
    {e : Expr} (hd : w.Denotes e) (hw : w.WellFormed rules) : LeadsTo rules eof w e :=
  (hw.continues hr he hd).leadsTo

def ReadsPhrases (rules : Rules) (eof : Token) (levels : Nat) : Prop :=
  ∀ ⦃floor : Precedence⦄ ⦃tokens : List Token⦄ ⦃e : Expr⦄ ⦃d : Cursor⦄,
    Reader.expression rules levels floor ⟨tokens, eof⟩ = .ok e d →
    ∃ w rest, Reading rules levels floor tokens e w rest ∧ d = ⟨w.last :: rest, eof⟩

structure Leading (rules : Rules) (levels : Nat) (floor : Precedence) (e : Expr) (w : Phrase)
    (rest : List Token) : Prop where
  wellFormed : w.WellFormed rules
  denotes : w.Denotes e
  nesting_le : w.nesting ≤ levels
  above : w.Above rules floor
  tight : w.Tight rules rest

theorem Leading.left_le {levels : Nat} {floor : Precedence} {e : Expr} {w : Phrase} {o : Token}
    {tokens : List Token} (h : Leading rules levels floor e w (o :: tokens)) :
    ∀ t ∈ w.operators, rules.precedence o.kind ≤ rules.precedence t.kind :=
  fun t ht => stops_cons.mp (h.tight t ht)

theorem Leading.binary {levels : Nat} {floor : Precedence} {e f : Expr} {w v : Phrase} {o : Token}
    {tokens more : List Token} (hw : Leading rules (levels + 1) floor e w (o :: tokens))
    (hfloor : floor < rules.precedence o.kind)
    (hv : Reading rules levels (rules.precedence o.kind) tokens f v more) :
    Leading rules (levels + 1) floor (.binary o e o.text f) (.binary w o v) more := by
  have hops {P : Token → Prop} (hl : ∀ t ∈ w.operators, P t) (ho : P o)
      (hr : ∀ t ∈ v.operators, P t) : ∀ t ∈ (Phrase.binary w o v).operators, P t := by
    simp only [operators, List.forall_mem_append, List.forall_mem_cons]
    exact ⟨hl, ho, hr⟩
  have hleft := hw.left_le
  have ho := Precedence.lt_of_le_of_lt (Precedence.lowest_le floor) hfloor
  exact {
    wellFormed := ⟨hw.wellFormed, hv.wellFormed, ho, hleft, hv.above⟩
    denotes := .binary hw.denotes hv.denotes
    nesting_le := Nat.max_le.mpr ⟨hw.nesting_le, Nat.succ_le_succ hv.nesting_le⟩
    above := hops hw.above hfloor (hv.above.mono (Precedence.le_of_lt hfloor))
    tight := hops (fun t ht => hv.stops.mono (hleft t ht)) hv.stops (hv.above.tight hv.stops) }

theorem Reading.length_lt {levels : Nat} {floor : Precedence} {tokens rest : List Token} {e : Expr}
    {w : Phrase} (h : Reading rules levels floor tokens e w rest) :
    rest.length < tokens.length := by
  have := List.length_pos_iff.mpr w.tokens_ne_nil
  rw [h.split, List.length_append]
  omega

theorem exists_reading_of_extend {eof : Token} (he : rules.precedence eof.kind = .lowest)
    {levels : Nat} (ih : ReadsPhrases rules eof levels) {floor : Precedence}
    {bound rest : List Token} {w : Phrase} {e f : Expr} {d : Cursor}
    (hw : Leading rules (levels + 1) floor e w rest) (hb : rest.length < bound.length)
    (h : Reader.extend (Reader.expression rules levels) rules floor bound e ⟨w.last :: rest, eof⟩ =
      .ok f d) :
    ∃ v more, Reading rules (levels + 1) floor (w.tokens ++ rest) f v more ∧
      d = ⟨v.last :: more, eof⟩ := by
  -- what was read so far stays a phrase whose tree is the left operand, and which no operator ahead
  -- takes apart
  induction bound generalizing w e rest with
  | nil => simp at hb
  | cons b bound ihb =>
    rcases Reader.extend_cons_eq_ok.mp h with ⟨hfloor, x, c, hx, h⟩ | ⟨hfloor, rfl, rfl⟩
    · cases rest with
      | nil => exact absurd hfloor (not_lt_of_stops he (stops_nil rules floor))
      | cons o rest =>
        obtain ⟨y, hy, rfl⟩ := Reader.binary_eq_ok.mp hx
        have hy : Reader.expression rules levels (rules.precedence o.kind) ⟨rest, eof⟩ = .ok y c :=
          hy
        obtain ⟨v, more, hv, rfl⟩ := ih hy
        have hlength : more.length < bound.length :=
          Nat.lt_trans hv.length_lt (Nat.lt_of_succ_lt_succ hb)
        have hread := ihb (hw.binary hfloor hv) hlength h
        rwa [tokens, List.append_assoc, List.cons_append, ← hv.split] at hread
    · exact ⟨w, rest, ⟨rfl, hw.wellFormed, hw.denotes, hw.nesting_le, hw.above,
        stops_of_not_lt hfloor⟩, rfl⟩

theorem exists_operand_of_lead (hr : rules.Regular) {eof : Token} (he : eof.kind = .eof)
    {levels : Nat} (ih : ReadsPhrases rules eof levels) {tokens : List Token} {e : Expr}
    {d : Cursor} (h : Reader.lead (Reader.expression rules levels) rules ⟨tokens, eof⟩ = .ok e d) :
    ∃ (w : Phrase) (rest : List Token), tokens = w.tokens ++ rest ∧ d = ⟨w.last :: rest, eof⟩ ∧
      ∀ floor, Leading rules (levels + 1) floor e w rest := by
  have hleading {w : Phrase} {rest : List Token} (hw : w.WellFormed rules) (hd : w.Denotes e)
      (hn : w.nesting ≤ levels + 1) (hops : w.operators = []) (floor : Precedence) :
      Leading rules (levels + 1) floor e w rest :=
    ⟨hw, hd, hn, by simp [Above, hops], by simp [Tight, hops]⟩
  cases tokens with
  | nil =>
    have hnone : rules.operand eof.kind = none := he ▸ hr.operand_eof
    simp [Reader.lead_eq_ok, hnone] at h
  | cons t tokens =>
    rcases Reader.lead_eq_ok.mp h with ⟨ht, h⟩ | ⟨ht, h⟩ | ⟨ht, h⟩
    · obtain ⟨hd, rfl⟩ := Reader.primary_eq_ok.mp h
      exact ⟨leaf t, tokens, rfl, rfl, hleading ht hd (Nat.le_add_left 1 levels) rfl⟩
    · obtain ⟨x, hx, rfl⟩ := Reader.unary_eq_ok.mp h
      obtain ⟨w, rest, hw, rfl⟩ := ih hx
      obtain rfl := hw.split
      exact ⟨unary t w, rest, rfl, rfl, hleading ⟨ht, hw.wellFormed, hw.above⟩ (.unary hw.denotes)
        (Nat.succ_le_succ hw.nesting_le) rfl⟩
    · obtain ⟨c, hx, hc, rfl⟩ := Reader.grouping_eq_ok.mp h
      obtain ⟨w, rest, hw, rfl⟩ := ih hx
      obtain rfl := hw.split
      cases rest with
      | nil =>
        rw [Cursor.peek_cons, List.headD_nil, he] at hc
        cases hc
      | cons c rest =>
        exact ⟨group t w c, rest, by simp [Phrase.tokens], rfl,
          hleading ⟨ht, hc, hw.wellFormed⟩ (.group hw.denotes) (Nat.succ_le_succ hw.nesting_le) rfl⟩

theorem readsPhrases (hr : rules.Regular) {eof : Token} (he : eof.kind = .eof) (levels : Nat) :
    ReadsPhrases rules eof levels := by
  induction levels with
  | zero =>
    intro floor tokens e d h
    cases h
  | succ levels ih =>
    intro floor tokens e d h
    obtain ⟨left, c, hlead, h⟩ := Reader.expression_succ_eq_ok.mp h
    obtain ⟨w, rest, rfl, rfl, hw⟩ := exists_operand_of_lead hr he ih hlead
    exact exists_reading_of_extend (he ▸ hr.precedence_eof) ih (hw floor) (by simp) h

theorem expression_eq_ok_iff (hr : rules.Regular) {eof : Token} (he : eof.kind = .eof)
    {levels : Nat} {floor : Precedence} {tokens : List Token} {e : Expr} {d : Cursor} :
    Reader.expression rules levels floor ⟨tokens, eof⟩ = .ok e d ↔
      ∃ w rest, Reading rules levels floor tokens e w rest ∧ d = ⟨w.last :: rest, eof⟩ := by
  constructor
  · exact fun h => readsPhrases hr he levels h
  · rintro ⟨w, rest, h, rfl⟩
    rw [h.split]
    exact (h.wellFormed.leadsTo hr he h.denotes).expression_eq_ok (he ▸ hr.precedence_eof)
      h.nesting_le h.above h.stops

end Phrase

end ScriptFrontEnd
