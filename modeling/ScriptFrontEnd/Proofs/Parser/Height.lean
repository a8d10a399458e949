import ScriptFrontEnd.Proofs.Parser.Termination

namespace ScriptFrontEnd

variable {rules : Rules}

theorem Evaluates.unique {part : Part} {depth m n : Nat} {c : Cursor} {r s : Ending}
    (h : Evaluates rules part depth c m r) (h' : Evaluates rules part depth c n s) :
    m = n ∧ r = s := by
  induction h generalizing n s with
  | refused hlimit =>
    cases h' with
    | refused _ => exact ⟨rfl, rfl⟩
    | whole hopen _ _ => exact absurd hopen (Nat.not_lt.mpr hlimit)
    | leadFails hopen _ => exact absurd hopen (Nat.not_lt.mpr hlimit)
  | whole hopen _ _ ihl ihr =>
    cases h' with
    | refused hlimit => exact absurd hopen (Nat.not_lt.mpr hlimit)
    | whole _ hl hr =>
      obtain ⟨rfl, hleft⟩ := ihl hl
      cases hleft
      obtain ⟨rfl, rfl⟩ := ihr hr
      exact ⟨rfl, rfl⟩
    | leadFails _ hl => cases (ihl hl).2
  | leadFails hopen _ ihl =>
    cases h' with
    | refused hlimit => exact absurd hopen (Nat.not_lt.mpr hlimit)
    | whole _ hl _ => cases (ihl hl).2
    | leadFails _ hl =>
      obtain ⟨rfl, hfail⟩ := ihl hl
      exact ⟨rfl, hfail⟩
  | unknown hrule => cases h' <;> simp_all
  | primary hrule => cases h' <;> simp_all
  | unary hrule _ ih =>
    cases h' with
    | unary _ hx =>
      obtain ⟨rfl, rfl⟩ := ih hx
      exact ⟨rfl, rfl⟩
    | unknown hother | primary hother | grouping hother _ => simp [hrule] at hother
  | grouping hrule _ ih =>
    cases h' with
    | grouping _ hx =>
      obtain ⟨rfl, rfl⟩ := ih hx
      exact ⟨rfl, rfl⟩
    | unknown hother | primary hother | unary hother _ => simp [hrule] at hother
  | operator _ ih =>
    cases h' with
    | operator hx =>
      obtain ⟨rfl, rfl⟩ := ih hx
      exact ⟨rfl, rfl⟩
  | stop hfloor =>
    cases h' with
    | stop _ => exact ⟨rfl, rfl⟩
    | more hmore _ _ => exact absurd hmore hfloor
    | operatorFails hmore _ => exact absurd hmore hfloor
  | more hfloor _ _ iho ihr =>
    cases h' with
    | stop hstop => exact absurd hfloor hstop
    | more _ ho hr =>
      obtain ⟨rfl, hleft⟩ := iho ho
      cases hleft
      obtain ⟨rfl, rfl⟩ := ihr hr
      exact ⟨rfl, rfl⟩
    | operatorFails _ ho => cases (iho ho).2
  | operatorFails hfloor _ iho =>
    cases h' with
    | stop hstop => exact absurd hfloor hstop
    | more _ ho _ => cases (iho ho).2
    | operatorFails _ ho =>
      obtain ⟨rfl, hfail⟩ := iho ho
      exact ⟨rfl, hfail⟩

namespace Phrase

def EvaluatesTo (rules : Rules) (eof : Token) (w : Phrase) (e : Expr) : Prop :=
  ∀ ⦃floor : Precedence⦄ ⦃depth n : Nat⦄ ⦃rest : List Token⦄ ⦃r : Ending⦄,
    depth + w.nesting ≤ nestingLimit → w.Above rules floor → w.Tight rules rest →
    Evaluates rules (.rest floor e) (depth + 1) ⟨w.last :: rest, eof⟩ n r →
    Evaluates rules (.whole floor) depth ⟨w.tokens ++ rest, eof⟩ (max w.nesting (n + 1)) r

section

variable {eof : Token} {w : Phrase} {e : Expr} {floor : Precedence} {depth : Nat}
  {rest : List Token}

theorem EvaluatesTo.whole (h : EvaluatesTo rules eof w e)
    (he : rules.precedence eof.kind = .lowest) (hdepth : depth + w.nesting ≤ nestingLimit)
    (ha : w.Above rules floor) (hs : Stops rules floor rest) :
    Evaluates rules (.whole floor) depth ⟨w.tokens ++ rest, eof⟩ w.nesting
      (.ok e ⟨w.last :: rest, eof⟩) := by
  have hread := h hdepth ha (ha.tight hs) (.stop (not_lt_of_stops he hs))
  rwa [Nat.zero_add, Nat.max_eq_left w.nesting_pos] at hread

theorem evaluatesTo_of_lead {m : Nat} (hn : w.nesting = m + 1)
    (h : ∀ (depth : Nat) (rest : List Token), depth + m ≤ nestingLimit →
      Evaluates rules .lead depth ⟨w.tokens ++ rest, eof⟩ m (.ok e ⟨w.last :: rest, eof⟩)) :
    EvaluatesTo rules eof w e := by
  intro floor depth n rest r hdepth _ _ hrest
  rw [hn] at hdepth ⊢
  rw [Nat.add_max_add_right]
  exact .whole (by omega) (h _ _ (by omega)) hrest

theorem evaluatesTo_leaf {t : Token} (hd : (leaf t).Denotes e) (hw : (leaf t).WellFormed rules) :
    EvaluatesTo rules eof (leaf t) e := by
  refine evaluatesTo_of_lead rfl fun depth rest _ => ?_
  have hprimary : Reader.primary ⟨t :: rest, eof⟩ = .ok e ⟨t :: rest, eof⟩ :=
    Reader.primary_eq_ok.mpr ⟨hd, rfl⟩
  have hlead : Evaluates rules .lead depth ⟨t :: rest, eof⟩ 0 (Reader.primary ⟨t :: rest, eof⟩) :=
    .primary hw
  rwa [hprimary] at hlead

end

theorem WellFormed.evaluatesTo (hr : rules.Regular) {eof : Token} (he : eof.kind = .eof)
    {w : Phrase} {e : Expr} (hd : w.Denotes e) (hw : w.WellFormed rules) :
    EvaluatesTo rules eof w e := by
  have hlowest : rules.precedence eof.kind = .lowest := he ▸ hr.precedence_eof
  induction hd with
  | identifier hk => exact evaluatesTo_leaf (.identifier hk) hw
  | integer hk hv => exact evaluatesTo_leaf (.integer hk hv) hw
  | isTrue hk => exact evaluatesTo_leaf (.isTrue hk) hw
  | isFalse hk => exact evaluatesTo_leaf (.isFalse hk) hw
  | @unary t w e hd ih =>
    obtain ⟨ht, hw, ha⟩ := hw
    refine evaluatesTo_of_lead rfl fun depth rest hdepth => ?_
    have hs := hr.stops_unary rest
    have hlead := Evaluates.unary (c := ⟨t :: (w.tokens ++ rest), eof⟩) ht
      ((ih hw).whole hlowest hdepth ha hs)
    exact hlead
  | @group o c w e hd ih =>
    obtain ⟨ho, hc, hw⟩ := hw
    refine evaluatesTo_of_lead rfl fun depth rest hdepth => ?_
    have hs := hr.stops_closeParen hc rest
    have hinner := (ih hw).whole hlowest hdepth hw.above_lowest hs
    have hgrouping : Reader.grouping (fun _ _ => .ok e ⟨w.last :: c :: rest, eof⟩)
        ⟨o :: (w.tokens ++ c :: rest), eof⟩ = .ok e ⟨c :: rest, eof⟩ :=
      Reader.grouping_eq_ok.mpr ⟨_, rfl, hc, rfl⟩
    have hlead := Evaluates.grouping (c := ⟨o :: (w.tokens ++ c :: rest), eof⟩) ho hinner
    have htokens : (group o w c).tokens ++ rest = o :: (w.tokens ++ c :: rest) := by
      simp [tokens]
    rw [hgrouping] at hlead
    rw [htokens]
    exact hlead
  | @binary o l x e f hdl hdx ihl ihx =>
    intro floor depth n rest r hdepth ha ht hrest
    have htl := hw.tight_left (x.tokens ++ rest)
    obtain ⟨hl, hx, -, -, hright⟩ := hw
    obtain ⟨hal, hfloor⟩ := ha.of_binary
    simp only [nesting] at hdepth ⊢
    have hvalue : Evaluates rules (.whole (rules.precedence o.kind)) (depth + 1)
        ⟨x.tokens ++ rest, eof⟩ x.nesting (.ok f ⟨x.last :: rest, eof⟩) :=
      (ihx hx).whole hlowest (by omega) hright ht.of_binary
    have hoperator : Evaluates rules (.operator e (rules.precedence o.kind)) (depth + 1)
        ⟨o :: (x.tokens ++ rest), eof⟩ x.nesting (Reader.binary (fun _ _ =>
          .ok f ⟨x.last :: rest, eof⟩) e (rules.precedence o.kind)
          ⟨o :: (x.tokens ++ rest), eof⟩) := .operator hvalue
    have hread := ihl hl (by omega) hal htl (.more hfloor hoperator hrest)
    have hheight : max l.nesting (max x.nesting n + 1) =
        max (max l.nesting (x.nesting + 1)) (n + 1) := by omega
    have htokens : (binary l o x).tokens ++ rest = l.tokens ++ o :: (x.tokens ++ rest) := by
      simp [tokens]
    rw [hheight] at hread
    rwa [htokens]

theorem WellFormed.evaluates_iff (hr : rules.Regular) {eof : Token} (he : eof.kind = .eof)
    {w : Phrase} {e : Expr} (hd : w.Denotes e) (hw : w.WellFormed rules) {floor : Precedence}
    {depth n : Nat} {rest : List Token} (hdepth : depth + w.nesting ≤ nestingLimit)
    (ha : w.Above rules floor) (hs : Stops rules floor rest) :
    (∃ r, Evaluates rules (.whole floor) depth ⟨w.tokens ++ rest, eof⟩ n r) ↔ n = w.nesting := by
  have hread := (hw.evaluatesTo hr he hd).whole (he ▸ hr.precedence_eof) hdepth ha hs
  constructor
  · rintro ⟨r, h⟩
    exact (h.unique hread).1
  · rintro rfl
    exact ⟨_, hread⟩

end Phrase

end ScriptFrontEnd
