import ScriptFrontEnd.Proofs.Parser.Expression
import ScriptFrontEnd.Proofs.Parser.Failing

namespace ScriptFrontEnd

variable {rules : Rules}

namespace Phrase

theorem getLast_tokens (w : Phrase) : w.tokens.getLast w.tokens_ne_nil = w.last := by
  induction w with
  | leaf t => rfl
  | unary t x ih => simpa [tokens, last, List.getLast_cons x.tokens_ne_nil] using ih
  | binary l o x ihl ihx => simpa [tokens, last, List.getLast_cons x.tokens_ne_nil] using ihx
  | group o x c ih => exact List.getLast_concat (l := o :: x.tokens)

end Phrase

namespace Fragment

structure Breaking (rules : Rules) (eof : Token) (levels : Nat) (floor : Precedence)
    (tokens : List Token) (e : Diagnostic) (d : Cursor) (f : Fragment) (rest : List Token) :
    Prop where
  split : tokens = f.tokens ++ rest
  breaks : Breaks rules (rest.headD eof) levels floor f e.cause
  position : e.position = (rest.headD eof).start
  stays : d = ⟨f.held ++ rest, eof⟩

def BreaksOff (rules : Rules) (eof : Token) (levels : Nat) : Prop :=
  ∀ ⦃floor : Precedence⦄ ⦃tokens : List Token⦄ ⦃e : Diagnostic⦄ ⦃d : Cursor⦄,
    Reader.expression rules levels floor ⟨tokens, eof⟩ = .error e d →
    ∃ f rest, Breaking rules eof levels floor tokens e d f rest

section

variable {eof : Token} {levels : Nat} {floor : Precedence} {tokens rest : List Token}
  {e : Diagnostic} {d : Cursor}

theorem exists_breaking_of_extend (he : rules.precedence eof.kind = .lowest)
    (hok : Phrase.ReadsPhrases rules eof levels) (ih : BreaksOff rules eof levels)
    {bound : List Token} {w : Phrase} {left : Expr}
    (hw : w.Leading rules (levels + 1) floor left rest) (hb : rest.length < bound.length)
    (h : Reader.extend (Reader.expression rules levels) rules floor bound left
      ⟨w.last :: rest, eof⟩ = .error e d) :
    ∃ f more, Breaking rules eof (levels + 1) floor (w.tokens ++ rest) e d f more := by
  induction bound generalizing w left rest with
  | nil => simp at hb
  | cons b bound ihb =>
    obtain ⟨hfloor, h⟩ := Reader.extend_cons_eq_error.mp h
    cases rest with
    | nil => exact absurd hfloor (not_lt_of_stops he (stops_nil rules floor))
    | cons o rest =>
      rcases h with h | ⟨x, c, hx, h⟩
      · have h : Reader.expression rules levels (rules.precedence o.kind) ⟨rest, eof⟩ =
            .error e d := Reader.binary_eq_error.mp h
        obtain ⟨f, more, hf⟩ := ih h
        refine ⟨.binary w o f, more, by simp [tokens, hf.split], ?_, hf.position, hf.stays⟩
        exact .binary hw.wellFormed hw.denotes hw.nesting_le hw.above hfloor hw.left_le hf.breaks
      · obtain ⟨y, hy, rfl⟩ := Reader.binary_eq_ok.mp hx
        have hy : Reader.expression rules levels (rules.precedence o.kind) ⟨rest, eof⟩ = .ok y c :=
          hy
        obtain ⟨v, more, hv, rfl⟩ := hok hy
        have hlength : more.length < bound.length :=
          Nat.lt_trans hv.length_lt (Nat.lt_of_succ_lt_succ hb)
        have hbreak := ihb (hw.binary hfloor hv) hlength h
        rwa [Phrase.tokens, List.append_assoc, List.cons_append, ← hv.split] at hbreak

theorem exists_breaking_of_lead (he : rules.precedence eof.kind = .lowest)
    (hne : rules.operand eof.kind = none) (hok : Phrase.ReadsPhrases rules eof levels)
    (ih : BreaksOff rules eof levels)
    (h : Reader.lead (Reader.expression rules levels) rules ⟨tokens, eof⟩ = .error e d) :
    ∃ f more, Breaking rules eof (levels + 1) floor tokens e d f more := by
  rcases Reader.lead_eq_error.mp h with ⟨hc, hp, rfl⟩ | ⟨ht, h⟩ | ⟨ht, h⟩
  · exact ⟨.operand, tokens, rfl, .refused hc, hp, rfl⟩
  · cases tokens with
    | nil => simp [hne] at ht
    | cons t tokens =>
      obtain ⟨f, more, hf⟩ := ih (Reader.unary_eq_error.mp h)
      obtain rfl := hf.split
      exact ⟨.unary t f, more, rfl, .unary ht hf.breaks, hf.position, hf.stays⟩
  · cases tokens with
    | nil => simp [hne] at ht
    | cons t tokens =>
      rcases Reader.grouping_eq_error.mp h with h | ⟨x, c, hx, hk, hc, hp, rfl⟩
      · obtain ⟨f, more, hf⟩ := ih h
        obtain rfl := hf.split
        exact ⟨.group t f, more, rfl, .group ht hf.breaks, hf.position, hf.stays⟩
      · obtain ⟨w, more, hw, rfl⟩ := hok hx
        obtain rfl := hw.split
        have hnext := Precedence.not_lt.mp (not_lt_of_stops he hw.stops)
        refine ⟨.unclosed t w, more, rfl, ?_, hp, by simp [held, w.getLast_tokens]⟩
        rw [hc]
        exact .unclosed ht hw.wellFormed hw.denotes hw.nesting_le hnext hk

end

theorem breaksOff (hr : rules.Regular) {eof : Token} (he : eof.kind = .eof) (levels : Nat) :
    BreaksOff rules eof levels := by
  have hlowest : rules.precedence eof.kind = .lowest := he ▸ hr.precedence_eof
  have hnone : rules.operand eof.kind = none := he ▸ hr.operand_eof
  induction levels with
  | zero =>
    rintro floor tokens e d ⟨⟩
    exact ⟨.operand, tokens, rfl, .tooDeep, rfl, rfl⟩
  | succ levels ih =>
    have hok := Phrase.readsPhrases hr he levels
    intro floor tokens e d h
    rcases Reader.expression_succ_eq_error.mp h with h | ⟨left, c, hlead, h⟩
    · exact exists_breaking_of_lead hlowest hnone hok ih h
    · obtain ⟨w, rest, rfl, rfl, hw⟩ := Phrase.exists_operand_of_lead hr he hok hlead
      exact exists_breaking_of_extend hlowest hok ih (hw floor) (by simp) h

theorem expression_eq_error_of_breaks (hr : rules.Regular) {eof : Token} (he : eof.kind = .eof)
    {levels : Nat} {floor : Precedence} {f : Fragment} {cause : Cause} {rest : List Token}
    (h : Breaks rules (rest.headD eof) levels floor f cause) :
    Reader.expression rules levels floor ⟨f.tokens ++ rest, eof⟩ =
      .error ⟨cause, (rest.headD eof).start⟩ ⟨f.held ++ rest, eof⟩ := by
  have hlowest : rules.precedence eof.kind = .lowest := he ▸ hr.precedence_eof
  have hlead {levels : Nat} {floor : Precedence} {c d : Cursor} {e : Diagnostic}
      (h : Reader.lead (Reader.expression rules levels) rules c = .error e d) :
      Reader.expression rules (levels + 1) floor c = .error e d :=
    Reader.expression_succ_eq_error.mpr (.inl h)
  induction h with
  | tooDeep => rfl
  | refused h => exact hlead (Reader.lead_eq_error.mpr (.inl ⟨h, rfl, rfl⟩))
  | unary ht h ih =>
    exact hlead (Reader.lead_eq_error.mpr (.inr (.inl ⟨ht, Reader.unary_eq_error.mpr ih⟩)))
  | group ho h ih =>
    refine hlead (Reader.lead_eq_error.mpr (.inr (.inr ⟨ho, ?_⟩)))
    exact Reader.grouping_eq_error.mpr (.inl ih)
  | @unclosed levels floor o w e ho hw hd hn hp hk =>
    have hs : Stops rules .lowest rest := by
      cases rest with
      | nil => exact stops_nil rules .lowest
      | cons t rest => exact stops_cons.mpr hp
    have hx := (hw.leadsTo hr he hd).expression_eq_ok hlowest hn hw.above_lowest hs
    refine hlead (Reader.lead_eq_error.mpr (.inr (.inr ⟨ho, Reader.grouping_eq_error.mpr ?_⟩)))
    exact .inr ⟨e, _, hx, hk, rfl, rfl, by simp [held, w.getLast_tokens]⟩
  | @binary levels floor l e o f cause hl hd hn ha hfloor hleft h ih =>
    have htight : l.Tight rules (o :: (f.tokens ++ rest)) := fun t ht => stops_cons.mpr (hleft t ht)
    rw [tokens, List.append_assoc, List.cons_append]
    refine hl.continues hr he hd hn ha htight fun bound hb => ?_
    cases bound with
    | nil => simp at hb
    | cons b bound =>
      exact Reader.extend_cons_eq_error.mpr ⟨hfloor, .inl (Reader.binary_eq_error.mpr ih)⟩

theorem expression_eq_error_iff (hr : rules.Regular) {eof : Token} (he : eof.kind = .eof)
    {levels : Nat} {floor : Precedence} {tokens : List Token} {e : Diagnostic} {d : Cursor} :
    Reader.expression rules levels floor ⟨tokens, eof⟩ = .error e d ↔
      ∃ f rest, Breaking rules eof levels floor tokens e d f rest := by
  constructor
  · exact fun h => breaksOff hr he levels h
  · rintro ⟨f, rest, rfl, hf, hp, rfl⟩
    rw [expression_eq_error_of_breaks hr he hf, ← hp]

end Fragment

end ScriptFrontEnd
