import Mathlib.Data.List.Chain
import Mathlib.Data.List.Forall2
import ScriptFrontEnd.Proofs.Parser.Relocation
import ScriptFrontEnd.Proofs.Tree.Written

namespace ScriptFrontEnd

namespace Statement

def textNesting : Statement → Nat
  | letBinding _ _ value => (value.map Expr.textNesting).getD 0
  | returning _ value => (value.map Expr.textNesting).getD 0
  | expression _ e => e.textNesting

theorem textNesting_mapTokens (f : Token → Token) (s : Statement) :
    (s.mapTokens f).textNesting = s.textNesting := by
  have hcomp : Expr.textNesting ∘ Expr.mapTokens f = Expr.textNesting :=
    funext (Expr.textNesting_mapTokens f)
  cases s with
  | letBinding _ _ _ => simp [mapTokens, textNesting, hcomp]
  | returning _ _ => simp [mapTokens, textNesting, hcomp]
  | expression _ e => exact e.textNesting_mapTokens f

def Alike : Statement → Statement → Prop
  | expression _ e, expression _ f => e.mapTokens Token.unplaced = f.mapTokens Token.unplaced
  | s, s' => s.mapTokens Token.unplaced = s'.mapTokens Token.unplaced

theorem alike_unplaced_right (s s' : Statement) :
    s.Alike (s'.mapTokens Token.unplaced) ↔ s.Alike s' := by
  have hidem : Token.unplaced ∘ Token.unplaced = Token.unplaced := rfl
  cases s <;> cases s' <;>
    simp [Alike, mapTokens, Expr.mapTokens_mapTokens, hidem, Identifier.mapToken, Function.comp_def]

theorem alike_unplaced_left (s s' : Statement) :
    (s.mapTokens Token.unplaced).Alike s' ↔ s.Alike s' := by
  have hidem : Token.unplaced ∘ Token.unplaced = Token.unplaced := rfl
  cases s <;> cases s' <;>
    simp [Alike, mapTokens, Expr.mapTokens_mapTokens, hidem, Identifier.mapToken, Function.comp_def]

theorem alike_expression_iff {t : Token} {e : Expr} {s : Statement} :
    Alike (expression t e) s ↔
      ∃ t' e', s = expression t' e' ∧ e.mapTokens Token.unplaced = e'.mapTokens Token.unplaced := by
  cases s with
  | expression t' e' => simp [Alike]
  | letBinding _ _ _ => simp [Alike, mapTokens]
  | returning _ _ => simp [Alike, mapTokens]

end Statement

theorem Segment.exists_phrase {rules : Rules} {limit : Nat} {tokens rest : List Token} {t : Token}
    {e : Expr} (h : Segment rules limit tokens (.expression t e) rest) :
    ∃ (w : Phrase) (after : List Token), tokens = w.tokens ++ after ∧ w.WellFormed rules ∧
      w.Denotes e := by
  cases h with
  | terminated _ _ hwf hd => exact ⟨_, _, rfl, hwf, hd⟩
  | unterminated _ _ hwf hd => exact ⟨_, _, rfl, hwf, hd⟩

theorem Segment.phrase_inv {limit : Nat} {w : Phrase} {s : Statement} {rest rest' : List Token}
    (hw : w.WellFormed .standard) (hrest : Begins rest)
    (h : Segment .standard limit (w.tokens ++ rest) s rest') :
    rest' = rest ∧ w.nesting ≤ limit := by
  obtain ⟨t, more, ht⟩ := List.exists_cons_of_ne_nil w.tokens_ne_nil
  have hexpr := hw.statementRule_eq ht
  have hstops : Stops .standard .lowest rest :=
    Rules.stops_standard_iff.mpr fun u hu => (hrest u hu).2
  have hunique {v : Phrase} {after : List Token} (hv : v.WellFormed .standard)
      (hs : Stops .standard .lowest after) (he : w.tokens ++ rest = v.tokens ++ after) :
      w = v ∧ rest = after :=
    hw.unique_of_append Rules.regular_standard hv hw.above_lowest hv.above_lowest hstops hs he
  -- the first token decides the statement, and precedence the end of its phrase
  generalize htokens : w.tokens ++ rest = tokens at h
  cases h with
  | letBinding hlet =>
    rw [ht] at htokens
    obtain ⟨rfl, -⟩ := List.cons.inj htokens
    rw [hexpr] at hlet
    cases hlet
  | returning hreturn =>
    rw [ht] at htokens
    obtain ⟨rfl, -⟩ := List.cons.inj htokens
    rw [hexpr] at hreturn
    cases hreturn
  | terminated _ _ hwf _ _ hs hstop =>
    obtain ⟨rfl, rfl⟩ := hunique hwf hstop htokens
    exact absurd hs (hrest _ rfl).1
  | unterminated _ _ hwf _ hn _ hstop =>
    obtain ⟨rfl, rfl⟩ := hunique hwf hstop htokens
    exact ⟨rfl, hn⟩

theorem Phrase.Denotes.head_eq {w : Phrase} {e : Expr} {u v : Token} {more : List Token}
    (hd : w.Denotes e) (hw : w.WellFormed .standard) (hwt : w.tokens = u :: more)
    (hu : u.kind ≠ .openParen) (he : e.tokens = [v]) : u = v := by
  cases hd with
  | identifier _ => exact (List.cons.inj hwt).1.symm.trans (List.cons.inj he).1
  | integer _ _ => exact (List.cons.inj hwt).1.symm.trans (List.cons.inj he).1
  | isTrue _ => exact (List.cons.inj hwt).1.symm.trans (List.cons.inj he).1
  | isFalse _ => exact (List.cons.inj hwt).1.symm.trans (List.cons.inj he).1
  | @unary t w e hd => exact absurd (List.cons.inj he).2 e.tokens_ne_nil
  | @binary t w x e f hd hd' =>
    have hlen := congrArg List.length he
    have hpos := List.length_pos_iff.mpr f.tokens_ne_nil
    have hpos' := List.length_pos_iff.mpr e.tokens_ne_nil
    simp only [Expr.tokens, List.length_append, List.length_cons, List.length_nil] at hlen
    omega
  | @group o c w e hd =>
    obtain ⟨rfl, -⟩ := List.cons.inj hwt
    exact absurd ((Rules.operand_standard_eq_grouping_iff _).mp hw.1) hu

namespace Statement.Genuine

variable {s s' : Statement} {limit : Nat}

theorem exists_segment (h : s.Genuine) (limit : Nat) {rest : List Token} (hrest : Begins rest)
    (hn : s.textNesting ≤ limit) :
    ∃ s', Segment .standard limit (s.written ++ rest) s' rest ∧ s.Alike s' := by
  have hended : Skipped ([] ++ Token.ending :: rest) rest := .closed (by simp) rfl
  cases h with
  | @letBinding t n ht _ hname _ =>
    have ht := (Rules.statementRule_standard_eq_letBinding_iff _).mpr ht
    exact ⟨_, .letBinding ht hname rfl hended, rfl⟩
  | @returning t ht _ =>
    have hskipped : Skipped (t :: Token.ending :: rest) rest := hended.cons (by simp [ht])
    have ht := (Rules.statementRule_standard_eq_returning_iff _).mpr ht
    exact ⟨_, .returning ht hskipped, rfl⟩
  | @expression t e he =>
    have hw := he.wellFormed_phrase
    obtain ⟨u, more, hu⟩ := List.exists_cons_of_ne_nil e.phrase.tokens_ne_nil
    have hle : e.phrase.nesting ≤ limit := e.nesting_phrase ▸ hn
    have hstops := Rules.stops_standard_iff.mpr fun v hv => (hrest v hv).2
    have hnext : ∀ v ∈ rest.head?, v.kind ≠ .semicolon := fun v hv => (hrest v hv).1
    exact ⟨_, hw.segment he.denotes_phrase hle hu hnext hstops, rfl⟩

theorem segment_inv (h : s.Genuine) {rest rest' : List Token} (hrest : Begins rest)
    (hseg : Segment .standard limit (s.written ++ rest) s' rest') :
    rest' = rest ∧ s.textNesting ≤ limit := by
  have hzero : 0 ≤ limit := Nat.zero_le limit
  cases h with
  | letBinding ht hts hn hns =>
    obtain ⟨_, hown, -⟩ := (letBinding ht hts hn hns).exists_segment limit hrest hzero
    exact ⟨(hseg.unique Rules.regular_standard hown).2, hzero⟩
  | returning ht hts =>
    obtain ⟨_, hown, -⟩ := (returning ht hts).exists_segment limit hrest hzero
    exact ⟨(hseg.unique Rules.regular_standard hown).2, hzero⟩
  | @expression t e he =>
    have h := Segment.phrase_inv he.wellFormed_phrase hrest hseg
    rwa [e.nesting_phrase] at h

theorem not_alike_of_runsInto (h : s.Genuine) (h' : s'.Genuine) (hr : s.RunsInto s')
    (more : List Char) {read : Statement} {rest : List Token}
    (hseg : Segment .standard limit
      (bareTokens (units s.render ++ (units s'.render ++ more))) read rest) : ¬ s.Alike read := by
  obtain ⟨x, xs, hx, hkind, hlt⟩ := h.exists_longer_lexeme h' hr more
  rw [bareTokens, hx, List.map_cons] at hseg
  intro halike
  obtain ⟨t, e, v, rfl, hv, hrender, hspelled⟩ := h.exists_token_of_runsInto hr
  obtain ⟨t', e', rfl, he'⟩ := alike_expression_iff.mp halike
  obtain ⟨w, after, htokens, hw, hd⟩ := hseg.exists_phrase
  obtain ⟨u, front, hu⟩ := List.exists_cons_of_ne_nil w.tokens_ne_nil
  rw [hu, List.cons_append] at htokens
  obtain ⟨rfl, -⟩ := List.cons.inj htokens
  have hleaf : e'.tokens.map Token.unplaced = [v.unplaced] := by
    rw [← Expr.tokens_mapTokens, ← he', Expr.tokens_mapTokens, hv]
    rfl
  obtain ⟨v', hv', hvv⟩ := List.map_eq_singleton_iff.mp hleaf
  -- what is read would have to be the only token of `s`, which is shorter than the first lexeme
  have hxv : x.unplaced = v' := hd.head_eq hw hu hkind hv'
  have htext : x.text = v.text := congrArg Token.text (hxv ▸ hvv : x.unplaced.unplaced = v.unplaced)
  have hlen : x.units.length = (units (Statement.expression t e).render).length := by
    rw [render, hrender, hspelled.units_text, ← htext, Lexeme.text, String.toList_ofList]
  omega

end Statement.Genuine

theorem Program.render_cons (s : Statement) (ss : List Statement) :
    Program.render ⟨s :: ss⟩ = s.render ++ Program.render ⟨ss⟩ := by
  simp [Program.render, String.join_cons]

def ReadsAgain (limit : Nat) (ss : List Statement) : Prop :=
  ∃ read, Segments .standard limit (bareTokens (units (Program.render ⟨ss⟩))) read ∧
    List.Forall₂ Statement.Alike ss read

section Neighbours

variable {limit : Nat} {s : Statement} {ss : List Statement}
  (hs : s.Genuine) (hss : ∀ s ∈ ss, s.Genuine)

include hss

theorem begins_render : Begins (bareTokens (units (Program.render ⟨ss⟩))) := by
  cases ss with
  | nil =>
    have hempty : bareTokens (units (Program.render ⟨[]⟩)) = [] := bareTokens_nil
    simp [hempty, Begins]
  | cons s ss =>
    obtain ⟨c, cs, hc, hopens, -⟩ := (hss s (List.mem_cons_self ..)).exists_head_render
    rw [Program.render_cons, units_append, hc, List.cons_append]
    exact begins_of_opens hopens _

include hs

theorem fuses_render_iff :
    Fuses (units s.render) (units (Program.render ⟨ss⟩)) ↔ ∃ s' ∈ ss.head?, s.RunsInto s' := by
  cases ss with
  | nil =>
    have hempty : units (Program.render ⟨[]⟩) = [] := rfl
    simp [hempty, Fuses]
  | cons s' ss =>
    rw [Program.render_cons, units_append,
      hs.fuses_iff_runsInto (hss s' (List.mem_cons_self ..))]
    simp

theorem not_readsAgain_of_runsInto {s' : Statement} (hs' : s' ∈ ss.head?) (hr : s.RunsInto s') :
    ¬ ReadsAgain limit (s :: ss) := by
  obtain ⟨later, rfl⟩ := List.head?_eq_some_iff.mp hs'
  rintro ⟨read, hread, halike⟩
  cases halike with
  | cons halike _ =>
    obtain ⟨rest, hseg, -⟩ := segments_cons.mp hread
    rw [Program.render_cons, units_append, Program.render_cons, units_append] at hseg
    have hs' : s'.Genuine := hss s' (List.mem_cons_self ..)
    exact hs.not_alike_of_runsInto hs' hr _ hseg halike

theorem readsAgain_cons_iff (hapart : ¬ ∃ s' ∈ ss.head?, s.RunsInto s') :
    ReadsAgain limit (s :: ss) ↔ s.textNesting ≤ limit ∧ ReadsAgain limit ss := by
  have hsplit : bareTokens (units (Program.render ⟨s :: ss⟩)) =
      (s.mapTokens Token.unplaced).written ++ bareTokens (units (Program.render ⟨ss⟩)) := by
    have hf := mt (fuses_render_iff hs hss).mp hapart
    rw [Program.render_cons, units_append, bareTokens, lexemes_append hf, List.map_append,
      ← hs.bareTokens_render]
    rfl
  have hbegins := begins_render hss
  rw [ReadsAgain, hsplit, ← s.textNesting_mapTokens Token.unplaced]
  constructor
  · rintro ⟨read, hread, halike⟩
    cases halike with
    | cons _ halikes =>
      obtain ⟨rest, hseg, hread⟩ := segments_cons.mp hread
      obtain ⟨rfl, hn⟩ := hs.unplaced.segment_inv hbegins hseg
      exact ⟨hn, _, hread, halikes⟩
  · rintro ⟨hn, read, hread, halikes⟩
    obtain ⟨s', hseg, halike⟩ := hs.unplaced.exists_segment limit hbegins hn
    exact ⟨s' :: read, .cons hseg hread, .cons ((s.alike_unplaced_left s').mp halike) halikes⟩

end Neighbours

theorem readsAgain_iff {limit : Nat} {ss : List Statement} (hss : ∀ s ∈ ss, s.Genuine) :
    ReadsAgain limit ss ↔
      (∀ s ∈ ss, s.textNesting ≤ limit) ∧ ss.IsChain fun s s' => ¬ s.RunsInto s' := by
  induction ss with
  | nil =>
    have hempty : bareTokens (units (Program.render ⟨[]⟩)) = [] := bareTokens_nil
    simp [ReadsAgain, hempty, Segments.nil]
  | cons s ss ih =>
    obtain ⟨hs, hss⟩ := List.forall_mem_cons.mp hss
    rw [List.forall_mem_cons, List.isChain_cons]
    by_cases hr : ∃ s' ∈ ss.head?, s.RunsInto s'
    · obtain ⟨s', hs', hr⟩ := hr
      refine iff_of_false (not_readsAgain_of_runsInto hs hss hs' hr) ?_
      rintro ⟨-, hapart, -⟩
      exact hapart s' hs' hr
    · have hapart : ∀ s' ∈ ss.head?, ¬ s.RunsInto s' := fun s' hs' h => hr ⟨s', hs', h⟩
      rw [readsAgain_cons_iff hs hss hr, ih hss, and_assoc]
      exact and_congr_right fun _ => and_congr_right fun _ => (and_iff_right hapart).symm

theorem segments_iff_parse (source : String) (file : Option String) (ss : List Statement) :
    Segments .standard nestingLimit (bareTokens (units source)) ss ↔
      (parse source file).2 = [] ∧
        (parse source file).1.statements.map (Statement.mapTokens Token.unplaced) = ss := by
  let g : Position → Position := fun _ => .nowhere
  let l := Lexer.ofSource source file
  have hc : (Cursor.ofLexer l).relocate g =
      ⟨bareTokens (units source), l.eofToken.relocate g⟩ := by
    have htokens : l.tokens.map (Token.relocate g) = bareTokens (units source) :=
      l.map_unplaced_tokens
    rw [Cursor.relocate, Cursor.ofLexer, htokens]
  have hout := attempts_relocate (g := g) .standard nestingLimit (Cursor.ofLexer l)
  have heof : (l.eofToken.relocate g).kind = .eof := rfl
  rw [hc] at hout
  rw [segments_iff_attempts Rules.regular_standard heof, hout, failed_relocate, succeeded_relocate,
    List.map_eq_nil_iff]
  rfl

theorem readsAgain_iff_parse (file : Option String) (ss : List Statement) :
    ReadsAgain nestingLimit ss ↔ (parse (Program.render ⟨ss⟩) file).2 = [] ∧
      List.Forall₂ Statement.Alike ss (parse (Program.render ⟨ss⟩) file).1.statements := by
  constructor
  · rintro ⟨read, hread, halike⟩
    obtain ⟨hclean, rfl⟩ := (segments_iff_parse _ file read).mp hread
    refine ⟨hclean, (List.forall₂_map_right_iff.mp halike).imp ?_⟩
    intro s s' h
    exact (s.alike_unplaced_right s').mp h
  · rintro ⟨hclean, halike⟩
    refine ⟨_, (segments_iff_parse _ file _).mpr ⟨hclean, rfl⟩, ?_⟩
    refine List.forall₂_map_right_iff.mpr (halike.imp ?_)
    intro s s' h
    exact (s.alike_unplaced_right s').mpr h

theorem parse_render_iff (source : String) (file file' : Option String) :
    ((parse (parse source file).1.render file').2 = [] ∧
        List.Forall₂ Statement.Alike (parse source file).1.statements
          (parse (parse source file).1.render file').1.statements) ↔
      (∀ s ∈ (parse source file).1.statements, s.textNesting ≤ nestingLimit) ∧
        (parse source file).1.statements.IsChain fun s s' => ¬ s.RunsInto s' := by
  have hgenuine : ∀ s ∈ (parse source file).1.statements, s.Genuine :=
    fun s hs => genuine_of_mem_parse hs
  exact (readsAgain_iff_parse file' (parse source file).1.statements).symm.trans
    (readsAgain_iff hgenuine)

end ScriptFrontEnd
