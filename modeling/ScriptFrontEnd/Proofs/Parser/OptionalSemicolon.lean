import ScriptFrontEnd.Proofs.Parser.Locality
import ScriptFrontEnd.Proofs.Parser.Synchronisation
import ScriptFrontEnd.Proofs.Tree.Written
import ScriptFrontEnd.Proofs.Tree.Yield

namespace ScriptFrontEnd

variable {limit : Nat}

theorem segment_expression_iff {rules : Rules} {tokens rest : List Token} {t : Token} {e : Expr} :
    Segment rules limit tokens (.expression t e) rest ↔
      tokens.head? = some t ∧ rules.statementRule t.kind = .expression ∧
        ∃ w more, Phrase.Reading rules limit .lowest tokens e w more ∧
          rest = dropSemicolon more := by
  constructor
  · intro h
    cases h with
    | @terminated w e t s more rest ht hw hwf hd hn hs hstops =>
      exact ⟨by simp [hw], ht, w, _, ⟨rfl, hwf, hd, hn, hwf.above_lowest, hstops⟩, (if_pos hs).symm⟩
    | @unterminated w e t more rest ht hw hwf hd hn hrest hstops =>
      exact ⟨by simp [hw], ht, w, _, ⟨rfl, hwf, hd, hn, hwf.above_lowest, hstops⟩,
        (dropSemicolon_eq_self hrest).symm⟩
  · rintro ⟨hhead, ht, w, more, ⟨rfl, hwf, hd, hn, -, hstops⟩, rfl⟩
    obtain ⟨u, tokens, hw⟩ := List.exists_cons_of_ne_nil w.tokens_ne_nil
    obtain rfl : u = t := by simpa [hw] using hhead
    cases more with
    | nil => exact .unterminated ht hw hwf hd hn (by simp) hstops
    | cons s rest =>
      by_cases hs : s.kind = .semicolon
      · rw [dropSemicolon, if_pos hs]
        exact .terminated ht hw hwf hd hn hs hstops
      · rw [dropSemicolon, if_neg hs]
        exact .unterminated ht hw hwf hd hn (by simpa using hs) hstops

theorem Rules.eq_dash_of_operand {k : Kind} (hk : k ∈ Kind.operators)
    (h : standard.operand k ≠ none) : k = .dash := by
  revert k
  decide

theorem Segment.begins {tokens rest : List Token} {s : Statement}
    (h : Segment .standard limit tokens s rest) (hdash : ∀ t ∈ tokens.head?, t.kind ≠ .dash) :
    Begins tokens := by
  have hexpr {w : Phrase} (hwf : w.WellFormed .standard) (after : List Token)
      (hdash : ∀ t ∈ (w.tokens ++ after).head?, t.kind ≠ .dash) : Begins (w.tokens ++ after) := by
    obtain ⟨t, more, hw⟩ := List.exists_cons_of_ne_nil w.tokens_ne_nil
    have hoperand := hwf.operand_ne_none hw
    rw [hw] at hdash ⊢
    rintro u ⟨⟩
    exact ⟨Rules.ne_semicolon_of_operand hoperand,
      fun hu => hdash _ rfl (Rules.eq_dash_of_operand hu hoperand)⟩
  cases h with
  | letBinding ht hn ha hs =>
    simp [Begins, (Rules.statementRule_standard_eq_letBinding_iff _).mp ht, Kind.operators]
  | returning ht hs =>
    simp [Begins, (Rules.statementRule_standard_eq_returning_iff _).mp ht, Kind.operators]
  | terminated ht hw hwf => exact hexpr hwf _ hdash
  | unterminated ht hw hwf => exact hexpr hwf _ hdash

theorem not_segment_of_operator {w : Phrase} {e : Expr} (hw : w.WellFormed .standard)
    (hd : w.Denotes e) {o t : Token} {more rest : List Token} (ho : o.kind ∈ Kind.operators) :
    ¬ Segment .standard limit (w.tokens ++ o :: more) (.expression t e) rest := by
  intro h
  obtain ⟨-, -, v, after, hv, -⟩ := segment_expression_iff.mp h
  have hgoes : after ≠ o :: more := by
    rintro rfl
    exact Rules.stops_standard_iff.mp hv.stops o rfl ho
  rcases List.append_eq_append_iff.mp hv.split with
    ⟨between, hlonger, hafter⟩ | ⟨between, hshorter, rfl⟩
  -- a longer phrase has the operator in it, which the expression has not
  · cases between with
    | nil => exact hgoes hafter.symm
    | cons o' between =>
      obtain ⟨rfl, -⟩ := List.cons.inj hafter
      have hparen : ¬ o.IsParen := by
        rintro (hk | hk)
        all_goals
          rw [hk] at ho
          exact absurd ho (by decide)
      have hsame := hv.denotes.withoutParens_tokens hv.wellFormed
      rw [hlonger, withoutParens_append, withoutParens_cons_of_not_paren hparen,
        ← hd.withoutParens_tokens hw] at hsame
      simp at hsame
  -- a shorter one would have stopped at one of its own tokens
  · have hstops : Stops .standard .lowest between := by
      cases between with
      | nil => exact stops_nil _ _
      | cons u between => exact stops_cons.mpr (stops_cons.mp hv.stops)
    obtain ⟨-, rfl⟩ := hw.unique_of_append Rules.regular_standard hv.wellFormed hw.above_lowest
      hv.above (stops_nil _ _) hstops ((List.append_nil _).trans hshorter)
    exact hgoes rfl

theorem segments_iff_attempts_eq {rules : Rules} (hr : rules.Regular) {eof : Token}
    (he : eof.kind = .eof) {tokens : List Token} {ss : List Statement} :
    Segments rules limit tokens ss ↔ (attempts rules limit ⟨tokens, eof⟩).1 = ss.map .ok := by
  constructor
  · exact fun h => congrArg Prod.fst (h.attempts_eq hr he)
  · intro h
    rw [segments_iff_attempts hr he, h]
    exact ⟨failed_map_ok ss, succeeded_map_ok ss⟩

section

variable {eof s t : Token} {e : Expr} {front rest : List Token} {d : Cursor}

theorem Segment.exists_phrase_before (hs : s.kind = .semicolon) {passed tokens : List Token}
    (h : Segment .standard limit tokens (.expression t e) rest)
    (hsplit : front ++ s :: rest = passed ++ tokens) :
    ∃ (w : Phrase) (more : List Token), w.tokens = t :: more ∧ tokens = w.tokens ++ s :: rest ∧
      front = passed ++ w.tokens ∧ w.WellFormed .standard ∧ w.Denotes e ∧ w.nesting ≤ limit := by
  obtain ⟨hhead, -, w, more, hw, hmore⟩ := segment_expression_iff.mp h
  rw [hw.split, List.head?_append_of_ne_nil _ w.tokens_ne_nil] at hhead
  obtain ⟨tail, htail⟩ := List.head?_eq_some_iff.mp hhead
  rw [hw.split, ← List.append_assoc] at hsplit
  have hcases : rest = more ∨ ∃ m, more = m :: rest := by
    cases more with
    | nil => exact .inl hmore
    | cons m more =>
      rw [dropSemicolon] at hmore
      split at hmore
      · exact .inr ⟨m, by rw [hmore]⟩
      · exact .inl hmore
  rcases hcases with rfl | ⟨m, rfl⟩
  · have hlast : front ++ [s] = passed ++ w.tokens := by
      rw [List.append_cons] at hsplit
      exact List.append_cancel_right hsplit
    have hlast := congrArg List.getLast? hlast
    rw [List.getLast?_concat, List.getLast?_append_of_ne_nil _ w.tokens_ne_nil] at hlast
    have huses := hw.wellFormed.uses s (List.mem_of_getLast? hlast.symm)
    exact absurd huses (Rules.not_uses_standard (hs ▸ List.mem_cons_self ..))
  · obtain ⟨hfront, hcons⟩ := List.append_inj' hsplit rfl
    obtain ⟨rfl, -⟩ := List.cons.inj hcons
    exact ⟨w, tail, htail, hw.split, hfront, hw.wellFormed, hw.denotes, hw.nesting_le⟩

theorem Tried.segments_without_semicolon_iff {ss : List Statement} (he : eof.kind = .eof)
    (hs : s.kind = .semicolon) (h : Segments .standard limit (front ++ s :: rest) ss)
    (htried : Tried .standard limit ⟨front ++ s :: rest, eof⟩ d)
    (hread : attempt .standard limit d = (.ok (.expression t e), ⟨rest, eof⟩)) :
    Segments .standard limit (front ++ rest) ss ↔ ∀ u ∈ rest.head?, u.kind ≠ .dash := by
  obtain ⟨ahead, eof'⟩ := d
  obtain rfl : eof = eof' := htried.reaches.2.symm
  obtain ⟨u, tail, rfl⟩ := List.exists_cons_of_ne_nil htried.ne_nil
  obtain ⟨passed, outcomes, hsplit, hlocal⟩ := htried.exists_outcomes he rfl
  have hsplit : front ++ s :: rest = passed ++ u :: tail := hsplit
  obtain ⟨_, hsegment, hrest⟩ :=
    htried.exists_segment Rules.regular_standard he (congrArg Prod.fst hread)
  rw [hread] at hrest
  cases hrest
  obtain ⟨w, more, hfirst, hphrase, rfl, hw, hd, hn⟩ := hsegment.exists_phrase_before hs hsplit
  obtain rfl : u = t := by
    rw [hfirst] at hphrase
    exact (List.cons.inj hphrase).1
  have hwhole : (attempts .standard limit ⟨passed ++ w.tokens ++ s :: rest, eof⟩).1 =
      outcomes ++ .ok (.expression u e) :: (attempts .standard limit ⟨rest, eof⟩).1 := by
    rw [hsplit, hlocal tail eof he, attempts_of_attempt (List.cons_ne_nil u tail) hread]
  have hjoined : (attempts .standard limit ⟨passed ++ w.tokens ++ rest, eof⟩).1 =
      outcomes ++ (attempts .standard limit ⟨w.tokens ++ rest, eof⟩).1 := by
    rw [List.append_assoc, hfirst]
    exact hlocal (more ++ rest) eof he
  rw [segments_iff_attempts_eq Rules.regular_standard he] at h ⊢
  rw [hwhole] at h
  rw [hjoined, ← h, List.append_cancel_left_eq]
  constructor
  · intro hsame o ho hdash
    obtain ⟨after, rfl⟩ := List.head?_eq_some_iff.mp ho
    rw [hfirst, List.cons_append, attempts_cons] at hsame
    obtain ⟨rest', hagain, -⟩ := segment_of_attempt Rules.regular_standard he
      (Prod.ext (List.cons.inj hsame).1 rfl)
    rw [← List.cons_append, ← hfirst] at hagain
    exact not_segment_of_operator hw hd (by simp [hdash, Kind.operators]) hagain
  · intro hdash
    have hbegins : Begins rest := by
      obtain ⟨before, after, rfl, -, hafter⟩ := List.map_eq_append_iff.mp h.symm
      obtain ⟨_, ss, rfl, -, hafter⟩ := List.map_eq_cons_iff.mp hafter
      cases (segments_iff_attempts_eq Rules.regular_standard he).mpr hafter.symm with
      | nil => simp [Begins]
      | cons hnext _ => exact hnext.begins hdash
    have hstatement := hw.segment hd hn hfirst (fun v hv => (hbegins v hv).1)
      (Rules.stops_standard_iff.mpr fun v hv => (hbegins v hv).2)
    rw [attempts_of_attempt hstatement.ne_nil (hstatement.attempt_eq_ok Rules.regular_standard he)]

end

theorem parse_eq_iff_segments {source : String} {file : Option String} {ss : List Statement} :
    parse source file = (⟨ss⟩, []) ↔
      Segments .standard nestingLimit (Cursor.ofSource source file).ahead ss := by
  let c := Cursor.ofSource source file
  have heof : c.eof.kind = .eof := rfl
  rw [segments_iff_attempts Rules.regular_standard heof, parse_eq, Prod.mk.injEq, Program.mk.injEq,
    and_comm]

theorem Cursor.ofSource_around {c : Char}
    (hc : ¬ isWordChar c ∧ ¬ c.isDigit ∧ c ≠ '=' ∧ c ≠ '!') {text : String}
    (htext : units text = [c]) (front back : String) (file : Option String) :
    ofSource (front ++ text ++ back) file =
      ((ofSource front file).followedBy
          ((ofSource text file).relocate (Position.shift front.utf8ByteSize))).followedBy
        ((ofSource back file).relocate (Position.shift (front ++ text).utf8ByteSize)) := by
  obtain ⟨hword, hdigit, hequals, hbang⟩ := hc
  have hbefore : ¬ Fuses (units front) (units text) :=
    not_fuses_of_head (htext ▸ rfl) ⟨hword, hdigit, hequals⟩
  have hbehind : ¬ Fuses (units (front ++ text)) (units back) := by
    have hlast : (units (front ++ text)).getLast? = some c := by
      rw [units_append, htext, List.getLast?_concat]
    exact not_fuses_of_last hlast ⟨hword, hdigit, hequals, hbang⟩
  rw [ofSource_append hbehind, ofSource_append hbefore]

theorem Cursor.exists_ahead_ofSource (text : String) (k : Kind)
    (h : bareTokens (units text) = [⟨k, text, ⟨.nowhere, .nowhere⟩⟩]) (file : Option String) :
    ∃ t : Token, t.kind = k ∧ (ofSource text file).ahead = [t] := by
  obtain ⟨t, ht, hk⟩ := List.map_eq_singleton_iff.mp ((map_unplaced_ahead text file).trans h)
  exact ⟨t, congrArg Token.kind hk, ht⟩

theorem Cursor.exists_ofSource_semicolon (front back : String) (file : Option String) :
    ∃ s : Token, s.kind = .semicolon ∧ ofSource (front ++ ";" ++ back) file =
      ((ofSource front file).followedBy ⟨[s], s⟩).followedBy
        ((ofSource back file).relocate (Position.shift (front ++ ";").utf8ByteSize)) := by
  obtain ⟨s, hk, hs⟩ :=
    exists_ahead_ofSource ";" .semicolon (bareTokens_of_punctuation (by decide)) file
  have hc : ¬ isWordChar ';' ∧ ¬ ';'.isDigit ∧ ';' ≠ '=' ∧ ';' ≠ '!' := by decide
  refine ⟨s.relocate (Position.shift front.utf8ByteSize), hk, ?_⟩
  rw [ofSource_around hc rfl]
  simp [followedBy, relocate, hs]

theorem Cursor.ofSource_blank (front back : String) (file : Option String) :
    ofSource (front ++ " " ++ back) file = (ofSource front file).followedBy
      ((ofSource back file).relocate (Position.shift (front ++ " ").utf8ByteSize)) := by
  have hnone : bareTokens (units " ") = [] :=
    congrArg (List.map Lexeme.unplaced) ((lexemes_cons_of_blank rfl []).trans lexemes_nil)
  have hnil := List.map_eq_nil_iff.mp ((map_unplaced_ahead " " file).trans hnone)
  have hc : ¬ isWordChar ' ' ∧ ¬ ' '.isDigit ∧ ' ' ≠ '=' ∧ ' ' ≠ '!' := by decide
  rw [ofSource_around hc rfl]
  simp [followedBy, relocate, hnil]

theorem parse_without_semicolon_iff {front back : String} {file : Option String} {p : Program}
    (hclean : parse (front ++ ";" ++ back) file = (p, [])) {d : Cursor} {t : Token} {e : Expr}
    (htried : Tried .standard nestingLimit (.ofSource (front ++ ";" ++ back) file) d)
    (hread : attempt .standard nestingLimit d = (.ok (.expression t e),
      (Cursor.ofSource back file).relocate (Position.shift (front ++ ";").utf8ByteSize))) :
    parse (front ++ " " ++ back) file = (p, []) ↔
      ∀ u ∈ (tokenize back file).head?, u.kind ≠ .dash := by
  let moved := (Cursor.ofSource back file).relocate (Position.shift (front ++ ";").utf8ByteSize)
  have hmark : ∃ s, s.kind = .semicolon ∧ Cursor.ofSource (front ++ ";" ++ back) file =
      ⟨(Cursor.ofSource front file).ahead ++ s :: moved.ahead, moved.eof⟩ := by
    obtain ⟨s, hs, hmark⟩ := Cursor.exists_ofSource_semicolon front back file
    exact ⟨s, hs, by rw [List.append_cons, hmark]; rfl⟩
  have hblank : Cursor.ofSource (front ++ " " ++ back) file =
      ⟨(Cursor.ofSource front file).ahead ++ moved.ahead, moved.eof⟩ := by
    have hsize : (front ++ " ").utf8ByteSize = (front ++ ";").utf8ByteSize := by
      rw [String.utf8ByteSize_append, String.utf8ByteSize_append]
      rfl
    rw [Cursor.ofSource_blank, hsize]
    rfl
  obtain ⟨s, hs, hmark⟩ := hmark
  rw [parse_eq_iff_segments, hmark] at hclean
  rw [hmark] at htried
  rw [parse_eq_iff_segments, hblank, htried.segments_without_semicolon_iff rfl hs hclean hread]
  have htokens : tokenize back file =
      (Cursor.ofSource back file).ahead ++ [(Cursor.ofSource back file).eof] := rfl
  have heof : (Cursor.ofSource back file).eof.kind = .eof := rfl
  have hmoved : moved.ahead = (Cursor.ofSource back file).ahead.map (Token.relocate _) := rfl
  rw [htokens, hmoved]
  cases (Cursor.ofSource back file).ahead with
  | nil => simp [heof]
  | cons u more => simp

theorem parse_product_without_semicolon :
    let front := "let y = +; 1 * x"
    (parse (front ++ ";" ++ "!b") none).2 = [] ∧ (parse (front ++ ";" ++ "-b") none).2 = [] ∧
      parse (front ++ " " ++ "!b") none = parse (front ++ ";" ++ "!b") none ∧
      parse (front ++ " " ++ "-b") none ≠ parse (front ++ ";" ++ "-b") none := by
  intro front
  let token (kind : Kind) (text : String) (start stop : Nat) : Token :=
    ⟨kind, text, Span.ofOffsets start stop "shell"⟩
  let one := token .int "1" 11 12
  let e : Expr := .binary (token .star "*" 13 14) (.integer one 1) "*"
    (.identifier ⟨token .identifier "x" 15 16, "x"⟩)
  let c (back : String) := Cursor.ofSource (front ++ ";" ++ back) none
  let d (back : String) := (attempt .standard nestingLimit (c back)).2
  have hiff {back : String} (hclean : (parse (front ++ ";" ++ back) none).2 = [])
      (hstart : (c back).ahead ≠ [] ∧ (d back).ahead ≠ [])
      (hread : attempt .standard nestingLimit (d back) = (.ok (.expression one e),
        (Cursor.ofSource back none).relocate (Position.shift (front ++ ";").utf8ByteSize))) :
      parse (front ++ " " ++ back) none = parse (front ++ ";" ++ back) none ↔
        ∀ u ∈ (tokenize back none).head?, u.kind ≠ .dash := by
    have hparse : parse (front ++ ";" ++ back) none = ((parse (front ++ ";" ++ back) none).1, []) :=
      Prod.ext rfl hclean
    have h := parse_without_semicolon_iff hparse (.later hstart.1 (.here hstart.2)) hread
    rwa [← hparse] at h
  have hbang : (parse (front ++ ";" ++ "!b") none).2 = [] := by decide +kernel
  have hdash : (parse (front ++ ";" ++ "-b") none).2 = [] := by decide +kernel
  refine ⟨hbang, hdash, ?_, ?_⟩
  · exact (hiff hbang (by decide +kernel) (by decide +kernel)).mpr (by decide +kernel)
  · exact (hiff hdash (by decide +kernel) (by decide +kernel)).not.mpr (by decide +kernel)

end ScriptFrontEnd
