import ScriptFrontEnd.Proofs.Parser.Height
import ScriptFrontEnd.Proofs.Parser.Level
import ScriptFrontEnd.Proofs.Parser.OptionalSemicolon
import ScriptFrontEnd.Proofs.Token.Semicolons

namespace ScriptFrontEnd

namespace Phrase

variable {rules : Rules} {g : Position → Position} {w : Phrase} {e : Expr}

def relocate (g : Position → Position) : Phrase → Phrase
  | leaf token => leaf (token.relocate g)
  | unary operator operand => unary (operator.relocate g) (operand.relocate g)
  | binary left operator right =>
    binary (left.relocate g) (operator.relocate g) (right.relocate g)
  | group opening inner closing =>
    group (opening.relocate g) (inner.relocate g) (closing.relocate g)

theorem tokens_relocate (w : Phrase) :
    (w.relocate g).tokens = w.tokens.map (Token.relocate g) := by
  induction w with
  | leaf _ => rfl
  | unary _ _ ih => simp [relocate, tokens, ih]
  | binary _ _ _ ihl ihr => simp [relocate, tokens, ihl, ihr]
  | group _ _ _ ih => simp [relocate, tokens, ih]

theorem operators_relocate (w : Phrase) :
    (w.relocate g).operators = w.operators.map (Token.relocate g) := by
  induction w with
  | leaf _ => rfl
  | unary _ _ _ => rfl
  | binary _ _ _ ihl ihr => simp [relocate, operators, ihl, ihr]
  | group _ _ _ _ => rfl

theorem nesting_relocate (w : Phrase) : (w.relocate g).nesting = w.nesting := by
  induction w with
  | leaf _ => rfl
  | unary _ _ ih => simp [relocate, nesting, ih]
  | binary _ _ _ ihl ihr => simp [relocate, nesting, ihl, ihr]
  | group _ _ _ ih => simp [relocate, nesting, ih]

theorem WellFormed.relocate (h : w.WellFormed rules) : (w.relocate g).WellFormed rules := by
  induction w with
  | leaf _ => exact h
  | unary _ _ ih =>
    obtain ⟨ht, hw, ha⟩ := h
    refine ⟨ht, ih hw, ?_⟩
    simpa [Above, operators_relocate] using ha
  | binary _ _ _ ihl ihr =>
    obtain ⟨hl, hr, ho, hleft, hright⟩ := h
    refine ⟨ihl hl, ihr hr, ho, ?_, ?_⟩
    · simpa [operators_relocate] using hleft
    · simpa [Above, operators_relocate] using hright
  | group _ _ _ ih => exact ⟨h.1, h.2.1, ih h.2.2⟩

theorem Denotes.relocate (h : w.Denotes e) :
    (w.relocate g).Denotes (e.mapTokens (Token.relocate g)) := by
  induction h with
  | identifier hk => exact .identifier hk
  | integer hk hv => exact .integer hk hv
  | isTrue hk => exact .isTrue hk
  | isFalse hk => exact .isFalse hk
  | unary _ ih => exact .unary ih
  | binary _ _ ihl ihr => exact .binary ihl ihr
  | group _ ih => exact .group ih

section Sentence

variable {source : String} {file : Option String}

theorem WellFormed.opens_iff (hw : w.WellFormed .standard) (hd : w.Denotes e)
    (htokens : (Cursor.ofSource source file).ahead = w.tokens) (hn : w.nesting ≤ nestingLimit)
    {n : Nat} :
    (∃ r, Evaluates .standard (.whole .lowest) 0 (.ofSource source file) n r) ↔
      n = w.nesting := by
  have hcursor : Cursor.ofSource source file =
      ⟨w.tokens ++ [], (Cursor.ofSource source file).eof⟩ := by
    rw [List.append_nil, ← htokens]
  rw [hcursor]
  exact hw.evaluates_iff Rules.regular_standard rfl hd (by simpa using hn) hw.above_lowest
    (stops_nil _ _)

end Sentence

end Phrase

theorem exists_phrase_of_parse {source : String} {file : Option String}
    (hsemicolon : ';' ∉ source.toList) {t : Token} {e : Expr}
    (h : parse source file = (⟨[.expression t e]⟩, [])) :
    ∃ w : Phrase, (Cursor.ofSource source file).ahead = w.tokens ∧ w.WellFormed .standard ∧
      w.Denotes e ∧ w.nesting ≤ nestingLimit := by
  have hnone : ∀ u ∈ (Cursor.ofSource source file).ahead, u.kind ≠ .semicolon := by
    have hcount := countP_tokens source file
    rw [List.count_eq_zero.mpr hsemicolon, List.countP_eq_zero] at hcount
    exact fun u hu hk => hcount u hu (decide_eq_true hk)
  obtain ⟨rest, hsegment, hnil⟩ := segments_cons.mp (parse_eq_iff_segments.mp h)
  obtain rfl : rest = [] := by
    cases hnil
    rfl
  obtain ⟨-, -, w, more, hw, hmore⟩ := segment_expression_iff.mp hsegment
  cases more with
  | nil => exact ⟨w, by simpa using hw.split, hw.wellFormed, hw.denotes, hw.nesting_le⟩
  | cons s more =>
    have hs : s.kind ≠ .semicolon := hnone s (by simp [hw.split])
    rw [dropSemicolon, if_neg hs] at hmore
    cases hmore

namespace Cursor

theorem exists_ahead_parenthesised (source : String) (file : Option String) :
    ∃ o c : Token, o.kind = .openParen ∧ c.kind = .closeParen ∧
      (ofSource ("(" ++ source ++ ")") file).ahead =
        o :: ((ofSource source file).ahead.map (Token.shift 1) ++ [c]) := by
  obtain ⟨o, ho, hopen⟩ :=
    exists_ahead_ofSource "(" .openParen (bareTokens_of_punctuation (by decide)) file
  obtain ⟨c, hc, hclose⟩ :=
    exists_ahead_ofSource ")" .closeParen (bareTokens_of_punctuation (by decide)) file
  have hbehind : ¬ Fuses (units "(") (units source) :=
    not_fuses_of_last (c := '(') rfl (by decide)
  have hbefore : ¬ Fuses (units ("(" ++ source)) (units ")") :=
    not_fuses_of_head (d := ')') rfl (by decide)
  refine ⟨o, c.relocate (Position.shift ("(" ++ source).utf8ByteSize), ho, hc, ?_⟩
  rw [ofSource_append hbefore, ofSource_append hbehind]
  simp only [followedBy, relocate, hopen, hclose]
  rfl

end Cursor

theorem parse_parenthesised {source : String} {file : Option String}
    (hsemicolon : ';' ∉ source.toList) {t : Token} {e : Expr}
    (h : parse source file = (⟨[.expression t e]⟩, [])) :
    let read := parse ("(" ++ source ++ ")") file
    let tooDeep := ∃ d ∈ read.2.head?, d.cause = .nestingTooDeep 256
    ((∃ o : Token, o.kind = .openParen ∧
        read = (⟨[.expression o (e.mapTokens (Token.shift 1))]⟩, [])) ∨ tooDeep) ∧
      (tooDeep ↔
        ∃ r, Evaluates .standard (.whole .lowest) 0 (.ofSource source file) 256 r) := by
  intro read tooDeep
  obtain ⟨w, htokens, hw, hd, hn⟩ := exists_phrase_of_parse hsemicolon h
  obtain ⟨o, c, ho, hc, hahead⟩ := Cursor.exists_ahead_parenthesised source file
  let v : Phrase := .group o (w.relocate (Position.shift 1)) c
  have hv : v.WellFormed .standard := ⟨congrArg Rules.standard.operand ho, hc, hw.relocate⟩
  have hvd : v.Denotes (e.mapTokens (Token.shift 1)) := .group hd.relocate
  have hvn : v.nesting = w.nesting + 1 := congrArg (· + 1) w.nesting_relocate
  have hvtokens : (Cursor.ofSource ("(" ++ source ++ ")") file).ahead = v.tokens := by
    rw [hahead, htokens]
    exact congrArg (fun inner => o :: (inner ++ [c])) w.tokens_relocate.symm
  rw [hw.opens_iff hd htokens hn]
  rcases Nat.lt_or_eq_of_le hn with hlt | heq
  · have hread : read = (⟨[.expression o (e.mapTokens (Token.shift 1))]⟩, []) :=
      hv.parse_eq hvd hvtokens (by omega) rfl
    refine ⟨.inl ⟨o, ho, hread⟩, ?_, fun heq => absurd heq.symm (Nat.ne_of_lt hlt)⟩
    rintro ⟨d, hd, -⟩
    rw [hread] at hd
    cases hd
  · have hdeep : tooDeep := hv.nestingTooDeep_of_lt hvd hvtokens (by omega)
    exact ⟨.inr hdeep, iff_of_true hdeep heq.symm⟩

theorem parse_parenthesised_signs :
    let source := String.ofList (List.replicate 255 '-' ++ ['1'])
    ';' ∉ source.toList ∧ (∃ t e, parse source none = (⟨[.expression t e]⟩, [])) ∧
      ∃ d ∈ (parse ("(" ++ source ++ ")") none).2.head?, d.cause = .nestingTooDeep 256 := by
  intro source
  let signs := Token.marks "shell" 0 (List.replicate 255 '-')
  let w := (Phrase.one "shell" 255).signed signs
  have hsigns : ∀ t ∈ signs, Rules.standard.operand t.kind = some .unary :=
    Token.forall_mem_marks_replicate _ _ (fun _ => rfl) _
  have hw : w.WellFormed .standard :=
    ((Phrase.wellFormed_one _ _).signed (fun _ => nofun) hsigns).1
  have hd : w.Denotes ((Expr.one "shell" 255).signed signs) := (Phrase.denotes_one _ _).signed signs
  have hn : w.nesting = 256 := by
    rw [Phrase.nesting_signed, Token.length_marks, List.length_replicate]
    rfl
  have htokens : (Cursor.ofSource source none).ahead = w.tokens := by
    rw [Cursor.ahead_ofSource, (separate_signs 255).dropLast_tokenize, Token.marks_append,
      Phrase.tokens_signed, List.length_replicate]
    rfl
  have hsemicolon : ';' ∉ source.toList := by
    rw [String.toList_ofList, List.mem_append, List.mem_replicate]
    decide
  have hhead : w.tokens.head? = some ((Expr.one "shell" 255).signed signs).token :=
    Phrase.head?_tokens_signed signs rfl
  have hread := hw.parse_eq hd htokens (Nat.le_of_eq hn) hhead
  have hopens := (hw.opens_iff hd htokens (Nat.le_of_eq hn)).mpr hn.symm
  exact ⟨hsemicolon, ⟨_, _, hread⟩, (parse_parenthesised hsemicolon hread).2.mpr hopens⟩

end ScriptFrontEnd
