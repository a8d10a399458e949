import ScriptFrontEnd.Grammar.Level
import ScriptFrontEnd.Proofs.Grammar.Towers
import ScriptFrontEnd.Proofs.Parser.Ranking
import ScriptFrontEnd.Proofs.Parser.Sentence

namespace ScriptFrontEnd

namespace Phrase

variable {rules : Rules}

/-- The part `x` is the leftmost one of the first level beyond `levels`, and the fragment `f` is
what has been read in front of it. -/
structure TooDeep (rules : Rules) (levels : Nat) (floor : Precedence) (w : Phrase) (f : Fragment)
    (x : Phrase) : Prop where
  contains : w.Contains (levels + 1) f.tokens x
  leftmost : ∀ {front y}, w.Contains (levels + 1) front y → f.tokens.length ≤ front.length
  breaks : ∀ next, Breaks rules next levels floor f (.nestingTooDeep 256)

namespace TooDeep

variable {levels : Nat} {floor : Precedence} {w x : Phrase} {f : Fragment}

theorem whole : TooDeep rules 0 floor w .operand w :=
  ⟨.self, fun _ => Nat.zero_le _, fun _ => .tooDeep⟩

theorem unary {t : Token} (ht : rules.operand t.kind = some .unary)
    (h : TooDeep rules levels .unary w f x) :
    TooDeep rules (levels + 1) floor (.unary t w) (.unary t f) x where
  contains := .unary h.contains
  leftmost hy := by
    cases hy with
    | unary hy => exact Nat.succ_le_succ (h.leftmost hy)
  breaks next := .unary ht (h.breaks next)

theorem group {o c : Token} (ho : rules.operand o.kind = some .grouping)
    (h : TooDeep rules levels .lowest w f x) :
    TooDeep rules (levels + 1) floor (.group o w c) (.group o f) x where
  contains := .group h.contains
  leftmost hy := by
    cases hy with
    | group hy => exact Nat.succ_le_succ (h.leftmost hy)
  breaks next := .group ho (h.breaks next)

variable {l r : Phrase} {o : Token}

theorem left (h : TooDeep rules levels floor l f x) :
    TooDeep rules levels floor (.binary l o r) f x where
  contains := .left h.contains
  leftmost hy := by
    cases hy with
    | self => exact h.leftmost .self
    | left hy => exact h.leftmost hy
    | right hy =>
      -- all of the left operand stands in front of the parts of the right one
      have := h.contains.length_front_lt
      rw [List.length_append]
      omega
  breaks := h.breaks

theorem right {e : Expr} (hw : (binary l o r).WellFormed rules)
    (ha : (binary l o r).Above rules floor) (hl : l.Denotes e) (hn : l.nesting ≤ levels + 1)
    (h : TooDeep rules levels (rules.precedence o.kind) r f x) :
    TooDeep rules (levels + 1) floor (.binary l o r) (.binary l o f) x where
  contains := .right h.contains
  leftmost hy := by
    cases hy with
    | left hy => exact absurd hy.level_le (by omega)
    | right hy => simpa [Fragment.tokens] using h.leftmost hy
  breaks next := by
    obtain ⟨hl', -, -, hleft, -⟩ := hw
    exact .binary hl' hl hn ha.of_binary.1 ha.of_binary.2 hleft (h.breaks next)

end TooDeep

theorem Denotes.exists_tooDeep {levels : Nat} {floor : Precedence} {w : Phrase} {e : Expr}
    (hd : w.Denotes e) (hw : w.WellFormed rules) (ha : w.Above rules floor)
    (hn : levels < w.nesting) : ∃ f x, w.TooDeep rules levels floor f x := by
  induction w generalizing levels floor e with
  | leaf t =>
    obtain rfl : levels = 0 := Nat.lt_one_iff.mp hn
    exact ⟨.operand, .leaf t, .whole⟩
  | unary t w ih =>
    cases levels with
    | zero => exact ⟨.operand, .unary t w, .whole⟩
    | succ levels =>
      cases hd with
      | unary hd =>
        obtain ⟨f, x, h⟩ := ih hd hw.2.1 hw.2.2 (Nat.lt_of_succ_lt_succ hn)
        exact ⟨.unary t f, x, h.unary hw.1⟩
  | group o w c ih =>
    cases levels with
    | zero => exact ⟨.operand, .group o w c, .whole⟩
    | succ levels =>
      cases hd with
      | group hd =>
        obtain ⟨f, x, h⟩ := ih hd hw.2.2 hw.2.2.above_lowest (Nat.lt_of_succ_lt_succ hn)
        exact ⟨.group o f, x, h.group hw.1⟩
  | binary l o r ihl ihr =>
    cases levels with
    | zero => exact ⟨.operand, .binary l o r, .whole⟩
    | succ levels =>
      cases hd with
      | binary hl hr =>
        by_cases hdeep : levels + 1 < l.nesting
        · obtain ⟨f, x, h⟩ := ihl hl hw.1 ha.of_binary.1 hdeep
          exact ⟨f, x, h.left⟩
        · have hnr : levels < r.nesting := by
            simp only [nesting] at hn
            omega
          obtain ⟨f, x, h⟩ := ihr hr hw.2.1 hw.2.2.2.2 hnr
          exact ⟨.binary l o f, x, h.right hw ha hl (by omega)⟩

theorem TooDeep.exists_fault {levels : Nat} {w x : Phrase} {f : Fragment}
    (h : w.TooDeep .standard levels .lowest f x) (hw : w.WellFormed .standard) (eof : Token) :
    ∃ t back left, x.tokens.head? = some t ∧ w.tokens = f.tokens ++ t :: back ∧
      Fault .standard levels eof f.tokens (t :: back) (.nestingTooDeep 256) left := by
  obtain ⟨back, hsplit⟩ := h.contains.exists_back
  obtain ⟨t, more, hx⟩ := List.exists_cons_of_ne_nil x.tokens_ne_nil
  obtain ⟨u, tokens, hu⟩ := List.exists_cons_of_ne_nil w.tokens_ne_nil
  rw [hx, List.cons_append] at hsplit
  exact ⟨t, more ++ back, _, by rw [hx]; rfl, hsplit,
    .expression (hsplit.symm.trans hu) (hw.statementRule_eq hu) (h.breaks _)⟩

theorem WellFormed.nestingTooDeep_of_lt {source : String} {file : Option String} {w : Phrase}
    {e : Expr} (hw : w.WellFormed .standard) (hd : w.Denotes e)
    (htokens : (Cursor.ofSource source file).ahead = w.tokens) (hn : nestingLimit < w.nesting) :
    ∃ d ∈ (parse source file).2.head?, d.cause = .nestingTooDeep nestingLimit := by
  let eof := (Lexer.ofSource source file).eofToken
  obtain ⟨f, x, hdeep⟩ := hd.exists_tooDeep hw hw.above_lowest hn
  obtain ⟨t, back, left, -, hsplit, hfault⟩ := hdeep.exists_fault hw eof
  have hlater := transcript_attempts Rules.regular_standard nestingLimit ⟨left, eof⟩ rfl
  have hread := Transcript.dropped hfault hlater
  rw [Cursor.ahead_ofSource] at htokens
  rw [← hsplit, ← htokens] at hread
  rw [parse_of_transcript hread]
  exact ⟨_, rfl, rfl⟩

end Phrase

theorem first_diagnostic_of_sentence {source : String} (h : source.utf8ByteSize < 2 ^ 32)
    (file : Option String) {w : Phrase} (hw : Layer.Derives .equality w)
    (htokens : (tokenize source file).dropLast = w.tokens)
    (hints : ∀ t ∈ w.tokens, t.kind = .int → Numeral.value? t.text ≠ none) :
    ((∃ n front x, w.Contains n front x ∧ 256 < n) →
      ∃ d ∈ (parse source file).2.head?, d.cause = .nestingTooDeep 256 ∧
        ∃ front x, w.Contains 257 front x ∧
          (∀ front' y, w.Contains 257 front' y → front.length ≤ front'.length) ∧
          (∃ t ∈ x.tokens.head?, d.position = t.start) ∧
          d.PointsAt (tokenize source file) front.length) ∧
      ((∀ n front x, w.Contains n front x → n ≤ 256) → (parse source file).2 = []) := by
  have hwf := Layer.derives_iff_wellFormed.mp hw
  obtain ⟨e, he⟩ := hwf.exists_denotes hints
  let eof := (Lexer.ofSource source file).eofToken
  constructor
  · rintro ⟨n, front, y, hy, hn⟩
    obtain ⟨f, x, hdeep⟩ :=
      he.exists_tooDeep hwf hwf.above_lowest (Nat.lt_of_lt_of_le hn hy.level_le)
    obtain ⟨t, back, left, ht, hsplit, hfault⟩ := hdeep.exists_fault hwf eof
    have hlater := transcript_attempts Rules.regular_standard nestingLimit ⟨left, eof⟩ rfl
    have hread := Transcript.dropped hfault hlater
    rw [← hsplit, ← htokens] at hread
    have hindex : (tokenize source file)[f.tokens.length]? = some t := by
      have hall : tokenize source file = w.tokens ++ [eof] := by
        rw [← htokens, tokenize, List.dropLast_concat]
      simp [hall, hsplit]
    have hfirst : (parse source file).2.head? = some ⟨.nestingTooDeep 256, t.start⟩ := by
      rw [parse_of_transcript hread]
      rfl
    refine ⟨_, hfirst, rfl, ?_⟩
    refine ⟨f.tokens, x, hdeep.contains, fun _ _ => hdeep.leftmost, ⟨t, ht, rfl⟩, ?_⟩
    exact pointsAt_of_getElem? h file hindex rfl
  · intro hlevels
    have hn : w.nesting ≤ 256 := by
      refine Nat.not_lt.mp fun hn => ?_
      obtain ⟨f, x, hdeep⟩ := he.exists_tooDeep hwf hwf.above_lowest hn
      exact absurd (hlevels _ _ _ hdeep.contains) (by decide)
    obtain ⟨t, tokens, ht⟩ := List.exists_cons_of_ne_nil w.tokens_ne_nil
    have hread := hwf.transcript he hn (congrArg List.head? ht) eof
    rw [← htokens] at hread
    rw [parse_of_transcript hread]
    rfl

namespace Phrase

theorem contains_signed (signs : List Token) (w : Phrase) :
    (w.signed signs).Contains (signs.length + 1) signs w := by
  induction signs with
  | nil => exact .self
  | cons t signs ih => exact .unary ih

theorem Contains.level_eq_of_signed {signs front : List Token} {t : Token} {x : Phrase} {n : Nat}
    (h : ((leaf t).signed signs).Contains n front x) : n = front.length + 1 := by
  induction signs generalizing n front with
  | nil =>
    cases h with
    | self => rfl
  | cons u signs ih =>
    cases h with
    | self => rfl
    | unary h => rw [ih h, List.length_cons]

end Phrase

theorem first_diagnostic_of_signs :
    let source := String.ofList (List.replicate 256 '-' ++ ['1'])
    let w := (Phrase.one "shell" 256).signed (Token.marks "shell" 0 (List.replicate 256 '-'))
    source.utf8ByteSize < 2 ^ 32 ∧ Layer.Derives .equality w ∧
      (tokenize source none).dropLast = w.tokens ∧
      (∀ t ∈ w.tokens, t.kind = .int → Numeral.value? t.text ≠ none) ∧
      (∃ n front x, w.Contains n front x ∧ 256 < n) ∧
      ∃ d ∈ (parse source none).2.head?, d.cause = .nestingTooDeep 256 ∧
        d.PointsAt (tokenize source none) 256 := by
  intro source w
  let signs := Token.marks "shell" 0 (List.replicate 256 '-')
  have hsigns : ∀ t ∈ signs, Rules.standard.operand t.kind = some .unary :=
    Token.forall_mem_marks_replicate _ _ (fun _ => rfl) _
  have hlength : signs.length = 256 := by rw [Token.length_marks, List.length_replicate]
  have hsize : source.utf8ByteSize < 2 ^ 32 := by
    rw [(separate_signs 256).utf8ByteSize_eq, List.length_append, List.length_replicate]
    decide
  have hw : Layer.Derives .equality w :=
    Layer.derives_iff_wellFormed.mpr ((Phrase.wellFormed_one _ _).signed (fun _ => nofun) hsigns).1
  have htokens : (tokenize source none).dropLast = w.tokens := by
    rw [(separate_signs 256).dropLast_tokenize, Token.marks_append, Phrase.tokens_signed,
      List.length_replicate]
    rfl
  have hints : ∀ t ∈ w.tokens, t.kind = .int → Numeral.value? t.text ≠ none := by
    have hdashes : ∀ t ∈ signs, t.kind = .dash :=
      Token.forall_mem_marks_replicate _ _ (fun _ => rfl) _
    rw [Phrase.tokens_signed]
    refine List.forall_mem_append.mpr ⟨fun t ht hk => ?_, List.forall_mem_singleton.mpr fun _ => ?_⟩
    · cases (hdashes t ht).symm.trans hk
    · exact (show Numeral.value? "1" ≠ none by decide)
  have hlevel : ∃ n front x, w.Contains n front x ∧ 256 < n :=
    ⟨_, _, _, Phrase.contains_signed signs _, by omega⟩
  refine ⟨hsize, hw, htokens, hints, hlevel, ?_⟩
  obtain ⟨d, hd, hcause, front, x, hx, -, -, hpoints⟩ :=
    (first_diagnostic_of_sentence hsize none hw htokens hints).1 hlevel
  have hfront : front.length = 256 := (Nat.succ.inj hx.level_eq_of_signed).symm
  rw [hfront] at hpoints
  exact ⟨d, hd, hcause, hpoints⟩

end ScriptFrontEnd
