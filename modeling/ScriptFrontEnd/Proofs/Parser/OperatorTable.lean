import ScriptFrontEnd.Parser.Operation
import ScriptFrontEnd.Proofs.Grammar.Flat
import ScriptFrontEnd.Proofs.Parser.Expression

namespace ScriptFrontEnd

namespace Rules

theorem Regular.withOperator {rules : Rules} (h : rules.Regular) {kind : Kind} {power : Precedence}
    (heof : kind ≠ .eof) (hclose : kind ≠ .closeParen) (hpower : power ≤ .unary) :
    (rules.withOperator kind power).Regular where
  operand_eof := h.operand_eof
  precedence_eof := by simpa [precedence, Rules.withOperator, heof.symm] using h.precedence_eof
  precedence_closeParen := by
    simpa [precedence, Rules.withOperator, hclose.symm] using h.precedence_closeParen
  precedence_le k := by
    by_cases hk : k = kind
    · simpa [precedence, Rules.withOperator, hk] using hpower
    · simpa [precedence, Rules.withOperator, hk] using h.precedence_le k

end Rules

namespace Phrase

def leaves : Phrase → List Token
  | leaf token => [token]
  | unary _ operand => operand.leaves
  | binary left _ right => left.leaves ++ right.leaves
  | group _ inner _ => inner.leaves

theorem Denotes.value_of_mem_leaves {w : Phrase} {e : Expr} (h : w.Denotes e) :
    ∀ u ∈ w.leaves, u.kind = .int → (Numeral.value? u.text).isSome := by
  induction h with
  | identifier hk => simp [leaves, hk]
  | integer hk hv => simp [leaves, hv]
  | isTrue hk => simp [leaves, hk]
  | isFalse hk => simp [leaves, hk]
  | unary _ ih => exact ih
  | binary _ _ ihl ihx => exact List.forall_mem_append.mpr ⟨ihl, ihx⟩
  | group _ ih => exact ih

theorem exists_tokens_eq (w : Phrase) : ∃ front, w.tokens = front ++ [w.last] := by
  induction w with
  | leaf t => exact ⟨[], rfl⟩
  | unary t x ih =>
    obtain ⟨front, h⟩ := ih
    exact ⟨t :: front, by simp [tokens, last, h]⟩
  | binary l o x ihl ihx =>
    obtain ⟨front, h⟩ := ihx
    exact ⟨l.tokens ++ o :: front, by simp [tokens, last, h]⟩
  | group o x c ih => exact ⟨o :: x.tokens, by simp [tokens, last]⟩

theorem last_eq_of_tokens {w : Phrase} {front : List Token} {t : Token}
    (h : w.tokens = front ++ [t]) : w.last = t := by
  obtain ⟨front', h'⟩ := w.exists_tokens_eq
  exact (List.append_inj' (h'.symm.trans h) rfl).2 |> List.cons.inj |>.1

end Phrase

namespace Parser

def withOperators (p : Parser) (registered : List (Kind × Precedence)) : Parser :=
  p.after (registered.map fun (kind, power) => .registerOperator kind power)

theorem regular_withOperators {registered : List (Kind × Precedence)}
    (h : ∀ r ∈ registered, r.1 ≠ .closeParen ∧ r.1 ≠ .eof ∧ r.2 ≤ .unary) {p : Parser}
    (hp : p.rules.Regular) : (p.withOperators registered).rules.Regular := by
  induction registered generalizing p with
  | nil => exact hp
  | cons r registered ih =>
    obtain ⟨⟨hclose, heof, hpower⟩, h⟩ := List.forall_mem_cons.mp h
    have hrules : (p.registerOperator r.1 r.2).rules.Regular := hp.withOperator heof hclose hpower
    exact ih h hrules

theorem run_eq_some_iff {α : Type} (p : Parser) (x : Reader α) {a : α} {d : Cursor} :
    (p.run x).1 = some a ∧ (p.run x).2.cursor = d ↔ x p.cursor = .ok a d := by
  unfold run
  cases x p.cursor <;> simp

theorem parseExpression_iff_flat (source : String) (file : Option String)
    (registered : List (Kind × Precedence))
    (hreg : ∀ r ∈ registered, r.1 ≠ .closeParen ∧ r.1 ≠ .eof ∧ r.2 ≤ .unary) (p : Parser)
    (hrules : p.rules = ((ofSource source file).withOperators registered).rules)
    (hcursor : (ofSource source file).cursor.Reaches p.cursor)
    (slice rest : List Token) (t : Token) (hslice : p.cursor.ahead = slice ++ t :: rest)
    (floor : Precedence) (e : Expr) :
    (Flat p.rules (some floor) (slice ++ [t]) →
      ∃ w : Phrase, (w.tokens = slice ++ [t] ∧ w.WellFormed p.rules ∧ w.Above p.rules floor) ∧
        ∀ v : Phrase, v.tokens = slice ++ [t] → v.WellFormed p.rules → v = w) ∧
    ((p.parseExpression floor).1 = some e ∧
        (p.parseExpression floor).2.cursor = ⟨t :: rest, p.cursor.eof⟩ ↔
      Flat p.rules (some floor) (slice ++ [t]) ∧ Stops p.rules floor rest ∧
        ∃ w : Phrase, w.tokens = slice ++ [t] ∧ w.WellFormed p.rules ∧
          p.depth + w.nesting ≤ nestingLimit ∧
          (∀ u ∈ w.leaves, u.kind = .int → (Numeral.value? u.text).isSome) ∧ w.Denotes e) := by
  have hr : p.rules.Regular := hrules ▸ regular_withOperators hreg Rules.regular_standard
  have heof : p.cursor.eof.kind = .eof := by rw [hcursor.2]; rfl
  refine ⟨fun h => h.existsUnique_phrase hr, ?_⟩
  have hp : p.cursor = ⟨slice ++ t :: rest, p.cursor.eof⟩ := by rw [← hslice]
  rw [parseExpression, run_eq_some_iff, operand, hp, Phrase.expression_eq_ok_iff hr heof]
  constructor
  · rintro ⟨w, more, h, hd⟩
    obtain ⟨rfl, rfl⟩ := List.cons.inj (congrArg Cursor.ahead hd)
    have htokens : w.tokens = slice ++ [w.last] :=
      List.append_cancel_right (by simpa using h.split.symm)
    have hn := h.nesting_le
    have hpos := w.nesting_pos
    rw [levels] at hn
    refine ⟨?_, h.stops, w, htokens, h.wellFormed, by omega, h.denotes.value_of_mem_leaves,
      h.denotes⟩
    exact htokens ▸ (h.wellFormed.flat hr h.above).1
  · rintro ⟨hflat, hs, w, htokens, hw, hn, -, hd⟩
    obtain ⟨v, ⟨-, -, ha⟩, hu⟩ := hflat.existsUnique_phrase hr
    obtain rfl := hu w htokens hw
    have hlevels : w.nesting ≤ p.levels := by
      rw [levels]
      omega
    refine ⟨w, rest, ⟨by simp [htokens], hw, hd, hlevels, ha, hs⟩, ?_⟩
    rw [Phrase.last_eq_of_tokens htokens]

theorem exists_phrase_before_equals :
    let p := { (ofSource "-a,b!c==2" none).withOperators
      [(.comma, .multiplicative), (.not, .unary)] with depth := 2 }
    let token (kind : Kind) (text : String) (start : Nat) : Token :=
      ⟨kind, text, Span.ofOffsets start (start + text.length) "shell"⟩
    let a := token .identifier "a" 1
    let b := token .identifier "b" 3
    let c := token .identifier "c" 5
    let e : Expr := .binary (token .comma "," 2)
      (.unary (token .dash "-" 0) "-" (.identifier ⟨a, "a"⟩)) ","
      (.binary (token .not "!" 4) (.identifier ⟨b, "b"⟩) "!" (.identifier ⟨c, "c"⟩))
    (p.parseExpression .equality).1 = some e ∧
      ∃ w : Phrase, w.tokens = p.cursor.ahead.take 6 ∧ w.WellFormed p.rules ∧ w.Denotes e := by
  intro p token a b c e
  have hslice : p.cursor.ahead = p.cursor.ahead.take 5 ++ c :: p.cursor.ahead.drop 6 := by
    decide +kernel
  have hparse : (p.parseExpression .equality).1 = some e ∧
      (p.parseExpression .equality).2.cursor = ⟨c :: p.cursor.ahead.drop 6, p.cursor.eof⟩ := by
    decide +kernel
  have h := parseExpression_iff_flat "-a,b!c==2" none [(.comma, .multiplicative), (.not, .unary)]
    (by decide) p rfl (.refl _) _ _ c hslice .equality e
  obtain ⟨-, -, w, htokens, hw, -, -, hd⟩ := h.2.mp hparse
  exact ⟨hparse.1, w, htokens.trans (by decide +kernel), hw, hd⟩

theorem not_forall_numeral_converts :
    ¬ ∀ (source : String) (file : Option String) (registered : List (Kind × Precedence)),
      (∀ r ∈ registered, r.1 ≠ .closeParen ∧ r.1 ≠ .eof ∧ r.2 ≤ .unary) → ∀ p : Parser,
      p.rules = ((ofSource source file).withOperators registered).rules →
      (ofSource source file).cursor.Reaches p.cursor →
      ∀ (slice rest : List Token) (t : Token), p.cursor.ahead = slice ++ t :: rest →
      ∀ (floor : Precedence) (e : Expr),
      (p.parseExpression floor).1 = some e ∧
        (p.parseExpression floor).2.cursor = ⟨t :: rest, p.cursor.eof⟩ →
      ∀ u ∈ slice ++ [t], u.kind = .int → (Numeral.value? u.text).isSome := by
  intro h
  let p := (ofSource "1 09 2" none).withOperators [(.int, .additive)]
  let token (text : String) (start stop : Nat) : Token :=
    ⟨.int, text, Span.ofOffsets start stop "shell"⟩
  let e : Expr := .binary (token "09" 2 4) (.integer (token "1" 0 1) 1) "09"
    (.integer (token "2" 5 6) 2)
  have hvalue := h "1 09 2" none [(.int, .additive)] (by decide) p rfl (.refl _)
    [token "1" 0 1, token "09" 2 4] [] (token "2" 5 6) (by decide +kernel) .lowest e
    (by decide +kernel) (token "09" 2 4) (by simp) rfl
  revert hvalue
  decide +kernel

end Parser

end ScriptFrontEnd
