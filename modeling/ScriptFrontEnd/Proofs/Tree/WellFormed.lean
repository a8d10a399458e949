import ScriptFrontEnd.Grammar.Node
import ScriptFrontEnd.Proofs.Token.Numeral
import ScriptFrontEnd.Proofs.Tree.Genuine

namespace ScriptFrontEnd

namespace Token.Spelled

variable {t : Token}

theorem mem_spellings (h : t.Spelled) (hk : t.kind ∉ [.identifier, .int]) :
    (t.kind, t.text) ∈ Kind.spellings := by
  have hlegal : (t.lexeme.kind, t.lexeme.text) ∈ Kind.spellings := Lexeme.Legal.mem_spellings h hk
  rwa [Lexeme.text, lexeme, String.ofList_toList] at hlegal

theorem text_eq (h : t.Spelled) {k : Kind} (hk : t.kind = k) (hother : k ∉ [.identifier, .int])
    {text : String} (hall : ∀ p ∈ Kind.spellings, p.1 = k → p.2 = text) : t.text = text :=
  hall _ (h.mem_spellings (hk ▸ hother)) hk

theorem wellFormed (h : t.Spelled) (hk : t.kind = .identifier) :
    Identifier.WellFormed ⟨t, t.text⟩ := by
  have htext : t.lexeme.text = t.text := String.ofList_toList
  obtain ⟨c, cs, hunits, hall⟩ :=
    Lexeme.Legal.word_of_mem_words h (by simp [lexeme, hk, Kind.words])
  have hchars : t.text.toList = c :: cs := hunits
  refine ⟨hk, rfl, ?_, ?_, htext ▸ Lexeme.Legal.text_not_reserved h hk⟩
  · intro hempty
    rw [show t.text = "" from hempty] at hchars
    cases hchars
  · intro d hd
    have hd : isWordChar d := hall d (hchars ▸ hd)
    simpa [isWordChar] using hd

end Token.Spelled

namespace Node

theorem wellFormed_integer {t : Token} {v : Int64} (hk : t.kind = .int)
    (hv : Numeral.value? t.text = some v) : (expression (.integer t v)).WellFormed := by
  obtain ⟨n, hn, hlt, rfl⟩ := Numeral.value?_eq_some_iff.mp hv
  have hint : (Int64.ofNat n).toInt = n := Int64.toInt_ofNat_of_lt hlt
  refine ⟨hk, ?_, ?_, ?_⟩
  · rw [hint]
    exact Int.natCast_nonneg n
  · rw [hint]
    exact_mod_cast hlt
  · rw [hint]
    exact hn

theorem wellFormed_expression {e : Expr} (h : e.Genuine) : (expression e).WellFormed := by
  cases h with
  | identifier hk hs => exact hs.wellFormed hk
  | integer hk hs hv => exact wellFormed_integer hk hv
  | isTrue hk hs => exact .inl ⟨hk, hs.text_eq hk (by decide) (by decide), rfl⟩
  | isFalse hk hs => exact .inr ⟨hk, hs.text_eq hk (by decide) (by decide), rfl⟩
  | unary hk hs h =>
    have hother : ∀ k ∈ [Kind.not, .dash], k ∉ [Kind.identifier, .int] := by decide
    have hall : ∀ p ∈ Kind.spellings, p.1 ∈ [Kind.not, .dash] → p ∈ Expr.signs := by decide
    exact ⟨rfl, hall _ (hs.mem_spellings (hother _ hk)) hk⟩
  | binary hk hs hl hr =>
    have hother : ∀ k ∈ Kind.operators, k ∉ [Kind.identifier, .int] := by decide
    have hall : ∀ p ∈ Kind.spellings, p.1 ∈ Kind.operators → p ∈ Expr.operators := by decide
    exact ⟨rfl, hall _ (hs.mem_spellings (hother _ hk)) hk⟩

theorem wellFormed_statement {s : Statement} (h : s.Genuine) : (statement s).WellFormed := by
  cases h with
  | letBinding hk hs => exact ⟨hk, hs.text_eq hk (by decide) (by decide), rfl⟩
  | returning hk hs => exact ⟨hk, hs.text_eq hk (by decide) (by decide), rfl⟩
  | expression h => exact trivial

theorem Genuine.wellFormed {n : Node} (h : n.Genuine) : n.WellFormed := by
  cases n with
  | program p => exact trivial
  | statement s => exact wellFormed_statement h
  | name n =>
    obtain ⟨token, value⟩ := n
    obtain ⟨hk, hs, hv⟩ := h
    have hv : value = token.text := hv
    subst hv
    exact hs.wellFormed hk
  | expression e => exact wellFormed_expression h

end Node

theorem wellFormed_of_mem_nodes {source : String} {file : Option String} {n : Node}
    (h : n ∈ (parse source file).1.nodes) : n.WellFormed :=
  (genuine_of_mem_nodes h).wellFormed

theorem wellFormed_of_octal_operand :
    let n : Node := .expression (.integer ⟨.int, "017", Span.ofOffsets 3 6 "shell"⟩ 15)
    n ∈ (parse ") -017 == true" none).1.nodes ∧ n.WellFormed ∧
      Numeral.Denotes 8 ['0', '1', '7'] 15 := by
  intro n
  have hmem : n ∈ (parse ") -017 == true" none).1.nodes := by decide +kernel
  have hwf : n.WellFormed := wellFormed_of_mem_nodes hmem
  obtain ⟨hk, hnonneg, hlt, hdenotes⟩ := hwf
  exact ⟨hmem, ⟨hk, hnonneg, hlt, hdenotes⟩, hdenotes⟩

end ScriptFrontEnd
