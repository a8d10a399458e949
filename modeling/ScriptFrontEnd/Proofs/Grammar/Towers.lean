import ScriptFrontEnd.Grammar.Phrase
import ScriptFrontEnd.Proofs.Token.Marks

namespace ScriptFrontEnd

namespace Expr

def one (file : String) (offset : Nat) : Expr :=
  .integer (.mark file offset '1') 1

def signed (signs : List Token) (e : Expr) : Expr :=
  signs.foldr (fun t e => .unary t t.text e) e

end Expr

namespace Phrase

def one (file : String) (offset : Nat) : Phrase :=
  .leaf (.mark file offset '1')

theorem denotes_one (file : String) (offset : Nat) : (one file offset).Denotes (.one file offset) :=
  .integer rfl (show Numeral.value? "1" = some 1 by decide)

theorem wellFormed_one (file : String) (offset : Nat) : (one file offset).WellFormed .standard :=
  rfl

def signed (signs : List Token) (w : Phrase) : Phrase :=
  signs.foldr unary w

variable {rules : Rules} {w : Phrase} {e : Expr}

theorem tokens_signed (signs : List Token) (w : Phrase) :
    (w.signed signs).tokens = signs ++ w.tokens := by
  induction signs with
  | nil => rfl
  | cons t signs ih => exact congrArg (List.cons t) ih

theorem nesting_signed (signs : List Token) (w : Phrase) :
    (w.signed signs).nesting = signs.length + w.nesting := by
  induction signs with
  | nil => exact (Nat.zero_add _).symm
  | cons t signs ih =>
    rw [List.length_cons, Nat.succ_add_eq_add_succ, Nat.add_succ, ← ih]
    rfl

theorem head?_tokens_signed (signs : List Token) (h : w.tokens.head? = some e.token) :
    (w.signed signs).tokens.head? = some (e.signed signs).token := by
  cases signs with
  | nil => exact h
  | cons t signs => rfl

theorem Denotes.signed (h : w.Denotes e) (signs : List Token) :
    (w.signed signs).Denotes (e.signed signs) := by
  induction signs with
  | nil => exact h
  | cons t signs ih => exact .unary ih

theorem WellFormed.signed (hw : w.WellFormed rules) (ha : w.Above rules .unary)
    {signs : List Token} (hs : ∀ t ∈ signs, rules.operand t.kind = some .unary) :
    (w.signed signs).WellFormed rules ∧ (w.signed signs).Above rules .unary := by
  induction signs with
  | nil => exact ⟨hw, ha⟩
  | cons t signs ih =>
    obtain ⟨ht, hs⟩ := List.forall_mem_cons.mp hs
    obtain ⟨hw, ha⟩ := ih hs
    exact ⟨⟨ht, hw, ha⟩, by simp [Phrase.signed, Above, operators]⟩

theorem WellFormed.exists_grouped (hw : w.WellFormed rules) (hd : w.Denotes e)
    {openings closings : List Token} (hlength : openings.length = closings.length)
    (ho : ∀ t ∈ openings, rules.operand t.kind = some .grouping)
    (hc : ∀ t ∈ closings, t.kind = .closeParen) :
    ∃ v : Phrase, v.tokens = openings ++ (w.tokens ++ closings) ∧ v.WellFormed rules ∧
      v.Denotes e ∧ v.nesting = openings.length + w.nesting := by
  induction openings generalizing closings with
  | nil =>
    obtain rfl := List.length_eq_zero_iff.mp hlength.symm
    exact ⟨w, by simp, hw, hd, (Nat.zero_add _).symm⟩
  | cons o openings ih =>
    obtain ⟨closings, c, rfl⟩ : ∃ front c, closings = front ++ [c] := by
      have hne : closings ≠ [] := List.ne_nil_of_length_pos (hlength ▸ Nat.zero_lt_succ _)
      exact ⟨_, _, (List.dropLast_concat_getLast hne).symm⟩
    obtain ⟨ho, hopenings⟩ := List.forall_mem_cons.mp ho
    obtain ⟨hclosings, hc⟩ := List.forall_mem_append.mp hc
    have hc : c.kind = .closeParen := hc c (List.mem_singleton_self c)
    have hlength : openings.length = closings.length := by simpa using hlength
    obtain ⟨v, hv, hvw, hvd, hvn⟩ := ih hlength hopenings hclosings
    refine ⟨.group o v c, ?_, ⟨ho, hc, hvw⟩, .group hvd, ?_⟩
    · simp [tokens, hv]
    · rw [nesting, hvn, List.length_cons, Nat.succ_add]

end Phrase

theorem separate_signs (n : Nat) : Separate (List.replicate n '-' ++ ['1']) :=
  .replicate_append (k := .dash) (by decide) (.cons_digit (by decide) (by simp) .nil) n

theorem separate_groups (n : Nat) :
    Separate (List.replicate n '(' ++ '1' :: List.replicate n ')') := by
  have hclosings : Separate (List.replicate n ')' ++ []) :=
    .replicate_append (k := .closeParen) (by decide) .nil n
  rw [List.append_nil] at hclosings
  have hhead : ∀ d ∈ (List.replicate n ')').head?, ¬ d.isDigit := by
    intro d hd
    rw [List.eq_of_mem_replicate (List.mem_of_mem_head? hd)]
    decide
  exact .replicate_append (k := .openParen) (by decide) (.cons_digit (by decide) hhead hclosings) n

end ScriptFrontEnd
