import ScriptFrontEnd.Proofs.Grammar.Towers
import ScriptFrontEnd.Proofs.Parser.Sentence
import ScriptFrontEnd.Proofs.Tree.Genuine
import ScriptFrontEnd.Tree.Height

namespace ScriptFrontEnd

def Statement.expr? : Statement → Option Expr
  | letBinding _ _ value => value
  | returning _ value => value
  | expression _ expr => some expr

theorem Phrase.Denotes.path_le {w : Phrase} {e : Expr} (h : w.Denotes e) {n k : Nat}
    (hp : e.Path n k) : n ≤ k + w.nesting := by
  induction h generalizing n k with
  | identifier _ =>
    cases hp
    exact Nat.le_refl 1
  | integer _ _ =>
    cases hp
    exact Nat.le_refl 1
  | isTrue _ =>
    cases hp
    exact Nat.le_refl 1
  | isFalse _ =>
    cases hp
    exact Nat.le_refl 1
  | unary h ih =>
    cases hp with
    | unary hp => exact Nat.succ_le_succ (ih hp)
  | binary hl hr ihl ihr =>
    rw [nesting]
    cases hp with
    | left hp =>
      have := ihl hp
      omega
    | right hp =>
      have := ihr hp
      omega
  | group h ih => exact Nat.le_succ_of_le (ih hp)

theorem Segment.path_le {rules : Rules} {limit : Nat} {tokens rest : List Token} {s : Statement}
    (h : Segment rules limit tokens s rest) {e : Expr} (he : s.expr? = some e) {n k : Nat}
    (hp : e.Path n k) : n ≤ k + limit := by
  cases h with
  | letBinding => cases he
  | returning => cases he
  | terminated _ _ _ hd hn =>
    cases he
    exact Nat.le_trans (hd.path_le hp) (Nat.add_le_add_left hn k)
  | unterminated _ _ _ hd hn =>
    cases he
    exact Nat.le_trans (hd.path_le hp) (Nat.add_le_add_left hn k)

section

variable (file : String)

def sumText (n : Nat) : List Char :=
  '1' :: (List.replicate n ['+', '1']).flatten

theorem sumText_succ (n : Nat) : sumText (n + 1) = sumText n ++ ['+', '1'] := by
  rw [sumText, List.replicate_succ', List.flatten_append]
  rfl

theorem length_sumText (n : Nat) : (sumText n).length = 2 * n + 1 := by
  induction n with
  | zero => rfl
  | succ n ih =>
    rw [sumText_succ, List.length_append, ih]
    rfl

theorem separate_sumText (n : Nat) : Separate (sumText n) := by
  induction n with
  | zero => exact .cons_digit (by decide) (by simp) .nil
  | succ n ih =>
    have htail : Separate ('+' :: sumText n) := ⟨.inl ⟨.plus, by decide⟩, ih⟩
    have hhead : ∀ d ∈ ('+' :: sumText n).head?, ¬ d.isDigit := by
      rintro d ⟨⟩
      decide
    exact htail.cons_digit (by decide) hhead

def Phrase.sum : Nat → Phrase
  | 0 => .one file 0
  | n + 1 => .binary (sum n) (.mark file (2 * n + 1) '+') (.one file (2 * n + 2))

def Expr.sum : Nat → Expr
  | 0 => .one file 0
  | n + 1 => .binary (.mark file (2 * n + 1) '+') (sum n) "+" (.one file (2 * n + 2))

theorem Expr.height_sum (n : Nat) : (sum file n).height = n + 1 := by
  induction n with
  | zero => rfl
  | succ n ih =>
    rw [sum, height, ih]
    exact congrArg (· + 1) (Nat.max_eq_left (Nat.le_add_left 1 n))

namespace Phrase

theorem tokens_sum (n : Nat) : (sum file n).tokens = Token.marks file 0 (sumText n) := by
  induction n with
  | zero => rfl
  | succ n ih =>
    rw [sum, tokens, ih, sumText_succ, Token.marks_append, length_sumText, Nat.zero_add]
    rfl

theorem denotes_sum (n : Nat) : (sum file n).Denotes (.sum file n) := by
  induction n with
  | zero => exact denotes_one file 0
  | succ n ih => exact ih.binary (denotes_one file _)

theorem nesting_sum_le (n : Nat) : (sum file n).nesting ≤ 2 := by
  induction n with
  | zero => exact Nat.le_succ 1
  | succ n ih => exact Nat.max_le.mpr ⟨ih, Nat.le_refl 2⟩

theorem wellFormed_sum (n : Nat) : (sum file n).WellFormed .standard ∧
    ∀ t ∈ (sum file n).operators, Rules.standard.precedence t.kind = .additive := by
  induction n with
  | zero => exact ⟨wellFormed_one file 0, nofun⟩
  | succ n ih =>
    obtain ⟨hw, ho⟩ := ih
    have hplus : Rules.standard.precedence (Token.mark file (2 * n + 1) '+').kind = .additive := rfl
    refine ⟨⟨hw, wellFormed_one file _, ?_, fun t ht => ?_, fun _ => nofun⟩, ?_⟩
    · rw [hplus]
      decide
    · rw [hplus, ho t ht]
      exact Nat.le_refl _
    · exact List.forall_mem_append.mpr ⟨ho, List.forall_mem_singleton.mpr hplus⟩

theorem head?_tokens_sum (n : Nat) : (sum file n).tokens.head? = some (.mark file 0 '1') := by
  rw [tokens_sum]
  rfl

end Phrase

end

theorem parse_sumText (n : Nat) (file : Option String) :
    let name := file.getD "shell"
    parse (String.ofList (sumText n)) file =
      (⟨[.expression (.mark name 0 '1') (.sum name n)]⟩, []) := by
  intro name
  refine (separate_sumText n).parse_eq file [] [] [_] fun eof => ?_
  rw [← Phrase.tokens_sum]
  exact (Phrase.wellFormed_sum name n).1.transcript (Phrase.denotes_sum name n)
    (Nat.le_trans (Phrase.nesting_sum_le name n) (by decide)) (Phrase.head?_tokens_sum name n) eof

theorem paths_bounded_but_for_left_operands (file : Option String) :
    (∀ source, ∀ s ∈ (parse source file).1.statements, ∀ e ∈ s.expr?,
      (∃ k, e.Path e.height k) ∧ ∀ n k, e.Path n k → n ≤ e.height ∧ n ≤ k + 256) ∧
    ∀ n, ∃ t e, parse (String.ofList (sumText n)) file = (⟨[.expression t e]⟩, []) ∧
      e.height = n + 1 := by
  constructor
  · intro source s hs e he
    rw [parse_eq] at hs
    obtain ⟨later, rest, -, hsegment⟩ :=
      exists_segment_of_mem_succeeded Rules.regular_standard rfl hs
    exact ⟨e.exists_path_of_height, fun n k hp => ⟨hp.le_height, hsegment.path_le he hp⟩⟩
  · exact fun n => ⟨_, _, parse_sumText n file, Expr.height_sum _ n⟩

theorem not_forall_height_le :
    ¬ ∀ source file, ∀ s ∈ (parse source file).1.statements, ∀ e ∈ s.expr?, e.height ≤ 256 := by
  intro h
  have hmem : Statement.expression (.mark "shell" 0 '1') (.sum "shell" 256) ∈
      (parse (String.ofList (sumText 256)) none).1.statements := by
    rw [parse_sumText]
    exact List.mem_singleton_self _
  have hheight := h _ none _ hmem _ rfl
  rw [Expr.height_sum] at hheight
  exact absurd hheight (by decide)

end ScriptFrontEnd
