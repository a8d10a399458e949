import ScriptFrontEnd.Proofs.Tree.Genuine
import ScriptFrontEnd.Tree.Height

namespace ScriptFrontEnd

def Token.opening : Token := ⟨.openParen, "(", ⟨.nowhere, .nowhere⟩⟩

def Token.closing : Token := ⟨.closeParen, ")", ⟨.nowhere, .nowhere⟩⟩

namespace Expr

def phrase : Expr → Phrase
  | identifier name => .leaf name.token
  | integer token _ => .leaf token
  | boolean token _ => .leaf token
  | unary token _ right => .group .opening (.unary token right.phrase) .closing
  | binary token left _ right => .group .opening (.binary left.phrase token right.phrase) .closing

def isWord : Expr → Bool
  | identifier _ => true
  | boolean _ _ => true
  | _ => false

def isNumeral : Expr → Bool
  | integer _ _ => true
  | _ => false

theorem operators_phrase (e : Expr) : e.phrase.operators = [] := by
  cases e <;> rfl

theorem nesting_phrase (e : Expr) : e.phrase.nesting = e.textNesting := by
  induction e with
  | identifier _ => rfl
  | integer _ _ => rfl
  | boolean _ _ => rfl
  | unary _ _ _ ih => simp only [phrase, Phrase.nesting, textNesting, ih]
  | binary _ _ _ _ ihl ihr => simp only [phrase, Phrase.nesting, textNesting, ihl, ihr]

namespace Genuine

variable {e : Expr}

theorem wellFormed_phrase (h : e.Genuine) : e.phrase.WellFormed .standard := by
  induction h with
  | identifier hk => exact (Rules.operand_standard_eq_primary_iff _).mpr (by simp [hk])
  | integer hk => exact (Rules.operand_standard_eq_primary_iff _).mpr (by simp [hk])
  | isTrue hk => exact (Rules.operand_standard_eq_primary_iff _).mpr (by simp [hk])
  | isFalse hk => exact (Rules.operand_standard_eq_primary_iff _).mpr (by simp [hk])
  | @unary t e hk _ _ ih =>
    have habove : e.phrase.Above .standard .unary := by
      simp [Phrase.Above, operators_phrase]
    exact ⟨rfl, rfl, (Rules.operand_standard_eq_unary_iff _).mpr hk, ih, habove⟩
  | @binary t l r hk _ _ _ ihl ihr =>
    have hpower : .lowest < Rules.standard.precedence t.kind := by
      refine Decidable.byContradiction fun hn => ?_
      exact (Rules.precedence_standard_le_lowest_iff _).mp (Precedence.not_lt.mp hn) hk
    refine ⟨rfl, rfl, ihl, ihr, hpower, ?_, ?_⟩
    · simp [operators_phrase]
    · simp [Phrase.Above, operators_phrase]

theorem denotes_phrase (h : e.Genuine) : e.phrase.Denotes e := by
  induction h with
  | identifier hk => exact .identifier hk
  | integer hk _ hv => exact .integer hk hv
  | isTrue hk => exact .isTrue hk
  | isFalse hk => exact .isFalse hk
  | unary _ _ _ ih => exact .group (.unary ih)
  | binary _ _ _ _ ihl ihr => exact .group (.binary ihl ihr)

end Genuine

end Expr

def Opens (c : Char) : Prop := isWordChar c ∨ c.isDigit ∨ c = '('

theorem Opens.ne_equals {c : Char} (h : Opens c) : c ≠ '=' := by
  rintro rfl
  exact absurd h (by simp +decide [Opens])

namespace Token.Spelled

variable {t : Token}

theorem word (h : t.Spelled) (hk : t.kind ∈ Kind.words) :
    ∃ c cs, units t.text = c :: cs ∧ ∀ d ∈ c :: cs, isWordChar d := by
  rw [h.units_text]
  exact h.word_of_mem_words hk

theorem digits (h : t.Spelled) (hk : t.kind = .int) :
    ∃ c cs, units t.text = c :: cs ∧ ∀ d ∈ c :: cs, d.isDigit := by
  rw [h.units_text]
  exact h.digits_of_int hk

end Token.Spelled

namespace Expr.Genuine

variable {e : Expr}

theorem render_cases (h : e.Genuine) :
    (e.isWord ∧ ¬ e.isNumeral ∧ ∃ c cs, units e.render = c :: cs ∧ ∀ d ∈ c :: cs, isWordChar d) ∨
    (¬ e.isWord ∧ e.isNumeral ∧ ∃ c cs, units e.render = c :: cs ∧ ∀ d ∈ c :: cs, d.isDigit) ∨
    (¬ e.isWord ∧ ¬ e.isNumeral ∧ ∃ cs, units e.render = '(' :: (cs ++ [')'])) := by
  cases h with
  | identifier hk hs => exact .inl ⟨rfl, by simp [isNumeral], hs.word (by rw [hk]; decide)⟩
  | integer hk hs => exact .inr (.inl ⟨by simp [isWord], rfl, hs.digits hk⟩)
  | isTrue hk hs => exact .inl ⟨rfl, by simp [isNumeral], hs.word (by rw [hk]; decide)⟩
  | isFalse hk hs => exact .inl ⟨rfl, by simp [isNumeral], hs.word (by rw [hk]; decide)⟩
  | @unary t e _ _ _ =>
    refine .inr (.inr ⟨by simp [isWord], by simp [isNumeral], units t.text ++ units e.render, ?_⟩)
    simp only [render, units_append, List.append_assoc]
    rfl
  | @binary t l r _ _ _ _ =>
    refine .inr (.inr ⟨by simp [isWord], by simp [isNumeral], units l.render ++
      (units " " ++ (units t.text ++ (units " " ++ units r.render))), ?_⟩)
    simp only [render, units_append, List.append_assoc]
    rfl

theorem exists_units_render (h : e.Genuine) : ∃ c cs, units e.render = c :: cs ∧ Opens c := by
  rcases h.render_cases with ⟨-, -, c, cs, hc, hall⟩ | ⟨-, -, c, cs, hc, hall⟩ | ⟨-, -, cs, hc⟩
  · exact ⟨c, cs, hc, .inl (hall c (List.mem_cons_self ..))⟩
  · exact ⟨c, cs, hc, .inr (.inl (hall c (List.mem_cons_self ..)))⟩
  · exact ⟨'(', _, hc, .inr (.inr rfl)⟩

theorem lexemes_render (h : e.Genuine) :
    lexemes (units e.render) = e.phrase.tokens.map Token.lexeme := by
  have hopen : lexemes (units "(") = [Token.opening.lexeme] := lexemes_singleton (by decide)
  have hclose : lexemes (units ")") = [Token.closing.lexeme] := lexemes_singleton (by decide)
  have hbefore (cs : List Char) : ¬ Fuses (units "(") cs := not_fuses_of_last rfl (by decide)
  have hbehind (cs : List Char) : ¬ Fuses cs (units ")") := not_fuses_of_head rfl (by decide)
  induction h with
  | identifier hk hs => exact hs.lexemes_units_text
  | integer hk hs => exact hs.lexemes_units_text
  | isTrue hk hs => exact hs.lexemes_units_text
  | isFalse hk hs => exact hs.lexemes_units_text
  | @unary t e hk hs he ih =>
    -- the sign in front of an operand goes on neither as a word nor as a number nor as `!=`
    have hsign : ¬ Fuses (units t.text) (units e.render ++ units ")") := by
      obtain ⟨d, ds, hd, hopens⟩ := he.exists_units_render
      have hsigns : t.text.toList = ['!'] ∨ t.text.toList = ['-'] :=
        hs.sign_of_unary hk
      rw [hs.units_text, hd]
      rintro ⟨c, hc, d', hd', hf⟩
      obtain rfl : d = d' := Option.some.inj hd'
      have hclass : ¬ isWordChar c ∧ ¬ c.isDigit := by
        rcases hsigns with hsign | hsign
        · rw [hsign] at hc
          obtain rfl : '!' = c := Option.some.inj hc
          decide
        · rw [hsign] at hc
          obtain rfl : '-' = c := Option.some.inj hc
          decide
      rcases hf with ⟨hw, -⟩ | ⟨hdigit, -⟩ | ⟨-, heq, -⟩
      · exact hclass.1 hw
      · exact hclass.2 hdigit
      · exact hopens.ne_equals heq
    simp only [render, units_append, List.append_assoc]
    rw [lexemes_append (hbefore _), lexemes_append hsign, lexemes_append (hbehind _), hopen,
      hs.lexemes_units_text, ih, hclose]
    simp [phrase, Phrase.tokens]
  | @binary t l r hk hs hl hr ihl ihr =>
    simp only [render, units_append, List.append_assoc]
    rw [lexemes_append (hbefore _), lexemes_append (not_fuses_space _ _), lexemes_space_append,
      lexemes_append (not_fuses_space _ _), lexemes_space_append, lexemes_append (hbehind _), hopen,
      ihl, hs.lexemes_units_text, ihr, hclose]
    simp [phrase, Phrase.tokens]

end Expr.Genuine

end ScriptFrontEnd
