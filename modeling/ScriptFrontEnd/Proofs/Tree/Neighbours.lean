import ScriptFrontEnd.Proofs.Tree.Canonical

namespace ScriptFrontEnd

namespace Statement

def isBareWord : Statement → Bool
  | expression _ e => e.isWord
  | _ => false

def isBareNumeral : Statement → Bool
  | expression _ e => e.isNumeral
  | _ => false

def startsWithKeyword : Statement → Bool
  | expression _ _ => false
  | _ => true

def RunsInto (s s' : Statement) : Prop :=
  (s.isBareWord ∧ (s'.startsWithKeyword ∨ s'.isBareWord)) ∨ (s.isBareNumeral ∧ s'.isBareNumeral)

namespace Genuine

variable {s s' : Statement}

theorem exists_head_render (h : s.Genuine) : ∃ c cs, units s.render = c :: cs ∧ Opens c ∧
    (isWordChar c ↔ s.startsWithKeyword ∨ s.isBareWord) ∧ (c.isDigit ↔ s.isBareNumeral) := by
  have hkeyword {t : Token} (hs : t.Spelled) (hk : t.kind ∈ Kind.words) (more : String) :
      ∃ c cs, units (t.text ++ more) = c :: cs ∧ isWordChar c := by
    obtain ⟨c, cs, hc, hall⟩ := hs.word hk
    exact ⟨c, cs ++ units more, by rw [units_append, hc]; rfl, hall c (List.mem_cons_self ..)⟩
  cases h with
  | @letBinding t n hk hs _ _ =>
    obtain ⟨c, cs, hc, hw⟩ := hkeyword hs (by rw [hk]; decide)
      (" " ++ n.text ++ " = " ++ renderValue none ++ ";")
    have hd := not_isDigit_of_isWordChar hw
    refine ⟨c, cs, ?_, .inl hw, by simp [hw, startsWithKeyword], by simp [hd, isBareNumeral]⟩
    rw [← hc]
    simp [render, String.append_assoc]
  | @returning t hk hs =>
    obtain ⟨c, cs, hc, hw⟩ := hkeyword hs (by rw [hk]; decide) (" " ++ renderValue none ++ ";")
    have hd := not_isDigit_of_isWordChar hw
    refine ⟨c, cs, ?_, .inl hw, by simp [hw, startsWithKeyword], by simp [hd, isBareNumeral]⟩
    rw [← hc]
    simp [render, String.append_assoc]
  | @expression t e he =>
    rcases he.render_cases with
      ⟨hword, hnum, c, cs, hc, hall⟩ | ⟨hword, hnum, c, cs, hc, hall⟩ | ⟨hword, hnum, cs, hc⟩
    · have hw := hall c (List.mem_cons_self ..)
      have hd := not_isDigit_of_isWordChar hw
      exact ⟨c, cs, hc, .inl hw, by simp [hw, isBareWord, hword], by simp [hd, isBareNumeral, hnum]⟩
    · have hd := hall c (List.mem_cons_self ..)
      have hw : ¬ isWordChar c := fun hw => not_isDigit_of_isWordChar hw hd
      exact ⟨c, cs, hc, .inr (.inl hd), by simp [hw, startsWithKeyword, isBareWord, hword],
        by simp [hd, isBareNumeral, hnum]⟩
    · have hparen : ¬ isWordChar '(' ∧ ¬ '('.isDigit := by decide
      exact ⟨'(', _, hc, .inr (.inr rfl), by simp [hparen, startsWithKeyword, isBareWord, hword],
        by simp [hparen, isBareNumeral, hnum]⟩

theorem exists_last_render (h : s.Genuine) : ∃ c, (units s.render).getLast? = some c ∧
    c ≠ '=' ∧ c ≠ '!' ∧ (isWordChar c ↔ s.isBareWord) ∧ (c.isDigit ↔ s.isBareNumeral) := by
  have hsemicolon (front : String) : (units (front ++ ";")).getLast? = some ';' := by
    rw [units_append, List.getLast?_append]
    rfl
  have hclass : ¬ isWordChar ';' ∧ ¬ ';'.isDigit := by decide
  cases h with
  | letBinding hk hs _ _ =>
    exact ⟨';', hsemicolon _, by decide, by decide, by simp [hclass, isBareWord],
      by simp [hclass, isBareNumeral]⟩
  | returning hk hs =>
    exact ⟨';', hsemicolon _, by decide, by decide, by simp [hclass, isBareWord],
      by simp [hclass, isBareNumeral]⟩
  | @expression t e he =>
    rcases he.render_cases with
      ⟨hword, hnum, c, cs, hc, hall⟩ | ⟨hword, hnum, c, cs, hc, hall⟩ | ⟨hword, hnum, cs, hc⟩
    · have hlast := List.getLast?_eq_some_getLast (List.cons_ne_nil c cs)
      have hw := hall _ (List.mem_of_getLast? hlast)
      have hd := not_isDigit_of_isWordChar hw
      refine ⟨_, by rw [render, hc]; exact hlast, ?_, ?_, by simp [hw, isBareWord, hword],
        by simp [hd, isBareNumeral, hnum]⟩
      · intro heq
        rw [heq] at hw
        exact absurd hw (by decide)
      · intro heq
        rw [heq] at hw
        exact absurd hw (by decide)
    · have hlast := List.getLast?_eq_some_getLast (List.cons_ne_nil c cs)
      have hd := hall _ (List.mem_of_getLast? hlast)
      have hw : ¬ isWordChar _ := fun hw => not_isDigit_of_isWordChar hw hd
      refine ⟨_, by rw [render, hc]; exact hlast, ?_, ?_, by simp [hw, isBareWord, hword],
        by simp [hd, isBareNumeral, hnum]⟩
      · intro heq
        rw [heq] at hd
        exact absurd hd (by decide)
      · intro heq
        rw [heq] at hd
        exact absurd hd (by decide)
    · have hparen : ¬ isWordChar ')' ∧ ¬ ')'.isDigit := by decide
      refine ⟨')', ?_, by decide, by decide, by simp [hparen, isBareWord, hword],
        by simp [hparen, isBareNumeral, hnum]⟩
      rw [render, hc, ← List.cons_append, List.getLast?_concat]

theorem fuses_iff_runsInto (h : s.Genuine) (h' : s'.Genuine) (more : List Char) :
    Fuses (units s.render) (units s'.render ++ more) ↔ s.RunsInto s' := by
  obtain ⟨c, hc, hequals, hbang, hword, hdigit⟩ := h.exists_last_render
  obtain ⟨d, ds, hd, -, hword', hdigit'⟩ := h'.exists_head_render
  rw [hd, List.cons_append]
  constructor
  · rintro ⟨c', hc', d', hd', hf⟩
    obtain rfl : c = c' := Option.some.inj (hc.symm.trans hc')
    obtain rfl : d = d' := Option.some.inj hd'
    rcases hf with ⟨hw, hw'⟩ | ⟨hn, hn'⟩ | ⟨heq | heq, -⟩
    · exact .inl ⟨hword.mp hw, hword'.mp hw'⟩
    · exact .inr ⟨hdigit.mp hn, hdigit'.mp hn'⟩
    · exact absurd heq hequals
    · exact absurd heq hbang
  · intro hr
    refine ⟨c, hc, d, rfl, ?_⟩
    rcases hr with ⟨hw, hw'⟩ | ⟨hn, hn'⟩
    · exact .inl ⟨hword.mpr hw, hword'.mpr hw'⟩
    · exact .inr (.inl ⟨hdigit.mpr hn, hdigit'.mpr hn'⟩)

theorem exists_token_of_runsInto (h : s.Genuine) (hr : s.RunsInto s') :
    ∃ t e, ∃ v : Token, s = .expression t e ∧ e.tokens = [v] ∧ e.render = v.text ∧ v.Spelled := by
  cases h with
  | letBinding => simp [RunsInto, isBareWord, isBareNumeral] at hr
  | returning => simp [RunsInto, isBareWord, isBareNumeral] at hr
  | @expression t e he =>
    cases he with
    | @identifier u _ hs => exact ⟨t, _, u, rfl, rfl, rfl, hs⟩
    | @integer u _ _ hs => exact ⟨t, _, u, rfl, rfl, rfl, hs⟩
    | @isTrue u _ hs => exact ⟨t, _, u, rfl, rfl, rfl, hs⟩
    | @isFalse u _ hs => exact ⟨t, _, u, rfl, rfl, rfl, hs⟩
    | unary => simp [RunsInto, isBareWord, isBareNumeral, Expr.isWord, Expr.isNumeral] at hr
    | binary => simp [RunsInto, isBareWord, isBareNumeral, Expr.isWord, Expr.isNumeral] at hr

theorem exists_longer_lexeme (h : s.Genuine) (h' : s'.Genuine) (hr : s.RunsInto s')
    (more : List Char) : ∃ x xs, lexemes (units s.render ++ (units s'.render ++ more)) = x :: xs ∧
      x.kind ≠ .openParen ∧ (units s.render).length < x.units.length := by
  have hrun {p : Char → Bool} {c d : Char} {cs ds : List Char} (hall : ∀ u ∈ c :: cs, p u)
      (hd : p d) : (c :: cs).length < (c :: (cs ++ d :: ds).takeWhile p).length := by
    rw [List.takeWhile_append_of_pos (List.forall_mem_cons.mp hall).2,
      List.takeWhile_cons_of_pos hd]
    simp
  obtain ⟨d, ds, hd, -, hword', hdigit'⟩ := h'.exists_head_render
  rw [hd]
  cases h with
  | letBinding => simp [RunsInto, isBareWord, isBareNumeral] at hr
  | returning => simp [RunsInto, isBareWord, isBareNumeral] at hr
  | @expression t e he =>
    rw [render]
    rcases he.render_cases with
      ⟨-, hnum, c, cs, hc, hall⟩ | ⟨hword, -, c, cs, hc, hall⟩ | ⟨hword, hnum, -⟩
    · have hc' : isWordChar c := hall c (List.mem_cons_self ..)
      have hd' : isWordChar d := by
        rcases hr with ⟨-, hw⟩ | ⟨hn, -⟩
        · exact hword'.mpr hw
        · exact absurd hn hnum
      rw [hc, List.cons_append, lexemes_cons (not_isWhitespace_of_class (.inl hc')),
        Lexeme.first_of_word hc']
      refine ⟨_, _, rfl, ?_, hrun hall hd'⟩
      intro hk
      have hparen : Kind.openParen ∉ Kind.words := by decide
      exact hparen (hk ▸ Kind.ofWord_mem_words _)
    · have hc' : c.isDigit := hall c (List.mem_cons_self ..)
      have hd' : d.isDigit := by
        rcases hr with ⟨hw, -⟩ | ⟨-, hn⟩
        · exact absurd hw hword
        · exact hdigit'.mpr hn
      rw [hc, List.cons_append, lexemes_cons (not_isWhitespace_of_class (.inr hc')),
        Lexeme.first_of_digit hc']
      exact ⟨_, _, rfl, by simp, hrun hall hd'⟩
    · rcases hr with ⟨hw, -⟩ | ⟨hn, -⟩
      · exact absurd hw hword
      · exact absurd hn hnum

end Genuine

end Statement

end ScriptFrontEnd
