import ScriptFrontEnd.Proofs.Token.Spelling

namespace ScriptFrontEnd

namespace Lexeme

theorem units_first_of_illegal {c : Char} {rest : List Char}
    (h : (first c rest).kind = .illegal) : (first c rest).units = [c] := by
  cases hk : Kind.ofPunctuation? c with
  | some k => rw [first_of_punctuation hk]
  | none =>
    by_cases hword : isWordChar c
    · have hillegal : Kind.illegal ∉ Kind.words := by decide
      rw [first_of_word hword] at h
      exact absurd (h ▸ Kind.ofWord_mem_words _) hillegal
    · by_cases hdigit : c.isDigit
      · rw [first_of_digit hdigit] at h
        cases h
      · simp only [first, hk, if_neg hword, if_neg hdigit] at h ⊢
        split at h
        · split at h <;> cases h
        · next heq =>
          split at h
          · split at h <;> cases h
          · next hbang => rw [if_neg heq, if_neg hbang]

theorem Legal.count_units {x : Lexeme} (h : x.Legal) :
    x.units.count ';' = if x.kind = .semicolon then 1 else 0 := by
  by_cases hk : x.kind ∈ [.identifier, .int]
  · have hrun : ∀ c ∈ x.units, isWordChar c ∨ c.isDigit := by
      rcases List.mem_cons.mp hk with hname | hint
      · obtain ⟨c, cs, hunits, hall⟩ := h.word_of_mem_words (hname ▸ List.mem_cons_self ..)
        exact hunits ▸ fun d hd => .inl (hall d hd)
      · obtain ⟨c, cs, hunits, hall⟩ := h.digits_of_int (List.mem_singleton.mp hint)
        exact hunits ▸ fun d hd => .inr (hall d hd)
    have hnone : ';' ∉ x.units := fun hm => absurd (hrun _ hm) (by decide)
    have hother : x.kind ≠ .semicolon := by
      intro hs
      rw [hs] at hk
      exact absurd hk (by decide)
    rw [List.count_eq_zero.mpr hnone, if_neg hother]
  · have hall : ∀ p ∈ Kind.spellings,
        p.2.toList.count ';' = if p.1 = .semicolon then 1 else 0 := by decide
    have hcount := hall _ (h.mem_spellings hk)
    rwa [text, String.toList_ofList] at hcount

theorem count_units_first (c : Char) (rest : List Char) :
    (first c rest).units.count ';' = if (first c rest).kind = .semicolon then 1 else 0 := by
  by_cases hk : (first c rest).kind = .illegal
  · have hc : c ≠ ';' := by
      rintro rfl
      cases hk
    rw [units_first_of_illegal hk, hk, List.count_singleton, if_neg (by simpa using hc)]
    rfl
  · exact (legal_first hk).count_units

end Lexeme

theorem countP_lexemes (cs : List Char) :
    (lexemes cs).countP (·.kind = .semicolon) = cs.count ';' := by
  induction cs using lexemes_induction with
  | nil => simp
  | blank c cs hc ih =>
    have hblank : c ≠ ';' := by
      rintro rfl
      exact absurd hc (by decide)
    rw [lexemes_cons_of_blank hc, ih, List.count_cons_of_ne hblank]
  | lexeme c rest hc ih =>
    rw [lexemes_cons hc, List.countP_cons, ih]
    conv => rhs; rw [← Lexeme.units_first_append_drop c rest]
    rw [List.count_append, Lexeme.count_units_first, Nat.add_comm]
    simp

theorem count_units (source : String) : (units source).count ';' = source.toList.count ';' := by
  rw [units]
  induction source.toList with
  | nil => rfl
  | cons c cs ih =>
    have hchar : (charUnits c).count ';' = [c].count ';' := by
      unfold charUnits
      split
      · rfl
      · next hc =>
        have hne : c ≠ ';' := by
          rintro rfl
          exact hc (by decide)
        have hstray : strayByte ≠ ';' := by decide
        simp [List.count_replicate, hne, hstray]
    rw [List.flatMap_cons, List.count_append, ih, hchar, ← List.count_append, List.singleton_append]

theorem countP_tokens (source : String) (file : Option String) :
    (Lexer.ofSource source file).tokens.countP (·.kind = .semicolon) = source.toList.count ';' := by
  have hbare := Lexer.map_unplaced_tokens (Lexer.ofSource source file)
  have hcount := congrArg (List.countP (·.kind = .semicolon)) hbare
  rw [List.countP_map, bareTokens, List.countP_map] at hcount
  exact hcount.trans ((countP_lexemes _).trans (count_units source))

end ScriptFrontEnd
