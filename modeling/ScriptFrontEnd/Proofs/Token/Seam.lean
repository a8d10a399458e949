import ScriptFrontEnd.Proofs.Token.Lexemes

namespace ScriptFrontEnd

def Fuses (a b : List Char) : Prop :=
  ∃ c ∈ a.getLast?, ∃ d ∈ b.head?,
    (isWordChar c ∧ isWordChar d) ∨ (c.isDigit ∧ d.isDigit) ∨
      ((c = '=' ∨ c = '!') ∧ d = '=' ∧ ∃ x ∈ (lexemes a).getLast?, x.units = [c])

theorem takeWhile_append_of_seam {p : Char → Bool} {c : Char} {a b : List Char} (hc : p c)
    (h : ∀ u ∈ (c :: a).getLast?, ∀ d ∈ b.head?, p u → ¬ p d) :
    (a ++ b).takeWhile p = a.takeWhile p := by
  induction a generalizing c with
  | nil =>
    cases b with
    | nil => rfl
    | cons d b => simpa using h c rfl d rfl hc
  | cons u a ih =>
    by_cases hu : p u
    · rw [List.getLast?_cons_cons] at h
      rw [List.cons_append, List.takeWhile_cons_of_pos hu, List.takeWhile_cons_of_pos hu, ih hu h]
    · rw [List.cons_append, List.takeWhile_cons_of_neg hu, List.takeWhile_cons_of_neg hu]

theorem lexemes_singleton {c : Char} (h : ¬ c.isWhitespace) :
    lexemes [c] = [Lexeme.first c []] := by
  have hpos := List.length_pos_iff.mpr (Lexeme.units_first_ne_nil c [])
  have hdrop : [c].drop (Lexeme.first c []).units.length = [] := by
    rw [List.drop_eq_nil_iff, List.length_singleton]
    omega
  rw [lexemes_cons h, hdrop, lexemes_nil]

theorem Lexeme.first_append {c : Char} {a b : List Char} (hc : ¬ c.isWhitespace)
    (h : ¬ Fuses (c :: a) b) : first c (a ++ b) = first c a := by
  have hseam {p : Char → Bool} (hpc : p c)
      (hp : ∀ u d, p u → p d → (isWordChar u ∧ isWordChar d) ∨ (u.isDigit ∧ d.isDigit)) :
      (a ++ b).takeWhile p = a.takeWhile p := by
    refine takeWhile_append_of_seam hpc fun u hu d hd hpu hpd => h ⟨u, hu, d, hd, ?_⟩
    rcases hp u d hpu hpd with hw | hd
    · exact .inl hw
    · exact .inr (.inl hd)
  have hhead (hone : (first c []).units = [c]) (hcc : c = '=' ∨ c = '!') :
      ((a ++ b).head? = some '=' ↔ a.head? = some '=') := by
    cases a with
    | cons u a => rfl
    | nil =>
      refine ⟨fun hb => absurd ⟨c, rfl, '=', hb, .inr (.inr ⟨hcc, rfl, ?_⟩)⟩ h, by simp⟩
      exact ⟨first c [], by rw [lexemes_singleton hc]; rfl, hone⟩
  cases hk : Kind.ofPunctuation? c with
  | some k => rw [first_of_punctuation hk, first_of_punctuation hk]
  | none =>
    by_cases heq : c = '='
    · have := hhead (by subst heq; rfl) (.inl heq)
      simp only [first, hk, if_pos heq, this]
    · by_cases hbang : c = '!'
      · have := hhead (by subst hbang; rfl) (.inr hbang)
        simp only [first, hk, if_neg heq, if_pos hbang, this]
      · by_cases hword : isWordChar c
        · have := hseam hword fun _ _ hu hd => .inl ⟨hu, hd⟩
          simp only [first, hk, if_neg heq, if_neg hbang, if_pos hword, this]
        · by_cases hdigit : c.isDigit
          · have := hseam hdigit fun _ _ hu hd => .inr ⟨hu, hd⟩
            simp only [first, hk, if_neg heq, if_neg hbang, if_neg hword, if_pos hdigit, this]
          · simp only [first, hk, if_neg heq, if_neg hbang, if_neg hword, if_neg hdigit]

theorem Fuses.append_left {front a b : List Char} {xs : List Lexeme}
    (hl : lexemes (front ++ a) = xs ++ lexemes a) (h : Fuses a b) : Fuses (front ++ a) b := by
  obtain ⟨c, hc, d, hd, h⟩ := h
  refine ⟨c, ?_, d, hd, ?_⟩
  · rw [List.getLast?_append, Option.mem_def.mp hc]
    rfl
  · rcases h with hw | hd | ⟨hcc, hd, x, hx, hone⟩
    · exact .inl hw
    · exact .inr (.inl hd)
    · refine .inr (.inr ⟨hcc, hd, x, ?_, hone⟩)
      rw [hl, List.getLast?_append, Option.mem_def.mp hx]
      rfl

theorem not_fuses_of_blank {c : Char} {a b : List Char} (hc : c.isWhitespace)
    (h : ¬ Fuses (c :: a) b) : ¬ Fuses a b := by
  have hl : lexemes ([c] ++ a) = [] ++ lexemes a := lexemes_cons_of_blank hc a
  exact fun ha => h (ha.append_left hl)

theorem not_fuses_drop {c : Char} {a b : List Char} (hc : ¬ c.isWhitespace)
    (h : ¬ Fuses (c :: a) b) :
    ¬ Fuses ((c :: a).drop (Lexeme.first c a).units.length) b ∧
      (c :: (a ++ b)).drop (Lexeme.first c a).units.length =
        (c :: a).drop (Lexeme.first c a).units.length ++ b := by
  let x := Lexeme.first c a
  let more := (c :: a).drop x.units.length
  have hsplit : x.units ++ more = c :: a := Lexeme.units_first_append_drop c a
  have hl : lexemes (c :: a) = [x] ++ lexemes more := lexemes_cons hc a
  constructor
  · intro hf
    rw [← hsplit] at h hl
    exact h (hf.append_left hl)
  · change (c :: (a ++ b)).drop x.units.length = more ++ b
    rw [← List.cons_append, ← hsplit, List.append_assoc, List.drop_left]

theorem lexemes_append {a b : List Char} (h : ¬ Fuses a b) :
    lexemes (a ++ b) = lexemes a ++ lexemes b := by
  induction a using lexemes_induction with
  | nil => rw [lexemes_nil, List.nil_append, List.nil_append]
  | blank c a hc ih =>
    rw [List.cons_append, lexemes_cons_of_blank hc, lexemes_cons_of_blank hc,
      ih (not_fuses_of_blank hc h)]
  | lexeme c a hc ih =>
    obtain ⟨hmore, hdrop⟩ := not_fuses_drop hc h
    rw [List.cons_append, lexemes_cons hc, Lexeme.first_append hc h, hdrop, ih hmore,
      lexemes_cons hc, List.cons_append]

theorem not_fuses_of_head {a b : List Char} {d : Char} (hd : b.head? = some d)
    (h : ¬ isWordChar d ∧ ¬ d.isDigit ∧ d ≠ '=') : ¬ Fuses a b := by
  rintro ⟨c, -, d', hd', hf⟩
  obtain rfl : d = d' := Option.some.inj (hd.symm.trans hd')
  rcases hf with ⟨-, hw⟩ | ⟨-, hdigit⟩ | ⟨-, heq, -⟩
  · exact h.1 hw
  · exact h.2.1 hdigit
  · exact h.2.2 heq

theorem not_fuses_of_last {a b : List Char} {c : Char} (hc : a.getLast? = some c)
    (h : ¬ isWordChar c ∧ ¬ c.isDigit ∧ c ≠ '=' ∧ c ≠ '!') : ¬ Fuses a b := by
  rintro ⟨c', hc', d, -, hf⟩
  obtain rfl : c = c' := Option.some.inj (hc.symm.trans hc')
  rcases hf with ⟨hw, -⟩ | ⟨hdigit, -⟩ | ⟨heq | hbang, -⟩
  · exact h.1 hw
  · exact h.2.1 hdigit
  · exact h.2.2.1 heq
  · exact h.2.2.2 hbang

theorem not_fuses_space (a b : List Char) : ¬ Fuses a (units " " ++ b) :=
  not_fuses_of_head rfl (by decide)

theorem lexemes_space_append (b : List Char) : lexemes (units " " ++ b) = lexemes b :=
  lexemes_cons_of_blank (by decide) b

end ScriptFrontEnd
