import ScriptFrontEnd.Proofs.Token.Seam

namespace ScriptFrontEnd

theorem mem_punctuation_of_ofPunctuation? {c : Char} {k : Kind}
    (h : Kind.ofPunctuation? c = some k) : (c, k) ∈ Kind.punctuation := by
  obtain ⟨front, back, hsplit, -⟩ := List.lookup_eq_some_iff.mp h
  rw [hsplit]
  exact List.mem_append_right _ (List.mem_cons_self ..)

theorem ofPunctuation?_of_mem {c : Char} {k : Kind} (h : (c, k) ∈ Kind.punctuation) :
    Kind.ofPunctuation? c = some k := by
  have hall : ∀ p ∈ Kind.punctuation, Kind.ofPunctuation? p.1 = some p.2 := by decide
  exact hall _ h

namespace Kind

def words : List Kind := identifier :: reserved.map Prod.snd

def spellings : List (Kind × String) :=
  reserved.map Prod.swap ++ (punctuation.map (fun (c, k) => (k, String.singleton c)) ++
    [(assignment, "="), (equals, "=="), (not, "!"), (notEquals, "!=")])

theorem ofWord_eq_identifier_or (word : String) :
    ofWord word = identifier ∧ word ∉ reserved.map Prod.fst ∨ (word, ofWord word) ∈ reserved := by
  unfold ofWord
  cases h : reserved.lookup word with
  | none =>
    refine .inl ⟨rfl, fun hw => ?_⟩
    obtain ⟨p, hp, rfl⟩ := List.mem_map.mp hw
    simpa using List.lookup_eq_none_iff.mp h p hp
  | some k =>
    obtain ⟨front, back, hsplit, -⟩ := List.lookup_eq_some_iff.mp h
    exact .inr (hsplit ▸ List.mem_append_right _ (List.mem_cons_self ..))

theorem ofWord_mem_words (word : String) : ofWord word ∈ words := by
  rcases ofWord_eq_identifier_or word with ⟨hk, -⟩ | hk
  · exact hk ▸ List.mem_cons_self ..
  · exact List.mem_cons_of_mem _ (List.mem_map_of_mem hk)

end Kind

theorem toNat_of_isWordChar {c : Char} (h : isWordChar c) :
    65 ≤ c.toNat ∧ c.toNat < 128 := by
  have hc : c.toNat = c.val.toNat := rfl
  have h : (decide ('A'.val ≤ c.val ∧ c.val ≤ 'Z'.val) ||
      (decide ('a'.val ≤ c.val) && decide (c.val ≤ 'z'.val)) || c == '_') = true := h
  simp only [Bool.or_eq_true, Bool.and_eq_true, decide_eq_true_eq, beq_iff_eq,
    UInt32.le_iff_toNat_le] at h
  rcases h with (h | h) | rfl
  · simp at h
    omega
  · simp at h
    omega
  · decide

theorem toNat_of_isDigit {c : Char} (h : c.isDigit) : 48 ≤ c.toNat ∧ c.toNat < 58 := by
  have hc : c.toNat = c.val.toNat := rfl
  simp only [Char.isDigit, Bool.and_eq_true, decide_eq_true_eq, ge_iff_le,
    UInt32.le_iff_toNat_le] at h
  simp at h
  omega

theorem toNat_of_isWhitespace {c : Char} (h : c.isWhitespace) : c.toNat < 128 := by
  simp only [Char.isWhitespace, Bool.or_eq_true, decide_eq_true_eq] at h
  rcases h with ((rfl | rfl) | rfl) | rfl <;> decide

theorem not_isDigit_of_isWordChar {c : Char} (h : isWordChar c) : ¬ c.isDigit := by
  intro hd
  have := toNat_of_isWordChar h
  have := toNat_of_isDigit hd
  omega

theorem ofPunctuation?_eq_none_of_class {c : Char} (h : isWordChar c ∨ c.isDigit) :
    Kind.ofPunctuation? c = none := by
  cases hk : Kind.ofPunctuation? c with
  | none => rfl
  | some k =>
    have hall : ∀ p ∈ Kind.punctuation, ¬ (isWordChar p.1 ∨ p.1.isDigit) := by decide
    exact absurd h (hall _ (mem_punctuation_of_ofPunctuation? hk))

theorem not_isWhitespace_of_class {c : Char} (h : isWordChar c ∨ c.isDigit) :
    ¬ c.isWhitespace := by
  intro hw
  simp only [Char.isWhitespace, Bool.or_eq_true, decide_eq_true_eq] at hw
  rcases hw with ((rfl | rfl) | rfl) | rfl
  · exact absurd h (by decide)
  · exact absurd h (by decide)
  · exact absurd h (by decide)
  · exact absurd h (by decide)

namespace Lexeme

theorem first_of_word {c : Char} (h : isWordChar c) (rest : List Char) :
    first c rest = ⟨Kind.ofWord (String.ofList (c :: rest.takeWhile isWordChar)),
      c :: rest.takeWhile isWordChar⟩ := by
  have heq : c ≠ '=' := by
    rintro rfl
    exact absurd h (by decide)
  have hbang : c ≠ '!' := by
    rintro rfl
    exact absurd h (by decide)
  simp only [first, ofPunctuation?_eq_none_of_class (.inl h), if_neg heq, if_neg hbang, if_pos h]

theorem first_of_digit {c : Char} (h : c.isDigit) (rest : List Char) :
    first c rest = ⟨.int, c :: rest.takeWhile Char.isDigit⟩ := by
  have heq : c ≠ '=' := by
    rintro rfl
    exact absurd h (by decide)
  have hbang : c ≠ '!' := by
    rintro rfl
    exact absurd h (by decide)
  have hword : ¬ isWordChar c := fun hw => not_isDigit_of_isWordChar hw h
  simp only [first, ofPunctuation?_eq_none_of_class (.inr h), if_neg heq, if_neg hbang,
    if_neg hword, if_pos h]

inductive Legal : Lexeme → Prop
  | punctuation {c k} : (c, k) ∈ Kind.punctuation → Legal ⟨k, [c]⟩
  | assignment : Legal ⟨.assignment, ['=']⟩
  | equals : Legal ⟨.equals, ['=', '=']⟩
  | not : Legal ⟨.not, ['!']⟩
  | notEquals : Legal ⟨.notEquals, ['!', '=']⟩
  | word {c cs} : (∀ d ∈ c :: cs, isWordChar d) →
      Legal ⟨Kind.ofWord (String.ofList (c :: cs)), c :: cs⟩
  | numeral {c cs} : (∀ d ∈ c :: cs, d.isDigit) → Legal ⟨.int, c :: cs⟩

theorem legal_first {c : Char} {rest : List Char} (h : (first c rest).kind ≠ .illegal) :
    (first c rest).Legal := by
  cases hk : Kind.ofPunctuation? c with
  | some k =>
    rw [first_of_punctuation hk]
    exact .punctuation (mem_punctuation_of_ofPunctuation? hk)
  | none =>
    by_cases hword : isWordChar c
    · rw [first_of_word hword]
      exact .word (List.forall_mem_cons.mpr ⟨hword, fun d hd => List.mem_takeWhile_imp hd⟩)
    · by_cases hdigit : c.isDigit
      · rw [first_of_digit hdigit]
        exact .numeral (List.forall_mem_cons.mpr ⟨hdigit, fun d hd => List.mem_takeWhile_imp hd⟩)
      · simp only [first, hk, if_neg hword, if_neg hdigit] at h ⊢
        split
        · split
          · exact .equals
          · exact .assignment
        · next heq =>
          split
          · split
            · exact .notEquals
            · exact .not
          · next hbang => simp [if_neg heq, if_neg hbang] at h

theorem legal_of_mem_lexemes {cs : List Char} {x : Lexeme} (hx : x ∈ lexemes cs)
    (hk : x.kind ≠ .illegal) : x.Legal := by
  induction cs using lexemes_induction with
  | nil => simp at hx
  | blank c cs hc ih =>
    rw [lexemes_cons_of_blank hc] at hx
    exact ih hx
  | lexeme c rest hc ih =>
    rw [lexemes_cons hc] at hx
    rcases List.mem_cons.mp hx with rfl | hx
    · exact legal_first hk
    · exact ih hx

namespace Legal

variable {x : Lexeme}

theorem ascii (h : x.Legal) : ∀ c ∈ x.units, c.toNat < 128 := by
  cases h with
  | punctuation hc =>
    have hall : ∀ p ∈ Kind.punctuation, p.1.toNat < 128 := by decide
    simpa using hall _ hc
  | assignment => simp
  | equals => simp
  | not => simp
  | notEquals => simp
  | word h => exact fun c hc => (toNat_of_isWordChar (h c hc)).2
  | numeral h =>
    intro c hc
    have := toNat_of_isDigit (h c hc)
    omega

theorem lexemes_units (h : x.Legal) : lexemes x.units = [x] := by
  have htake {p : Char → Bool} {c : Char} {cs : List Char} (hp : ∀ d ∈ c :: cs, p d) :
      cs.takeWhile p = cs :=
    List.takeWhile_eq_self_iff.mpr (List.forall_mem_cons.mp hp).2
  cases h with
  | @punctuation c k hc =>
    have hall : ∀ p ∈ Kind.punctuation, ¬ p.1.isWhitespace := by decide
    rw [lexemes_singleton (hall _ hc), first_of_punctuation (ofPunctuation?_of_mem hc)]
  | assignment => exact lexemes_singleton (by decide)
  | equals => exact (lexemes_cons (by decide) _).trans (congrArg _ lexemes_nil)
  | not => exact lexemes_singleton (by decide)
  | notEquals => exact (lexemes_cons (by decide) _).trans (congrArg _ lexemes_nil)
  | @word c cs h =>
    have hc : isWordChar c := h c (List.mem_cons_self ..)
    rw [lexemes_cons (not_isWhitespace_of_class (.inl hc)), first_of_word hc, htake h]
    dsimp only
    rw [List.drop_length, lexemes_nil]
  | @numeral c cs h =>
    have hc : c.isDigit := h c (List.mem_cons_self ..)
    rw [lexemes_cons (not_isWhitespace_of_class (.inr hc)), first_of_digit hc, htake h]
    dsimp only
    rw [List.drop_length, lexemes_nil]

theorem word_of_mem_words (h : x.Legal) (hk : x.kind ∈ Kind.words) :
    ∃ c cs, x.units = c :: cs ∧ ∀ d ∈ c :: cs, isWordChar d := by
  cases h with
  | punctuation hc =>
    have hall : ∀ p ∈ Kind.punctuation, p.2 ∉ Kind.words := by decide
    exact absurd hk (hall _ hc)
  | assignment => exact absurd hk (by decide)
  | equals => exact absurd hk (by decide)
  | not => exact absurd hk (by decide)
  | notEquals => exact absurd hk (by decide)
  | @word c cs h => exact ⟨c, cs, rfl, h⟩
  | numeral h =>
    have hint : Kind.int ∉ Kind.words := by decide
    exact absurd hk hint

theorem digits_of_int (h : x.Legal) (hk : x.kind = .int) :
    ∃ c cs, x.units = c :: cs ∧ ∀ d ∈ c :: cs, d.isDigit := by
  cases h with
  | punctuation hc =>
    have hall : ∀ p ∈ Kind.punctuation, p.2 ≠ .int := by decide
    exact absurd hk (hall _ hc)
  | assignment => cases hk
  | equals => cases hk
  | not => cases hk
  | notEquals => cases hk
  | @word c cs h =>
    have hint : Kind.int ∉ Kind.words := by decide
    exact absurd (hk ▸ Kind.ofWord_mem_words _) hint
  | @numeral c cs h => exact ⟨c, cs, rfl, h⟩

theorem mem_spellings (h : x.Legal) (hk : x.kind ∉ [.identifier, .int]) :
    (x.kind, x.text) ∈ Kind.spellings := by
  cases h with
  | punctuation hc =>
    exact List.mem_append_right _ (List.mem_append_left _ (List.mem_map_of_mem hc))
  | assignment => decide
  | equals => decide
  | not => decide
  | notEquals => decide
  | word h =>
    rcases Kind.ofWord_eq_identifier_or _ with ⟨hname, -⟩ | hword
    · exact absurd (hname ▸ List.mem_cons_self ..) hk
    · exact List.mem_append_left _ (List.mem_map_of_mem hword)
  | numeral h => exact absurd (by simp) hk

theorem text_not_reserved (h : x.Legal) (hk : x.kind = .identifier) :
    x.text ∉ Kind.reserved.map Prod.fst := by
  cases h with
  | punctuation hc =>
    have hall : ∀ p ∈ Kind.punctuation, p.2 ≠ .identifier := by decide
    exact absurd hk (hall _ hc)
  | assignment => cases hk
  | equals => cases hk
  | not => cases hk
  | notEquals => cases hk
  | word h =>
    rcases Kind.ofWord_eq_identifier_or _ with ⟨-, hname⟩ | hword
    · exact hname
    · have hall : ∀ p ∈ Kind.reserved, p.2 ≠ .identifier := by decide
      exact absurd hk (hall _ hword)
  | numeral h => cases hk

theorem sign_of_unary (h : x.Legal) (hk : x.kind ∈ [.not, .dash]) :
    x.units = ['!'] ∨ x.units = ['-'] := by
  have hother : ∀ k ∈ [Kind.not, .dash], k ∉ [Kind.identifier, .int] := by decide
  have hall : ∀ p ∈ Kind.spellings, p.1 ∈ [Kind.not, .dash] → p.2 = "!" ∨ p.2 = "-" := by decide
  have htext : x.text = "!" ∨ x.text = "-" := hall _ (h.mem_spellings (hother _ hk)) hk
  exact htext.imp (String.ofList_injective ·) (String.ofList_injective ·)

theorem units_of_semicolon (h : x.Legal) (hk : x.kind = .semicolon) :
    x.units = [';'] := by
  have hall : ∀ p ∈ Kind.spellings, p.1 = .semicolon → p.2 = ";" := by decide
  have htext : x.text = ";" := hall _ (h.mem_spellings (by simp [hk])) hk
  exact String.ofList_injective htext

theorem kind_ne_eof (h : x.Legal) : x.kind ≠ .eof := by
  intro hk
  have hall : ∀ p ∈ Kind.spellings, p.1 ≠ .eof := by decide
  exact hall _ (h.mem_spellings (by simp [hk])) hk

end Legal

end Lexeme

theorem bareTokens_of_punctuation {c : Char} {k : Kind} (h : (c, k) ∈ Kind.punctuation) :
    bareTokens [c] = [⟨k, String.ofList [c], ⟨.nowhere, .nowhere⟩⟩] :=
  congrArg (List.map Lexeme.unplaced) (Lexeme.Legal.punctuation h).lexemes_units

theorem getLast_units_of_not_blank {cs : List Char} {c : Char} (hl : cs.getLast? = some c)
    (hc : ¬ c.isWhitespace) : ∃ x ∈ (lexemes cs).getLast?, x.units.getLast? = some c := by
  induction cs using lexemes_induction with
  | nil => simp at hl
  | blank d cs hd ih =>
    rw [lexemes_cons_of_blank hd]
    cases cs with
    | nil =>
      obtain rfl : d = c := by simpa using hl
      exact absurd hd hc
    | cons u cs => exact ih (by rwa [List.getLast?_cons_cons] at hl)
  | lexeme d rest hd ih =>
    let x := Lexeme.first d rest
    let more := (d :: rest).drop x.units.length
    have hsplit : x.units ++ more = d :: rest := Lexeme.units_first_append_drop d rest
    rw [lexemes_cons hd]
    rw [← hsplit, List.getLast?_append] at hl
    cases hm : more.getLast? with
    | none =>
      have hempty : more = [] := List.getLast?_eq_none_iff.mp hm
      refine ⟨x, ?_, by simpa [hm] using hl⟩
      change x ∈ (x :: lexemes more).getLast?
      rw [hempty, lexemes_nil]
      rfl
    | some u =>
      obtain rfl : u = c := by simpa [hm] using hl
      obtain ⟨y, hy, hyc⟩ := ih hm
      refine ⟨y, ?_, hyc⟩
      rw [List.getLast?_cons, Option.mem_def.mp hy]
      rfl

theorem not_fuses_of_semicolon {a : List Char} {x : Lexeme} (hx : (lexemes a).getLast? = some x)
    (hk : x.kind = .semicolon) (b : List Char) : ¬ Fuses a b := by
  rintro ⟨c, hc, d, hd, hf⟩
  by_cases hblank : c.isWhitespace
  · have hall : ∀ u : Char, u.isWhitespace → ¬ isWordChar u ∧ ¬ u.isDigit ∧ u ≠ '=' ∧ u ≠ '!' := by
      intro u hu
      simp only [Char.isWhitespace, Bool.or_eq_true, decide_eq_true_eq] at hu
      rcases hu with ((rfl | rfl) | rfl) | rfl <;> decide
    exact not_fuses_of_last hc (hall c hblank) ⟨c, hc, d, hd, hf⟩
  · obtain ⟨y, hy, hyc⟩ := getLast_units_of_not_blank hc hblank
    obtain rfl : x = y := Option.some.inj (hx.symm.trans hy)
    have hlegal := Lexeme.legal_of_mem_lexemes (List.mem_of_getLast? hx) (by simp [hk])
    rw [hlegal.units_of_semicolon hk] at hyc
    obtain rfl : ';' = c := Option.some.inj hyc
    exact not_fuses_of_last hc (by decide) ⟨_, hc, d, hd, hf⟩

theorem units_of_ascii {text : String} (h : ∀ c ∈ text.toList, c.toNat < 128) :
    units text = text.toList := by
  rw [units]
  generalize text.toList = cs at h
  induction cs with
  | nil => rfl
  | cons c cs ih =>
    obtain ⟨hc, hcs⟩ := List.forall_mem_cons.mp h
    rw [List.flatMap_cons, charUnits, if_pos hc, ih hcs, List.singleton_append]

namespace Token

def lexeme (t : Token) : Lexeme := ⟨t.kind, t.text.toList⟩

def Spelled (t : Token) : Prop := t.lexeme.Legal

theorem unplaced_lexeme (t : Token) : t.lexeme.unplaced = t.unplaced := by
  simp [lexeme, Lexeme.unplaced, Lexeme.text, unplaced]

theorem Spelled.units_text {t : Token} (h : t.Spelled) : units t.text = t.text.toList :=
  units_of_ascii h.ascii

theorem Spelled.lexemes_units_text {t : Token} (h : t.Spelled) :
    lexemes (units t.text) = [t.lexeme] := by
  rw [h.units_text]
  exact h.lexemes_units

theorem spelled_of_mem_tokenize {source : String} {file : Option String} {t : Token}
    (ht : t ∈ (tokenize source file).dropLast) (hk : t.kind ≠ .illegal) : t.Spelled := by
  have hmem : t.unplaced ∈ (tokenize source file).dropLast.map Token.unplaced :=
    List.mem_map_of_mem ht
  rw [map_unplaced_tokenize] at hmem
  obtain ⟨x, hx, hxt⟩ := List.mem_map.mp hmem
  have hkind : x.kind = t.kind := congrArg Token.kind hxt
  have htext : x.text = t.text := congrArg Token.text hxt
  have heq : t.lexeme = x := by
    simp [lexeme, ← hkind, ← htext, Lexeme.text]
  rw [Spelled, heq]
  exact Lexeme.legal_of_mem_lexemes hx (hkind ▸ hk)

end Token

end ScriptFrontEnd
