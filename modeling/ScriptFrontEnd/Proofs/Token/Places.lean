import Mathlib.Algebra.Group.Nat.Defs
import ScriptFrontEnd.Proofs.Token.Spelling

namespace ScriptFrontEnd

namespace Lexer

theorem tokens_nil (file : String) (offset : Nat) : tokens ⟨file, offset, []⟩ = [] :=
  tokens_of_none rfl

theorem tokens_congr {l l' : Lexer} (h : l.next? = l'.next?) : l.tokens = l'.tokens := by
  cases hn : l.next? with
  | none => rw [tokens_of_none hn, tokens_of_none (h.symm.trans hn)]
  | some found =>
    obtain ⟨t, l''⟩ := found
    rw [tokens_of_some hn, tokens_of_some (h.symm.trans hn)]

theorem tokens_cons_of_blank {c : Char} (h : c.isWhitespace) (file : String) (offset : Nat)
    (cs : List Char) : tokens ⟨file, offset, c :: cs⟩ = tokens ⟨file, offset + 1, cs⟩ := by
  have hskip : skipBlanks ⟨file, offset, c :: cs⟩ = skipBlanks ⟨file, offset + 1, cs⟩ := by
    simp only [skipBlanks, skip, List.takeWhile_cons_of_pos h, List.length_cons,
      List.drop_succ_cons]
    congr 1
    omega
  refine tokens_congr ?_
  rw [next?, next?, hskip]

theorem tokens_append_of_blanks {blanks : List Char} (h : ∀ b ∈ blanks, b.isWhitespace)
    (file : String) (offset : Nat) (cs : List Char) :
    tokens ⟨file, offset, blanks ++ cs⟩ = tokens ⟨file, offset + blanks.length, cs⟩ := by
  induction blanks generalizing offset with
  | nil => rfl
  | cons b blanks ih =>
    obtain ⟨hb, hblanks⟩ := List.forall_mem_cons.mp h
    rw [List.cons_append, tokens_cons_of_blank hb, ih hblanks, List.length_cons, Nat.add_assoc,
      Nat.add_comm 1]

theorem tokens_cons {c : Char} (h : ¬ c.isWhitespace) (file : String) (offset : Nat)
    (rest : List Char) :
    tokens ⟨file, offset, c :: rest⟩ =
      tokenHere ⟨file, offset, c :: rest⟩ (Lexeme.first c rest) ::
        tokens ⟨file, offset + (Lexeme.first c rest).units.length,
          (c :: rest).drop (Lexeme.first c rest).units.length⟩ := by
  have hskip : skipBlanks ⟨file, offset, c :: rest⟩ = ⟨file, offset, c :: rest⟩ := by
    simp [skipBlanks, skip, List.takeWhile_cons_of_neg h]
  refine tokens_of_some ?_
  rw [next?, hskip]
  rfl

theorem tokens_append {a b : List Char} (h : ¬ Fuses a b) (file : String) (offset : Nat) :
    tokens ⟨file, offset, a ++ b⟩ =
      tokens ⟨file, offset, a⟩ ++ tokens ⟨file, offset + a.length, b⟩ := by
  induction a using lexemes_induction generalizing offset with
  | nil => rw [tokens_nil, List.nil_append, List.nil_append, List.length_nil, Nat.add_zero]
  | blank c a hc ih =>
    rw [List.cons_append, tokens_cons_of_blank hc, tokens_cons_of_blank hc,
      ih (not_fuses_of_blank hc h), List.length_cons, Nat.add_assoc, Nat.add_comm 1]
  | lexeme c a hc ih =>
    obtain ⟨hmore, hdrop⟩ := not_fuses_drop hc h
    have hlength := congrArg List.length (Lexeme.units_first_append_drop c a)
    rw [List.length_append] at hlength
    rw [List.cons_append, tokens_cons hc, Lexeme.first_append hc h, hdrop, ih hmore, tokens_cons hc,
      List.cons_append, Nat.add_assoc, hlength]
    rfl

theorem tokenHere_add (l : Lexer) (n : Nat) (x : Lexeme) :
    tokenHere { l with offset := l.offset + n } x = (tokenHere l x).shift n := by
  simp only [tokenHere, Token.shift, Span.shift_ofOffsets, Nat.add_right_comm]

theorem tokens_add (file : String) (offset n : Nat) (cs : List Char) :
    tokens ⟨file, offset + n, cs⟩ = (tokens ⟨file, offset, cs⟩).map (Token.shift n) := by
  induction cs using lexemes_induction generalizing offset with
  | nil => rw [tokens_nil, tokens_nil, List.map_nil]
  | blank c cs hc ih =>
    rw [tokens_cons_of_blank hc, tokens_cons_of_blank hc, Nat.add_right_comm, ih]
  | lexeme c rest hc ih =>
    rw [tokens_cons hc, tokens_cons hc, Nat.add_right_comm, ih, List.map_cons, ← tokenHere_add]

theorem tokens_ofSource_append {first second : String}
    (h : ¬ Fuses (units first) (units second)) (file : Option String) :
    (ofSource (first ++ second) file).tokens = (ofSource first file).tokens ++
      (ofSource second file).tokens.map (Token.shift first.utf8ByteSize) := by
  have hsplit := tokens_append h (file.getD "shell") 0
  rw [tokens_add, length_units, ← units_append] at hsplit
  exact hsplit

theorem eofToken_ofSource_append (first second : String) (file : Option String) :
    (ofSource (first ++ second) file).eofToken =
      (ofSource second file).eofToken.shift first.utf8ByteSize := by
  simp only [eofToken, ofSource, Token.shift, Span.shift_ofOffsets, length_units,
    String.utf8ByteSize_append, Nat.zero_add, Nat.add_comm]

theorem span_of_mem_tokens {file : String} {offset : Nat} {cs : List Char} {t : Token}
    (h : t ∈ tokens ⟨file, offset, cs⟩) :
    ∃ n m, offset ≤ n ∧ n < offset + cs.length ∧ t.span = Span.ofOffsets n m file := by
  induction cs using lexemes_induction generalizing offset with
  | nil => simp [tokens_nil] at h
  | blank c cs hc ih =>
    rw [tokens_cons_of_blank hc] at h
    obtain ⟨n, m, hle, hlt, hn⟩ := ih h
    rw [List.length_cons]
    exact ⟨n, m, by omega, by omega, hn⟩
  | lexeme c rest hc ih =>
    rw [tokens_cons hc] at h
    rcases List.mem_cons.mp h with rfl | h
    · exact ⟨offset, _, Nat.le_refl _, by simp, rfl⟩
    · obtain ⟨n, m, hle, hlt, hn⟩ := ih h
      have hlength := congrArg List.length (Lexeme.units_first_append_drop c rest)
      rw [List.length_append] at hlength
      exact ⟨n, m, by omega, by omega, hn⟩

theorem exists_unit_of_mem_tokens {file : String} {offset : Nat} {cs : List Char} {t : Token}
    (h : t ∈ tokens ⟨file, offset, cs⟩) :
    ∃ front c rest, cs = front ++ c :: rest ∧ ¬ c.isWhitespace ∧
      t.start = ⟨(offset + front.length).toUInt32, file⟩ := by
  induction cs using lexemes_induction generalizing offset with
  | nil => simp [tokens_nil] at h
  | blank c cs hc ih =>
    rw [tokens_cons_of_blank hc] at h
    obtain ⟨front, u, rest, rfl, hu, hstart⟩ := ih h
    refine ⟨c :: front, u, rest, rfl, hu, ?_⟩
    rw [hstart, List.length_cons, Nat.add_assoc, Nat.add_comm 1]
  | lexeme c rest hc ih =>
    rw [tokens_cons hc] at h
    rcases List.mem_cons.mp h with rfl | h
    · exact ⟨[], c, rest, rfl, hc, rfl⟩
    · obtain ⟨front, u, more, hdrop, hu, hstart⟩ := ih h
      refine ⟨(Lexeme.first c rest).units ++ front, u, more, ?_, hu, ?_⟩
      · rw [List.append_assoc, ← hdrop, Lexeme.units_first_append_drop]
      · rw [hstart, List.length_append, Nat.add_assoc]

theorem offset_lt_offset {n m : Nat} (h : n < m) (hm : m < 2 ^ 32) : n.toUInt32 < m.toUInt32 := by
  rw [UInt32.lt_iff_toNat_lt]
  simp only [Nat.toUInt32, UInt32.toNat_ofNat']
  omega

theorem pairwise_start_tokens {file : String} {offset : Nat} {cs : List Char}
    (h : offset + cs.length < 2 ^ 32) :
    (tokens ⟨file, offset, cs⟩).Pairwise fun t u => t.start.offset < u.start.offset := by
  induction cs using lexemes_induction generalizing offset with
  | nil => simp [tokens_nil]
  | blank c cs hc ih =>
    rw [tokens_cons_of_blank hc]
    rw [List.length_cons] at h
    exact ih (by omega)
  | lexeme c rest hc ih =>
    have hlength := congrArg List.length (Lexeme.units_first_append_drop c rest)
    have hpos := List.length_pos_iff.mpr (Lexeme.units_first_ne_nil c rest)
    rw [List.length_append] at hlength
    rw [tokens_cons hc, List.pairwise_cons]
    refine ⟨fun t ht => ?_, ih (by omega)⟩
    obtain ⟨n, m, hle, hlt, hn⟩ := span_of_mem_tokens ht
    rw [Token.start, Token.start, hn]
    exact offset_lt_offset (by omega : offset < n) (by omega)

theorem kind_ne_eof_of_mem_tokens {l : Lexer} {t : Token} (h : t ∈ l.tokens) : t.kind ≠ .eof := by
  have hmem : t.unplaced ∈ l.tokens.map Token.unplaced := List.mem_map_of_mem h
  rw [map_unplaced_tokens] at hmem
  obtain ⟨x, hx, hxt⟩ := List.mem_map.mp hmem
  have hkind : x.kind = t.kind := congrArg Token.kind hxt
  rw [← hkind]
  by_cases hk : x.kind = .illegal
  · simp [hk]
  · exact (Lexeme.legal_of_mem_lexemes hx hk).kind_ne_eof

end Lexer

theorem forall_mem_units_iff {source : String} :
    (∀ u ∈ units source, u.isWhitespace) ↔
      ∀ c ∈ source.toList, c ∈ [' ', '\t', '\r', '\n'] := by
  have hchar (c : Char) : c ∈ [' ', '\t', '\r', '\n'] ↔ c.isWhitespace := by
    simp [Char.isWhitespace, or_assoc]
  have hunits (c : Char) : (∀ u ∈ charUnits c, u.isWhitespace) ↔ c.isWhitespace := by
    unfold charUnits
    split
    · simp
    · next hc =>
      have hblank : ¬ c.isWhitespace := fun h => hc (toNat_of_isWhitespace h)
      have hstray : ¬ strayByte.isWhitespace := by decide
      simp [List.mem_replicate, hstray, hblank, Char.utf8Size_pos c |>.ne']
  simp only [hchar, units, List.mem_flatMap]
  constructor
  · exact fun h c hc => (hunits c).mp fun u hu => h u ⟨c, hc, hu⟩
  · rintro h u ⟨c, hc, hu⟩
    exact (hunits c).mpr (h c hc) u hu

theorem files_of_mem_tokenize {source : String} {file : Option String} {t : Token}
    (h : t ∈ tokenize source file) :
    t.span.start.file = file.getD "shell" ∧ t.span.stop.file = file.getD "shell" := by
  rcases List.mem_append.mp h with h | h
  · obtain ⟨n, m, -, -, hspan⟩ := Lexer.span_of_mem_tokens h
    rw [hspan]
    exact ⟨rfl, rfl⟩
  · rw [List.mem_singleton.mp h]
    exact ⟨rfl, rfl⟩

theorem Token.offset_start_le {source : String} {file : Option String} {t : Token}
    (ht : t ∈ tokenize source file) : t.start.offset.toNat ≤ source.utf8ByteSize := by
  have hoffset (n : Nat) : n.toUInt32.toNat ≤ n := Nat.mod_le n (2 ^ 32)
  rw [← length_units]
  rcases List.mem_append.mp ht with ht | ht
  · obtain ⟨n, m, -, hlt, hspan⟩ := Lexer.span_of_mem_tokens ht
    have hle := hoffset n
    rw [Token.start, hspan]
    change n.toUInt32.toNat ≤ (units source).length
    omega
  · rw [List.mem_singleton.mp ht, ← Nat.zero_add (units source).length]
    exact hoffset _

theorem exists_unit_at_start {source : String} (h : source.utf8ByteSize < 2 ^ 32)
    {file : Option String} {t : Token} (ht : t ∈ tokenize source file)
    (hlt : t.start.offset.toNat < source.utf8ByteSize) :
    ∃ c, (units source)[t.start.offset.toNat]? = some c ∧ ¬ c.isWhitespace := by
  have hoffset {n : Nat} (hn : n ≤ (units source).length) : n.toUInt32.toNat = n := by
    rw [length_units] at hn
    exact UInt32.toNat_ofNat_of_lt' (Nat.lt_of_le_of_lt hn h)
  rcases List.mem_append.mp ht with ht | ht
  · obtain ⟨front, c, rest, hcut, hc, hstart⟩ := Lexer.exists_unit_of_mem_tokens ht
    have hunits : units source = front ++ c :: rest := hcut
    rw [hstart, Nat.zero_add, hoffset (by simp [hunits]), hunits]
    exact ⟨c, by simp, hc⟩
  · rw [List.mem_singleton.mp ht] at hlt
    have hend : (Lexer.ofSource source file).eofToken.start.offset =
        (0 + (units source).length).toUInt32 := rfl
    rw [hend, Nat.zero_add, hoffset (Nat.le_refl _), length_units] at hlt
    exact absurd hlt (Nat.lt_irrefl _)

theorem pairwise_start_tokenize {source : String} (h : source.utf8ByteSize < 2 ^ 32)
    (file : Option String) :
    (tokenize source file).Pairwise fun t u => t.start.offset < u.start.offset := by
  have hlength : 0 + (units source).length < 2 ^ 32 := by rwa [Nat.zero_add, length_units]
  refine List.pairwise_append.mpr
    ⟨Lexer.pairwise_start_tokens hlength, List.pairwise_singleton _ _, fun t ht u hu => ?_⟩
  obtain ⟨n, m, -, hlt, hn⟩ := Lexer.span_of_mem_tokens ht
  rw [Token.start, Token.start, hn, List.mem_singleton.mp hu]
  exact Lexer.offset_lt_offset hlt hlength

theorem eq_of_start_eq {source : String} (h : source.utf8ByteSize < 2 ^ 32) {file : Option String}
    {j k : Nat} {t u : Token} (ht : (tokenize source file)[j]? = some t)
    (hu : (tokenize source file)[k]? = some u) (heq : t.start = u.start) : j = k := by
  have hpairwise := List.pairwise_iff_getElem.mp (pairwise_start_tokenize h file)
  obtain ⟨hj, rfl⟩ := List.getElem?_eq_some_iff.mp ht
  obtain ⟨hk, rfl⟩ := List.getElem?_eq_some_iff.mp hu
  have hirrefl (o : UInt32) : ¬ o < o := UInt32.lt_irrefl o
  rcases Nat.lt_trichotomy j k with hlt | rfl | hlt
  · exact absurd (hpairwise j k hj hk hlt) (heq ▸ hirrefl _)
  · rfl
  · exact absurd (hpairwise k j hk hj hlt) (heq ▸ hirrefl _)

theorem eq_of_mem_of_start_eq {source : String} (h : source.utf8ByteSize < 2 ^ 32)
    {file : Option String} {t u : Token} (ht : t ∈ tokenize source file)
    (hu : u ∈ tokenize source file) (heq : t.start = u.start) : t = u := by
  obtain ⟨j, ht⟩ := List.mem_iff_getElem?.mp ht
  obtain ⟨k, hu⟩ := List.mem_iff_getElem?.mp hu
  obtain rfl := eq_of_start_eq h ht hu heq
  exact Option.some.inj (ht.symm.trans hu)

end ScriptFrontEnd
