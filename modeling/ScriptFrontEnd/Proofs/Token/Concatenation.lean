import ScriptFrontEnd.Proofs.Token.Tokenisation

namespace ScriptFrontEnd

open Byte

namespace Munch

variable {covered : List UInt8} {b c : UInt8} {kind : Kind}

theorem not_run_goes_on (h : Munch (some c) covered kind) (hb : covered.getLast? = some b) :
    (IsWord b → ¬ IsWord c) ∧ (IsDigit b → ¬ IsDigit c) := by
  have hmem : b ∈ covered := List.mem_of_getLast? hb
  cases h with
  | keyword hreserved hc =>
    obtain ⟨-, hrun, -⟩ := ofWord_of_reserved hreserved
    exact ⟨fun _ => hc c rfl, fun hd => absurd hd (not_isDigit_of_isWord (hrun b hmem))⟩
  | name hne hrun hreserved hc =>
    exact ⟨fun _ => hc c rfl, fun hd => absurd hd (not_isDigit_of_isWord (hrun b hmem))⟩
  | numeral hne hrun hc =>
    exact ⟨fun hw => absurd (hrun b hmem) (not_isDigit_of_isWord hw), fun _ => hc c rfl⟩
  | equals | notEquals | assignment =>
    obtain rfl : '='.toUInt8 = b := Option.some.inj hb
    exact ⟨fun hw => absurd hw (by decide), fun hd => absurd hd (by decide)⟩
  | not =>
    obtain rfl : '!'.toUInt8 = b := Option.some.inj hb
    exact ⟨fun hw => absurd hw (by decide), fun hd => absurd hd (by decide)⟩
  | punctuation hp =>
    have hall : ∀ p ∈ Kind.punctuation, ¬ IsWord p.1.toUInt8 ∧ ¬ IsDigit p.1.toUInt8 := by decide
    obtain rfl := List.mem_singleton.mp hmem
    obtain ⟨hw, hd⟩ := hall _ hp
    exact ⟨fun h => absurd h hw, fun h => absurd h hd⟩
  | illegal hblank hw hd =>
    obtain rfl := List.mem_singleton.mp hmem
    exact ⟨fun h => absurd h hw, fun h => absurd h hd⟩

theorem not_sign_goes_on (h : Munch (some '='.toUInt8) covered kind) :
    covered ≠ utf8 "=" ∧ covered ≠ utf8 "!" := by
  have hhead : Munch ['='.toUInt8].head? covered kind := h
  obtain ⟨b, run, hcovered, -, hfirst⟩ := hhead.first_eq
  constructor
  all_goals
    rintro rfl
    obtain ⟨rfl, rfl⟩ := List.cons.inj hcovered
    have hunits := congrArg Lexeme.units hfirst
    dsimp only at hunits
    exact absurd hunits (by decide)

end Munch

section

variable {bytes : List UInt8} {file : String} {tokens : List Token} {t : Token}

theorem Token.Munched.getLast?_covered (h : t.Munched bytes file)
    (hstop : t.stopByte = bytes.length) : (t.covered bytes).getLast? = bytes.getLast? := by
  have hlt := h.start_lt_stop
  have hdrop := h.drop_startByte
  rw [hstop, List.drop_length, List.append_nil] at hdrop
  rw [← hdrop, List.getLast?_drop, if_neg (by omega)]

theorem Token.covered_append (h : t.stopByte ≤ bytes.length) (more : List UInt8) :
    t.covered (bytes ++ more) = t.covered bytes := by
  rw [covered, covered, List.extract_eq_take_drop, List.extract_eq_take_drop, ← List.drop_take,
    List.take_append_of_le_length h, List.drop_take]

theorem MaximalMunch.exists_last (h : MaximalMunch bytes file tokens) {b : UInt8}
    (hlast : bytes.getLast? = some b) (hb : ¬ IsBlank b) :
    ∃ t ∈ tokens.getLast?, t.stopByte = bytes.length := by
  obtain ⟨front, rfl⟩ := List.getLast?_eq_some_iff.mp hlast
  have hlength : (front ++ [b]).length = front.length + 1 := List.length_append
  obtain ⟨t, ht, -, hstop⟩ := (maximalMunch_iff.mp h).exists_covering (i := front.length)
    (by omega) (Nat.zero_le _) (by simpa using hb)
  have hle := (h.munched t ht).stop_le
  cases hu : tokens.getLast? with
  | none => simp [List.getLast?_eq_none_iff.mp hu] at ht
  | some u =>
    obtain ⟨before, rfl⟩ := List.getLast?_eq_some_iff.mp hu
    have hmunched := h.munched u (by simp)
    have hlt := hmunched.start_lt_stop
    have hle := hmunched.stop_le
    refine ⟨u, rfl, ?_⟩
    rcases List.mem_append.mp ht with ht | ht
    · have horder := (List.pairwise_append.mp h.ordered).2.2 t ht u (by simp)
      omega
    · obtain rfl := List.mem_singleton.mp ht
      omega

theorem MaximalMunch.not_goesOn {more : List UInt8} {others : List Token}
    (h : MaximalMunch bytes file tokens)
    (happend : MaximalMunch (bytes ++ more) file (tokens ++ others)) :
    ¬ GoesOn bytes more tokens := by
  have hnext {t : Token} {c : UInt8} (ht : t ∈ tokens) (hstop : t.stopByte = bytes.length)
      (hc : more.head? = some c) : Munch (some c) (t.covered bytes) t.kind := by
    have hmunch := (happend.munched t (List.mem_append_left _ ht)).munch
    rwa [Token.covered_append (Nat.le_of_eq hstop), hstop, List.getElem?_append_right (Nat.le_refl _),
      Nat.sub_self, ← List.head?_eq_getElem?, hc] at hmunch
  rintro (⟨b, hb, c, hc, hrun⟩ | ⟨t, ht, htext, hstop, hc⟩)
  · have hblank : ¬ IsBlank b := not_isBlank_of_class (hrun.imp And.left And.left)
    obtain ⟨t, ht, hstop⟩ := h.exists_last hb hblank
    have ht := List.mem_of_getLast? ht
    have hlast := (h.munched t ht).getLast?_covered hstop
    obtain ⟨hword, hdigit⟩ := (hnext ht hstop hc).not_run_goes_on (hlast.trans hb)
    rcases hrun with ⟨hb, hc⟩ | ⟨hb, hc⟩
    · exact hword hb hc
    · exact hdigit hb hc
  · have ht := List.mem_of_getLast? ht
    obtain ⟨hequals, hbang⟩ := (hnext ht hstop hc).not_sign_goes_on
    rcases (h.munched t ht).text with ⟨-, hcovered⟩ | ⟨b, -, -, -, hstray⟩
    · rcases htext with htext | htext
      · exact hequals (by rw [← hcovered, htext])
      · exact hbang (by rw [← hcovered, htext])
    · rw [hstray] at htext
      exact absurd htext (by decide)

end

theorem goesOn_of_fuses {first second : String} (h : first.utf8ByteSize < 2 ^ 32)
    (file : Option String) (hf : Fuses (units first) (units second)) :
    GoesOn (utf8 first) (utf8 second) (tokenize first file).dropLast := by
  obtain ⟨c, hc, d, hd, hf⟩ := hf
  rw [← map_unit_utf8, List.getLast?_map] at hc
  rw [← map_unit_utf8, List.head?_map] at hd
  obtain ⟨b, hb, rfl⟩ := Option.map_eq_some_iff.mp hc
  obtain ⟨e, he, rfl⟩ := Option.map_eq_some_iff.mp hd
  rcases hf with hword | hdigit | ⟨hsign, heq, x, hx, hone⟩
  · exact .inl ⟨b, hb, e, he, .inl (hword.imp (isWordChar_unit b).mp (isWordChar_unit e).mp)⟩
  · exact .inl ⟨b, hb, e, he, .inr (hdigit.imp (isDigit_unit b).mp (isDigit_unit e).mp)⟩
  · have hblank : ¬ IsBlank b := by
      rw [← isWhitespace_unit]
      rcases hsign with hsign | hsign <;> rw [hsign] <;> decide
    have hmunch := (tokens_ofSource_iff h file).mp rfl
    obtain ⟨t, ht, hstop⟩ := hmunch.exists_last hb hblank
    have hbare := congrArg List.getLast? (map_unplaced_tokenize first file)
    rw [tokenize, List.dropLast_concat, List.getLast?_map, Option.mem_def.mp ht, bareTokens,
      List.getLast?_map, Option.mem_def.mp hx] at hbare
    have htext : t.text = x.text := congrArg Token.text (Option.some.inj hbare)
    rw [Lexeme.text, hone] at htext
    rw [unit_eq_iff (by decide)] at heq
    refine .inr ⟨t, ?_, ?_, hstop, heq ▸ he⟩
    · rw [tokenize, List.dropLast_concat]
      exact ht
    · rw [htext]
      rcases hsign with hsign | hsign <;> rw [hsign]
      · exact .inl rfl
      · exact .inr rfl

theorem tokenize_append_iff {first second : String}
    (h : first.utf8ByteSize + second.utf8ByteSize < 2 ^ 32) (file : Option String) :
    tokenize (first ++ second) file = (tokenize first file).dropLast ++
        (tokenize second file).map (Token.shift first.utf8ByteSize) ↔
      ¬ GoesOn (utf8 first) (utf8 second) (tokenize first file).dropLast := by
  have hsize : (first ++ second).utf8ByteSize < 2 ^ 32 := by
    rwa [String.utf8ByteSize_append]
  have hfirst : first.utf8ByteSize < 2 ^ 32 := by omega
  have hsplit : tokenize (first ++ second) file = (tokenize first file).dropLast ++
        (tokenize second file).map (Token.shift first.utf8ByteSize) ↔
      (Lexer.ofSource (first ++ second) file).tokens = (Lexer.ofSource first file).tokens ++
        (Lexer.ofSource second file).tokens.map (Token.shift first.utf8ByteSize) := by
    rw [tokenize, tokenize, tokenize, List.dropLast_concat, List.map_append, List.map_singleton,
      ← Lexer.eofToken_ofSource_append, ← List.append_assoc, List.append_cancel_right_eq]
  rw [hsplit]
  constructor
  · intro heq
    have happend := (tokens_ofSource_iff hsize file).mp heq
    rw [utf8_append] at happend
    have hmunch := (tokens_ofSource_iff hfirst file).mp rfl
    rw [tokenize, List.dropLast_concat]
    exact hmunch.not_goesOn happend
  · intro hseam
    exact Lexer.tokens_ofSource_append (fun hf => hseam (goesOn_of_fuses hfirst file hf)) file

theorem tokenize_append_of_signs :
    tokenize ("====" ++ "=1") none = (tokenize "====" none).dropLast ++
        (tokenize "=1" none).map (Token.shift 4) ∧
      tokenize ("===" ++ "=1") none ≠ (tokenize "===" none).dropLast ++
        (tokenize "=1" none).map (Token.shift 3) := by
  have hevenSize : "====".utf8ByteSize + "=1".utf8ByteSize < 2 ^ 32 := by decide
  have hoddSize : "===".utf8ByteSize + "=1".utf8ByteSize < 2 ^ 32 := by decide
  have heven := tokenize_append_iff hevenSize none
  have hodd := tokenize_append_iff hoddSize none
  constructor
  · refine heven.mpr ?_
    have hlast : (tokenize "====" none).dropLast.getLast? =
        some ⟨.equals, "==", Span.ofOffsets 2 4 "shell"⟩ := by decide +kernel
    rintro (⟨b, hb, c, -, hrun⟩ | ⟨t, ht, htext, -⟩)
    · obtain rfl : '='.toUInt8 = b := Option.some.inj hb
      rcases hrun with ⟨hword, -⟩ | ⟨hdigit, -⟩
      · exact absurd hword (by decide)
      · exact absurd hdigit (by decide)
    · obtain rfl := Option.some.inj (hlast.symm.trans ht)
      exact absurd htext (by decide)
  · refine hodd.not.mpr (not_not.mpr (.inr ?_))
    have hlast : (tokenize "===" none).dropLast.getLast? =
        some ⟨.assignment, "=", Span.ofOffsets 2 3 "shell"⟩ := by decide +kernel
    exact ⟨_, hlast, .inl rfl, rfl, rfl⟩

end ScriptFrontEnd
