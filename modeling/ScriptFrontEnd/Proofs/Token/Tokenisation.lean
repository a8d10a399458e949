import ScriptFrontEnd.Proofs.Token.Munch
import ScriptFrontEnd.Proofs.Token.Places

namespace ScriptFrontEnd

open Byte

structure MunchFrom (bytes : List UInt8) (file : String) (n : Nat) (tokens : List Token) : Prop where
  munched : ∀ t ∈ tokens, t.Munched bytes file
  le_start : ∀ t ∈ tokens, n ≤ t.startByte
  ordered : tokens.Pairwise fun t u => t.stopByte ≤ u.startByte
  blank : ∀ (i : Nat) (h : i < bytes.length), n ≤ i →
    (∀ t ∈ tokens, i < t.startByte ∨ t.stopByte ≤ i) → IsBlank bytes[i]

theorem maximalMunch_iff {bytes : List UInt8} {file : String} {tokens : List Token} :
    MaximalMunch bytes file tokens ↔ MunchFrom bytes file 0 tokens := by
  constructor
  · exact fun h => ⟨h.munched, fun t _ => Nat.zero_le _, h.ordered, fun i hi _ => h.blank i hi⟩
  · exact fun h => ⟨h.munched, h.ordered, fun i hi => h.blank i hi (Nat.zero_le i)⟩

section

variable {bytes : List UInt8} {file : String}

namespace Token.Munched

variable {t u : Token}

theorem length_covered (h : t.Munched bytes file) :
    (t.covered bytes).length = t.stopByte - t.startByte := by
  have := h.stop_le
  simp only [covered, List.extract_eq_take_drop, List.length_take, List.length_drop]
  omega

theorem drop_startByte (h : t.Munched bytes file) :
    bytes.drop t.startByte = t.covered bytes ++ bytes.drop t.stopByte := by
  have hstop : t.startByte + (t.stopByte - t.startByte) = t.stopByte :=
    Nat.add_sub_of_le (Nat.le_of_lt h.start_lt_stop)
  have hsplit := List.take_append_drop (t.stopByte - t.startByte) (bytes.drop t.startByte)
  rw [List.drop_drop, hstop] at hsplit
  rw [covered, List.extract_eq_take_drop, hsplit]

theorem munch_head? (h : t.Munched bytes file) :
    Munch (bytes.drop t.stopByte).head? (t.covered bytes) t.kind := by
  rw [List.head?_drop]
  exact h.munch

theorem ofOffsets_eq (h : t.Munched bytes file) :
    Span.ofOffsets t.startByte t.stopByte file = t.span := by
  obtain ⟨kind, text, ⟨⟨start, startFile⟩, ⟨stop, stopFile⟩⟩⟩ := t
  obtain ⟨rfl, rfl⟩ : startFile = file ∧ stopFile = file := h.files
  simp [Span.ofOffsets, startByte, stopByte]

theorem eq_tokenHere (h : t.Munched bytes file) :
    ∃ b rest, bytes.drop t.startByte = b :: rest ∧ ¬ IsBlank b ∧
      t = Lexer.tokenHere ⟨file, t.startByte, (b :: rest).map unit⟩
        (Lexeme.first (unit b) (rest.map unit)) := by
  obtain ⟨b, run, hcovered, hblank, hfirst⟩ := h.munch_head?.first_eq
  have hlt := h.start_lt_stop
  have htext := h.munch_head?.text_iff.mp h.text
  have hstop : t.startByte + ((t.covered bytes).map unit).length = t.stopByte := by
    rw [List.length_map, h.length_covered]
    omega
  refine ⟨b, run ++ bytes.drop t.stopByte, ?_, hblank, ?_⟩
  · rw [h.drop_startByte, hcovered, List.cons_append]
  · rw [hfirst, Lexer.tokenHere]
    dsimp only
    rw [hstop, h.ofOffsets_eq, Lexeme.text, ← htext]

theorem unique (ht : t.Munched bytes file) (hu : u.Munched bytes file)
    (h : t.startByte = u.startByte) : t = u := by
  obtain ⟨b, rest, hdrop, -, ht⟩ := ht.eq_tokenHere
  obtain ⟨c, more, hdrop', -, hu⟩ := hu.eq_tokenHere
  rw [← h, hdrop] at hdrop'
  obtain ⟨rfl, rfl⟩ := List.cons.inj hdrop'
  rw [ht, hu, h]

end Token.Munched

variable {n : Nat} {tokens : List Token} {b : UInt8} {rest : List UInt8}

theorem Token.byte_of_ofOffsets {kind : Kind} {text : String} {m : Nat} (hn : n < 2 ^ 32)
    (hm : m < 2 ^ 32) :
    startByte ⟨kind, text, Span.ofOffsets n m file⟩ = n ∧
      stopByte ⟨kind, text, Span.ofOffsets n m file⟩ = m := by
  constructor
  · show n % 2 ^ 32 = n
    omega
  · show m % 2 ^ 32 = m
    omega

theorem Munch.munched {covered : List UInt8} {kind : Kind} (h : Munch rest.head? covered kind)
    (hlength : bytes.length < 2 ^ 32) (hdrop : bytes.drop n = covered ++ rest) (file : String)
    {t : Token} (ht : t = ⟨kind, String.ofList (covered.map unit),
      Span.ofOffsets n (n + covered.length) file⟩) :
    t.Munched bytes file ∧ t.startByte = n ∧ t.stopByte = n + covered.length := by
  obtain ⟨b, run, hcons, -, -⟩ := h.first_eq
  have hpos : 0 < covered.length := by
    rw [hcons]
    exact Nat.succ_pos _
  have hsum := congrArg List.length hdrop
  rw [List.length_drop, List.length_append] at hsum
  obtain ⟨hstart, hstop⟩ : t.startByte = n ∧ t.stopByte = n + covered.length := by
    rw [ht]
    exact Token.byte_of_ofOffsets (by omega) (by omega)
  have hcovered : t.covered bytes = covered := by
    rw [Token.covered, List.extract_eq_take_drop, hstart, hstop, hdrop, Nat.add_sub_cancel_left,
      List.take_left]
  have hnext : Munch bytes[t.stopByte]? (t.covered bytes) t.kind := by
    rw [hcovered, ← List.head?_drop, hstop, ← List.drop_drop, hdrop, List.drop_left, ht]
    exact h
  refine ⟨⟨by omega, by omega, ?_, ?_, hnext⟩, hstart, hstop⟩
  · rw [ht]
    exact ⟨rfl, rfl⟩
  · rw [hnext.text_iff, hcovered, ht]

theorem getElem_of_drop (h : bytes.drop n = b :: rest) :
    ∃ hn : n < bytes.length, bytes[n] = b := by
  have hget : bytes[n]? = some b := by
    rw [← List.head?_drop, h, List.head?_cons]
  exact List.getElem?_eq_some_iff.mp hget

theorem munchFrom_length : MunchFrom bytes file bytes.length tokens ↔ tokens = [] := by
  constructor
  · intro h
    refine List.eq_nil_iff_forall_not_mem.mpr fun t ht => ?_
    have hlt := (h.munched t ht).start_lt_stop
    have hle := (h.munched t ht).stop_le
    have hstart := h.le_start t ht
    omega
  · rintro rfl
    exact ⟨by simp, by simp, .nil, fun i hi hle => absurd hi (Nat.not_lt.mpr hle)⟩

theorem munchFrom_blank (hdrop : bytes.drop n = b :: rest)
    (hb : IsBlank b) : MunchFrom bytes file n tokens ↔ MunchFrom bytes file (n + 1) tokens := by
  obtain ⟨hn, hget⟩ := getElem_of_drop hdrop
  constructor
  · intro h
    refine ⟨h.munched, fun t ht => ?_, h.ordered, fun i hi hle => h.blank i hi (by omega)⟩
    have hle := h.le_start t ht
    have hne : n ≠ t.startByte := by
      rintro rfl
      obtain ⟨c, more, hdrop', hc, -⟩ := (h.munched t ht).eq_tokenHere
      obtain ⟨rfl, -⟩ := List.cons.inj (hdrop.symm.trans hdrop')
      exact hc hb
    omega
  · intro h
    refine ⟨h.munched, fun t ht => Nat.le_of_succ_le (h.le_start t ht), h.ordered, ?_⟩
    intro i hi hle hout
    rcases Nat.eq_or_lt_of_le hle with rfl | hlt
    · rw [hget]
      exact hb
    · exact h.blank i hi hlt hout

theorem MunchFrom.exists_covering (h : MunchFrom bytes file n tokens) {i : Nat}
    (hi : i < bytes.length) (hle : n ≤ i) (hb : ¬ IsBlank bytes[i]) :
    ∃ t ∈ tokens, t.startByte ≤ i ∧ i < t.stopByte := by
  refine Decidable.byContradiction fun hnone => hb (h.blank i hi hle fun t ht => ?_)
  have hout := not_and.mp fun hboth => hnone ⟨t, ht, hboth⟩
  omega

theorem munchFrom_munched {t : Token} (ht : t.Munched bytes file) :
    MunchFrom bytes file t.startByte tokens ↔
      ∃ more, tokens = t :: more ∧ MunchFrom bytes file t.stopByte more := by
  have hlt := ht.start_lt_stop
  constructor
  · intro h
    obtain ⟨b, rest, hdrop, hb, -⟩ := ht.eq_tokenHere
    obtain ⟨hn, rfl⟩ := getElem_of_drop hdrop
    obtain ⟨u, hu, hle, -⟩ := h.exists_covering hn (Nat.le_refl _) hb
    obtain rfl : t = u := ht.unique (h.munched u hu) (Nat.le_antisymm (h.le_start u hu) hle)
    cases tokens with
    | nil => simp at hu
    | cons v more =>
      obtain ⟨hbefore, hmore⟩ := List.pairwise_cons.mp h.ordered
      obtain rfl : t = v := by
        rcases List.mem_cons.mp hu with htv | hu
        · exact htv
        · have hv := (h.munched v (List.mem_cons_self ..)).start_lt_stop
          have hstart := h.le_start v (List.mem_cons_self ..)
          have hstop := hbefore t hu
          omega
      refine ⟨more, rfl, fun u hu => h.munched u (List.mem_cons_of_mem _ hu), hbefore, hmore, ?_⟩
      intro i hi hle hout
      refine h.blank i hi (by omega) (List.forall_mem_cons.mpr ⟨.inr hle, hout⟩)
  · rintro ⟨more, rfl, h⟩
    refine ⟨List.forall_mem_cons.mpr ⟨ht, h.munched⟩, ?_,
      List.pairwise_cons.mpr ⟨h.le_start, h.ordered⟩, ?_⟩
    · refine List.forall_mem_cons.mpr ⟨Nat.le_refl _, fun u hu => ?_⟩
      have := h.le_start u hu
      omega
    · intro i hi hle hout
      obtain ⟨hhere, hout⟩ := List.forall_mem_cons.mp hout
      exact h.blank i hi (by omega) hout

theorem exists_tokens_eq_cons (hlength : bytes.length < 2 ^ 32) (hdrop : bytes.drop n = b :: rest)
    (hb : ¬ IsBlank b) (file : String) :
    ∃ t : Token, t.Munched bytes file ∧ t.startByte = n ∧
      Lexer.tokens ⟨file, n, (b :: rest).map unit⟩ =
        t :: Lexer.tokens ⟨file, t.stopByte, (bytes.drop t.stopByte).map unit⟩ := by
  obtain ⟨run, more, kind, rfl, hmunch⟩ := exists_munch hb rest
  obtain ⟨c, run', hcovered, -, hfirst⟩ := hmunch.first_eq
  obtain ⟨rfl, rfl⟩ := List.cons.inj hcovered
  have hblank : ¬ (unit b).isWhitespace := (isWhitespace_unit b).not.mpr hb
  obtain ⟨ht, hstart, hstop⟩ := hmunch.munched hlength hdrop file rfl
  refine ⟨_, ht, hstart, ?_⟩
  rw [hstop, ← List.drop_drop, hdrop, List.map_drop, List.map_cons, Lexer.tokens_cons hblank, hfirst,
    Lexer.tokenHere, Lexeme.text]
  dsimp only
  rw [List.length_map]

theorem tokens_eq_iff_munchFrom (hlength : bytes.length < 2 ^ 32) (hn : n ≤ bytes.length) :
    Lexer.tokens ⟨file, n, (bytes.drop n).map unit⟩ = tokens ↔ MunchFrom bytes file n tokens := by
  induction hk : bytes.length - n using Nat.strongRecOn generalizing n tokens with
  | _ k ih =>
    cases hdrop : bytes.drop n with
    | nil =>
      obtain rfl : n = bytes.length := Nat.le_antisymm hn (List.drop_eq_nil_iff.mp hdrop)
      rw [munchFrom_length, List.map_nil, Lexer.tokens_nil]
      exact eq_comm
    | cons b rest =>
      obtain ⟨hlt, -⟩ := getElem_of_drop hdrop
      by_cases hb : IsBlank b
      · have hrest : bytes.drop (n + 1) = rest := by
          rw [← List.drop_drop, hdrop, List.drop_one, List.tail_cons]
        rw [munchFrom_blank hdrop hb, List.map_cons,
          Lexer.tokens_cons_of_blank ((isWhitespace_unit b).mpr hb), ← hrest]
        exact ih _ (by omega) hlt rfl
      · obtain ⟨t, ht, rfl, htokens⟩ := exists_tokens_eq_cons hlength hdrop hb file
        have hlt := ht.start_lt_stop
        have hle := ht.stop_le
        rw [htokens, munchFrom_munched ht]
        constructor
        · rintro rfl
          exact ⟨_, rfl, (ih _ (by omega) hle rfl).mp rfl⟩
        · rintro ⟨more, rfl, hmore⟩
          rw [(ih _ (by omega) hle rfl).mpr hmore]

end

theorem tokens_ofSource_iff {source : String} (h : source.utf8ByteSize < 2 ^ 32)
    (file : Option String) {tokens : List Token} :
    (Lexer.ofSource source file).tokens = tokens ↔
      MaximalMunch (utf8 source) (file.getD "shell") tokens := by
  have hlength : (utf8 source).length < 2 ^ 32 := h
  have htokens : Lexer.tokens ⟨file.getD "shell", 0, ((utf8 source).drop 0).map unit⟩ = tokens ↔
      MunchFrom (utf8 source) (file.getD "shell") 0 tokens :=
    tokens_eq_iff_munchFrom hlength (Nat.zero_le _)
  rw [List.drop_zero, map_unit_utf8] at htokens
  exact htokens.trans maximalMunch_iff.symm

theorem eofToken_ofSource (source : String) (file : Option String) :
    (Lexer.ofSource source file).eofToken =
      ⟨.eof, "", Span.ofOffsets source.utf8ByteSize source.utf8ByteSize (file.getD "shell")⟩ := by
  simp [Lexer.eofToken, Lexer.ofSource, length_units]

theorem tokenize_eq_iff_maximalMunch {source : String} (h : source.utf8ByteSize < 2 ^ 32)
    (file : Option String) (tokens : List Token) :
    tokenize source file = tokens ↔
      ∃ body, tokens = body ++ [⟨.eof, "", Span.ofOffsets source.utf8ByteSize source.utf8ByteSize
          (file.getD "shell")⟩] ∧
        (∀ t ∈ body, t.kind ≠ .eof) ∧ MaximalMunch (utf8 source) (file.getD "shell") body := by
  rw [tokenize, eofToken_ofSource]
  constructor
  · rintro rfl
    have hmunch := (tokens_ofSource_iff h file).mp rfl
    exact ⟨_, rfl, fun t ht => (hmunch.munched t ht).munch.kind_ne_eof, hmunch⟩
  · rintro ⟨body, rfl, -, hmunch⟩
    rw [(tokens_ofSource_iff h file).mpr hmunch]

theorem maximalMunch_of_three_equals :
    MaximalMunch (utf8 "===é\t_a1") "shell"
      [⟨.equals, "==", Span.ofOffsets 0 2 "shell"⟩, ⟨.assignment, "=", Span.ofOffsets 2 3 "shell"⟩,
        ⟨.illegal, "\uFFFD", Span.ofOffsets 3 4 "shell"⟩,
        ⟨.illegal, "\uFFFD", Span.ofOffsets 4 5 "shell"⟩,
        ⟨.identifier, "_a", Span.ofOffsets 6 8 "shell"⟩,
        ⟨.int, "1", Span.ofOffsets 8 9 "shell"⟩] := by
  have htokens : tokenize "===é\t_a1" none =
      [⟨.equals, "==", Span.ofOffsets 0 2 "shell"⟩, ⟨.assignment, "=", Span.ofOffsets 2 3 "shell"⟩,
        ⟨.illegal, "\uFFFD", Span.ofOffsets 3 4 "shell"⟩,
        ⟨.illegal, "\uFFFD", Span.ofOffsets 4 5 "shell"⟩,
        ⟨.identifier, "_a", Span.ofOffsets 6 8 "shell"⟩,
        ⟨.int, "1", Span.ofOffsets 8 9 "shell"⟩] ++ [⟨.eof, "", Span.ofOffsets 9 9 "shell"⟩] := by
    decide +kernel
  obtain ⟨body, hbody, -, hmunch⟩ := (tokenize_eq_iff_maximalMunch (by decide) none _).mp htokens
  rw [List.append_inj_left' hbody rfl]
  exact hmunch

end ScriptFrontEnd
