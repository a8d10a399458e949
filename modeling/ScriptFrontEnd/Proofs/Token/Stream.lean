import ScriptFrontEnd.Parser.Cursor
import ScriptFrontEnd.Proofs.Token.Scanner

namespace ScriptFrontEnd

namespace Lexer

variable {l l' : Lexer} {t : Token}

theorem eofToken_skip {n : Nat} (h : n ≤ l.rest.length) : (l.skip n).eofToken = l.eofToken := by
  have hstop : l.offset + n + (l.rest.length - n) = l.offset + l.rest.length := by omega
  simp only [eofToken, skip, List.length_drop, hstop]

theorem eofToken_of_next? (h : l.next? = some (t, l')) : l'.eofToken = l.eofToken := by
  have hblanks : l.skipBlanks.eofToken = l.eofToken :=
    eofToken_skip (List.takeWhile_sublist _).length_le
  rw [next?] at h
  cases hrest : l.skipBlanks.rest with
  | nil => simp [hrest] at h
  | cons c rest =>
    simp only [hrest, Option.some.injEq, Prod.mk.injEq] at h
    rw [← h.2, ← hblanks]
    exact eofToken_skip (hrest ▸ (Lexeme.prefix_units_first c rest).length_le)

theorem next_of_none (h : l.next? = none) : l.next = (l.eofToken, l.skip l.rest.length) := by
  rw [next, h, Option.getD_none]

theorem next_of_some (h : l.next? = some (t, l')) : l.next = (t, l') := by
  rw [next, h, Option.getD_some]

theorem length_tokens_le (l : Lexer) : l.tokens.length ≤ l.rest.length := by
  induction hn : l.rest.length using Nat.strongRecOn generalizing l with
  | _ n ih =>
    cases h : l.next? with
    | none =>
      rw [tokens_of_none h]
      exact Nat.zero_le n
    | some found =>
      obtain ⟨t, l'⟩ := found
      have hlt := length_rest_next? h
      have hle := ih _ (hn ▸ hlt) l' rfl
      rw [tokens_of_some h, List.length_cons]
      omega

end Lexer

namespace Cursor

theorem current_ofLexer (l : Lexer) : (ofLexer l).current = l.next.1 := by
  rw [ofLexer, current]
  cases h : l.next? with
  | none => rw [Lexer.tokens_of_none h, Lexer.next_of_none h, List.headD_nil]
  | some found => rw [Lexer.tokens_of_some h, Lexer.next_of_some h, List.headD_cons]

theorem advance_ofLexer (l : Lexer) : (ofLexer l).advance = ofLexer l.next.2 := by
  rw [ofLexer, advance, ofLexer]
  cases h : l.next? with
  | none =>
    have hrest : (l.skip l.rest.length).rest = [] := List.drop_length
    have hend : (l.skip l.rest.length).next? = none := by
      rw [Lexer.next?, Lexer.rest_skipBlanks, hrest]
      rfl
    rw [Lexer.tokens_of_none h, Lexer.next_of_none h, Lexer.tokens_of_none hend,
      Lexer.eofToken_skip (Nat.le_refl _), List.tail_nil]
  | some found =>
    rw [Lexer.tokens_of_some h, Lexer.next_of_some h, Lexer.eofToken_of_next? h, List.tail_cons]

def nth (c : Cursor) (k : Nat) : Token := c.ahead[k]?.getD c.eof

theorem nth_zero (c : Cursor) : c.nth 0 = c.current := by
  obtain ⟨ahead, eof⟩ := c
  cases ahead <;> rfl

theorem nth_advance (c : Cursor) (k : Nat) : c.advance.nth k = c.nth (k + 1) := by
  rw [nth, nth, advance, List.getElem?_tail]

end Cursor

theorem tokenStream_eq_nth (source : String) (file : Option String) :
    tokenStream source file = (Cursor.ofLexer (Lexer.ofSource source file)).nth := by
  funext k
  rw [tokenStream, tokenize, ← eofToken_ofSource, Cursor.nth, Cursor.ofLexer]
  dsimp only
  rcases Nat.lt_or_ge k (Lexer.ofSource source file).tokens.length with hlt | hle
  · rw [List.getElem?_append_left hlt]
  · rw [List.getElem?_append_right hle, List.getElem?_eq_none hle, List.getElem?_singleton]
    split <;> rfl

namespace Scanner

variable {s : Scanner}

theorem lexer_ofSource (source : String) (file : Option String) :
    (ofSource source file).lexer = Lexer.ofSource source file := by
  have hpos : (ofSource source file).pos = 0 := Nat.zero_min _
  rw [lexer, hpos, List.drop_zero, Lexer.ofSource, ← map_unit_utf8]
  rfl

theorem Coherent.exists_take? (h : s.Coherent) (n : Nat) :
    ∃ t, s.take? n = some ((List.range n).map (Cursor.ofLexer s.lexer).nth, t) ∧
      t.source = s.source ∧ t.Coherent ∧
      ∀ k, (Cursor.ofLexer t.lexer).nth k = (Cursor.ofLexer s.lexer).nth (n + k) := by
  induction n generalizing s with
  | zero => exact ⟨s, rfl, rfl, h, fun k => by rw [Nat.zero_add]⟩
  | succ n ih =>
    obtain ⟨m, t, hnext, hahead, hlexer, -⟩ := h.exists_next?
    obtain ⟨u, htake, hsource, hu, hstream⟩ := ih hahead.coherent
    have hnth (k : Nat) :
        (Cursor.ofLexer t.lexer).nth k = (Cursor.ofLexer s.lexer).nth (k + 1) := by
      rw [hlexer, ← Cursor.advance_ofLexer, Cursor.nth_advance]
    refine ⟨u, ?_, hsource.trans hahead.source, hu, fun k => ?_⟩
    · have hrange : (List.range (n + 1)).map (Cursor.ofLexer s.lexer).nth =
          s.lexer.next.1 :: (List.range n).map (Cursor.ofLexer t.lexer).nth := by
        rw [List.range_succ_eq_map, List.map_cons, Cursor.nth_zero, Cursor.current_ofLexer,
          List.map_map]
        exact congrArg _ (List.map_congr_left fun k _ => (hnth k).symm)
      rw [take?, hnext, Option.bind_eq_bind, Option.bind_some]
      dsimp only
      rw [htake, hrange]
      rfl
    · rw [hstream, hnth, Nat.add_right_comm]

theorem Coherent.next?_cases (h : s.Coherent) :
    (s.lexer.tokens = [] ∧ ∃ t, s.next? = some (s.lexer.eofToken, t)) ∨
      ∃ token t, s.next? = some (token, t) ∧ token.kind ≠ .eof ∧ t.Coherent ∧
        s.lexer.tokens = token :: t.lexer.tokens ∧ t.lexer.eofToken = s.lexer.eofToken := by
  obtain ⟨m, t, hnext, hahead, hlexer, -⟩ := h.exists_next?
  cases hn : s.lexer.next? with
  | none =>
    rw [Lexer.next_of_none hn] at hnext
    exact .inl ⟨Lexer.tokens_of_none hn, t, hnext⟩
  | some found =>
    have htokens := Lexer.tokens_of_some hn
    rw [Lexer.next_of_some hn] at hnext hlexer
    have heof : t.lexer.eofToken = s.lexer.eofToken := hlexer ▸ Lexer.eofToken_of_next? hn
    rw [← hlexer] at htokens
    refine .inr ⟨found.1, t, hnext, ?_, hahead.coherent, htokens, heof⟩
    exact Lexer.kind_ne_eof_of_mem_tokens (htokens ▸ List.mem_cons_self)

theorem Drains.eq_tokens {tokens : List Token} (h : s.Drains tokens) (hs : s.Coherent) :
    tokens = s.lexer.tokens ++ [s.lexer.eofToken] := by
  induction h with
  | last hnext hk =>
    obtain ⟨htokens, t, hnext'⟩ | ⟨token, t, hnext', hne, -⟩ := hs.next?_cases
    · obtain ⟨rfl, -⟩ := Prod.mk.inj (Option.some.inj (hnext.symm.trans hnext'))
      rw [htokens, List.nil_append]
    · obtain ⟨rfl, -⟩ := Prod.mk.inj (Option.some.inj (hnext.symm.trans hnext'))
      exact absurd hk hne
  | more hnext hk _ ih =>
    obtain ⟨-, t, hnext'⟩ | ⟨token, t, hnext', -, ht, htokens, heof⟩ := hs.next?_cases
    · obtain ⟨rfl, -⟩ := Prod.mk.inj (Option.some.inj (hnext.symm.trans hnext'))
      exact absurd rfl hk
    · obtain ⟨rfl, rfl⟩ := Prod.mk.inj (Option.some.inj (hnext.symm.trans hnext'))
      rw [ih ht, htokens, heof, List.cons_append]

theorem Coherent.drains (h : s.Coherent) : s.Drains (s.lexer.tokens ++ [s.lexer.eofToken]) := by
  induction hn : s.lexer.tokens generalizing s with
  | nil =>
    obtain ⟨-, t, hnext⟩ | ⟨token, t, -, -, -, htokens, -⟩ := h.next?_cases
    · exact .last hnext rfl
    · rw [hn] at htokens
      cases htokens
  | cons token tokens ih =>
    obtain ⟨hnil, -⟩ | ⟨token', t, hnext, hk, ht, htokens, heof⟩ := h.next?_cases
    · rw [hn] at hnil
      cases hnil
    · obtain ⟨rfl, hmore⟩ := List.cons.inj (hn.symm.trans htokens)
      have hmore := ih ht hmore.symm
      rw [heof] at hmore
      exact .more hnext hk hmore

end Scanner

theorem scanner_yields_stream (source : String) (file : Option String) :
    (∀ n, ∃ s, (Scanner.ofSource source file).take? n =
        some ((List.range n).map (tokenStream source file), s) ∧
      s.source = source ∧ s.Coherent ∧ (s.ch = none ↔ s.pos = source.utf8ByteSize) ∧
      ∃ s', s.next? = some (tokenStream source file n, s') ∧
        ((tokenStream source file n).kind ≠ .eof → s.pos < s'.pos)) ∧
    (∀ tokens, (Scanner.ofSource source file).Drains tokens ↔ tokens = tokenize source file) ∧
    (tokenize source file).length ≤ source.utf8ByteSize + 1 := by
  have hstart := Scanner.coherent_ofSource source file
  have hlexer := Scanner.lexer_ofSource source file
  refine ⟨fun n => ?_, fun tokens => ?_, ?_⟩
  · obtain ⟨s, htake, hsource, hs, hstream⟩ := hstart.exists_take? n
    obtain ⟨m, s', hnext, hahead, -, hmoves⟩ := hs.exists_next?
    have htoken : s.lexer.next.1 = tokenStream source file n := by
      rw [← Cursor.current_ofLexer, ← Cursor.nth_zero, hstream, hlexer, tokenStream_eq_nth]
      rfl
    rw [hlexer, ← tokenStream_eq_nth] at htake
    rw [htoken] at hnext hmoves
    have hbytes : s.bytes.length = source.utf8ByteSize := congrArg (List.length ∘ utf8) hsource
    refine ⟨s, htake, hsource, hs, hbytes ▸ hs.ch_eq_none_iff, s', hnext, fun hk => ?_⟩
    have hpos := hmoves hk
    have hmoved := hahead.pos
    omega
  · have hdrains := hstart.drains
    rw [hlexer] at hdrains
    refine ⟨fun h => ?_, fun h => h ▸ hdrains⟩
    rw [h.eq_tokens hstart, hlexer]
    rfl
  · rw [tokenize, List.length_append, List.length_singleton, ← length_units]
    exact Nat.succ_le_succ (Lexer.length_tokens_le _)

end ScriptFrontEnd
