import ScriptFrontEnd.Proofs.Parser.Completion
import ScriptFrontEnd.Proofs.Token.Cut
import ScriptFrontEnd.Proofs.Token.Places
import ScriptFrontEnd.Proofs.Tree.RoundTrip

namespace ScriptFrontEnd

variable {limit : Nat} {eof : Token}

theorem clean_iff_failed (eof : Token) (he : eof.kind = .eof) {tokens : List Token} :
    Clean limit tokens ↔ failed (attempts .standard limit ⟨tokens, eof⟩).1 = [] := by
  constructor
  · rintro ⟨ss, hss⟩
    exact ((segments_iff_attempts Rules.regular_standard he).mp hss).1
  · exact fun h => ⟨_, (segments_iff_attempts Rules.regular_standard he).mpr ⟨h, rfl⟩⟩

theorem clean_map_unplaced {tokens : List Token} :
    Clean limit (tokens.map Token.unplaced) ↔ Clean limit tokens := by
  let g : Position → Position := fun _ => .nowhere
  let eof : Token := ⟨.eof, "", ⟨.nowhere, .nowhere⟩⟩
  have hmoved := attempts_relocate (g := g) .standard limit ⟨tokens, eof⟩
  have hcursor : (⟨tokens, eof⟩ : Cursor).relocate g = ⟨tokens.map Token.unplaced, eof⟩ := rfl
  rw [hcursor] at hmoved
  rw [clean_iff_failed eof rfl, clean_iff_failed eof rfl, hmoved, failed_relocate,
    List.map_eq_nil_iff]

theorem parse_eq_nil_iff_clean {source : String} {file : Option String} :
    (parse source file).2 = [] ↔ Clean nestingLimit (tokenize source file).dropLast := by
  rw [← Cursor.ahead_ofSource]
  exact (clean_iff_failed _ rfl).symm

theorem parse_eq_nil_iff_clean_bareTokens {source : String} {file : Option String} :
    (parse source file).2 = [] ↔ Clean nestingLimit (bareTokens (units source)) := by
  rw [parse_eq_nil_iff_clean, ← map_unplaced_tokenize source file, clean_map_unplaced]

theorem forall_mem_getLast?_append {α : Type} {P : α → Prop} {a b : List α}
    (ha : ∀ x ∈ a.getLast?, P x) (hb : ∀ x ∈ b.getLast?, P x) : ∀ x ∈ (a ++ b).getLast?, P x := by
  intro x hx
  rw [List.getLast?_append] at hx
  cases hl : b.getLast? with
  | none => exact ha x (by simpa [hl] using hx)
  | some y => exact hb x (by simpa [hl] using hx)

structure FirstFault (limit : Nat) (eof : Token) (tokens : List Token) (d : Diagnostic)
    (front passed rest : List Token) : Prop where
  split : tokens = front ++ (passed ++ rest)
  fault : ∃ left, Fault .standard limit eof passed rest d.cause left
  position : d.position = (rest.headD eof).start
  legal : ∀ t ∈ front.getLast?, t.kind ≠ .illegal
  clean_iff : ∀ rest', rest' = [] ∨ rest'.head? = (passed ++ rest).head? →
    (Clean limit (front ++ rest') ↔ Clean limit rest')

namespace FirstFault

variable {tokens front passed rest : List Token} {d : Diagnostic}

theorem of_fault {cause : Cause} {left : List Token}
    (h : Fault .standard limit eof passed rest cause left) :
    FirstFault limit eof (passed ++ rest) ⟨cause, (rest.headD eof).start⟩ [] passed rest where
  split := rfl
  fault := ⟨left, h⟩
  position := rfl
  legal := by simp
  clean_iff _ _ := .rfl

theorem behind_segment {s : Statement} (hs : Segment .standard limit tokens s rest)
    {later : List Token} (h : FirstFault limit eof rest d front passed later) :
    ∃ front', FirstFault limit eof tokens d front' passed later := by
  obtain ⟨left, hf⟩ := h.fault
  have hne : rest ≠ [] := by
    rw [h.split]
    exact fun hnil => hf.ne_nil (List.append_eq_nil_iff.mp hnil).2
  obtain ⟨before, rfl, hbefore⟩ := hs.exists_front
  have hlegal : ∀ t ∈ before.getLast?, t.kind ≠ .illegal := by
    intro t ht hk
    rcases hbefore with ⟨hended, -⟩ | ⟨-, huses, -⟩
    · exact absurd (hk.symm.trans (hended t ht)) (by decide)
    · have hmem := List.mem_of_getLast? ht
      exact Rules.not_uses_standard (hk ▸ by decide) (huses.resolve_left hne t hmem)
  have hsegment {rest' : List Token} (hrest : rest' = [] ∨ rest'.head? = rest.head?) :
      Segment .standard limit (before ++ rest') s rest' := by
    rcases hbefore with ⟨-, hany⟩ | ⟨-, -, hsame⟩
    · exact hany rest'
    · exact hsame rest' hrest
  refine ⟨before ++ front, by rw [List.append_assoc, ← h.split], h.fault, h.position,
    forall_mem_getLast?_append hlegal h.legal, fun rest' hrest => ?_⟩
  have hhead : front ++ rest' = [] ∨ (front ++ rest').head? = rest.head? := by
    rw [h.split]
    cases front with
    | nil => exact hrest
    | cons t front => exact .inr rfl
  rw [List.append_assoc, (hsegment hhead).clean_iff, h.clean_iff rest' hrest]

theorem legal_last (h : FirstFault limit eof tokens d front passed rest) :
    ∀ t ∈ (front ++ passed).getLast?, t.kind ≠ .illegal := by
  obtain ⟨left, hf⟩ := h.fault
  refine forall_mem_getLast?_append h.legal fun t ht hk => ?_
  exact hf.kind_passed t (List.mem_of_getLast? ht) (hk ▸ by decide)

theorem exists_completion (h : FirstFault limit eof tokens d front passed rest)
    (hc : ∀ n, d.cause ≠ .nestingTooDeep n) :
    ∃ missing, Clean limit (front ++ passed ++ missing) ∧ ∀ t ∈ missing, t.Spelled := by
  obtain ⟨left, hf⟩ := h.fault
  by_cases hne : passed = []
  · subst hne
    refine ⟨[], ?_, by simp⟩
    rw [List.append_nil, List.append_nil, ← List.append_nil front]
    exact (h.clean_iff [] (.inl rfl)).mpr (clean_nil limit)
  · obtain ⟨missing, hclean, hspelled⟩ := hf.exists_completion hc
    obtain ⟨t, more, rfl⟩ := List.exists_cons_of_ne_nil hne
    refine ⟨missing, ?_, hspelled⟩
    rw [List.append_assoc]
    exact (h.clean_iff (t :: more ++ missing) (.inr rfl)).mpr hclean

theorem not_clean (h : FirstFault limit eof tokens d front passed rest) (he : eof.kind = .eof)
    {rest' : List Token} (hrest : rest'.head? = rest.head?) :
    ¬ Clean limit (front ++ passed ++ rest') := by
  obtain ⟨left, hf⟩ := h.fault
  obtain ⟨left', hf'⟩ := hf.replace_rest hrest
  have hhead : (passed ++ rest').head? = (passed ++ rest).head? := by
    rw [List.head?_append, hrest, ← List.head?_append]
  rw [List.append_assoc, h.clean_iff _ (.inr hhead)]
  exact hf'.not_clean he

end FirstFault

theorem Transcript.exists_firstFault {tokens : List Token}
    {outcomes : List (Except Diagnostic Statement)}
    (h : Transcript .standard limit eof tokens outcomes) {d : Diagnostic}
    (hd : (failed outcomes).head? = some d) :
    ∃ front passed rest, FirstFault limit eof tokens d front passed rest := by
  induction h with
  | nil => cases hd
  | read hs h ih =>
    obtain ⟨front, passed, rest, hf⟩ := ih hd
    obtain ⟨front', hf'⟩ := hf.behind_segment hs
    exact ⟨front', passed, rest, hf'⟩
  | @dropped passed rest cause left outcomes hf h ih =>
    obtain rfl : ⟨cause, (rest.headD eof).start⟩ = d := Option.some.inj hd
    exact ⟨[], passed, rest, .of_fault hf⟩

theorem exists_rest_of_take {before rest tokens : List Token} {eof' : Token}
    (he : eof.kind = .eof) (he' : eof'.kind = .eof)
    (h : ∀ t ∈ before ++ rest, t.kind ≠ .eof) (h' : ∀ t ∈ tokens, t.kind ≠ .eof)
    (htake : ((tokens ++ [eof']).take (before.length + 1)).map Token.unplaced =
      ((before ++ rest ++ [eof]).take (before.length + 1)).map Token.unplaced) :
    ∃ rest', tokens.map Token.unplaced = (before ++ rest').map Token.unplaced ∧
      rest'.head? = rest.head? := by
  have hkind {t u : Token} (heq : t.unplaced = u.unplaced) : t.kind = u.kind :=
    (Token.unplaced_eq_iff.mp heq).1
  -- a list that ends too early would show its `eof` where the other one has a token
  induction before generalizing tokens with
  | nil =>
    cases tokens with
    | nil =>
      cases rest with
      | nil => exact ⟨[], rfl, rfl⟩
      | cons next rest =>
        have heq := hkind (List.cons.inj htake).1
        exact absurd (heq.symm.trans he') (h next (List.mem_cons_self ..))
    | cons t tokens =>
      cases rest with
      | nil =>
        have heq := hkind (List.cons.inj htake).1
        exact absurd (heq.trans he) (h' t (List.mem_cons_self ..))
      | cons next rest =>
        have heq : t.unplaced = next.unplaced := (List.cons.inj htake).1
        exact ⟨next :: tokens, congrArg (· :: _) heq, rfl⟩
  | cons b before ih =>
    cases tokens with
    | nil =>
      have heq := hkind (List.cons.inj htake).1
      exact absurd (heq.symm.trans he') (h b (List.mem_cons_self ..))
    | cons t tokens =>
      obtain ⟨heq, htail⟩ := List.cons.inj htake
      obtain ⟨rest', hrest, hhead⟩ := ih (fun u hu => h u (List.mem_cons_of_mem _ hu))
        (fun u hu => h' u (List.mem_cons_of_mem _ hu)) htail
      refine ⟨rest', ?_, hhead⟩
      rw [List.map_cons, heq, hrest, List.cons_append, List.map_cons]

theorem dropLast_tokenize_concat (source : String) (file : Option String) :
    tokenize source file =
      (tokenize source file).dropLast ++ [(Lexer.ofSource source file).eofToken] := by
  rw [tokenize, List.dropLast_concat]

theorem kind_ne_eof_of_mem_dropLast {source : String} {file : Option String} {t : Token}
    (h : t ∈ (tokenize source file).dropLast) : t.kind ≠ .eof := by
  rw [← Cursor.ahead_ofSource] at h
  exact Lexer.kind_ne_eof_of_mem_tokens h

theorem map_unplaced_take {source : String} {file : Option String} {before rest : List Token}
    (h : (tokenize source file).dropLast.map Token.unplaced = (before ++ rest).map Token.unplaced) :
    ((tokenize source file).take before.length).map Token.unplaced = before.map Token.unplaced := by
  rw [dropLast_tokenize_concat, List.map_take, List.map_append, h, List.map_append,
    List.append_assoc, ← List.length_map (f := Token.unplaced), List.take_left]

theorem parse_valid_prefix {source : String} {file : Option String} {d : Diagnostic}
    (h : source.utf8ByteSize < 2 ^ 32) (hd : (parse source file).2.head? = some d)
    (hc : ∀ n, d.cause ≠ .nestingTooDeep n) :
    ∃ k t, (tokenize source file)[k]? = some t ∧ t.start = d.position ∧
      (∀ j u, (tokenize source file)[j]? = some u → u.start = d.position → j = k) ∧
      (∃ source', (parse source' file).2 = [] ∧
        ((tokenize source' file).take k).map Token.unplaced =
          ((tokenize source file).take k).map Token.unplaced) ∧
      ∀ source' file', ((tokenize source' file').take (k + 1)).map Token.unplaced =
        ((tokenize source file).take (k + 1)).map Token.unplaced →
          (parse source' file').2 ≠ [] := by
  let c := Cursor.ofSource source file
  have hread := transcript_attempts Rules.regular_standard nestingLimit c rfl
  obtain ⟨front, passed, rest, hf⟩ := hread.exists_firstFault hd
  let before := front ++ passed
  have hsplit : (tokenize source file).dropLast = before ++ rest := by
    rw [← Cursor.ahead_ofSource, List.append_assoc]
    exact hf.split
  have htokens := dropLast_tokenize_concat source file
  rw [hsplit] at htokens
  have hnext : (tokenize source file)[before.length]? = some (rest.headD c.eof) := by
    rw [htokens, List.append_assoc, List.getElem?_append_right (Nat.le_refl _), Nat.sub_self]
    cases rest <;> rfl
  refine ⟨before.length, rest.headD c.eof, hnext, hf.position.symm, ?_, ?_, ?_⟩
  · exact fun j u hu hstart => eq_of_start_eq h hu hnext (hstart.trans hf.position)
  · obtain ⟨missing, hclean, hspelled⟩ := hf.exists_completion hc
    obtain ⟨source', hsource'⟩ := exists_source_of_tokens hsplit hf.legal_last hspelled
    refine ⟨source', ?_, ?_⟩
    · rw [parse_eq_nil_iff_clean_bareTokens, hsource']
      exact clean_map_unplaced.mpr hclean
    · rw [map_unplaced_take ((map_unplaced_tokenize source' file).trans hsource'),
        map_unplaced_take (congrArg (List.map Token.unplaced) hsplit)]
  · intro source' file' htake hnil
    rw [htokens, dropLast_tokenize_concat source' file'] at htake
    obtain ⟨rest', hrest', hhead⟩ := exists_rest_of_take rfl rfl
      (hsplit ▸ fun t ht => kind_ne_eof_of_mem_dropLast ht)
      (fun t ht => kind_ne_eof_of_mem_dropLast ht) htake
    rw [parse_eq_nil_iff_clean, ← clean_map_unplaced, hrest', clean_map_unplaced] at hnil
    exact hf.not_clean rfl hhead hnil

theorem exists_source_of_open_group :
    (∃ source', (parse source' none).2 = [] ∧
      ((tokenize source' none).take 4).map Token.text = ["(", "1", "+", "2"]) ∧
      ∀ source' file', ((tokenize source' file').take 5).map Token.unplaced =
        ((tokenize "(1 + 2 3" none).take 5).map Token.unplaced → (parse source' file').2 ≠ [] := by
  let d : Diagnostic := ⟨.unexpectedToken .closeParen .int, ⟨7, "shell"⟩⟩
  have hd : (parse "(1 + 2 3" none).2.head? = some d := by decide +kernel
  have hfourth : (tokenize "(1 + 2 3" none)[4]? =
      some ⟨.int, "3", Span.ofOffsets 7 8 "shell"⟩ := by decide +kernel
  have htexts : ((tokenize "(1 + 2 3" none).take 4).map Token.text = ["(", "1", "+", "2"] := by
    decide +kernel
  obtain ⟨k, t, -, -, hunique, ⟨source', hclean, htake⟩, hnone⟩ :=
    parse_valid_prefix (by decide) hd (by simp [d])
  obtain rfl : 4 = k := hunique 4 _ hfourth rfl
  refine ⟨⟨source', hclean, ?_⟩, hnone⟩
  have htext := congrArg (List.map Token.text) htake
  rw [List.map_map, List.map_map] at htext
  exact htext.trans htexts

end ScriptFrontEnd
