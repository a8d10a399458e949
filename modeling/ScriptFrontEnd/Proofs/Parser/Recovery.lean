import ScriptFrontEnd.Proofs.Grammar.Towers
import ScriptFrontEnd.Proofs.Grammar.Uses
import ScriptFrontEnd.Proofs.Parser.Sentence
import ScriptFrontEnd.Proofs.Token.Marks

namespace ScriptFrontEnd

variable {levels : Nat} {eof : Token} {rest : List Token}
  {outcomes : List (Except Diagnostic Statement)}

def Rules.Opens (rules : Rules) (t : Token) : Prop :=
  rules.operand t.kind = some .unary ∨ rules.operand t.kind = some .grouping

theorem Rules.Opens.operand_ne_none {rules : Rules} {t : Token} (h : rules.Opens t) :
    rules.operand t.kind ≠ none := by
  rcases h with h | h <;> simp [h]

theorem Breaks.exists_of_openings {rules : Rules} {openings : List Token}
    (h : ∀ t ∈ openings, rules.Opens t) (next : Token) (floor : Precedence) :
    ∃ f : Fragment, f.tokens = openings ∧ f.held = [] ∧
      Breaks rules next openings.length floor f (.nestingTooDeep 256) := by
  induction openings generalizing floor with
  | nil => exact ⟨.operand, rfl, rfl, .tooDeep⟩
  | cons t openings ih =>
    obtain ⟨ht, h⟩ := List.forall_mem_cons.mp h
    rcases ht with ht | ht
    · obtain ⟨f, rfl, hheld, hf⟩ := ih h .unary
      exact ⟨.unary t f, rfl, hheld, .unary ht hf⟩
    · obtain ⟨f, rfl, hheld, hf⟩ := ih h .lowest
      exact ⟨.group t f, rfl, hheld, .group ht hf⟩

namespace Transcript

theorem block {openings : List Token} (hlength : openings.length = levels + 1)
    (ho : ∀ t ∈ openings, Rules.standard.Opens t) (last : Token)
    (hrest : ∀ t ∈ rest.head?, t.kind ≠ .semicolon)
    (h : Transcript .standard (levels + 1) eof rest outcomes) :
    Transcript .standard (levels + 1) eof (openings ++ last :: rest)
      (.error ⟨.nestingTooDeep 256, last.start⟩ :: outcomes) := by
  obtain ⟨f, hf, hheld, hbreaks⟩ := Breaks.exists_of_openings ho last .lowest
  obtain ⟨t, more, rfl⟩ := List.exists_cons_of_length_eq_add_one hlength
  have ht := (ho t (List.mem_cons_self ..)).operand_ne_none
  have hfault : Fault .standard (t :: more).length eof f.tokens (last :: rest)
      (.nestingTooDeep 256) (dropSemicolon (f.held ++ last :: rest).tail) :=
    .expression (by rw [hf]; rfl) (Rules.statementRule_standard_of_operand ht) hbreaks
  rw [hheld, List.nil_append, List.tail_cons, dropSemicolon_eq_self hrest, hf, hlength] at hfault
  exact .dropped hfault h

theorem closings {tokens : List Token} (h : ∀ t ∈ tokens, t.kind = .closeParen) :
    Transcript .standard (levels + 1) eof tokens
      (tokens.map fun t => .error ⟨.noOperand .closeParen, t.start⟩) := by
  induction tokens with
  | nil => exact .nil
  | cons t tokens ih =>
    obtain ⟨ht, h⟩ := List.forall_mem_cons.mp h
    have hrefused : Rules.standard.Refuses t (.noOperand .closeParen) :=
      ht ▸ .unknown (by rw [ht]; rfl)
    have hfault : Fault .standard (levels + 1) eof [] (t :: tokens) (.noOperand .closeParen)
        (dropSemicolon tokens) :=
      .expression (f := .operand) rfl (by rw [ht]; rfl) (.refused hrefused)
    rw [dropSemicolon_eq_self fun u hu => by simp [h u (List.mem_of_mem_head? hu)]] at hfault
    exact .dropped hfault (ih h)

end Transcript

section

variable (file : String)

def blockDiagnostics (q : Nat) : List Diagnostic :=
  (List.range q).map fun k => ⟨.nestingTooDeep 256, ⟨(257 * k + 256).toUInt32, file⟩⟩

def closingDiagnostics (offset m : Nat) : List Diagnostic :=
  (List.range' offset m).map fun i => ⟨.noOperand .closeParen, ⟨i.toUInt32, file⟩⟩

section

variable {c : Char} (hc : ∀ i, Rules.standard.Opens (Token.mark file i c))

include hc

theorem transcript_block (offset : Nat) (d : Char)
    (hrest : ∀ t ∈ rest.head?, t.kind ≠ .semicolon)
    (h : Transcript .standard nestingLimit eof rest outcomes) :
    Transcript .standard nestingLimit eof
      (Token.marks file offset (List.replicate 256 c ++ [d]) ++ rest)
      (.error ⟨.nestingTooDeep 256, ⟨(offset + 256).toUInt32, file⟩⟩ :: outcomes) := by
  have hlength : (Token.marks file offset (List.replicate 256 c)).length = 255 + 1 := by
    rw [Token.length_marks, List.length_replicate]
  have hopenings := Token.forall_mem_marks_replicate file offset hc 256
  rw [Token.marks_append, List.length_replicate, List.append_assoc]
  exact .block hlength hopenings (Token.mark file (offset + 256) d) hrest h

theorem transcript_blocks_until (q : Nat) (d : Char) (hrest : ∀ t ∈ rest.head?, t.kind ≠ .semicolon)
    (h : Transcript .standard nestingLimit eof rest outcomes) :
    Transcript .standard nestingLimit eof
      (Token.marks file 0 (List.replicate (257 * q + 256) c ++ [d]) ++ rest)
      ((blockDiagnostics file (q + 1)).map .error ++ outcomes) := by
  induction q generalizing d rest outcomes with
  | zero => exact transcript_block file hc 0 d hrest h
  | succ q ih =>
    have hsplit : List.replicate (257 * (q + 1) + 256) c ++ [d] =
        (List.replicate (257 * q + 256) c ++ [c]) ++ (List.replicate 256 c ++ [d]) := by
      rw [← List.replicate_succ', ← List.append_assoc, List.replicate_append_replicate]
      rfl
    let last := Token.marks file (257 * (q + 1)) (List.replicate 256 c ++ [d])
    have hhead : ∀ t ∈ (last ++ rest).head?, t.kind ≠ .semicolon := by
      rintro t ⟨⟩
      exact Rules.ne_semicolon_of_operand (hc (257 * (q + 1))).operand_ne_none
    have hblocks := ih c hhead (transcript_block file hc (257 * (q + 1)) d hrest h)
    rw [hsplit, Token.marks_append, List.append_assoc, List.length_append, List.length_replicate,
      Nat.zero_add, blockDiagnostics, List.range_succ, List.map_append, List.map_append,
      List.append_assoc]
    exact hblocks

theorem transcript_blocks (q : Nat) (hrest : ∀ t ∈ rest.head?, t.kind ≠ .semicolon)
    (h : Transcript .standard nestingLimit eof rest outcomes) :
    Transcript .standard nestingLimit eof
      (Token.marks file 0 (List.replicate (257 * q) c) ++ rest)
      ((blockDiagnostics file q).map .error ++ outcomes) := by
  cases q with
  | zero => exact h
  | succ q =>
    have hblocks := transcript_blocks_until file hc q c hrest h
    rwa [← List.replicate_succ'] at hblocks

end

theorem opens_mark_dash (i : Nat) : Rules.standard.Opens (Token.mark file i '-') := .inl rfl

theorem opens_mark_openParen (i : Nat) : Rules.standard.Opens (Token.mark file i '(') := .inr rfl

theorem transcript_signs (q : Nat) {s : Nat} (hs : s < 256) :
    let signs := Token.marks file (257 * q) (List.replicate s '-')
    let e := (Expr.one file (257 * q + s)).signed signs
    Transcript .standard nestingLimit eof
      (Token.marks file 0 (List.replicate (257 * q + s) '-' ++ ['1']))
      ((blockDiagnostics file q).map .error ++ [.ok (.expression e.token e)]) := by
  intro signs e
  let w := (Phrase.one file (257 * q + s)).signed signs
  have hsigns : ∀ t ∈ signs, Rules.standard.operand t.kind = some .unary :=
    Token.forall_mem_marks_replicate file _ (fun _ => rfl) _
  have hw : w.WellFormed .standard :=
    ((Phrase.wellFormed_one file _).signed (fun _ => nofun) hsigns).1
  have hn : w.nesting ≤ nestingLimit := by
    rw [Phrase.nesting_signed, Token.length_marks, List.length_replicate]
    exact hs
  have hhead : w.tokens.head? = some e.token := Phrase.head?_tokens_signed signs rfl
  have hread := hw.transcript ((Phrase.denotes_one file _).signed signs) hn hhead eof
  have htokens : Token.marks file 0 (List.replicate (257 * q + s) '-' ++ ['1']) =
      Token.marks file 0 (List.replicate (257 * q) '-') ++ w.tokens := by
    rw [← List.replicate_append_replicate, List.append_assoc, Token.marks_append,
      Token.marks_append, List.length_replicate, List.length_replicate, Nat.zero_add,
      Phrase.tokens_signed]
    rfl
  have hfirst : ∀ t ∈ w.tokens.head?, t.kind ≠ .semicolon := by simpa using hw.head_ne_semicolon []
  rw [htokens]
  exact transcript_blocks file (opens_mark_dash file) q hfirst hread

theorem kind_of_mem_closings (offset m : Nat) :
    ∀ t ∈ Token.marks file offset (List.replicate m ')'), t.kind = .closeParen :=
  Token.forall_mem_marks_replicate file offset (fun _ => rfl) m

theorem head_closings (offset m : Nat) :
    ∀ t ∈ (Token.marks file offset (List.replicate m ')')).head?, t.kind = .closeParen :=
  fun t ht => kind_of_mem_closings file offset m t (List.mem_of_mem_head? ht)

theorem transcript_closings (eof : Token) (offset m : Nat) :
    Transcript .standard nestingLimit eof (Token.marks file offset (List.replicate m ')'))
      ((closingDiagnostics file offset m).map .error) := by
  have hread : Transcript .standard nestingLimit eof _ _ :=
    .closings (kind_of_mem_closings file offset m)
  rw [Token.marks_replicate, List.map_map] at hread
  rw [Token.marks_replicate, closingDiagnostics, List.map_map]
  exact hread

theorem marks_groups (a b : Nat) :
    Token.marks file 0 (List.replicate (a + b) '(' ++ '1' :: List.replicate (a + b) ')') =
      Token.marks file 0 (List.replicate a '(') ++
        (Token.marks file a (List.replicate b '(') ++ (Token.mark file (a + b) '1' ::
          Token.marks file (a + b + 1) (List.replicate b ')')) ++
            Token.marks file (a + b + 1 + b) (List.replicate a ')')) := by
  have hclosings : List.replicate (a + b) ')' = List.replicate b ')' ++ List.replicate a ')' := by
    rw [List.replicate_append_replicate, Nat.add_comm]
  rw [hclosings, ← List.replicate_append_replicate]
  simp only [Token.marks_append, Token.marks, List.length_replicate, Nat.zero_add,
    List.append_assoc, List.cons_append]

theorem exists_transcript_groups (q : Nat) {r : Nat} (hr : r < 256) :
    ∃ t, ∀ eof, Transcript .standard nestingLimit eof
      (Token.marks file 0 (List.replicate (257 * q + r) '(' ++
        '1' :: List.replicate (257 * q + r) ')'))
      ((blockDiagnostics file q).map .error ++ .ok (.expression t (.one file (257 * q + r))) ::
        (closingDiagnostics file (257 * q + r + 1 + r) (257 * q)).map .error) := by
  let openings := Token.marks file (257 * q) (List.replicate r '(')
  let closings := Token.marks file (257 * q + r + 1) (List.replicate r ')')
  let rest := Token.marks file (257 * q + r + 1 + r) (List.replicate (257 * q) ')')
  have hlength : openings.length = closings.length := by
    rw [Token.length_marks, Token.length_marks, List.length_replicate, List.length_replicate]
  have hopenings : ∀ t ∈ openings, Rules.standard.operand t.kind = some .grouping :=
    Token.forall_mem_marks_replicate file _ (fun _ => rfl) _
  obtain ⟨v, hv, hw, hd, hvn⟩ := (Phrase.wellFormed_one file (257 * q + r)).exists_grouped
    (Phrase.denotes_one file _) hlength hopenings (kind_of_mem_closings file _ _)
  have hn : v.nesting ≤ nestingLimit := by
    rw [hvn, Token.length_marks, List.length_replicate]
    exact hr
  obtain ⟨t, tokens, ht⟩ := List.exists_cons_of_ne_nil v.tokens_ne_nil
  have hhead := head_closings file (257 * q + r + 1 + r) (257 * q)
  have hsegment : Segment .standard nestingLimit (v.tokens ++ rest) _ rest :=
    hw.segment hd hn ht (fun u hu => by simp [hhead u hu])
      (Rules.stops_standard_iff.mpr fun u hu => by simp [hhead u hu, Kind.operators])
  refine ⟨t, fun eof => ?_⟩
  have hread := Transcript.read hsegment (transcript_closings file eof _ _)
  have hblocks :=
    transcript_blocks file (opens_mark_openParen file) q (hw.head_ne_semicolon rest) hread
  rw [hv] at hblocks
  rw [marks_groups]
  exact hblocks

end

theorem parse_signs (n : Nat) (file : Option String) :
    let name := file.getD "shell"
    let q := (n + 1) / 257
    let r := (n + 1) % 257
    let e := (Expr.one name n).signed (Token.marks name (257 * q) (List.replicate (r - 1) '-'))
    parse (String.ofList (List.replicate n '-' ++ ['1'])) file =
      (⟨if r = 0 then [] else [.expression e.token e]⟩, blockDiagnostics name q) := by
  intro name q r e
  have hdivision : 257 * q + r = n + 1 := Nat.div_add_mod (n + 1) 257
  rw [← List.append_nil (blockDiagnostics name q)]
  by_cases hr : r = 0
  · have hn : n = 257 * (q - 1) + 256 := by omega
    have hq : q = q - 1 + 1 := by omega
    rw [if_pos hr]
    refine (separate_signs n).parse_eq file _ [] [] fun eof => ?_
    have hread : Transcript .standard nestingLimit eof _ _ :=
      transcript_blocks_until name (opens_mark_dash name) (q - 1) '1' (by simp) .nil
    rwa [← hn, ← hq, List.append_nil] at hread
  · have hn : n = 257 * q + (r - 1) := by omega
    have hlt : r < 257 := Nat.mod_lt _ (by decide)
    rw [if_neg hr]
    refine (separate_signs n).parse_eq file _ [] [.expression e.token e] fun eof => ?_
    have hs : r - 1 < 256 := by omega
    have hread : Transcript .standard nestingLimit eof _ _ := transcript_signs name q hs
    rwa [← hn] at hread

theorem parse_groups (n : Nat) (file : Option String) :
    let name := file.getD "shell"
    let q := n / 257
    let r := n % 257
    let answer := parse (String.ofList (List.replicate n '(' ++ '1' :: List.replicate n ')')) file
    (r ≤ 255 → ∃ t, answer = (⟨[.expression t (.one name n)]⟩,
        blockDiagnostics name q ++ closingDiagnostics name (n + 1 + r) (n - r))) ∧
      (r = 256 → answer = (⟨[]⟩,
        blockDiagnostics name (q + 1) ++ closingDiagnostics name (n + 1) n)) := by
  intro name q r answer
  have hdivision : 257 * q + r = n := Nat.div_add_mod n 257
  constructor
  · intro hr
    obtain ⟨t, hread⟩ := exists_transcript_groups name q (Nat.lt_succ_of_le hr)
    have hrest : 257 * q = n - r := by omega
    rw [hdivision, hrest] at hread
    exact ⟨t, (separate_groups n).parse_eq file _ _ [.expression t (.one name n)] hread⟩
  · intro hr
    refine (separate_groups n).parse_eq file _ _ [] fun eof => ?_
    have hhead : ∀ t ∈ (Token.marks name (n + 1) (List.replicate n ')')).head?,
        t.kind ≠ .semicolon := fun t ht => by simp [head_closings name _ _ t ht]
    have hread := transcript_blocks_until name (opens_mark_openParen name) q '1' hhead
      (transcript_closings name eof (n + 1) n)
    have hmarks := Token.marks_append name 0 (List.replicate n '(' ++ ['1']) (List.replicate n ')')
    rw [List.length_append, List.length_replicate, Nat.zero_add] at hmarks
    rw [← hr, hdivision] at hread
    rw [List.append_cons, hmarks]
    exact hread

def Diagnostic.place (d : Diagnostic) : Cause × Nat :=
  (d.cause, d.position.offset.toNat)

theorem place_blockDiagnostics (file : String) {q : Nat} (hq : 257 * q ≤ 2 ^ 32) :
    (blockDiagnostics file q).map Diagnostic.place =
      (List.range q).map fun k => (.nestingTooDeep 256, 257 * k + 256) := by
  rw [blockDiagnostics, List.map_map]
  refine List.map_congr_left fun k hk => ?_
  have hk : 257 * k + 256 < 2 ^ 32 := by
    have := List.mem_range.mp hk
    omega
  exact congrArg (Prod.mk _) (UInt32.toNat_ofNat_of_lt' hk)

theorem place_closingDiagnostics (file : String) {offset m : Nat} (h : offset + m ≤ 2 ^ 32) :
    (closingDiagnostics file offset m).map Diagnostic.place =
      (List.range' offset m).map fun i => (.noOperand .closeParen, i) := by
  rw [closingDiagnostics, List.map_map]
  refine List.map_congr_left fun i hi => ?_
  have hi : i < 2 ^ 32 := Nat.lt_of_lt_of_le (List.mem_range'_1.mp hi).2 h
  exact congrArg (Prod.mk _) (UInt32.toNat_ofNat_of_lt' hi)

theorem parse_resumes_in_blocks {n : Nat} (hn : n < 2 ^ 30) (file : Option String) :
    let name := file.getD "shell"
    let tooDeep (q : Nat) : List (Cause × Nat) :=
      (List.range q).map fun k => (.nestingTooDeep 256, 257 * k + 256)
    let stray (offset m : Nat) : List (Cause × Nat) :=
      (List.range' offset m).map fun i => (.noOperand .closeParen, i)
    (let q := (n + 1) / 257
     let r := (n + 1) % 257
     let e := (Expr.one name n).signed (Token.marks name (257 * q) (List.replicate (r - 1) '-'))
     let answer := parse (String.ofList (List.replicate n '-' ++ ['1'])) file
     answer.2.map Diagnostic.place = tooDeep q ∧
       answer.1.statements = if r = 0 then [] else [.expression e.token e]) ∧
    (let q := n / 257
     let r := n % 257
     let answer := parse (String.ofList (List.replicate n '(' ++ '1' :: List.replicate n ')')) file
     (r ≤ 255 → answer.1.statements.map Statement.render = ["1"] ∧
        answer.2.map Diagnostic.place = tooDeep q ++ stray (n + 1 + r) (n - r)) ∧
      (r = 256 → answer.1.statements = [] ∧
        answer.2.map Diagnostic.place = tooDeep (q + 1) ++ stray (n + 1) n)) := by
  intro name tooDeep stray
  refine ⟨?_, ?_, ?_⟩
  · rw [parse_signs]
    exact ⟨place_blockDiagnostics name (by omega), rfl⟩
  · intro hr
    obtain ⟨t, ht⟩ := (parse_groups n file).1 hr
    rw [ht, List.map_append, place_blockDiagnostics name (by omega),
      place_closingDiagnostics name (by omega)]
    exact ⟨rfl, rfl⟩
  · intro hr
    rw [(parse_groups n file).2 hr, List.map_append, place_blockDiagnostics name (by omega),
      place_closingDiagnostics name (by omega)]
    exact ⟨rfl, rfl⟩

theorem parse_resumes_at_258 :
    let signs := String.ofList (List.replicate 258 '-' ++ ['1'])
    let groups := String.ofList (List.replicate 258 '(' ++ '1' :: List.replicate 258 ')')
    258 < 2 ^ 30 ∧
      (parse signs none).2.map Diagnostic.place = [(.nestingTooDeep 256, 256)] ∧
      (parse signs none).1.statements.map Statement.render = ["(-1)"] ∧
      (parse groups none).2.map Diagnostic.place =
        (.nestingTooDeep 256, 256) :: (List.range' 260 257).map (.noOperand .closeParen, ·) ∧
      (parse groups none).1.statements.map Statement.render = ["1"] := by
  intro signs groups
  obtain ⟨⟨hsigns, hstatements⟩, hgroups, -⟩ := parse_resumes_in_blocks (n := 258) (by decide) none
  obtain ⟨hrender, hplaces⟩ := hgroups (by decide)
  exact ⟨by decide, hsigns, by rw [hstatements]; rfl, hplaces, hrender⟩

end ScriptFrontEnd
