import ScriptFrontEnd.Proofs.Parser.Fault
import ScriptFrontEnd.Proofs.Parser.Program
import ScriptFrontEnd.Proofs.Token.Marks

namespace ScriptFrontEnd

theorem parse_of_transcript {source : String} {file : Option String}
    {outcomes : List (Except Diagnostic Statement)}
    (h : Transcript .standard nestingLimit (Lexer.ofSource source file).eofToken
      (tokenize source file).dropLast outcomes) :
    parse source file = (⟨succeeded outcomes⟩, failed outcomes) := by
  rw [← Cursor.ahead_ofSource] at h
  have hread := h.attempts_eq Rules.regular_standard rfl
  rw [parse_eq, ← hread]
  rfl

theorem parse_of_refused {source : String} {file : Option String} {t : Token} {cause : Cause}
    (htokens : (tokenize source file).dropLast = [t])
    (ht : Rules.standard.statementRule t.kind = .expression)
    (h : Rules.standard.Refuses t cause) : parse source file = (⟨[]⟩, [⟨cause, t.start⟩]) := by
  let eof := (Lexer.ofSource source file).eofToken
  have hfault : Fault .standard nestingLimit eof [] [t] cause [] :=
    .expression (f := .operand) rfl ht (.refused h)
  have hread : Transcript .standard nestingLimit eof [t] [.error ⟨cause, t.start⟩] :=
    .dropped hfault .nil
  exact parse_of_transcript (htokens ▸ hread)

theorem Separate.parse_eq {cs : List Char} (h : Separate cs) (file : Option String)
    (ds ds' : List Diagnostic) (ss : List Statement)
    (hread : ∀ eof, Transcript .standard nestingLimit eof (Token.marks (file.getD "shell") 0 cs)
      (ds.map .error ++ (ss.map .ok ++ ds'.map .error))) :
    parse (String.ofList cs) file = (⟨ss⟩, ds ++ ds') := by
  have htokens := h.dropLast_tokenize file
  rw [parse_of_transcript (htokens ▸ hread _), succeeded_append, succeeded_append, failed_append,
    failed_append, succeeded_map_error, succeeded_map_ok, succeeded_map_error, failed_map_error,
    failed_map_ok, failed_map_error, List.nil_append, List.append_nil, List.nil_append]

namespace Phrase

variable {w : Phrase}

theorem WellFormed.exists_denotes (hw : w.WellFormed .standard)
    (hints : ∀ t ∈ w.tokens, t.kind = .int → Numeral.value? t.text ≠ none) :
    ∃ e, w.Denotes e := by
  induction w with
  | leaf t =>
    have hk := (Rules.operand_standard_eq_primary_iff t.kind).mp hw
    simp only [List.mem_cons, List.not_mem_nil, or_false] at hk
    rcases hk with hk | hk | hk | hk
    · exact ⟨_, .identifier hk⟩
    · obtain ⟨v, hv⟩ := Option.ne_none_iff_exists'.mp (hints t (List.mem_singleton_self t) hk)
      exact ⟨_, .integer hk hv⟩
    · exact ⟨_, .isTrue hk⟩
    · exact ⟨_, .isFalse hk⟩
  | unary t w ih =>
    obtain ⟨e, he⟩ := ih hw.2.1 fun u hu => hints u (by simp [tokens, hu])
    exact ⟨_, .unary he⟩
  | binary l o r ihl ihr =>
    obtain ⟨e, he⟩ := ihl hw.1 fun u hu => hints u (by simp [tokens, hu])
    obtain ⟨e', he'⟩ := ihr hw.2.1 fun u hu => hints u (by simp [tokens, hu])
    exact ⟨_, .binary he he'⟩
  | group o w c ih =>
    obtain ⟨e, he⟩ := ih hw.2.2 fun u hu => hints u (by simp [tokens, hu])
    exact ⟨e, .group he⟩

theorem WellFormed.transcript (hw : w.WellFormed .standard) {e : Expr} (hd : w.Denotes e)
    {levels : Nat} (hn : w.nesting ≤ levels) {t : Token} (ht : w.tokens.head? = some t)
    (eof : Token) : Transcript .standard levels eof w.tokens [.ok (.expression t e)] := by
  obtain ⟨tokens, ht⟩ := List.head?_eq_some_iff.mp ht
  have hsegment : Segment .standard levels (w.tokens ++ []) (.expression t e) [] :=
    hw.segment hd hn ht (by simp) (stops_nil _ _)
  rw [List.append_nil] at hsegment
  exact .read hsegment .nil

theorem WellFormed.parse_eq {source : String} {file : Option String} (hw : w.WellFormed .standard)
    {e : Expr} (hd : w.Denotes e) (htokens : (Cursor.ofSource source file).ahead = w.tokens)
    (hn : w.nesting ≤ nestingLimit) {t : Token} (ht : w.tokens.head? = some t) :
    parse source file = (⟨[.expression t e]⟩, []) := by
  rw [Cursor.ahead_ofSource] at htokens
  have hread := hw.transcript hd hn ht (Lexer.ofSource source file).eofToken
  rw [← htokens] at hread
  exact parse_of_transcript hread

end Phrase

end ScriptFrontEnd
