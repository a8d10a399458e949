import ScriptFrontEnd.Parser.Basic
import ScriptFrontEnd.Proofs.Grammar.Layered
import ScriptFrontEnd.Proofs.Parser.Statement

namespace ScriptFrontEnd

theorem succeeded_cons_ok (s : Statement) (outcomes : List (Except Diagnostic Statement)) :
    succeeded (.ok s :: outcomes) = s :: succeeded outcomes := rfl

theorem failed_cons_ok (s : Statement) (outcomes : List (Except Diagnostic Statement)) :
    failed (.ok s :: outcomes) = failed outcomes := rfl

theorem succeeded_cons_error (d : Diagnostic) (outcomes : List (Except Diagnostic Statement)) :
    succeeded (.error d :: outcomes) = succeeded outcomes := rfl

theorem failed_cons_error (d : Diagnostic) (outcomes : List (Except Diagnostic Statement)) :
    failed (.error d :: outcomes) = d :: failed outcomes := rfl

theorem succeeded_append (outcomes outcomes' : List (Except Diagnostic Statement)) :
    succeeded (outcomes ++ outcomes') = succeeded outcomes ++ succeeded outcomes' :=
  List.filterMap_append

theorem failed_append (outcomes outcomes' : List (Except Diagnostic Statement)) :
    failed (outcomes ++ outcomes') = failed outcomes ++ failed outcomes' :=
  List.filterMap_append

theorem succeeded_map_ok (ss : List Statement) : succeeded (ss.map .ok) = ss := by
  induction ss with
  | nil => rfl
  | cons s ss ih => rw [List.map_cons, succeeded_cons_ok, ih]

theorem failed_map_ok (ss : List Statement) : failed (ss.map .ok) = [] := by
  induction ss with
  | nil => rfl
  | cons s ss ih => rw [List.map_cons, failed_cons_ok, ih]

theorem succeeded_map_error (ds : List Diagnostic) : succeeded (ds.map .error) = [] := by
  induction ds with
  | nil => rfl
  | cons d ds ih => rw [List.map_cons, succeeded_cons_error, ih]

theorem failed_map_error (ds : List Diagnostic) : failed (ds.map .error) = ds := by
  induction ds with
  | nil => rfl
  | cons d ds ih => rw [List.map_cons, failed_cons_error, ih]

variable {rules : Rules} {levels : Nat} {eof : Token}

theorem segments_cons {tokens : List Token} {s : Statement} {ss : List Statement} :
    Segments rules levels tokens (s :: ss) ↔
      ∃ rest, Segment rules levels tokens s rest ∧ Segments rules levels rest ss := by
  constructor
  · intro h
    cases h with
    | cons hs hss => exact ⟨_, hs, hss⟩
  · rintro ⟨rest, hs, hss⟩
    exact .cons hs hss

theorem Segments.attempts_eq (hr : rules.Regular) (he : eof.kind = .eof) {tokens : List Token}
    {ss : List Statement} (h : Segments rules levels tokens ss) :
    attempts rules levels ⟨tokens, eof⟩ = (ss.map .ok, ⟨[], eof⟩) := by
  induction h with
  | nil => exact attempts_nil rules levels eof
  | cons hs hss ih => rw [attempts_of_attempt hs.ne_nil (hs.attempt_eq_ok hr he), ih, List.map_cons]

theorem segments_of_failed_eq_nil (hr : rules.Regular) {c : Cursor} (he : c.eof.kind = .eof)
    (h : failed (attempts rules levels c).1 = []) : ∃ ss, Segments rules levels c.ahead ss := by
  induction c using attempts_induction rules levels with
  | nil eof => exact ⟨[], .nil⟩
  | cons t tokens eof ih =>
    rw [attempts_cons] at h
    obtain ⟨outcome, d, hout⟩ :
        ∃ outcome d, attempt rules levels ⟨t :: tokens, eof⟩ = (outcome, d) := ⟨_, _, rfl⟩
    rw [hout] at h ih
    cases outcome with
    | error diagnostic => simp [failed] at h
    | ok s =>
      obtain ⟨rest, hs, rfl⟩ := segment_of_attempt hr he hout
      rw [failed_cons_ok] at h
      obtain ⟨ss, hss⟩ := ih he h
      exact ⟨s :: ss, .cons hs hss⟩

theorem segments_iff_attempts (hr : rules.Regular) (he : eof.kind = .eof) {tokens : List Token}
    {ss : List Statement} : Segments rules levels tokens ss ↔
      failed (attempts rules levels ⟨tokens, eof⟩).1 = [] ∧
        succeeded (attempts rules levels ⟨tokens, eof⟩).1 = ss := by
  constructor
  · intro h
    rw [h.attempts_eq hr he]
    exact ⟨failed_map_ok ss, succeeded_map_ok ss⟩
  · rintro ⟨hf, hs⟩
    obtain ⟨ss', h⟩ := segments_of_failed_eq_nil hr he hf
    rw [h.attempts_eq hr he, succeeded_map_ok] at hs
    exact hs ▸ h

def Cursor.ofSource (source : String) (file : Option String) : Cursor :=
  .ofLexer (Lexer.ofSource source file)

theorem Cursor.ahead_ofSource (source : String) (file : Option String) :
    (ofSource source file).ahead = (tokenize source file).dropLast :=
  List.dropLast_concat.symm

theorem parse_eq (source : String) (file : Option String) :
    parse source file =
      let outcomes := (attempts .standard nestingLimit (.ofSource source file)).1
      (⟨succeeded outcomes⟩, failed outcomes) := rfl

theorem parse_iff_clauses (source : String) (file : Option String) :
    ((parse source file).2 = [] ↔ ∃ ss, Clauses (tokenize source file).dropLast ss) ∧
      ∀ ss, Clauses (tokenize source file).dropLast ss →
        (parse source file).1.statements = ss := by
  have htokens : (tokenize source file).dropLast = (Lexer.ofSource source file).tokens :=
    List.dropLast_concat
  have heof : (Lexer.ofSource source file).eofToken.kind = .eof := rfl
  have hclauses (ss : List Statement) : Clauses (tokenize source file).dropLast ss ↔
      (parse source file).2 = [] ∧ (parse source file).1.statements = ss := by
    rw [htokens, clauses_iff_segments]
    exact segments_iff_attempts Rules.regular_standard heof
  refine ⟨⟨?_, ?_⟩, ?_⟩
  · intro h
    exact ⟨_, (hclauses _).mpr ⟨h, rfl⟩⟩
  · rintro ⟨ss, hss⟩
    exact ((hclauses ss).mp hss).1
  · intro ss hss
    exact ((hclauses ss).mp hss).2

end ScriptFrontEnd
