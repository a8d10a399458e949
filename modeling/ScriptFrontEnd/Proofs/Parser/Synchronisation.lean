import ScriptFrontEnd.Proofs.Grammar.Uses
import ScriptFrontEnd.Proofs.Parser.Fault
import ScriptFrontEnd.Proofs.Parser.Program
import ScriptFrontEnd.Proofs.Parser.Relocation
import ScriptFrontEnd.Proofs.Token.Places

namespace ScriptFrontEnd

variable {limit : Nat} {eof eof' : Token}

namespace Fault

variable {passed rest left more : List Token} {cause : Cause}

theorem rest_ne_nil (h : Fault .standard limit eof passed rest cause left)
    (hended : Ended (passed ++ rest)) : rest ≠ [] := by
  rintro rfl
  have hne := h.ne_nil
  rw [List.append_nil] at hne hended
  exact not_ended hne (fun t ht hk => h.kind_passed t ht (hk ▸ List.mem_cons_self ..)) hended

theorem append (h : Fault .standard limit eof passed rest cause left) (hrest : rest ≠ [])
    (hmore : ∀ t ∈ more.head?, t.kind ≠ .semicolon) (eof' : Token) :
    Fault .standard limit eof' passed (rest ++ more) cause (left ++ more) := by
  obtain ⟨next, rest, rfl⟩ := List.exists_cons_of_ne_nil hrest
  cases h with
  | unnamed ht hn => exact .unnamed ht hn
  | unassigned ht hn ha => exact .unassigned ht hn ha
  | @expression f _ t tokens cause htokens ht hf =>
    have hleft : dropSemicolon (f.held ++ (next :: rest ++ more)).tail =
        dropSemicolon (f.held ++ next :: rest).tail ++ more := by
      rw [← List.append_assoc, List.tail_append_of_ne_nil (by simp),
        dropSemicolon_append fun _ => hmore]
    have hsplit : f.tokens ++ (next :: rest ++ more) = t :: (tokens ++ more) := by
      rw [← List.append_assoc, htokens, List.cons_append]
    exact hleft ▸ .expression hsplit ht hf

end Fault

theorem Transcript.append {tokens more : List Token}
    {outcomes outcomes' : List (Except Diagnostic Statement)}
    (h : Transcript .standard limit eof tokens outcomes) (hended : Ended tokens)
    (hmore : ∀ t ∈ more.head?, t.kind ≠ .semicolon)
    (h' : Transcript .standard limit eof' more outcomes') :
    Transcript .standard limit eof' (tokens ++ more) (outcomes ++ outcomes') := by
  induction h with
  | nil => exact h'
  | @read tokens s rest outcomes hs h ih =>
    obtain ⟨front, rfl, hfront⟩ := hs.exists_front
    have hrest : rest ≠ [] ∨ Ended front := by
      cases rest with
      | nil => exact .inr (by simpa using hended)
      | cons t rest => exact .inl (List.cons_ne_nil t rest)
    have hs : Segment .standard limit (front ++ (rest ++ more)) s (rest ++ more) := by
      rcases hfront with ⟨-, hany⟩ | ⟨hopen, -, hsame⟩
      · exact hany _
      · obtain ⟨next, rest, rfl⟩ := List.exists_cons_of_ne_nil (hrest.resolve_right hopen)
        exact hsame _ (.inr rfl)
    rw [List.append_assoc, List.cons_append]
    exact .read hs (ih hended.right)
  | @dropped passed rest cause left outcomes hf h ih =>
    have hrest := hf.rest_ne_nil hended
    obtain ⟨gone, hgone, -⟩ := hf.exists_gone
    have hleft : Ended left := (hgone ▸ hended.right).right
    have hnext : rest.headD eof = (rest ++ more).headD eof' := by
      obtain ⟨next, rest, rfl⟩ := List.exists_cons_of_ne_nil hrest
      rfl
    rw [List.append_assoc, List.cons_append, hnext]
    exact .dropped (hf.append hrest hmore eof') (ih hleft)

def Cursor.followedBy (c d : Cursor) : Cursor :=
  ⟨c.ahead ++ d.ahead, d.eof⟩

theorem attempts_followedBy (limit : Nat) {c d : Cursor} (hc : c.eof.kind = .eof)
    (hd : d.eof.kind = .eof) (hended : Ended c.ahead)
    (hhead : ∀ t ∈ d.ahead.head?, t.kind ≠ .semicolon) :
    (attempts .standard limit (c.followedBy d)).1 =
      (attempts .standard limit c).1 ++ (attempts .standard limit d).1 := by
  have hfirst := transcript_attempts Rules.regular_standard limit c hc
  have hsecond := transcript_attempts Rules.regular_standard limit d hd
  exact (hfirst.append hended hhead hsecond).attempts_eq Rules.regular_standard hd

theorem Cursor.map_unplaced_ahead (source : String) (file : Option String) :
    (ofSource source file).ahead.map Token.unplaced = bareTokens (units source) :=
  Lexer.map_unplaced_tokens _

theorem Cursor.ofSource_append {first second : String}
    (h : ¬ Fuses (units first) (units second)) (file : Option String) :
    ofSource (first ++ second) file = (ofSource first file).followedBy
      ((ofSource second file).relocate (Position.shift first.utf8ByteSize)) :=
  congr (congrArg Cursor.mk (Lexer.tokens_ofSource_append h file))
    (Lexer.eofToken_ofSource_append first second file)

theorem parse_append (first second : String) (file : Option String)
    (hlast : ∃ t ∈ (tokenize first file).dropLast.getLast?, t.kind = .semicolon)
    (hhead : ∀ t ∈ (tokenize second file).head?, t.kind ≠ .semicolon) :
    (parse (first ++ second) file).1.statements =
        (parse first file).1.statements ++ (parse second file).1.statements.map
          (Statement.mapTokens (Token.shift first.utf8ByteSize)) ∧
      (parse (first ++ second) file).2 =
        (parse first file).2 ++ (parse second file).2.map
          (Diagnostic.relocate (Position.shift first.utf8ByteSize)) := by
  obtain ⟨t, ht, hk⟩ := hlast
  have hlexeme : ∃ x, (lexemes (units first)).getLast? = some x ∧ x.unplaced = t.unplaced := by
    have hbare := congrArg List.getLast? (map_unplaced_tokenize first file)
    rw [List.getLast?_map, Option.mem_def.mp ht, bareTokens, List.getLast?_map] at hbare
    exact Option.map_eq_some_iff.mp hbare.symm
  obtain ⟨x, hx, hxt⟩ := hlexeme
  have hxk : x.kind = .semicolon := (congrArg Token.kind hxt).trans hk
  have hended : Ended (Cursor.ofSource first file).ahead := by
    intro u hu
    rw [Cursor.ahead_ofSource] at hu
    exact Option.some.inj (ht.symm.trans hu) ▸ hk
  let moved := (Cursor.ofSource second file).relocate (Position.shift first.utf8ByteSize)
  have hmoved : ∀ u ∈ moved.ahead.head?, u.kind ≠ .semicolon := by
    intro u hu
    rw [show moved.ahead = (Cursor.ofSource second file).ahead.map _ from rfl, List.head?_map] at hu
    obtain ⟨v, hv, rfl⟩ := Option.map_eq_some_iff.mp hu
    exact hhead v (List.head?_append.trans (congrArg (Option.or · _) hv))
  have hwhole := attempts_followedBy nestingLimit rfl rfl hended hmoved
  rw [← Cursor.ofSource_append (not_fuses_of_semicolon hx hxk _), attempts_relocate] at hwhole
  rw [parse_eq, parse_eq, parse_eq, hwhole]
  dsimp only
  rw [succeeded_append, failed_append, succeeded_relocate, failed_relocate]
  exact ⟨rfl, rfl⟩

theorem parse_append_broken_group :
    (parse "(1;+ 2" none).1.statements =
        (parse "+ 2" none).1.statements.map (Statement.mapTokens (Token.shift 3)) ∧
      (parse "(1;+ 2" none).2 =
        [⟨.unexpectedToken .closeParen .semicolon, ⟨2, "shell"⟩⟩,
          ⟨.noOperand .plus, ⟨3, "shell"⟩⟩] := by
  have hlast : (tokenize "(1;" none).dropLast.getLast? =
      some ⟨.semicolon, ";", Span.ofOffsets 2 3 "shell"⟩ := by decide +kernel
  have hhead : ∀ t ∈ (tokenize "+ 2" none).head?, t.kind ≠ .semicolon := by decide +kernel
  have hfirst : (parse "(1;" none).1.statements = [] ∧ (parse "(1;" none).2 =
      [⟨.unexpectedToken .closeParen .semicolon, ⟨2, "shell"⟩⟩] := by decide +kernel
  have hsecond : (parse "+ 2" none).2 = [⟨.noOperand .plus, ⟨0, "shell"⟩⟩] := by decide +kernel
  have happend : "(1;" ++ "+ 2" = "(1;+ 2" := by decide
  have h := parse_append "(1;" "+ 2" none ⟨_, hlast, rfl⟩ hhead
  rw [happend, hfirst.1, hfirst.2, hsecond] at h
  exact h

end ScriptFrontEnd
