import ScriptFrontEnd.Proofs.Grammar.Uses
import ScriptFrontEnd.Proofs.Parser.Fault
import ScriptFrontEnd.Proofs.Parser.Program

namespace ScriptFrontEnd

variable {limit : Nat} {eof u : Token} {tail : List Token}

theorem exists_append_eq_cons (front : List Token) (u : Token) :
    ∃ v more, ∀ tail, front ++ u :: tail = v :: (more ++ tail) := by
  cases front with
  | nil => exact ⟨u, [], fun _ => rfl⟩
  | cons v front => exact ⟨v, front ++ [u], fun tail => by simp⟩

theorem headD_append_cons (front tail tail' : List Token) (u eof eof' : Token) :
    (front ++ u :: tail).headD eof = (front ++ u :: tail').headD eof' := by
  cases front <;> rfl

theorem dropSemicolon_tail_congr {held : List Token}
    (h : dropSemicolon (held ++ u :: tail).tail = u :: tail) (tail' : List Token) :
    dropSemicolon (held ++ u :: tail').tail = u :: tail' := by
  cases held with
  | nil =>
    obtain ⟨gone, hgone, -⟩ := exists_append_dropSemicolon tail
    have h : dropSemicolon tail = u :: tail := h
    have hlength := congrArg List.length hgone
    rw [h, List.length_append, List.length_cons] at hlength
    omega
  | cons t held =>
    have hcut (tail : List Token) : dropSemicolon (t :: held ++ u :: tail).tail =
        dropSemicolon (held ++ [u]) ++ tail := by
      rw [← dropSemicolon_append fun hnil => absurd hnil (by simp), List.append_assoc]
      rfl
    have hkept : dropSemicolon (held ++ [u]) = [u] :=
      List.append_cancel_right ((hcut tail).symm.trans h)
    rw [hcut, hkept]
    rfl

theorem Fault.exists_gone_cons {rules : Rules} {passed rest left : List Token} {cause : Cause}
    (h : Fault rules limit eof passed rest cause left) (hleft : left = u :: tail) :
    ∃ gone, rest = gone ++ u :: tail ∧ ∀ tail' eof',
      Fault rules limit eof' passed (gone ++ u :: tail') cause (u :: tail') := by
  obtain ⟨gone, hgone, -⟩ := h.exists_gone
  cases h with
  | unnamed ht hn =>
    subst hleft
    exact ⟨[], rfl, fun tail' eof' => .unnamed ht hn⟩
  | unassigned ht hn ha =>
    subst hleft
    exact ⟨[], rfl, fun tail' eof' => .unassigned ht hn ha⟩
  | @expression f _ t tokens _ htokens ht hf =>
    rw [hleft] at hgone
    subst hgone
    refine ⟨gone, rfl, fun tail' eof' => ?_⟩
    obtain ⟨v, more, hfirst⟩ := exists_append_eq_cons (f.tokens ++ gone) u
    rw [← List.append_assoc, hfirst] at htokens
    obtain ⟨rfl, -⟩ := List.cons.inj htokens
    have htokens' : f.tokens ++ (gone ++ u :: tail') = v :: (more ++ tail') := by
      rw [← List.append_assoc, hfirst]
    rw [headD_append_cons gone tail tail' u eof eof'] at hf
    rw [← List.append_assoc] at hleft
    have hfault : Fault rules limit eof' f.tokens (gone ++ u :: tail') cause
        (dropSemicolon (f.held ++ (gone ++ u :: tail')).tail) := .expression htokens' ht hf
    rwa [← List.append_assoc, dropSemicolon_tail_congr hleft tail'] at hfault

theorem exists_passed_of_attempt {c : Cursor} (hc : c.ahead ≠ []) (he : c.eof.kind = .eof)
    (h : (attempt .standard limit c).2.ahead = u :: tail) :
    ∃ passed, c.ahead = passed ++ u :: tail ∧ ∀ tail' eof', eof'.kind = .eof →
      attempt .standard limit ⟨passed ++ u :: tail', eof'⟩ =
        ((attempt .standard limit c).1, ⟨u :: tail', eof'⟩) := by
  obtain ⟨ahead, eof⟩ := c
  obtain ⟨t, tokens, rfl⟩ := List.exists_cons_of_ne_nil hc
  obtain ⟨outcome, d, hout⟩ :
      ∃ outcome d, attempt .standard limit ⟨t :: tokens, eof⟩ = (outcome, d) := ⟨_, _, rfl⟩
  rw [hout] at h ⊢
  cases outcome with
  | ok s =>
    obtain ⟨rest, hs, rfl⟩ := segment_of_attempt Rules.regular_standard he hout
    have h : rest = u :: tail := h
    subst h
    obtain ⟨front, hfront, hany | ⟨-, -, hsame⟩⟩ := hs.exists_front
    · exact ⟨front, hfront, fun tail' eof' he' =>
        (hany.2 (u :: tail')).attempt_eq_ok Rules.regular_standard he'⟩
    · exact ⟨front, hfront, fun tail' eof' he' =>
        (hsame (u :: tail') (.inr rfl)).attempt_eq_ok Rules.regular_standard he'⟩
  | error e =>
    obtain ⟨passed, rest, left, hsplit, hf, hp, rfl⟩ :=
      fault_of_attempt Rules.regular_standard he hout
    obtain ⟨gone, rfl, hgone⟩ := hf.exists_gone_cons h
    refine ⟨passed ++ gone, by rw [hsplit, List.append_assoc], fun tail' eof' he' => ?_⟩
    have hread := (hgone tail' eof').attempt_eq_error Rules.regular_standard he'
    rwa [← List.append_assoc, headD_append_cons gone tail' tail u eof' eof, ← hp] at hread

namespace Tried

variable {c d : Cursor}

theorem exists_outcomes (h : Tried .standard limit c d) (he : c.eof.kind = .eof)
    (hd : d.ahead = u :: tail) :
    ∃ passed outcomes, c.ahead = passed ++ u :: tail ∧ ∀ tail' eof', eof'.kind = .eof →
      (attempts .standard limit ⟨passed ++ u :: tail', eof'⟩).1 =
        outcomes ++ (attempts .standard limit ⟨u :: tail', eof'⟩).1 := by
  induction h with
  | here _ => exact ⟨[], [], hd, fun _ _ _ => rfl⟩
  | @later c d hc h ih =>
    have heof : (attempt .standard limit c).2.eof.kind = .eof := by
      rw [(reaches_attempt .standard limit c).2]
      exact he
    obtain ⟨passed, outcomes, hahead, hrest⟩ := ih heof hd
    obtain ⟨v, more, hfirst⟩ := exists_append_eq_cons passed u
    obtain ⟨front, hfront, hread⟩ := exists_passed_of_attempt hc he (hahead.trans (hfirst tail))
    refine ⟨front ++ passed, (attempt .standard limit c).1 :: outcomes, ?_, ?_⟩
    · rw [hfront, List.append_assoc, hfirst]
    · intro tail' eof' he'
      have hattempt := hread (more ++ tail') eof' he'
      rw [List.append_assoc, hfirst, attempts_of_attempt (by simp) hattempt, ← hfirst,
        hrest tail' eof' he', List.cons_append]

end Tried

end ScriptFrontEnd
