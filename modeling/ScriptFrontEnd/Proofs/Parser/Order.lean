import ScriptFrontEnd.Proofs.Grammar.Uses
import ScriptFrontEnd.Proofs.Parser.Fault
import ScriptFrontEnd.Proofs.Parser.Program
import ScriptFrontEnd.Proofs.Token.Places

namespace ScriptFrontEnd

namespace Cause

def Expects (cause : Cause) : Prop :=
  ∃ expected found, cause = unexpectedToken expected found

def RefusesOperand (cause : Cause) : Prop :=
  (∃ kind, cause = noOperand kind) ∨ ∃ text, cause = badNumeral text

theorem RefusesOperand.not_expects {cause : Cause} (h : cause.RefusesOperand) :
    ¬ cause.Expects := by
  rintro ⟨expected, found, rfl⟩
  rcases h with ⟨kind, h⟩ | ⟨text, h⟩
  · cases h
  · cases h

end Cause

variable {rules : Rules} {limit : Nat} {eof : Token}

theorem Rules.Refuses.refusesOperand {t : Token} {cause : Cause} (h : rules.Refuses t cause) :
    cause.RefusesOperand := by
  cases h with
  | unknown _ => exact .inl ⟨_, rfl⟩
  | unfit _ _ => exact .inl ⟨_, rfl⟩
  | numeral _ _ _ => exact .inr ⟨_, rfl⟩

namespace Breaks

variable {next : Token} {levels : Nat} {floor : Precedence} {f : Fragment} {cause : Cause}

theorem held_eq_nil_or (h : Breaks rules next levels floor f cause) :
    f.held = [] ∨ cause.Expects := by
  induction h with
  | tooDeep => exact .inl rfl
  | refused _ => exact .inl rfl
  | unary _ _ ih => exact ih
  | group _ _ ih => exact ih
  | unclosed _ _ _ _ _ _ => exact .inr ⟨_, _, rfl⟩
  | binary _ _ _ _ _ _ _ ih => exact ih

theorem refusesOperand (h : Breaks rules next levels floor f cause) (hl : 0 < levels)
    (hf : f.tokens = []) : cause.RefusesOperand := by
  cases h with
  | tooDeep => exact absurd hl (Nat.lt_irrefl 0)
  | refused h => exact h.refusesOperand
  | unary _ _ => simp [Fragment.tokens] at hf
  | group _ _ => simp [Fragment.tokens] at hf
  | unclosed _ _ _ _ _ _ => simp [Fragment.tokens] at hf
  | binary _ _ _ _ _ _ _ => simp [Fragment.tokens] at hf

end Breaks

theorem dropSemicolon_eq_or (tokens : List Token) :
    dropSemicolon tokens = tokens ∨ dropSemicolon tokens = tokens.tail := by
  cases tokens with
  | nil => exact .inl rfl
  | cons t tokens =>
    rw [dropSemicolon]
    split
    · exact .inr rfl
    · exact .inl rfl

namespace Fault

variable {passed rest left : List Token} {cause : Cause}

theorem left_eq_or_suffix (h : Fault rules limit eof passed rest cause left) :
    (cause.Expects ∧ left = rest) ∨ left <:+ rest.tail := by
  cases h with
  | unnamed _ _ => exact .inl ⟨⟨_, _, rfl⟩, rfl⟩
  | unassigned _ _ _ => exact .inl ⟨⟨_, _, rfl⟩, rfl⟩
  | @expression f rest t tokens cause _ _ hf =>
    have hbehind (htail : (f.held ++ rest).tail = rest.tail) :
        dropSemicolon (f.held ++ rest).tail <:+ rest.tail := by
      obtain ⟨gone, hgone, -⟩ := exists_append_dropSemicolon rest.tail
      rw [htail]
      exact ⟨gone, hgone.symm⟩
    rcases hf.held_eq_nil_or with hheld | hexpects
    · exact .inr (hbehind (by rw [hheld, List.nil_append]))
    · rcases f.tail_held_append rest with htail | htail
      · rw [htail]
        rcases dropSemicolon_eq_or rest with hsame | hnext
        · exact .inl ⟨hexpects, hsame⟩
        · exact .inr (hnext ▸ List.suffix_refl _)
      · exact .inr (hbehind htail)

theorem refusesOperand (h : Fault rules limit eof passed rest cause left) (hl : 0 < limit)
    (hp : passed = []) : cause.RefusesOperand := by
  cases h with
  | unnamed _ _ => cases hp
  | unassigned _ _ _ => cases hp
  | expression _ _ hf => exact hf.refusesOperand hl hp

end Fault

namespace Diagnostic

/-- The diagnostic `d` is in front of `d'`, or both are at one token, which was not the one that was
expected and is then refused as an operand. -/
def Before (d d' : Diagnostic) : Prop :=
  d.position.offset < d'.position.offset ∨
    d.position.offset = d'.position.offset ∧ d.cause.Expects ∧ d'.cause.RefusesOperand

theorem Before.le {d d' : Diagnostic} (h : d.Before d') :
    d.position.offset ≤ d'.position.offset := by
  rcases h with hlt | ⟨heq, -, -⟩
  · exact UInt32.le_of_lt hlt
  · exact UInt32.le_of_eq heq

theorem Before.of_eq {d d' : Diagnostic} (h : d.Before d')
    (heq : d.position.offset = d'.position.offset) : d.cause.Expects ∧ d'.cause.RefusesOperand := by
  rcases h with hlt | ⟨-, hcauses⟩
  · exact absurd (heq ▸ hlt) (UInt32.lt_irrefl _)
  · exact hcauses

theorem length_le_two_of_offset {ds : List Diagnostic} (h : ds.Pairwise Before) {offset : UInt32}
    (hsame : ∀ d ∈ ds, d.position.offset = offset) : ds.length ≤ 2 := by
  match ds with
  | [] => simp
  | [_] => simp
  | [_, _] => simp
  | a :: b :: c :: more =>
    simp only [List.forall_mem_cons] at hsame
    simp only [List.pairwise_cons, List.forall_mem_cons] at h
    obtain ⟨ha, hb, hc, -⟩ := hsame
    obtain ⟨⟨hab, -⟩, ⟨hbc, -⟩, -⟩ := h
    have hrefused := (hab.of_eq (ha.trans hb.symm)).2
    have hexpects := (hbc.of_eq (hb.trans hc.symm)).1
    exact absurd hexpects hrefused.not_expects

theorem countP_offset_le_two {ds : List Diagnostic} (h : ds.Pairwise Before) (offset : UInt32) :
    ds.countP (·.position.offset = offset) ≤ 2 := by
  have hsame : ∀ d ∈ ds.filter (·.position.offset = offset), d.position.offset = offset :=
    fun d hd => by simpa using (List.mem_filter.mp hd).2
  rw [List.countP_eq_length_filter]
  exact length_le_two_of_offset (h.filter _) hsame

end Diagnostic

namespace Transcript

variable {tokens : List Token} {outcomes : List (Except Diagnostic Statement)}

theorem ne_nil (h : Transcript rules limit eof tokens outcomes) (ho : outcomes ≠ []) :
    tokens ≠ [] := by
  cases h with
  | nil => exact absurd rfl ho
  | read hs _ => exact hs.ne_nil
  | dropped hf _ => exact hf.ne_nil

theorem exists_token (h : Transcript .standard limit eof tokens outcomes) (hl : 0 < limit)
    {d : Diagnostic} (hd : d ∈ failed outcomes) :
    ∃ passed t after, tokens ++ [eof] = passed ++ t :: after ∧ d.position = t.start ∧
      (passed = [] → d.cause.RefusesOperand) := by
  induction h with
  | nil => cases hd
  | read hs _ ih =>
    obtain ⟨front, rfl, -⟩ := hs.exists_front
    obtain ⟨passed, t, after, hsplit, hposition, hcause⟩ := ih hd
    refine ⟨front ++ passed, t, after, ?_, hposition, fun hp => ?_⟩
    · rw [List.append_assoc, hsplit, List.append_assoc]
    · exact hcause (List.append_eq_nil_iff.mp hp).2
  | @dropped passed rest cause left outcomes hf _ ih =>
    rw [failed_cons_error] at hd
    rcases List.mem_cons.mp hd with rfl | hlater
    · refine ⟨passed, rest.headD eof, (rest ++ [eof]).tail, ?_, rfl, hf.refusesOperand hl⟩
      rw [List.append_assoc]
      cases rest <;> rfl
    · obtain ⟨gone, rfl, -⟩ := hf.exists_gone
      obtain ⟨passed', t, after, hsplit, hposition, hcause⟩ := ih hlater
      refine ⟨passed ++ (gone ++ passed'), t, after, ?_, hposition, fun hp => ?_⟩
      · rw [List.append_assoc, List.append_assoc, hsplit, List.append_assoc, List.append_assoc]
      · exact hcause (List.append_eq_nil_iff.mp (List.append_eq_nil_iff.mp hp).2).2

theorem pairwise_before (h : Transcript .standard limit eof tokens outcomes) (hl : 0 < limit)
    (hp : (tokens ++ [eof]).Pairwise fun t u => t.start.offset < u.start.offset) :
    (failed outcomes).Pairwise fun d d' =>
      d.position.offset ≠ eof.start.offset ∧ d.Before d' := by
  induction h with
  | nil => exact .nil
  | read hs _ ih =>
    obtain ⟨front, rfl, -⟩ := hs.exists_front
    rw [List.append_assoc] at hp
    exact ih (hp.sublist (List.sublist_append_right _ _))
  | @dropped passed rest cause left outcomes hf h ih =>
    rw [List.append_assoc] at hp
    replace hp := hp.sublist (List.sublist_append_right _ _)
    have hleft : left <:+ rest := by
      obtain ⟨gone, hgone, -⟩ := hf.exists_gone
      exact ⟨gone, hgone.symm⟩
    rw [failed_cons_error]
    refine List.pairwise_cons.mpr ⟨fun d' hd' => ?_, ih (hp.sublist (hleft.sublist.append_right _))⟩
    obtain ⟨later, t, after, hsplit, hposition, hcause⟩ := h.exists_token hl hd'
    cases rest with
    | nil =>
      have hnil : left = [] := List.suffix_nil.mp hleft
      refine absurd hnil (h.ne_nil ?_)
      rintro rfl
      cases hd'
    | cons next rest =>
      obtain ⟨hnext, -⟩ := List.pairwise_cons.mp hp
      have hbehind (ht : t ∈ rest ++ [eof]) : next.start.offset < d'.position.offset :=
        hposition ▸ hnext t ht
      refine ⟨UInt32.ne_of_lt (hnext eof (by simp)), ?_⟩
      rcases hf.left_eq_or_suffix with ⟨hexpects, rfl⟩ | hsuffix
      · cases later with
        | nil =>
          obtain ⟨rfl, -⟩ := List.cons.inj hsplit
          exact .inr ⟨congrArg Position.offset hposition.symm, hexpects, hcause rfl⟩
        | cons u later =>
          have hrest : rest ++ [eof] = later ++ t :: after := (List.cons.inj hsplit).2
          exact .inl (hbehind (hrest ▸ by simp))
      · have ht : t ∈ left ++ [eof] := hsplit ▸ by simp
        exact .inl (hbehind ((hsuffix.sublist.append_right _).subset ht))

end Transcript

theorem diagnostics_in_source_order {source : String} (h : source.utf8ByteSize < 2 ^ 32)
    (file : Option String) :
    ((parse source file).2.Pairwise fun d d' => d.position.offset ≤ d'.position.offset) ∧
      (∀ offset, (parse source file).2.countP (·.position.offset = offset) ≤ 2) ∧
      ((parse source file).2.Pairwise fun d d' => d.position.offset = d'.position.offset →
        (∃ expected found, d.cause = .unexpectedToken expected found) ∧
          ((∃ kind, d'.cause = .noOperand kind) ∨ ∃ text, d'.cause = .badNumeral text)) ∧
      ∀ t ∈ tokenize source file, t.kind = .eof →
        ∀ front d back, (parse source file).2 = front ++ d :: back →
          d.position.offset = t.start.offset →
            back = [] ∧ ∀ d' ∈ front, d'.position.offset ≠ t.start.offset := by
  let c := Cursor.ofSource source file
  have hread := transcript_attempts Rules.regular_standard nestingLimit c rfl
  have hall := hread.pairwise_before (Nat.zero_lt_succ 255) (pairwise_start_tokenize h file)
  have hbefore := hall.imp fun hd => hd.2
  refine ⟨hbefore.imp Diagnostic.Before.le, Diagnostic.countP_offset_le_two hbefore,
    hbefore.imp Diagnostic.Before.of_eq, ?_⟩
  intro t ht hk front d back hds hd
  have hend : t = c.eof := by
    rcases List.mem_append.mp ht with ht | ht
    · exact absurd hk (Lexer.kind_ne_eof_of_mem_tokens ht)
    · exact List.mem_singleton.mp ht
  subst hend
  have hds : failed (attempts .standard nestingLimit c).1 = front ++ d :: back := hds
  rw [hds] at hall
  obtain ⟨-, hback, hfront⟩ := List.pairwise_append.mp hall
  refine ⟨?_, fun d' hd' => (hfront d' hd' d (List.mem_cons_self ..)).1⟩
  cases back with
  | nil => rfl
  | cons next back =>
    exact absurd hd ((List.pairwise_cons.mp hback).1 next (List.mem_cons_self ..)).1

theorem diagnostics_of_unnamed_binding :
    let ds := (parse "let 09 (" none).2
    "let 09 (".utf8ByteSize < 2 ^ 32 ∧ ds.map (·.position.offset) = [4, 4, 8] ∧
      (∀ offset, ds.countP (·.position.offset = offset) ≤ 2) ∧
      ds.Pairwise fun d d' => d.position.offset ≤ d'.position.offset := by
  have hsize : "let 09 (".utf8ByteSize < 2 ^ 32 := by decide
  obtain ⟨hordered, htwo, -, -⟩ := diagnostics_in_source_order hsize none
  exact ⟨hsize, by decide +kernel, htwo, hordered⟩

end ScriptFrontEnd
