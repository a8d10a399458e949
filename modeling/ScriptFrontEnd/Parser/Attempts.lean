import ScriptFrontEnd.Parser.Statement

namespace ScriptFrontEnd

def attempt (rules : Rules) (levels : Nat) (c : Cursor) : Except Diagnostic Statement × Cursor :=
  match Reader.statement rules levels c with
  | .ok s d => (.ok s, d.advance)
  | .error e d => (.error e, d.advance)

theorem length_attempt_le (rules : Rules) (levels : Nat) (c : Cursor) :
    c.advance.ahead.length ≥ (attempt rules levels c).2.ahead.length := by
  have h := (Reader.Forward.statement rules levels c).length_le
  unfold Reader.leaves at h
  unfold attempt
  split at h <;> rename_i hc <;> rw [hc] <;> simp only [Cursor.length_ahead_advance] <;> omega

theorem reaches_attempt (rules : Rules) (levels : Nat) (c : Cursor) :
    c.Reaches (attempt rules levels c).2 := by
  have h := Reader.Forward.statement rules levels c
  unfold Reader.leaves at h
  unfold attempt
  cases hc : Reader.statement rules levels c with
  | ok s d => rw [hc] at h; exact h.trans d.reaches_advance
  | error e d => rw [hc] at h; exact h.trans d.reaches_advance

theorem length_ahead_attempt {rules : Rules} {levels : Nat} {c d : Cursor}
    {outcome : Except Diagnostic Statement} (hc : c.ahead ≠ [])
    (h : attempt rules levels c = (outcome, d)) : d.ahead.length < c.ahead.length := by
  have hd := length_attempt_le rules levels c
  have := List.length_pos_iff.mpr hc
  rw [h, Cursor.length_ahead_advance] at hd
  dsimp only at hd
  omega

def attempts (rules : Rules) (levels : Nat) (c : Cursor) :
    List (Except Diagnostic Statement) × Cursor :=
  if _ : c.ahead = [] then ([], c)
  else
    match _ : attempt rules levels c with
    | (outcome, d) =>
      let (outcomes, e) := attempts rules levels d
      (outcome :: outcomes, e)
termination_by c.ahead.length
decreasing_by exact length_ahead_attempt (by assumption) (by assumption)

theorem attempts_nil (rules : Rules) (levels : Nat) (eof : Token) :
    attempts rules levels ⟨[], eof⟩ = ([], ⟨[], eof⟩) := by
  rw [attempts]
  rfl

theorem attempts_of_attempt {rules : Rules} {levels : Nat} {c d : Cursor}
    {outcome : Except Diagnostic Statement} (hc : c.ahead ≠ [])
    (h : attempt rules levels c = (outcome, d)) :
    attempts rules levels c =
      (outcome :: (attempts rules levels d).1, (attempts rules levels d).2) := by
  rw [attempts, dif_neg hc]
  split
  simp_all

theorem attempts_cons (rules : Rules) (levels : Nat) (t : Token) (tokens : List Token)
    (eof : Token) :
    attempts rules levels ⟨t :: tokens, eof⟩ =
      ((attempt rules levels ⟨t :: tokens, eof⟩).1 ::
          (attempts rules levels (attempt rules levels ⟨t :: tokens, eof⟩).2).1,
        (attempts rules levels (attempt rules levels ⟨t :: tokens, eof⟩).2).2) :=
  attempts_of_attempt (List.cons_ne_nil t tokens) rfl

@[elab_as_elim]
theorem attempts_induction (rules : Rules) (levels : Nat) {P : Cursor → Prop}
    (nil : ∀ eof, P ⟨[], eof⟩)
    (cons : ∀ t tokens eof, P (attempt rules levels ⟨t :: tokens, eof⟩).2 →
      P ⟨t :: tokens, eof⟩) (c : Cursor) : P c := by
  induction hn : c.ahead.length using Nat.strongRecOn generalizing c with
  | _ n ih =>
    obtain ⟨ahead, eof⟩ := c
    cases ahead with
    | nil => exact nil eof
    | cons t tokens =>
      have hlt := length_ahead_attempt (List.cons_ne_nil t tokens)
        (rfl : attempt rules levels ⟨t :: tokens, eof⟩ = _)
      exact cons t tokens eof (ih _ (hn ▸ hlt) _ rfl)

def succeeded (outcomes : List (Except Diagnostic Statement)) : List Statement :=
  outcomes.filterMap (·.toOption)

def failed (outcomes : List (Except Diagnostic Statement)) : List Diagnostic :=
  outcomes.filterMap fun
    | .ok _ => none
    | .error d => some d

theorem mem_succeeded_iff {outcomes : List (Except Diagnostic Statement)} {s : Statement} :
    s ∈ succeeded outcomes ↔ .ok s ∈ outcomes := by
  rw [succeeded, List.mem_filterMap]
  constructor
  · rintro ⟨outcome, ho, hs⟩
    cases outcome with
    | ok s' => exact Option.some.inj hs ▸ ho
    | error d => cases hs
  · exact fun h => ⟨_, h, rfl⟩

theorem mem_failed_iff {outcomes : List (Except Diagnostic Statement)} {d : Diagnostic} :
    d ∈ failed outcomes ↔ .error d ∈ outcomes := by
  rw [failed, List.mem_filterMap]
  constructor
  · rintro ⟨outcome, ho, hd⟩
    cases outcome with
    | ok s => cases hd
    | error d' => exact Option.some.inj hd ▸ ho
  · exact fun h => ⟨_, h, rfl⟩

inductive Tried (rules : Rules) (levels : Nat) : (start : Cursor) → Cursor → Prop
  | here {c : Cursor} : c.ahead ≠ [] → Tried rules levels c c
  | later {c d : Cursor} : c.ahead ≠ [] → Tried rules levels (attempt rules levels c).2 d →
      Tried rules levels c d

namespace Tried

variable {rules : Rules} {levels : Nat} {c d : Cursor}

theorem ne_nil (h : Tried rules levels c d) : d.ahead ≠ [] := by
  induction h with
  | here hc => exact hc
  | later hc h ih => exact ih

theorem reaches (h : Tried rules levels c d) : c.Reaches d := by
  induction h with
  | here hc => exact .refl _
  | later hc h ih => exact (reaches_attempt rules levels _).trans ih

end Tried

theorem mem_attempts_iff {rules : Rules} {levels : Nat} {c : Cursor}
    {outcome : Except Diagnostic Statement} :
    outcome ∈ (attempts rules levels c).1 ↔
      ∃ d, Tried rules levels c d ∧ (attempt rules levels d).1 = outcome := by
  induction c using attempts_induction rules levels with
  | nil eof =>
    rw [attempts_nil]
    constructor
    · intro h
      cases h
    · rintro ⟨d, hd, -⟩
      cases hd with
      | here hc => exact absurd rfl hc
      | later hc => exact absurd rfl hc
  | cons t tokens eof ih =>
    have hc : t :: tokens ≠ [] := List.cons_ne_nil t tokens
    rw [attempts_cons, List.mem_cons, ih]
    constructor
    · rintro (rfl | ⟨d, hd, hout⟩)
      · exact ⟨_, .here hc, rfl⟩
      · exact ⟨d, .later hc hd, hout⟩
    · rintro ⟨d, hd, hout⟩
      cases hd with
      | here => exact .inl hout.symm
      | later _ hd => exact .inr ⟨d, hd, hout⟩

end ScriptFrontEnd
