import ScriptFrontEnd.Grammar.Phrase

namespace ScriptFrontEnd.Phrase

/-- A part of a phrase, its level, and the tokens of the phrase that stand in front of it. The whole
is of level 1, a left operand of the level of its application, and any other operand and the inside
of a group of one level more than what they are part of. -/
inductive Contains : Phrase → (level : Nat) → (front : List Token) → Phrase → Prop
  | self {w} : Contains w 1 [] w
  | unary {t w n front x} : Contains w n front x →
      Contains (.unary t w) (n + 1) (t :: front) x
  | left {l o r n front x} : Contains l n front x → Contains (.binary l o r) n front x
  | right {l o r n front x} : Contains r n front x →
      Contains (.binary l o r) (n + 1) (l.tokens ++ o :: front) x
  | group {o w c n front x} : Contains w n front x →
      Contains (.group o w c) (n + 1) (o :: front) x

namespace Contains

variable {w x : Phrase} {n : Nat} {front : List Token}

theorem exists_back (h : w.Contains n front x) :
    ∃ back, w.tokens = front ++ (x.tokens ++ back) := by
  induction h with
  | self => exact ⟨[], by simp⟩
  | unary h ih =>
    obtain ⟨back, hw⟩ := ih
    exact ⟨back, by simp [tokens, hw]⟩
  | @left l o r n front x h ih =>
    obtain ⟨back, hl⟩ := ih
    exact ⟨back ++ o :: r.tokens, by simp [tokens, hl]⟩
  | right h ih =>
    obtain ⟨back, hr⟩ := ih
    exact ⟨back, by simp [tokens, hr]⟩
  | @group o w c n front x h ih =>
    obtain ⟨back, hw⟩ := ih
    exact ⟨back ++ [c], by simp [tokens, hw]⟩

theorem length_front_lt (h : w.Contains n front x) : front.length < w.tokens.length := by
  obtain ⟨back, hw⟩ := h.exists_back
  have := List.length_pos_iff.mpr x.tokens_ne_nil
  rw [hw, List.length_append, List.length_append]
  omega

theorem level_le (h : w.Contains n front x) : n ≤ w.nesting := by
  induction h with
  | @self w => exact w.nesting_pos
  | unary h ih => exact Nat.succ_le_succ ih
  | left h ih => exact Nat.le_trans ih (Nat.le_max_left _ _)
  | right h ih => exact Nat.le_trans (Nat.succ_le_succ ih) (Nat.le_max_right _ _)
  | group h ih => exact Nat.succ_le_succ ih

end Contains

end ScriptFrontEnd.Phrase
