import Mathlib.Data.List.Induction
import ScriptFrontEnd.Grammar.Node
import ScriptFrontEnd.Token.Basic

namespace ScriptFrontEnd.Numeral

theorem isOctal_iff (digits : List Char) :
    isOctal digits ↔ 1 < digits.length ∧ digits.head? = some '0' := by
  match digits with
  | [] => simp [isOctal]
  | [c] => simp [isOctal]
  | c :: d :: digits =>
    by_cases hc : c = '0'
    · subst hc
      simp [isOctal]
    · simp [isOctal, hc]

theorem base_eq_radix (digits : List Char) : base digits = radix digits := by
  unfold base radix
  simp only [isOctal_iff]

theorem digit?_eq_some_iff {base d : Nat} {c : Char} :
    digit? base c = some d ↔ (c.isDigit ∧ digitValue c < base) ∧ digitValue c = d := by
  simp [digit?, digitValue]

theorem magnitude?_concat (base : Nat) (digits : List Char) (c : Char) :
    magnitude? base (digits ++ [c]) =
      (magnitude? base digits).bind fun n => (digit? base c).map (n * base + ·) := by
  simp [magnitude?, Option.bind_eq_bind]

theorem magnitude?_eq_some_iff {base n : Nat} {digits : List Char} :
    magnitude? base digits = some n ↔
      (∀ c ∈ digits, c.isDigit ∧ digitValue c < base) ∧
        Nat.ofDigits base (digits.reverse.map digitValue) = n := by
  induction digits using List.reverseRecOn generalizing n with
  | nil =>
    have hzero : Nat.ofDigits base ([].reverse.map digitValue) = 0 := rfl
    rw [hzero, and_iff_right (List.forall_mem_nil _)]
    exact Option.some_inj
  | append_singleton digits c ih =>
    rw [magnitude?_concat, Option.bind_eq_some_iff, List.forall_mem_append,
      List.forall_mem_singleton, List.reverse_concat, List.map_cons, Nat.ofDigits_cons]
    simp only [Option.map_eq_some_iff, digit?_eq_some_iff, ih]
    constructor
    · rintro ⟨_, ⟨hdigits, rfl⟩, _, ⟨hc, rfl⟩, rfl⟩
      exact ⟨⟨hdigits, hc⟩, by rw [Nat.add_comm, Nat.mul_comm]⟩
    · rintro ⟨⟨hdigits, hc⟩, rfl⟩
      exact ⟨_, ⟨hdigits, rfl⟩, _, ⟨hc, rfl⟩, by rw [Nat.add_comm, Nat.mul_comm]⟩

theorem value?_eq_some_iff {text : String} {v : Int64} :
    value? text = some v ↔
      ∃ n, Denotes (radix text.toList) text.toList n ∧ n < 2 ^ 63 ∧ Int64.ofNat n = v := by
  unfold value?
  cases hd : text.toList with
  | nil =>
    constructor
    · intro h
      cases h
    · rintro ⟨n, hn, -⟩
      exact absurd rfl hn.ne_nil
  | cons c digits =>
    dsimp only
    rw [base_eq_radix]
    simp only [Option.bind_eq_some_iff, magnitude?_eq_some_iff, Option.ite_none_right_eq_some,
      Option.some_inj]
    constructor
    · rintro ⟨n, ⟨hdigit, hn⟩, hlt, hv⟩
      exact ⟨n, ⟨List.cons_ne_nil c digits, hdigit, hn⟩, hlt, hv⟩
    · rintro ⟨n, hn, hlt, hv⟩
      exact ⟨n, ⟨hn.digit, hn.positional⟩, hlt, hv⟩

end ScriptFrontEnd.Numeral
