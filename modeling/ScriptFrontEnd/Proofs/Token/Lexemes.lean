import Mathlib.Data.List.TakeWhile
import ScriptFrontEnd.Token.Lexer
import ScriptFrontEnd.Token.Basic

namespace ScriptFrontEnd

namespace Lexeme

def unplaced (x : Lexeme) : Token :=
  ⟨x.kind, x.text, ⟨.nowhere, .nowhere⟩⟩

theorem first_of_punctuation {c : Char} {k : Kind} (h : Kind.ofPunctuation? c = some k)
    (rest : List Char) : first c rest = ⟨k, [c]⟩ := by
  unfold first
  rw [h]

theorem prefix_units_first (c : Char) (rest : List Char) :
    (first c rest).units <+: c :: rest := by
  have heq {d : Char} (h : rest.head? = some '=') : [d, '='] <+: d :: rest := by
    obtain ⟨more, rfl⟩ := List.head?_eq_some_iff.mp h
    exact ⟨more, rfl⟩
  have hone {d : Char} : [d] <+: d :: rest := ⟨rest, rfl⟩
  unfold first
  split
  · exact hone
  · split
    · next hc =>
      subst hc
      split
      · next h => exact heq h
      · exact hone
    · split
      · next hc =>
        subst hc
        split
        · next h => exact heq h
        · exact hone
      · split
        · exact List.cons_prefix_cons.mpr ⟨rfl, List.takeWhile_prefix _⟩
        · split
          · exact List.cons_prefix_cons.mpr ⟨rfl, List.takeWhile_prefix _⟩
          · exact hone

theorem units_first_append_drop (c : Char) (rest : List Char) :
    (first c rest).units ++ (c :: rest).drop (first c rest).units.length = c :: rest :=
  (List.prefix_iff_eq_append.mp (prefix_units_first c rest))

theorem length_drop_first_lt (c : Char) (rest : List Char) :
    ((c :: rest).drop (first c rest).units.length).length < (c :: rest).length := by
  have hpos := List.length_pos_iff.mpr (units_first_ne_nil c rest)
  rw [List.length_drop, List.length_cons]
  omega

end Lexeme

def lexemes (cs : List Char) : List Lexeme :=
  match _ : cs.dropWhile Char.isWhitespace with
  | [] => []
  | c :: rest =>
    Lexeme.first c rest :: lexemes ((c :: rest).drop (Lexeme.first c rest).units.length)
termination_by cs.length
decreasing_by
  rename_i h
  have hlt := Lexeme.length_drop_first_lt c rest
  have hle := List.length_dropWhile_le Char.isWhitespace cs
  rw [h] at hle
  omega

theorem lexemes_of_dropWhile_eq_nil {cs : List Char} (h : cs.dropWhile Char.isWhitespace = []) :
    lexemes cs = [] := by
  rw [lexemes]
  split <;> simp_all

theorem lexemes_of_dropWhile_eq_cons {c : Char} {cs rest : List Char}
    (h : cs.dropWhile Char.isWhitespace = c :: rest) :
    lexemes cs =
      Lexeme.first c rest :: lexemes ((c :: rest).drop (Lexeme.first c rest).units.length) := by
  rw [lexemes]
  split <;> simp_all

@[simp] theorem lexemes_nil : lexemes [] = [] :=
  lexemes_of_dropWhile_eq_nil rfl

theorem lexemes_dropWhile (cs : List Char) :
    lexemes (cs.dropWhile Char.isWhitespace) = lexemes cs := by
  cases h : cs.dropWhile Char.isWhitespace with
  | nil => rw [lexemes_nil, lexemes_of_dropWhile_eq_nil h]
  | cons c rest =>
    have hc := List.head?_dropWhile_not Char.isWhitespace cs
    rw [h] at hc
    have hself : (c :: rest).dropWhile Char.isWhitespace = c :: rest :=
      List.dropWhile_cons_of_neg (by simpa using hc)
    rw [lexemes_of_dropWhile_eq_cons h, lexemes_of_dropWhile_eq_cons hself]

theorem lexemes_cons_of_blank {c : Char} (h : c.isWhitespace) (cs : List Char) :
    lexemes (c :: cs) = lexemes cs := by
  rw [← lexemes_dropWhile (c :: cs), List.dropWhile_cons_of_pos h, lexemes_dropWhile]

theorem lexemes_cons {c : Char} (h : ¬ c.isWhitespace) (rest : List Char) :
    lexemes (c :: rest) =
      Lexeme.first c rest :: lexemes ((c :: rest).drop (Lexeme.first c rest).units.length) :=
  lexemes_of_dropWhile_eq_cons (List.dropWhile_cons_of_neg h)

@[elab_as_elim]
theorem lexemes_induction {P : List Char → Prop} (nil : P [])
    (blank : ∀ c cs, c.isWhitespace → P cs → P (c :: cs))
    (lexeme : ∀ c rest, ¬ c.isWhitespace →
      P ((c :: rest).drop (Lexeme.first c rest).units.length) → P (c :: rest))
    (cs : List Char) : P cs := by
  induction hn : cs.length using Nat.strongRecOn generalizing cs with
  | _ n ih =>
    cases cs with
    | nil => exact nil
    | cons c rest =>
      by_cases hc : c.isWhitespace
      · exact blank c rest hc (ih rest.length (by simp [← hn]) rest rfl)
      · exact lexeme c rest hc (ih _ (hn ▸ Lexeme.length_drop_first_lt c rest) _ rfl)

theorem lexemes_eq_nil_iff {cs : List Char} : lexemes cs = [] ↔ ∀ c ∈ cs, c.isWhitespace := by
  induction cs using lexemes_induction with
  | nil => simp
  | blank c cs hc ih => rw [lexemes_cons_of_blank hc, ih, List.forall_mem_cons, and_iff_right hc]
  | lexeme c rest hc ih => simp [lexemes_cons hc, hc]

def bareTokens (cs : List Char) : List Token :=
  (lexemes cs).map Lexeme.unplaced

theorem bareTokens_nil : bareTokens [] = [] := by
  rw [bareTokens, lexemes_nil, List.map_nil]

namespace Lexer

theorem rest_skipBlanks (l : Lexer) : l.skipBlanks.rest = l.rest.dropWhile Char.isWhitespace := by
  have h := List.takeWhile_append_dropWhile (p := Char.isWhitespace) (l := l.rest)
  rw [skipBlanks, skip]
  dsimp only
  conv => lhs; arg 2; rw [← h]
  exact List.drop_left

theorem map_unplaced_tokens (l : Lexer) : l.tokens.map Token.unplaced = bareTokens l.rest := by
  unfold bareTokens
  induction hn : l.rest.length using Nat.strongRecOn generalizing l with
  | _ n ih =>
    have hblank := l.rest_skipBlanks
    cases hd : l.rest.dropWhile Char.isWhitespace with
    | nil =>
      have hnext : l.next? = none := by
        rw [next?, hblank, hd]
      rw [tokens_of_none hnext, lexemes_of_dropWhile_eq_nil hd]
      rfl
    | cons c rest =>
      let x := Lexeme.first c rest
      have hnext : l.next? = some (l.skipBlanks.tokenHere x, l.skipBlanks.skip x.units.length) := by
        rw [next?, hblank, hd]
      have hlt := length_rest_next? hnext
      have hrest : (l.skipBlanks.skip x.units.length).rest = (c :: rest).drop x.units.length := by
        rw [skip, hblank, hd]
      rw [tokens_of_some hnext, lexemes_of_dropWhile_eq_cons hd, List.map_cons, List.map_cons,
        ih _ (hn ▸ hlt) _ rfl, hrest]
      rfl

end Lexer

theorem map_unplaced_tokenize (source : String) (file : Option String) :
    (tokenize source file).dropLast.map Token.unplaced = bareTokens (units source) := by
  rw [tokenize, List.dropLast_concat, Lexer.map_unplaced_tokens]
  rfl

end ScriptFrontEnd
