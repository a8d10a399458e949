import ScriptFrontEnd.Proofs.Tree.Neighbours

namespace ScriptFrontEnd

def Token.assigning : Token := ⟨.assignment, "=", ⟨.nowhere, .nowhere⟩⟩

def Token.ending : Token := ⟨.semicolon, ";", ⟨.nowhere, .nowhere⟩⟩

namespace Expr

theorem Genuine.unplaced {e : Expr} (h : e.Genuine) : (e.mapTokens Token.unplaced).Genuine := by
  induction h with
  | @identifier t hk hs => exact .identifier (t := t.unplaced) hk hs
  | @integer t v hk hs hv => exact .integer (t := t.unplaced) hk hs hv
  | @isTrue t hk hs => exact .isTrue (t := t.unplaced) hk hs
  | @isFalse t hk hs => exact .isFalse (t := t.unplaced) hk hs
  | @unary t e hk hs _ ih => exact .unary (t := t.unplaced) hk hs ih
  | @binary t l r hk hs _ _ ihl ihr => exact .binary (t := t.unplaced) hk hs ihl ihr

theorem tokens_phrase_unplaced (e : Expr) :
    (e.mapTokens Token.unplaced).phrase.tokens = e.phrase.tokens.map Token.unplaced := by
  have hopen : Token.opening.unplaced = .opening := rfl
  have hclose : Token.closing.unplaced = .closing := rfl
  induction e with
  | identifier _ => rfl
  | integer _ _ => rfl
  | boolean _ _ => rfl
  | unary _ _ _ ih => simp [mapTokens, phrase, Phrase.tokens, ih, hopen, hclose]
  | binary _ _ _ _ ihl ihr => simp [mapTokens, phrase, Phrase.tokens, ihl, ihr, hopen, hclose]

theorem textNesting_mapTokens (f : Token → Token) (e : Expr) :
    (e.mapTokens f).textNesting = e.textNesting := by
  induction e with
  | identifier _ => rfl
  | integer _ _ => rfl
  | boolean _ _ => rfl
  | unary _ _ _ ih => simp only [mapTokens, textNesting, ih]
  | binary _ _ _ _ ihl ihr => simp only [mapTokens, textNesting, ihl, ihr]

end Expr

namespace Statement

def written : Statement → List Token
  | letBinding token name _ => [token, name.token, .assigning, .ending]
  | returning token _ => [token, .ending]
  | expression _ e => e.phrase.tokens

namespace Genuine

variable {s : Statement}

theorem unplaced (h : s.Genuine) : (s.mapTokens Token.unplaced).Genuine := by
  cases h with
  | @letBinding t n ht hts hn hns =>
    exact .letBinding (t := t.unplaced) (n := n.unplaced) ht hts hn hns
  | @returning t ht hts => exact .returning (t := t.unplaced) ht hts
  | expression he => exact .expression he.unplaced

theorem lexemes_render (h : s.Genuine) : lexemes (units s.render) = s.written.map Token.lexeme := by
  have hending : lexemes (units ";") = [Token.ending.lexeme] := lexemes_singleton (by decide)
  have hempty : units (renderValue none) = [] := rfl
  cases h with
  | @letBinding t n _ hts _ hns =>
    have hassigning : units " = " = units " " ++ (units "=" ++ units " ") := rfl
    have hequals : lexemes (units "=") = [Token.assigning.lexeme] := lexemes_singleton (by decide)
    simp only [render, units_append, List.append_assoc, hassigning, hempty, List.nil_append]
    rw [lexemes_append (not_fuses_space _ _), lexemes_space_append,
      lexemes_append (not_fuses_space _ _), lexemes_space_append,
      lexemes_append (not_fuses_space _ _), lexemes_space_append, hts.lexemes_units_text,
      hns.lexemes_units_text, hequals, hending]
    rfl
  | @returning t _ hts =>
    simp only [render, units_append, List.append_assoc, hempty, List.nil_append]
    rw [lexemes_append (not_fuses_space _ _), lexemes_space_append, hts.lexemes_units_text, hending]
    rfl
  | expression he => exact he.lexemes_render

theorem bareTokens_render (h : s.Genuine) :
    bareTokens (units s.render) = (s.mapTokens Token.unplaced).written := by
  have hcomp : Lexeme.unplaced ∘ Token.lexeme = Token.unplaced := funext Token.unplaced_lexeme
  rw [bareTokens, h.lexemes_render, List.map_map, hcomp]
  cases h with
  | letBinding => rfl
  | returning => rfl
  | @expression t e he => exact (e.tokens_phrase_unplaced).symm

end Genuine

end Statement

def Begins (rest : List Token) : Prop :=
  ∀ u ∈ rest.head?, u.kind ≠ .semicolon ∧ u.kind ∉ Kind.operators

theorem Opens.kind_first {c : Char} (h : Opens c) (rest : List Char) :
    (Lexeme.first c rest).kind ∈ .openParen :: .int :: Kind.words := by
  rcases h with hw | hd | rfl
  · rw [Lexeme.first_of_word hw]
    exact List.mem_cons_of_mem _ (List.mem_cons_of_mem _ (Kind.ofWord_mem_words _))
  · rw [Lexeme.first_of_digit hd]
    exact List.mem_cons_of_mem _ (List.mem_cons_self ..)
  · exact List.mem_cons_self ..

theorem begins_of_opens {c : Char} (h : Opens c) (cs : List Char) :
    Begins (bareTokens (c :: cs)) := by
  have hblank : ¬ c.isWhitespace := by
    rcases h with hw | hd | rfl
    · exact not_isWhitespace_of_class (.inl hw)
    · exact not_isWhitespace_of_class (.inr hd)
    · decide
  have hall : ∀ k ∈ Kind.openParen :: .int :: Kind.words, k ≠ .semicolon ∧ k ∉ Kind.operators := by
    decide
  rw [bareTokens, lexemes_cons hblank]
  intro u hu
  obtain rfl : (Lexeme.first c cs).unplaced = u := Option.some.inj hu
  exact hall _ (h.kind_first cs)

end ScriptFrontEnd
