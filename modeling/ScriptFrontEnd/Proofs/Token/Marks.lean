import ScriptFrontEnd.Proofs.Token.Places
import ScriptFrontEnd.Proofs.Token.Spelling

namespace ScriptFrontEnd

def Separate : List Char → Prop
  | [] => True
  | c :: rest =>
    ((∃ k, (c, k) ∈ Kind.punctuation) ∨ c.isDigit ∧ ∀ d ∈ rest.head?, ¬ d.isDigit) ∧ Separate rest

namespace Token

def mark (file : String) (offset : Nat) (c : Char) : Token :=
  Lexer.tokenHere ⟨file, offset, [c]⟩ (Lexeme.first c [])

def marks (file : String) : (offset : Nat) → List Char → List Token
  | _, [] => []
  | offset, c :: cs => mark file offset c :: marks file (offset + 1) cs

variable (file : String) (offset : Nat)

theorem marks_append (a b : List Char) :
    marks file offset (a ++ b) = marks file offset a ++ marks file (offset + a.length) b := by
  induction a generalizing offset with
  | nil => rfl
  | cons c a ih =>
    have hlength : offset + 1 + a.length = offset + (c :: a).length := by
      rw [List.length_cons]
      omega
    rw [List.cons_append, marks, marks, ih, hlength, List.cons_append]

theorem marks_replicate (n : Nat) (c : Char) :
    marks file offset (List.replicate n c) = (List.range' offset n).map (mark file · c) := by
  induction n generalizing offset with
  | zero => rfl
  | succ n ih => rw [List.replicate_succ, marks, ih, List.range'_succ, List.map_cons]

theorem forall_mem_marks_replicate {P : Token → Prop} {c : Char} (h : ∀ i, P (mark file i c))
    (n : Nat) : ∀ t ∈ marks file offset (List.replicate n c), P t := by
  rw [marks_replicate]
  exact List.forall_mem_map.mpr fun i _ => h i

theorem length_marks (cs : List Char) : (marks file offset cs).length = cs.length := by
  induction cs generalizing offset with
  | nil => rfl
  | cons c cs ih => rw [marks, List.length_cons, ih, List.length_cons]

end Token

namespace Separate

variable {c : Char} {cs rest : List Char}

theorem nil : Separate [] := trivial

theorem cons_digit (hc : c.isDigit) (hrest : ∀ d ∈ rest.head?, ¬ d.isDigit) (h : Separate rest) :
    Separate (c :: rest) :=
  ⟨.inr ⟨hc, hrest⟩, h⟩

theorem replicate_append {k : Kind} (hc : (c, k) ∈ Kind.punctuation) (h : Separate rest) (n : Nat) :
    Separate (List.replicate n c ++ rest) := by
  induction n with
  | zero => exact h
  | succ n ih => exact ⟨.inl ⟨k, hc⟩, ih⟩

theorem toNat_lt (h : Separate (c :: rest)) : c.toNat < 128 := by
  rcases h.1 with ⟨k, hk⟩ | ⟨hd, -⟩
  · have hall : ∀ p ∈ Kind.punctuation, p.1.toNat < 128 := by decide
    exact hall _ hk
  · exact Nat.lt_trans (toNat_of_isDigit hd).2 (by decide)

theorem not_isWhitespace (h : Separate (c :: rest)) : ¬ c.isWhitespace := by
  rcases h.1 with ⟨k, hk⟩ | ⟨hd, -⟩
  · have hall : ∀ p ∈ Kind.punctuation, ¬ p.1.isWhitespace := by decide
    exact hall _ hk
  · exact not_isWhitespace_of_class (.inr hd)

theorem first_eq (h : Separate (c :: rest)) :
    Lexeme.first c rest = Lexeme.first c [] ∧ (Lexeme.first c []).units = [c] := by
  rcases h.1 with ⟨k, hk⟩ | ⟨hd, hrest⟩
  · have hk := ofPunctuation?_of_mem hk
    rw [Lexeme.first_of_punctuation hk, Lexeme.first_of_punctuation hk]
    exact ⟨rfl, rfl⟩
  · rw [Lexeme.first_of_digit hd, Lexeme.first_of_digit hd]
    cases rest with
    | nil => exact ⟨rfl, rfl⟩
    | cons d rest => exact ⟨by rw [List.takeWhile_cons_of_neg (hrest d rfl)]; rfl, rfl⟩

theorem tokens_eq (h : Separate cs) (file : String) (offset : Nat) :
    Lexer.tokens ⟨file, offset, cs⟩ = Token.marks file offset cs := by
  induction cs generalizing offset with
  | nil => exact Lexer.tokens_nil _ _
  | cons c rest ih =>
    obtain ⟨hfirst, hunits⟩ := h.first_eq
    rw [Lexer.tokens_cons h.not_isWhitespace, hfirst, hunits, Token.marks, ← ih h.2]
    rfl

theorem units_eq (h : Separate cs) : units (String.ofList cs) = cs := by
  rw [units_ofList]
  induction cs with
  | nil => rfl
  | cons c rest ih =>
    rw [List.flatMap_cons, charUnits, if_pos h.toNat_lt, ih h.2, List.singleton_append]

theorem utf8ByteSize_eq (h : Separate cs) : (String.ofList cs).utf8ByteSize = cs.length := by
  rw [← length_units, h.units_eq]

theorem dropLast_tokenize (h : Separate cs) (file : Option String) :
    (tokenize (String.ofList cs) file).dropLast = Token.marks (file.getD "shell") 0 cs := by
  rw [tokenize, List.dropLast_concat, Lexer.ofSource, h.units_eq, h.tokens_eq]

end Separate

theorem dropLast_tokenize_between_blanks {c : Char} {k : Kind} (hc : (c, k) ∈ Kind.punctuation)
    {before after : List Char} (hbefore : ∀ b ∈ before, b.isWhitespace)
    (hafter : ∀ b ∈ after, b.isWhitespace) (file : Option String) :
    (tokenize (String.ofList (before ++ c :: after)) file).dropLast =
      [Token.mark (file.getD "shell") before.length c] := by
  have hseparate : Separate [c] := ⟨.inl ⟨k, hc⟩, .nil⟩
  have hunits : units (String.ofList (before ++ c :: after)) = before ++ c :: after := by
    rw [units_of_ascii, String.toList_ofList]
    rw [String.toList_ofList]
    refine List.forall_mem_append.mpr ⟨fun b hb => toNat_of_isWhitespace (hbefore b hb), ?_⟩
    refine List.forall_mem_cons.mpr ⟨hseparate.toNat_lt, ?_⟩
    exact fun b hb => toNat_of_isWhitespace (hafter b hb)
  have hfirst : Lexeme.first c after = Lexeme.first c [] := by
    rw [Lexeme.first_of_punctuation (ofPunctuation?_of_mem hc),
      Lexeme.first_of_punctuation (ofPunctuation?_of_mem hc)]
  have hafter (offset : Nat) : Lexer.tokens ⟨file.getD "shell", offset, after⟩ = [] := by
    rw [← List.append_nil after, Lexer.tokens_append_of_blanks hafter, Lexer.tokens_nil]
  rw [tokenize, List.dropLast_concat, Lexer.ofSource, hunits, Lexer.tokens_append_of_blanks hbefore,
    Lexer.tokens_cons hseparate.not_isWhitespace, hfirst, hseparate.first_eq.2,
    List.length_singleton, List.drop_one, List.tail_cons, hafter, Nat.zero_add]
  rfl

end ScriptFrontEnd
