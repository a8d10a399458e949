import ScriptFrontEnd.Token.Basic

namespace ScriptFrontEnd

/-- What a byte that is only a part of a character reads as. -/
def strayByte : Char := '\uFFFD'

def charUnits (c : Char) : List Char :=
  if c.toNat < 128 then [c] else List.replicate c.utf8Size strayByte

def units (source : String) : List Char :=
  source.toList.flatMap charUnits

theorem length_charUnits (c : Char) : (charUnits c).length = c.utf8Size := by
  unfold charUnits
  split
  · rename_i h
    have : c.utf8Size = 1 := by
      rw [Char.utf8Size_eq_one_iff, UInt32.le_iff_toNat_le]
      have : c.toNat = c.val.toNat := rfl
      have : (127 : UInt32).toNat = 127 := rfl
      omega
    simp [this]
  · simp

@[simp] theorem units_append (s t : String) : units (s ++ t) = units s ++ units t := by
  simp [units]

theorem units_ofList (cs : List Char) : units (String.ofList cs) = cs.flatMap charUnits := by
  simp [units]

theorem length_units (source : String) : (units source).length = source.utf8ByteSize := by
  rw [← String.size_toByteArray, ← String.utf8Encode_toList, List.utf8Encode]
  simp [units, List.length_flatMap, length_charUnits]

def isWordChar (c : Char) : Bool :=
  c.isAlpha || c == '_'

structure Lexeme where
  kind : Kind
  units : List Char
  deriving DecidableEq, Repr

def Lexeme.text (x : Lexeme) : String :=
  String.ofList x.units

def Lexeme.first (c : Char) (rest : List Char) : Lexeme :=
  match Kind.ofPunctuation? c with
  | some kind => ⟨kind, [c]⟩
  | none =>
    if c = '=' then
      if rest.head? = some '=' then ⟨.equals, ['=', '=']⟩ else ⟨.assignment, ['=']⟩
    else if c = '!' then
      if rest.head? = some '=' then ⟨.notEquals, ['!', '=']⟩ else ⟨.not, ['!']⟩
    else if isWordChar c then
      let word := c :: rest.takeWhile isWordChar
      ⟨Kind.ofWord (String.ofList word), word⟩
    else if c.isDigit then ⟨.int, c :: rest.takeWhile Char.isDigit⟩
    else ⟨.illegal, [c]⟩

theorem Lexeme.units_first_ne_nil (c : Char) (rest : List Char) : (first c rest).units ≠ [] := by
  unfold first
  repeat' split
  all_goals simp

structure Lexer where
  file : String
  offset : Nat
  rest : List Char
  deriving DecidableEq, Repr

namespace Lexer

def ofSource (source : String) (file : Option String) : Lexer :=
  ⟨file.getD "shell", 0, units source⟩

def skip (l : Lexer) (n : Nat) : Lexer :=
  { l with offset := l.offset + n, rest := l.rest.drop n }

def skipBlanks (l : Lexer) : Lexer :=
  l.skip (l.rest.takeWhile Char.isWhitespace).length

def tokenHere (l : Lexer) (x : Lexeme) : Token :=
  ⟨x.kind, x.text, Span.ofOffsets l.offset (l.offset + x.units.length) l.file⟩

def eofToken (l : Lexer) : Token :=
  let stop := l.offset + l.rest.length
  ⟨.eof, "", Span.ofOffsets stop stop l.file⟩

def next? (l : Lexer) : Option (Token × Lexer) :=
  let l := l.skipBlanks
  match l.rest with
  | [] => none
  | c :: rest =>
    let x := Lexeme.first c rest
    some (l.tokenHere x, l.skip x.units.length)

def next (l : Lexer) : Token × Lexer :=
  l.next?.getD (l.eofToken, l.skip l.rest.length)

theorem length_rest_skip (l : Lexer) (n : Nat) : (l.skip n).rest.length = l.rest.length - n := by
  simp [skip]

theorem length_rest_next? {l l' : Lexer} {t : Token} (h : l.next? = some (t, l')) :
    l'.rest.length < l.rest.length := by
  simp only [next?] at h
  split at h
  · simp at h
  · rename_i c rest hr
    simp only [Option.some.injEq, Prod.mk.injEq] at h
    rw [← h.2]
    have hn := List.length_pos_iff.mpr (Lexeme.units_first_ne_nil c rest)
    have hs : l.skipBlanks.rest.length ≤ l.rest.length := by
      simp [skipBlanks, length_rest_skip]
    have hc : l.skipBlanks.rest.length = rest.length + 1 := by simp [hr]
    rw [length_rest_skip]
    omega

def tokens (l : Lexer) : List Token :=
  match _ : l.next? with
  | none => []
  | some (t, l') => t :: l'.tokens
termination_by l.rest.length
decreasing_by exact length_rest_next? (by assumption)

theorem tokens_of_none {l : Lexer} (h : l.next? = none) : l.tokens = [] := by
  rw [tokens]
  split <;> simp_all

theorem tokens_of_some {l l' : Lexer} {t : Token} (h : l.next? = some (t, l')) :
    l.tokens = t :: l'.tokens := by
  rw [tokens]
  split <;> simp_all

def take : Nat → Lexer → List Token × Lexer
  | 0, l => ([], l)
  | n + 1, l =>
    let (t, l') := l.next
    let (ts, l'') := take n l'
    (t :: ts, l'')

end Lexer

def tokenize (source : String) (file : Option String) : List Token :=
  let l := Lexer.ofSource source file
  l.tokens ++ [l.eofToken]

end ScriptFrontEnd
