import ScriptFrontEnd.Token.Lexer

namespace ScriptFrontEnd

structure Cursor where
  ahead : List Token
  eof : Token
  deriving DecidableEq, Repr

namespace Cursor

def ofLexer (l : Lexer) : Cursor := ⟨l.tokens, l.eofToken⟩

def current (c : Cursor) : Token := c.ahead.headD c.eof

def peek (c : Cursor) : Token := c.ahead.tail.headD c.eof

def advance (c : Cursor) : Cursor := { c with ahead := c.ahead.tail }

def skipToSemicolon (c : Cursor) : Cursor :=
  { c with ahead := c.ahead.dropWhile (·.kind ≠ .semicolon) }

def passSemicolon (c : Cursor) : Cursor :=
  if c.peek.kind = .semicolon then c.advance else c

def Reaches (c d : Cursor) : Prop :=
  d.ahead <:+ c.ahead ∧ d.eof = c.eof

namespace Reaches

theorem refl (c : Cursor) : Reaches c c := ⟨List.suffix_refl _, rfl⟩

theorem trans {b c d : Cursor} (h : Reaches b c) (h' : Reaches c d) : Reaches b d :=
  ⟨h'.1.trans h.1, h'.2.trans h.2⟩

theorem length_le {c d : Cursor} (h : Reaches c d) : d.ahead.length ≤ c.ahead.length :=
  h.1.length_le

end Reaches

theorem reaches_advance (c : Cursor) : Reaches c c.advance :=
  ⟨List.tail_suffix _, rfl⟩

theorem reaches_skipToSemicolon (c : Cursor) : Reaches c c.skipToSemicolon :=
  ⟨List.dropWhile_suffix _, rfl⟩

theorem reaches_passSemicolon (c : Cursor) : Reaches c c.passSemicolon := by
  unfold passSemicolon
  split
  · exact reaches_advance c
  · exact .refl c

theorem length_ahead_advance (c : Cursor) : c.advance.ahead.length = c.ahead.length - 1 :=
  List.length_tail

end Cursor

end ScriptFrontEnd
