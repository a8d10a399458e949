import ScriptFrontEnd.Grammar.Munch
import ScriptFrontEnd.Token.Lexer

namespace ScriptFrontEnd

def slice? (bytes : List UInt8) (start stop : Nat) : Option (List UInt8) :=
  if start ≤ stop ∧ stop ≤ bytes.length then some (bytes.extract start stop) else none

def textOfBytes (bytes : List UInt8) : String :=
  (String.fromUTF8? ⟨bytes.toArray⟩).getD (String.singleton strayByte)

def Kind.ofPunctuationByte? (b : UInt8) : Option Kind :=
  (punctuation.map fun (c, kind) => (c.toUInt8, kind)).lookup b

/-- `ch` is the byte at `pos`, and none at the end of the source. `readPos` is the place of the byte
that is read next. -/
structure Scanner where
  source : String
  file : String
  pos : Nat
  readPos : Nat
  ch : Option UInt8
  deriving DecidableEq, Repr

namespace Scanner

open Byte

def bytes (s : Scanner) : List UInt8 := utf8 s.source

def readChar (s : Scanner) : Scanner :=
  let pos := min s.readPos s.bytes.length
  { s with ch := s.bytes[s.readPos]?, pos := pos, readPos := pos + 1 }

def ofSource (source : String) (file : Option String) : Scanner :=
  readChar ⟨source, file.getD "shell", 0, 0, none⟩

def peekChar (s : Scanner) : Option UInt8 := s.bytes[s.readPos]?

def advance : Nat → Scanner → Scanner
  | 0, s => s
  | n + 1, s => s.readChar.advance n

def unread (s : Scanner) : Nat :=
  s.bytes.length - s.readPos + s.ch.toList.length

theorem unread_readChar {s : Scanner} {b : UInt8} (h : s.ch = some b) :
    s.readChar.unread < s.unread := by
  have hbytes : s.readChar.bytes = s.bytes := rfl
  have hpos : s.readChar.readPos = min s.readPos s.bytes.length + 1 := rfl
  have hch : s.readChar.ch = s.bytes[s.readPos]? := rfl
  rw [unread, unread, hbytes, hpos, hch, h]
  by_cases hlt : s.readPos < s.bytes.length
  · rw [List.getElem?_eq_getElem hlt]
    simp only [Option.toList_some, List.length_singleton]
    omega
  · rw [List.getElem?_eq_none (Nat.le_of_not_lt hlt)]
    simp only [Option.toList_some, Option.toList_none, List.length_singleton, List.length_nil]
    omega

def skipBlanks (s : Scanner) : Scanner :=
  match _ : s.ch with
  | none => s
  | some b => if IsBlank b then s.readChar.skipBlanks else s
termination_by s.unread
decreasing_by exact unread_readChar (by assumption)

def tokenTo (s t : Scanner) (kind : Kind) (text : String) : Token :=
  ⟨kind, text, Span.ofOffsets s.pos t.pos s.file⟩

def charText (s : Scanner) : String :=
  match s.ch with
  | none => ""
  | some b => textOfBytes [b]

def single (s : Scanner) (kind : Kind) : Token × Scanner :=
  let t := s.readChar
  (s.tokenTo t kind s.charText, t)

def oneOrTwo (s : Scanner) (one two : Kind) : Token × Scanner :=
  if s.peekChar ≠ some '='.toUInt8 then s.single one
  else
    let t := s.readChar.readChar
    (s.tokenTo t two (s.charText.push '='), t)

def run? (s : Scanner) (fits : UInt8 → Prop) [DecidablePred fits] (kind : String → Kind) :
    Option (Token × Scanner) := do
  let remainder ← slice? s.bytes s.pos s.bytes.length
  let n := (remainder.takeWhile fits).length
  let text := textOfBytes (← slice? remainder 0 n)
  let t := s.advance n
  return (s.tokenTo t (kind text) text, t)

def tokenHere? (s : Scanner) : Option (Token × Scanner) :=
  match s.ch with
  | none => some (s.tokenTo s .eof "", s)
  | some b =>
    if b = '='.toUInt8 then some (s.oneOrTwo .assignment .equals)
    else if b = '!'.toUInt8 then some (s.oneOrTwo .not .notEquals)
    else match Kind.ofPunctuationByte? b with
      | some kind => some (s.single kind)
      | none =>
        if IsWord b then s.run? IsWord Kind.ofWord
        else if IsDigit b then s.run? IsDigit fun _ => .int
        else some (s.single .illegal)

def next? (s : Scanner) : Option (Token × Scanner) := s.skipBlanks.tokenHere?

def take? : Nat → Scanner → Option (List Token × Scanner)
  | 0, s => some ([], s)
  | n + 1, s => do
    let (t, s) ← s.next?
    let (ts, s) ← s.take? n
    return (t :: ts, s)

inductive Drains : Scanner → List Token → Prop
  | last {s t s'} : s.next? = some (t, s') → t.kind = .eof → Drains s [t]
  | more {s t s' ts} : s.next? = some (t, s') → t.kind ≠ .eof → Drains s' ts → Drains s (t :: ts)

structure Coherent (s : Scanner) : Prop where
  pos_le : s.pos ≤ s.bytes.length
  readPos_eq : s.readPos = s.pos + 1
  ch_eq : s.ch = s.bytes[s.pos]?

end Scanner

def tokenStream (source : String) (file : Option String) (k : Nat) : Token :=
  (tokenize source file)[k]?.getD
    ⟨.eof, "", Span.ofOffsets source.utf8ByteSize source.utf8ByteSize (file.getD "shell")⟩

end ScriptFrontEnd
