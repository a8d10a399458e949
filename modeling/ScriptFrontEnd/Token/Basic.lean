import ScriptFrontEnd.Token.Kind

namespace ScriptFrontEnd

/-- Offsets are counted in bytes and kept in 32 bits, so an offset past the range wraps around. -/
structure Position where
  offset : UInt32
  file : String
  deriving DecidableEq, Repr

def Position.nowhere : Position := ⟨0, "<null>"⟩

structure Span where
  start : Position
  stop : Position
  deriving DecidableEq, Repr

def Span.ofOffsets (start stop : Nat) (file : String) : Span :=
  ⟨⟨start.toUInt32, file⟩, ⟨stop.toUInt32, file⟩⟩

structure Token where
  kind : Kind
  text : String
  span : Span
  deriving DecidableEq, Repr

def Token.start (t : Token) : Position := t.span.start

def Token.describe (t : Token) : String :=
  t.kind.name ++ " (" ++ t.text ++ ")"

def Position.shift (n : Nat) (p : Position) : Position :=
  { p with offset := p.offset + n.toUInt32 }

def Span.shift (n : Nat) (s : Span) : Span :=
  ⟨s.start.shift n, s.stop.shift n⟩

theorem Span.shift_ofOffsets (n start stop : Nat) (file : String) :
    (ofOffsets start stop file).shift n = ofOffsets (start + n) (stop + n) file := by
  simp only [shift, ofOffsets, Position.shift, Nat.toUInt32, ← UInt32.ofNat_add]

namespace Token

def shift (n : Nat) (t : Token) : Token :=
  { t with span := t.span.shift n }

def unplaced (t : Token) : Token :=
  { t with span := ⟨.nowhere, .nowhere⟩ }

theorem unplaced_eq_iff {t u : Token} :
    t.unplaced = u.unplaced ↔ t.kind = u.kind ∧ t.text = u.text := by
  simp [unplaced]

@[simp] theorem unplaced_unplaced (t : Token) : t.unplaced.unplaced = t.unplaced := rfl

end Token

namespace Numeral

def isOctal : List Char → Bool
  | '0' :: _ :: _ => true
  | _ => false

def base (digits : List Char) : Nat :=
  if isOctal digits then 8 else 10

def digit? (base : Nat) (c : Char) : Option Nat :=
  if c.isDigit && c.toNat - '0'.toNat < base then some (c.toNat - '0'.toNat) else none

def magnitude? (base : Nat) (digits : List Char) : Option Nat :=
  digits.foldlM (fun n c => (digit? base c).map (n * base + ·)) 0

def value? (text : String) : Option Int64 :=
  match text.toList with
  | [] => none
  | digits => (magnitude? (base digits) digits).bind fun n =>
    if n < Nat.pow 2 63 then some (Int64.ofNat n) else none

end Numeral

end ScriptFrontEnd
