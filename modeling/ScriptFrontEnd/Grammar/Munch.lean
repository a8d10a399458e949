import ScriptFrontEnd.Token.Basic

namespace ScriptFrontEnd

def utf8 (s : String) : List UInt8 :=
  s.toUTF8.data.toList

namespace Byte

def IsBlank (b : UInt8) : Prop :=
  b ∈ [' ', '\t', '\r', '\n'].map Char.toUInt8

def IsWord (b : UInt8) : Prop :=
  ('A'.toUInt8 ≤ b ∧ b ≤ 'Z'.toUInt8) ∨ ('a'.toUInt8 ≤ b ∧ b ≤ 'z'.toUInt8) ∨ b = '_'.toUInt8

def IsDigit (b : UInt8) : Prop :=
  '0'.toUInt8 ≤ b ∧ b ≤ '9'.toUInt8

instance : DecidablePred IsBlank := fun b => inferInstanceAs (Decidable (b ∈ _))

instance : DecidablePred IsWord := fun _ => inferInstanceAs (Decidable (_ ∨ _ ∨ _))

instance : DecidablePred IsDigit := fun _ => inferInstanceAs (Decidable (_ ∧ _))

end Byte

open Byte

/-- In front of the byte `next`, or at the end, the bytes `covered` are a token of this kind, which
no more bytes can be taken into. -/
inductive Munch (next : Option UInt8) : (covered : List UInt8) → Kind → Prop
  | keyword {word kind} : (word, kind) ∈ Kind.reserved → (∀ b ∈ next, ¬ IsWord b) →
      Munch next (utf8 word) kind
  | name {covered} : covered ≠ [] → (∀ b ∈ covered, IsWord b) →
      (∀ p ∈ Kind.reserved, covered ≠ utf8 p.1) → (∀ b ∈ next, ¬ IsWord b) →
      Munch next covered .identifier
  | numeral {covered} : covered ≠ [] → (∀ b ∈ covered, IsDigit b) → (∀ b ∈ next, ¬ IsDigit b) →
      Munch next covered .int
  | equals : Munch next (utf8 "==") .equals
  | notEquals : Munch next (utf8 "!=") .notEquals
  | assignment : next ≠ some '='.toUInt8 → Munch next (utf8 "=") .assignment
  | not : next ≠ some '='.toUInt8 → Munch next (utf8 "!") .not
  | punctuation {c kind} : (c, kind) ∈ Kind.punctuation → Munch next [c.toUInt8] kind
  | illegal {b} : ¬ IsBlank b → ¬ IsWord b → ¬ IsDigit b → b ≠ '='.toUInt8 → b ≠ '!'.toUInt8 →
      (∀ p ∈ Kind.punctuation, b ≠ p.1.toUInt8) → Munch next [b] .illegal

namespace Token

def startByte (t : Token) : Nat := t.span.start.offset.toNat

def stopByte (t : Token) : Nat := t.span.stop.offset.toNat

def covered (bytes : List UInt8) (t : Token) : List UInt8 :=
  bytes.extract t.startByte t.stopByte

structure Munched (bytes : List UInt8) (file : String) (t : Token) : Prop where
  start_lt_stop : t.startByte < t.stopByte
  stop_le : t.stopByte ≤ bytes.length
  files : t.span.start.file = file ∧ t.span.stop.file = file
  text : (∀ b ∈ t.covered bytes, b < 128) ∧ utf8 t.text = t.covered bytes ∨
    ∃ b, 128 ≤ b ∧ t.covered bytes = [b] ∧ t.kind = .illegal ∧ t.text = "\uFFFD"
  munch : Munch bytes[t.stopByte]? (t.covered bytes) t.kind

end Token

structure MaximalMunch (bytes : List UInt8) (file : String) (tokens : List Token) : Prop where
  munched : ∀ t ∈ tokens, t.Munched bytes file
  ordered : tokens.Pairwise fun t u => t.stopByte ≤ u.startByte
  blank : ∀ (i : Nat) (h : i < bytes.length),
    (∀ t ∈ tokens, i < t.startByte ∨ t.stopByte ≤ i) → IsBlank bytes[i]

def GoesOn (bytes more : List UInt8) (tokens : List Token) : Prop :=
  (∃ b ∈ bytes.getLast?, ∃ c ∈ more.head?, (IsWord b ∧ IsWord c) ∨ (IsDigit b ∧ IsDigit c)) ∨
    ∃ t ∈ tokens.getLast?, (t.text = "=" ∨ t.text = "!") ∧ t.stopByte = bytes.length ∧
      more.head? = some '='.toUInt8

end ScriptFrontEnd
