import ScriptFrontEnd.Grammar.Fragment
import ScriptFrontEnd.Parser.Attempts

namespace ScriptFrontEnd

def dropSemicolon : List Token → List Token
  | [] => []
  | t :: rest => if t.kind = .semicolon then rest else t :: rest

/-- The tokens `passed` begin a statement that cannot go on with `rest`, and `left` is where the
next statement is looked for. -/
inductive Fault (rules : Rules) (limit : Nat) (eof : Token) :
    (passed rest : List Token) → Cause → (left : List Token) → Prop
  | unnamed {t rest} : rules.statementRule t.kind = .letBinding →
      (rest.headD eof).kind ≠ .identifier →
      Fault rules limit eof [t] rest (.unexpectedToken .identifier (rest.headD eof).kind) rest
  | unassigned {t n rest} : rules.statementRule t.kind = .letBinding → n.kind = .identifier →
      (rest.headD eof).kind ≠ .assignment →
      Fault rules limit eof [t, n] rest (.unexpectedToken .assignment (rest.headD eof).kind) rest
  | expression {f rest t tokens cause} : f.tokens ++ rest = t :: tokens →
      rules.statementRule t.kind = .expression →
      Breaks rules (rest.headD eof) limit .lowest f cause →
      Fault rules limit eof f.tokens rest cause (dropSemicolon (f.held ++ rest).tail)

inductive Transcript (rules : Rules) (limit : Nat) (eof : Token) :
    List Token → List (Except Diagnostic Statement) → Prop
  | nil : Transcript rules limit eof [] []
  | read {tokens s rest outcomes} : Segment rules limit tokens s rest →
      Transcript rules limit eof rest outcomes →
      Transcript rules limit eof tokens (.ok s :: outcomes)
  | dropped {passed rest cause left outcomes} : Fault rules limit eof passed rest cause left →
      Transcript rules limit eof left outcomes →
      Transcript rules limit eof (passed ++ rest)
        (.error ⟨cause, (rest.headD eof).start⟩ :: outcomes)

namespace Kind

def leading : List Kind :=
  [identifier, int, trueWord, falseWord, not, dash, openParen]

end Kind

def Cause.Fits (passed : List Token) (t : Token) : Cause → Prop
  | noOperand kind => t.kind = kind ∧ kind ∉ Kind.leading
  | badNumeral text => t.kind = .int ∧ t.text = text ∧ Numeral.value? text = none
  | unexpectedToken expected found => t.kind = found ∧ found ≠ expected ∧
      (expected = .identifier ∧ passed.map Token.kind = [.letWord] ∨
        expected = .assignment ∧ passed.map Token.kind = [.letWord, .identifier] ∨
        expected = .closeParen ∧ ∃ front o inner, passed = front ++ o :: inner ∧
          o.kind = .openParen ∧ Balanced inner)
  | nestingTooDeep limit => limit = 256 ∧
      ∃ f : Fragment, f.tokens = passed ∧ f.opened = 256 ∧
        Breaks .standard t 256 .lowest f (nestingTooDeep limit)

def Diagnostic.PointsAt (tokens : List Token) (i : Nat) (d : Diagnostic) : Prop :=
  ∀ j, (∃ t ∈ tokens[j]?, t.start = d.position) ↔ j = i

end ScriptFrontEnd
