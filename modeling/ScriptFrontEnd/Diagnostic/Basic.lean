import ScriptFrontEnd.Token.Basic
import ScriptFrontEnd.Token.Kind
import ScriptFrontEnd.Text.Quoted

namespace ScriptFrontEnd

inductive Cause where
  | unexpectedToken (expected found : Kind)
  | badNumeral (text : String)
  | noOperand (kind : Kind)
  | nestingTooDeep (limit : Nat)
  deriving DecidableEq, Repr

namespace Cause

def name : Cause → String
  | unexpectedToken _ _ => "UnexpectedToken"
  | badNumeral _ => "NumberParseError"
  | noOperand _ => "NoPrefixHandler"
  | nestingTooDeep _ => "NestingTooDeep"

def message : Cause → String
  | unexpectedToken expected found =>
    "expected next token to be " ++ expected.name ++ ", got " ++ found.name ++ " instead"
  | badNumeral text => "could not parse " ++ Text.quote text ++ " as integer"
  | noOperand kind => "no prefix parse function for " ++ kind.name ++ " found"
  | nestingTooDeep limit => "expression nested deeper than " ++ toString limit ++ " levels"

def tip : Cause → Option String
  | unexpectedToken expected found =>
    some ("expected `" ++ expected.name ++ "`, found `" ++ found.name ++ "`")
  | badNumeral text =>
    if Numeral.isOctal text.toList then
      some ("Invalid integer: `" ++ text ++ "`, a leading `0` makes it octal")
    else some ("Invalid integer: `" ++ text ++ "`, is it above the integer limit?")
  | noOperand .illegal => some "illegal character in source"
  | noOperand _ => none
  | nestingTooDeep limit =>
    some ("at most " ++ toString limit ++
      " levels of nesting are allowed, split the expression with `let`")

end Cause

structure Diagnostic where
  cause : Cause
  position : Position
  deriving DecidableEq, Repr

end ScriptFrontEnd
