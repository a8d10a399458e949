namespace ScriptFrontEnd

inductive Kind where
  | eof | illegal | identifier | int
  | openCurly | closeCurly | openParen | closeParen
  | assignment | equals | not | notEquals
  | less | greater | semicolon | comma
  | plus | dash | slash | star
  | letWord | fnWord | trueWord | falseWord | ifWord | elseWord | returnWord
  deriving DecidableEq, Repr

namespace Kind

def all : List Kind :=
  [eof, illegal, identifier, int, openCurly, closeCurly, openParen, closeParen,
   assignment, equals, not, notEquals, less, greater, semicolon, comma,
   plus, dash, slash, star, letWord, fnWord, trueWord, falseWord, ifWord, elseWord, returnWord]

def name : Kind → String
  | eof => "EOF"
  | illegal => "Illegal"
  | identifier => "Identifier"
  | int => "Int"
  | openCurly => "OpenCurly"
  | closeCurly => "CloseCurly"
  | openParen => "OpenParen"
  | closeParen => "CloseParen"
  | assignment => "Assignment"
  | equals => "Equals"
  | not => "Not"
  | notEquals => "NotEquals"
  | less => "Less"
  | greater => "Greater"
  | semicolon => "Semicolon"
  | comma => "Comma"
  | plus => "Plus"
  | dash => "Dash"
  | slash => "Slash"
  | star => "Star"
  | letWord => "Let"
  | fnWord => "Fn"
  | trueWord => "True"
  | falseWord => "False"
  | ifWord => "If"
  | elseWord => "Else"
  | returnWord => "Return"

def ofName? (s : String) : Option Kind :=
  all.find? (·.name == s)

theorem ofName?_name (k : Kind) : ofName? k.name = some k := by
  cases k <;> decide

def reserved : List (String × Kind) :=
  [("let", letWord), ("fn", fnWord), ("true", trueWord), ("false", falseWord),
   ("if", ifWord), ("else", elseWord), ("return", returnWord)]

def punctuation : List (Char × Kind) :=
  [('+', plus), ('-', dash), ('*', star), ('/', slash), ('<', less), ('>', greater),
   (',', comma), (';', semicolon), ('(', openParen), (')', closeParen),
   ('\x7b', openCurly), ('\x7d', closeCurly)]

def ofWord (word : String) : Kind :=
  (reserved.lookup word).getD identifier

def ofPunctuation? (c : Char) : Option Kind :=
  punctuation.lookup c

end Kind

end ScriptFrontEnd
