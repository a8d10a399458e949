import ScriptFrontEnd.Diagnostic.Basic
import ScriptFrontEnd.Text.Line

namespace ScriptFrontEnd

def widestArrow : Nat := 65535

inductive SnippetError where
  | arrowTooWide (width : Nat)
  deriving DecidableEq, Repr

namespace Text

def alignRight (width : Nat) (cs : List Char) : List Char :=
  List.replicate (width - cs.length) ' ' ++ cs

def leadingSpaces (cs : List Char) : Nat :=
  (cs.takeWhile (· = ' ')).length

namespace Place

def arrowWidth (p : Place) : Nat :=
  p.column - leadingSpaces p.line + 1

def snippet (p : Place) (width : Nat) : List Char :=
  let number := (toString p.number).toList
  let margin := alignRight (number.length + 2) ['|']
  margin ++ ['\n'] ++
  number ++ [' ', '|', ' '] ++ trim p.line ++ ['\n'] ++
  margin ++ [' '] ++ List.replicate (width - 1) '-' ++ ['^']

end Place

end Text

namespace Diagnostic

def heading (d : Diagnostic) : String :=
  "Error: " ++ d.cause.name ++ ((d.cause.tip.map (" (" ++ · ++ ")")).getD "") ++ "\n" ++
  "-> " ++ d.position.file ++ "\n"

def render (d : Diagnostic) (source : String) : Except SnippetError String :=
  match Text.place? source d.position.offset with
  | none => .ok d.heading
  | some p =>
    if p.arrowWidth ≤ widestArrow then
      .ok (d.heading ++ String.ofList (p.snippet p.arrowWidth))
    else .error (.arrowTooWide p.arrowWidth)

end Diagnostic

end ScriptFrontEnd
