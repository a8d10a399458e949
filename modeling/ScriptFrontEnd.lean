import ScriptFrontEnd.Tree.Node
import ScriptFrontEnd.Tree.Height
import ScriptFrontEnd.Grammar.Phrase
import ScriptFrontEnd.Grammar.Munch
import ScriptFrontEnd.Tree.Tokens
import ScriptFrontEnd.Grammar.Fault
import ScriptFrontEnd.Diagnostic.Snippet
import ScriptFrontEnd.Parser.Operation
import ScriptFrontEnd.Proofs.Parser.OperatorTable
import ScriptFrontEnd.Proofs.Parser.Program
import ScriptFrontEnd.Proofs.Token.Lexemes
import ScriptFrontEnd.Proofs.Token.Seam
import ScriptFrontEnd.Proofs.Parser.Relocation
import ScriptFrontEnd.Proofs.Token.Spelling
import ScriptFrontEnd.Proofs.Tree.Genuine
import ScriptFrontEnd.Proofs.Tree.Canonical
import ScriptFrontEnd.Proofs.Tree.Neighbours
import ScriptFrontEnd.Proofs.Tree.RoundTrip
import ScriptFrontEnd.Proofs.Tree.FixedPoint
import ScriptFrontEnd.Grammar.Fragment
import ScriptFrontEnd.Proofs.Parser.Breaking
import ScriptFrontEnd.Proofs.Parser.Fault
import ScriptFrontEnd.Proofs.Token.Places
import ScriptFrontEnd.Proofs.Grammar.Uses
import ScriptFrontEnd.Proofs.Parser.Synchronisation
import ScriptFrontEnd.Proofs.Parser.Meaningless
import ScriptFrontEnd.Proofs.Parser.Accounting
import ScriptFrontEnd.Proofs.Parser.Completion
import ScriptFrontEnd.Proofs.Token.Cut
import ScriptFrontEnd.Proofs.Parser.ValidPrefix
import ScriptFrontEnd.Proofs.Token.Bytes
import ScriptFrontEnd.Proofs.Token.Munch
import ScriptFrontEnd.Proofs.Token.Tokenisation
import ScriptFrontEnd.Proofs.Token.Concatenation
import ScriptFrontEnd.Proofs.Tree.Yield
import ScriptFrontEnd.Proofs.Parser.Report
import ScriptFrontEnd.Proofs.Parser.Order
import ScriptFrontEnd.Proofs.Parser.Ranking
import ScriptFrontEnd.Parser.Evaluation
import ScriptFrontEnd.Proofs.Parser.Registration
import ScriptFrontEnd.Proofs.Parser.Termination
import ScriptFrontEnd.Parser.Execution
import ScriptFrontEnd.Proofs.Parser.Balance
import ScriptFrontEnd.Proofs.Token.Marks
import ScriptFrontEnd.Proofs.Grammar.Towers
import ScriptFrontEnd.Proofs.Parser.Sentence
import ScriptFrontEnd.Grammar.Level
import ScriptFrontEnd.Proofs.Parser.Level
import ScriptFrontEnd.Proofs.Parser.Recovery
import ScriptFrontEnd.Proofs.Tree.Depth
import ScriptFrontEnd.Proofs.Tree.Faithful
import ScriptFrontEnd.Proofs.Tree.WellFormed
import ScriptFrontEnd.Proofs.Parser.OptionalSemicolon
import ScriptFrontEnd.Proofs.Parser.SkippedValue
import ScriptFrontEnd.Proofs.Parser.Height
import ScriptFrontEnd.Proofs.Parser.Parentheses
import ScriptFrontEnd.Proofs.Parser.Numeral
import ScriptFrontEnd.Proofs.Text.Line
import ScriptFrontEnd.Proofs.Text.Blank
import ScriptFrontEnd.Proofs.Diagnostic.Snippet
import ScriptFrontEnd.Proofs.Diagnostic.Caret
import ScriptFrontEnd.Token.Scanner
import ScriptFrontEnd.Proofs.Token.Scanner
import ScriptFrontEnd.Proofs.Token.Stream
import ScriptFrontEnd.Parser.Pull
import ScriptFrontEnd.Proofs.Parser.Pull
import ScriptFrontEnd.Proofs.Parser.Window
import ScriptFrontEnd.Proofs.Diagnostic.Rows
