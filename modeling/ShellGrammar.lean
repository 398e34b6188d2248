import ShellGrammar.Main
import ShellGrammar.Proofs.Console.Reaction
import ShellGrammar.Proofs.Parsing
import ShellGrammar.Proofs.Reading.ViablePrefix
import ShellGrammar.Proofs.RoundTrip
import ShellGrammar.Proofs.Reading.ErrorKind
import ShellGrammar.Proofs.Lexing.Calls
import ShellGrammar.Proofs.Lexing.Reuse
import ShellGrammar.Proofs.Console.History
import ShellGrammar.Proofs.Reading.Message
import ShellGrammar.Proofs.Console.AllOrNothing
import ShellGrammar.Proofs.Reading.Expectation
import ShellGrammar.Proofs.Reading.Limit
import ShellGrammar.Proofs.Lexing.Joining
import ShellGrammar.Proofs.Lexing.Written
import ShellGrammar.Proofs.Reading.EndPosition
import ShellGrammar.Proofs.Tree.Listing
import ShellGrammar.Proofs.Json.RoundTrip
import ShellGrammar.Proofs.Settings.Calls
import ShellGrammar.Proofs.Lexing.Invariant
import ShellGrammar.Proofs.Reading.Calls
