import PostfixCalc.Console.LineLoop
import PostfixCalc.Eager
import PostfixCalc.Expression.Meaning
import PostfixCalc.Expression.Reading
import PostfixCalc.Logged
import PostfixCalc.Main
import PostfixCalc.Proofs.Binary64.Display
import PostfixCalc.Proofs.Binary64.Exact
import PostfixCalc.Proofs.Binary64.Reading
import PostfixCalc.Proofs.Binary64.Remainder
import PostfixCalc.Proofs.Binary64.Significant
import PostfixCalc.Proofs.CommandLine.Levels
import PostfixCalc.Proofs.CommandLine.Spelling
import PostfixCalc.Proofs.Console.Accounting
import PostfixCalc.Proofs.Console.Commuting
import PostfixCalc.Proofs.Console.Framing
import PostfixCalc.Proofs.Console.Messages
import PostfixCalc.Proofs.Eager
import PostfixCalc.Proofs.Expression.Meaning
import PostfixCalc.Proofs.Expression.Readability
import PostfixCalc.Proofs.Expression.Reading
import PostfixCalc.Proofs.History
import PostfixCalc.Proofs.Logged.Trace
import PostfixCalc.Proofs.Machine.Extension
import PostfixCalc.Proofs.Machine.Failure
import PostfixCalc.Proofs.Machine.Frame
import PostfixCalc.Proofs.Machine.Joined
import PostfixCalc.Proofs.Machine.Literal
import PostfixCalc.Proofs.Machine.Locality
import PostfixCalc.Proofs.Machine.Queries
import PostfixCalc.Proofs.Machine.Reachable
import PostfixCalc.Proofs.Renaming
import PostfixCalc.Proofs.Session.Sharing
import PostfixCalc.Proofs.Settings
import PostfixCalc.Proofs.Shape
import PostfixCalc.Proofs.Text.Lines
import PostfixCalc.Proofs.Text.Runs
import PostfixCalc.Proofs.Token.Classes
import PostfixCalc.Proofs.Unguarded
import PostfixCalc.Proofs.Untyped
import PostfixCalc.Proofs.WholeNumber
import PostfixCalc.Renaming
import PostfixCalc.Session
import PostfixCalc.Settings
