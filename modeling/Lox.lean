import Lox.Main
import Lox.Proofs.Scoping.Effect
import Lox.Proofs.Scoping.Sound
import Lox.Proofs.Scoping.Agreement
import Lox.Proofs.Scoping.Exactness
import Lox.Proofs.Lexical.Calls
import Lox.Proofs.Lexical.Simulation
import Lox.Proofs.Dump.Unambiguous
import Lox.Proofs.Grammar.Acceptance
import Lox.Proofs.Loops.Desugaring
import Lox.Proofs.Number.Printed
import Lox.Proofs.Reading.Cursor
import Lox.Proofs.Reading.Expression
import Lox.Proofs.Reading.Recovery
import Lox.Proofs.Reading.Spans
import Lox.Proofs.Reading.Statement
import Lox.Proofs.Reading.Text
import Lox.Proofs.Running.Answers
import Lox.Proofs.Running.CallLimit
import Lox.Proofs.Running.Confined
import Lox.Proofs.Running.Erasure
import Lox.Proofs.Running.Live
import Lox.Proofs.Running.OutputLimit
import Lox.Proofs.Running.Unwinding
import Lox.Proofs.Running.Variables
import Lox.Proofs.Session.Binding
import Lox.Proofs.Session.Brackets
import Lox.Proofs.Session.Chains
import Lox.Proofs.Session.Dispatch
import Lox.Proofs.Session.Live
import Lox.Proofs.Session.Numbering
import Lox.Proofs.Session.Origins
import Lox.Proofs.Session.Reads
import Lox.Proofs.Session.Rejection
import Lox.Proofs.Session.Returns
import Lox.Proofs.Session.Sinks
import Lox.Proofs.Session.Splitting
import Lox.Proofs.Session.Writes
import Lox.Proofs.Token.Accounting
import Lox.Proofs.Token.Positions
import Lox.Proofs.Token.Printing
