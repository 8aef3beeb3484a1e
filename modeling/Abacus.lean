import Abacus.Eval.Node
import Abacus.Program.Document
import Abacus.Program.Printer
import Abacus.Session
import Abacus.Proofs.Program.Reading
import Abacus.Proofs.Program.Soundness
import Abacus.Proofs.Program.Statements
import Abacus.Proofs.Program.Whole
import Abacus.Proofs.Program.Grammar
import Abacus.Proofs.Number.Numeral
import Abacus.Proofs.Token.Scan
import Abacus.Proofs.Program.Acceptance
import Abacus.Proofs.Token.Cuts
import Abacus.Proofs.Number.PlainText
import Abacus.Proofs.Program.WellFormed
import Abacus.Proofs.Program.RoundTrip
import Abacus.Proofs.Eval.Evaluation
import Abacus.Proofs.Eval.Frames
import Abacus.Proofs.Eval.Stores
import Abacus.Proofs.Session.Rollback
import Abacus.Proofs.Token.Pieces
import Abacus.Proofs.Token.Spans
import Abacus.Proofs.Eval.Sites
import Abacus.Proofs.Session.Answers
import Abacus.Proofs.Eval.Scope
import Abacus.Proofs.Document.Numerals
import Abacus.Proofs.Document.Texts
import Abacus.Proofs.Document.Numbers
import Abacus.Proofs.Document.RoundTrip
import Abacus.Proofs.Program.Documents
import Abacus.Proofs.Program.Blame
import Abacus.Proofs.Eval.Alike
import Abacus.Proofs.Eval.Renumbering
import Abacus.Proofs.Eval.Mirror
import Abacus.Proofs.Eval.Formed
import Abacus.Proofs.Session.Agreement
import Abacus.Proofs.Session.Checkpoint
import Abacus.Proofs.Program.Contents
import Abacus.Proofs.Session.Joined
import Abacus.Proofs.Eval.Resolution
import Abacus.Proofs.Eval.Simulation
import Abacus.Proofs.Program.Precedence
import Abacus.Proofs.Program.Renaming
import Abacus.Proofs.Session.Reserved
import Abacus.Proofs.Eval.Renaming
import Abacus.Proofs.Session.Seeds
import Abacus.Proofs.Program.Parentheses
import Abacus.Proofs.Eval.Heap
import Abacus.Proofs.Program.Malformed
import Abacus.Proofs.Program.Layout
import Abacus.Proofs.Program.Lines
import Abacus.Proofs.Eval.Lines
import Abacus.Proofs.Session.Tracing
import Abacus.Proofs.Program.Atoms
import Abacus.Proofs.Session.Names
import Abacus.Proofs.Eval.Correspondence
import Abacus.Proofs.Eval.Substitution
import Abacus.Proofs.Eval.Calls
import Abacus.Proofs.Eval.Reordering
import Abacus.Proofs.Session.Definitions
import Abacus.Proofs.Session.Singles
import Abacus.Proofs.Token.Insertions
import Abacus.Proofs.Token.Layout
import Abacus.Proofs.Token.Words
import Abacus.Proofs.Token.Progress
import Abacus.Proofs.Program.Partners
import Abacus.Proofs.Program.Outcomes
import Abacus.Proofs.Program.Heads
import Abacus.Proofs.Program.Synonyms
import Abacus.Proofs.Program.Separators
import Abacus.Proofs.Program.Groups
import Abacus.Proofs.Program.Prefixes
import Abacus.Proofs.Number.Nearest
import Abacus.Proofs.Number.Bits
import Abacus.Proofs.Number.Shortest
import Abacus.Proofs.Number.Decimals
import Abacus.Proofs.Number.ReadBack
import Abacus.Proofs.Program.Literals
import Abacus.Proofs.Program.Levels
import Abacus.Proofs.Program.Tape
import Abacus.Proofs.Program.Descent
import Abacus.Proofs.Program.Lookahead
import Abacus.Proofs.Program.Ending
