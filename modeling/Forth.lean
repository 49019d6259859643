import Forth.Main
import Forth.Proofs.Text.Folding
import Forth.Proofs.Text.Lexemes
import Forth.Proofs.Token
import Forth.Proofs.Reading
import Forth.Proofs.Running
import Forth.Proofs.History
import Forth.Proofs.Soundness
import Forth.Proofs.Cutting
import Forth.Proofs.Failure
import Forth.Proofs.Snapshot
import Forth.Proofs.Spelling
import Forth.Proofs.Stops
import Forth.Proofs.Grammar
import Forth.Proofs.Description
import Forth.Proofs.Outcome
import Forth.Proofs.Introspection
import Forth.Proofs.Carrying
import Forth.Proofs.Framing
import Forth.Proofs.Depth
import Forth.Proofs.Naming
import Forth.Proofs.Binding
import Forth.Proofs.Replay
import Forth.Proofs.Independence
import Forth.Proofs.Unused
import Forth.Proofs.Lines
import Forth.Proofs.Session
import Forth.Proofs.Display
import Forth.Proofs.Causality
import Forth.Proofs.Compiling
import Forth.Proofs.Listing
import Forth.Proofs.Concatenation
import Forth.Proofs.Reports
import Forth.Proofs.Mapping
import Forth.Proofs.Text.Splitting
import Forth.Proofs.Atomicity
import Forth.Proofs.Division
import Forth.Proofs.Decimal
import Forth.Proofs.Positions
import Forth.Proofs.Rows
