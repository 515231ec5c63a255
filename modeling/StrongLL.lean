import StrongLL.Derivation.Basic
import StrongLL.Grammar.Basic
import StrongLL.Grammar.EpsilonFree
import StrongLL.Grammar.Reader
import StrongLL.Language
import StrongLL.Lookahead.Follow
import StrongLL.Lookahead.Words
import StrongLL.Main
import StrongLL.Order.Climb
import StrongLL.Order.SortedMap
import StrongLL.Proofs.Derivation.Forms
import StrongLL.Proofs.Derivation.Replay
import StrongLL.Proofs.Grammar.NullDerivation
import StrongLL.Proofs.Recognizer.Answers
import StrongLL.Proofs.Recognizer.BottomUp
import StrongLL.Proofs.Recognizer.TopDown
import StrongLL.Proofs.Report
import StrongLL.Proofs.Table.Conflicts
import StrongLL.Proofs.Table.Lengths
import StrongLL.Proofs.Table.Parsing
import StrongLL.Proofs.Table.Rejections
import StrongLL.Recognizer.Basic
import StrongLL.Report
import StrongLL.Symbol.Order
import StrongLL.Table.Basic
import StrongLL.Text.Blank
import StrongLL.Text.Letter
import StrongLL.Text.Padding
import StrongLL.Proofs.Recognizer.LeastDerivation
import StrongLL.Proofs.Recognizer.StepLimit
import StrongLL.Proofs.Derivation.Traces
import StrongLL.Proofs.Recognizer.FirstRun
import StrongLL.Proofs.Grammar.Format
import StrongLL.Proofs.Grammar.Reader
import StrongLL.Proofs.Grammar.ReadFaults
import StrongLL.Proofs.Symbol.Display
import StrongLL.Proofs.Render.Displays
import StrongLL.Proofs.Table.UselessRules
import StrongLL.Proofs.Table.FirstConflict
import StrongLL.Proofs.Recognizer.ShortAnswers
import StrongLL.Proofs.Render.Productions
import StrongLL.Proofs.Lookahead.Reachability
import StrongLL.Proofs.Grammar.Vocabulary
import StrongLL.Proofs.Lookahead.Joining
import StrongLL.Proofs.Render.Tables
import StrongLL.Proofs.Text.Latex
import StrongLL.Proofs.Derivation.Numbering
import StrongLL.Proofs.Recognizer.Frames
