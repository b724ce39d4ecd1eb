import Console.Completion
import Console.CommandWords
import Console.Highlight
import Console.Main
import Console.Proofs.Session.Saving
import Console.Proofs.Session.Accounting
import Console.Proofs.Session.Interrupting
import Console.Proofs.Token.Stream
import Console.Proofs.BlankLine
import Console.Proofs.Evaluator.Jumps
import Console.Proofs.Data.ReadBack
import Console.Proofs.History.Reentry
import Console.Proofs.Units
import Console.Proofs.Relaid
import Console.Proofs.Future
import Console.Proofs.Session.Features
import Console.Proofs.Locations
import Console.Proofs.Session.Retyping
import Console.Proofs.Evaluator.Depth
import Console.Proofs.Evaluator.Scopes
import Console.Proofs.Evaluator.Targets
import Console.Proofs.Evaluator.Sorted
import Console.Proofs.Ranges
import Console.Proofs.Ellipses
import Console.Proofs.Comparisons
import Console.Proofs.Heap.Identity
import Console.Proofs.Mutators
import Console.Proofs.Text.Pieces
import Console.Proofs.Format.Fields
import Console.Proofs.Calls
import Console.Proofs.Attributes
import Console.Proofs.Session.Recalling
import Console.Proofs.Highlight.Agreement
import Console.Proofs.Indent
import Console.Proofs.OpenBrackets
import Console.Proofs.CommandWords
import Console.Proofs.Format.Escapes
import Console.Proofs.Heap.Ancestry
