import TreeSelectors.Selector.Printer
import TreeSelectors.Selector.Specificity
import TreeSelectors.Tree.Table
import TreeSelectors.Document.Edit
import TreeSelectors.Document.Arena
import TreeSelectors.Document.Outline
import TreeSelectors.Document.Query
import TreeSelectors.Proofs.NormalForm
import TreeSelectors.Proofs.Grammar
import TreeSelectors.Proofs.Reading.Lexeme
import TreeSelectors.Proofs.Reading.Formula
import TreeSelectors.Proofs.Reading.Sequence
import TreeSelectors.Proofs.Reading.Append
import TreeSelectors.Proofs.Reading.Fault
import TreeSelectors.Proofs.Writing.Formula
import TreeSelectors.Proofs.Writing.Sequence
import TreeSelectors.Proofs.RoundTrip
import TreeSelectors.Proofs.Concatenation
import TreeSelectors.Proofs.Specificity
import TreeSelectors.Proofs.Meaning
import TreeSelectors.Proofs.Tree.Order
import TreeSelectors.Proofs.Tree.Stack
import TreeSelectors.Proofs.Tree.Position
import TreeSelectors.Proofs.Tree.LetterCase
import TreeSelectors.Proofs.Document.Forest
import TreeSelectors.Proofs.Document.Links
import TreeSelectors.Proofs.Document.Effect
import TreeSelectors.Proofs.Document.History
import TreeSelectors.Proofs.Document.Search
import TreeSelectors.Proofs.Tree.Neighbourhood
import TreeSelectors.Proofs.Document.Locality
import TreeSelectors.Proofs.Spelling
import TreeSelectors.Proofs.Document.Failure
import TreeSelectors.Proofs.Document.Undo
import TreeSelectors.Proofs.Document.Renaming
import TreeSelectors.Proofs.Document.Outline
import TreeSelectors.Proofs.Diagnosis
import TreeSelectors.Proofs.Document.Order
import TreeSelectors.Proofs.Document.OnlyChild
import TreeSelectors.Proofs.Reading.Cut
import TreeSelectors.Proofs.Reading.LeftOver
import TreeSelectors.Reader.Magnitude
import TreeSelectors.Proofs.Reading.Magnitude
import TreeSelectors.Proofs.Argument
import TreeSelectors.Proofs.Comparison
import TreeSelectors.Proofs.Tree.Polarity
import TreeSelectors.Proofs.Document.Attributes
import TreeSelectors.Proofs.Document.Lines
