import BlockConfig.Batch
import BlockConfig.Node.Printer
import BlockConfig.Proofs.Pool.Conservation
import BlockConfig.Shell
import BlockConfig.Value.Document
import BlockConfig.Proofs.Grammar.Gives
import BlockConfig.Proofs.Grammar.Shape
import BlockConfig.Proofs.Grammar.Spelling
import BlockConfig.Proofs.Grammar.Search
import BlockConfig.Proofs.Grammar.ReadingStatements
import BlockConfig.Proofs.Grammar.Reading
import BlockConfig.Proofs.Grammar.Canonical
import BlockConfig.Proofs.Grammar.Climbing
import BlockConfig.Proofs.Lexing.Cutting
import BlockConfig.Proofs.Lexing.Lexemes
import BlockConfig.Proofs.Decimal.Digits
import BlockConfig.Proofs.Lexing.Pieces
import BlockConfig.Proofs.Lexing.Rendering
import BlockConfig.Proofs.RoundTrip.Expression
import BlockConfig.Proofs.Eval.Positions
import BlockConfig.Proofs.Lexing.Lawful
import BlockConfig.Proofs.Decimal.Rounding
import BlockConfig.Proofs.Decimal.Packing
import BlockConfig.Proofs.Decimal.Scaling
import BlockConfig.Proofs.Decimal.Shortest
import BlockConfig.Proofs.Decimal.SourceText
import BlockConfig.Proofs.RoundTrip.Document
import BlockConfig.Proofs.Pool.Cancellation
import BlockConfig.Proofs.Pool.Independence
import BlockConfig.Proofs.Eval.Seclusion
import BlockConfig.Proofs.Batch.Schedules
import BlockConfig.Proofs.Eval.Property
import BlockConfig.Proofs.Inclusion.Outcome
import BlockConfig.Proofs.Inclusion.Place
import BlockConfig.Proofs.Inclusion.Steps
import BlockConfig.Proofs.Inclusion.Cache
import BlockConfig.Proofs.Inclusion.Lasting
import BlockConfig.Proofs.Inclusion.Successes
import BlockConfig.Proofs.Inclusion.Histories
import BlockConfig.Proofs.Inclusion.Atomic
import BlockConfig.Proofs.Inclusion.Closed
import BlockConfig.Proofs.Eval.TextLength
import BlockConfig.Proofs.Inclusion.Termination
import BlockConfig.Proofs.Eval.PlainErrors
import BlockConfig.Proofs.Eval.Parts
import BlockConfig.Proofs.Eval.Activity
import BlockConfig.Proofs.Eval.Writing
import BlockConfig.Proofs.Eval.Permission
import BlockConfig.Proofs.Eval.Origin
import BlockConfig.Proofs.Eval.Tuples
import BlockConfig.Proofs.Lexing.Scanned
import BlockConfig.Proofs.Lexing.Spans
import BlockConfig.Proofs.Lexing.Holes
import BlockConfig.Proofs.Grammar.Moved
import BlockConfig.Proofs.Grammar.Consumption
import BlockConfig.Proofs.Grammar.Seam
import BlockConfig.Proofs.Grammar.Transfer
import BlockConfig.Proofs.Lexing.Joining
import BlockConfig.Proofs.Grammar.Concatenation
import BlockConfig.Proofs.Lexing.Trimming
import BlockConfig.Proofs.Grammar.Trimmed
import BlockConfig.Proofs.Eval.Interpolating
import BlockConfig.Proofs.Grammar.WellFormed
import BlockConfig.Proofs.Inclusion.Registered
import BlockConfig.Proofs.Pool.Single
import BlockConfig.Proofs.Batch.OneByOne
import BlockConfig.Proofs.Grammar.Budget
import BlockConfig.Proofs.Grammar.Uncommented
import BlockConfig.Proofs.Grammar.Omission
import BlockConfig.Proofs.Grammar.Gap
import BlockConfig.Proofs.Grammar.Omitted
import BlockConfig.Proofs.Lexing.Replacing
import BlockConfig.Proofs.Grammar.Blanked
import BlockConfig.Proofs.Eval.Comments
import BlockConfig.Proofs.Eval.Blocks
import BlockConfig.Proofs.Pipeline.Path
import BlockConfig.Proofs.Pipeline.Written
import BlockConfig.Proofs.Lexing.Separated
import BlockConfig.Proofs.Grammar.Braces
import BlockConfig.Proofs.Grammar.Entries
import BlockConfig.Proofs.Lexing.ReadBack
import BlockConfig.Proofs.Eval.Destructuring
import BlockConfig.Proofs.Eval.Conditions
import BlockConfig.Proofs.Lexing.Restarting
import BlockConfig.Proofs.Eval.Splicing
import BlockConfig.Proofs.Eval.References
import BlockConfig.Proofs.Grammar.Ending
import BlockConfig.Proofs.Value.Equality
import BlockConfig.Proofs.Value.Arithmetic
import BlockConfig.Proofs.Eval.Paths
import BlockConfig.Proofs.Registry.History
import BlockConfig.Proofs.Builtin.Texts
import BlockConfig.Proofs.Grammar.ErrorPlaces
import BlockConfig.Proofs.Batch.Accounting
