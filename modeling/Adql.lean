import Adql.Main
import Adql.Tree.Equality
import Adql.Proofs.Grammar.Bounds
import Adql.Proofs.Grammar.Layout
import Adql.Proofs.Grammar.Limits
import Adql.Proofs.Grammar.Recovery
import Adql.Proofs.RoundTrip.Reparsing
import Adql.Proofs.Expressions.Climbing
import Adql.Proofs.Expressions.Printed
import Adql.Proofs.Leaves.Statements
import Adql.Proofs.Shape.Statements
import Adql.Proofs.Grammar.Order
import Adql.Proofs.Queries.Printed
import Adql.Proofs.Composition.Statements
import Adql.Proofs.Composition.Memberships
import Adql.Proofs.Grammar.Resynchronization
import Adql.Proofs.Grammar.Lookahead
import Adql.Proofs.Folding.Arithmetic
import Adql.Proofs.Folding.Counting
import Adql.Proofs.Folding.SortKeys
import Adql.Proofs.Leaves.Printed
import Adql.Proofs.Reduction.Reparsing
import Adql.Proofs.Readable.Reading
import Adql.Proofs.Traversal.Agreement
import Adql.Proofs.Expected.InVain
import Adql.Proofs.Composition.GeometryCalls
import Adql.Proofs.Tokens.Quoting
import Adql.Proofs.Tokens.Progress
import Adql.Proofs.Tokens.EndMarker
import Adql.Proofs.Flat.Statements
import Adql.Proofs.Expected.Completions
import Adql.Proofs.Furthest.Exactness
