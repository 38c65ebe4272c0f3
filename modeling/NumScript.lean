import NumScript.Command.Job
import NumScript.Command.Line
import NumScript.Diagnostic.Basic
import NumScript.Diagnostic.Code
import NumScript.Diagnostic.Location
import NumScript.Expr.Error
import NumScript.Expr.Lexeme
import NumScript.Expr.Operator
import NumScript.Expr.Postfix
import NumScript.Expr.Token
import NumScript.Host.Bindings
import NumScript.Host.Console
import NumScript.Host.Recorder
import NumScript.Host.World
import NumScript.Main
import NumScript.Number.Binary
import NumScript.Number.Reader
import NumScript.Number.Shortest
import NumScript.Number.Written
import NumScript.Script.Block
import NumScript.Script.Error
import NumScript.Script.Interpreter
import NumScript.Script.Keyword
import NumScript.Script.Minify
import NumScript.Script.Mode
import NumScript.Script.Reading
import NumScript.Script.Run
import NumScript.Script.Statement
import NumScript.Script.Steps
import NumScript.Store.Dict
import NumScript.Store.Forest
import NumScript.Store.Scope
import NumScript.Store.Variable
import NumScript.Text.Alphanumeric
import NumScript.Text.Blank
import NumScript.Text.Bytes
import NumScript.Text.Invisible
import NumScript.Text.Mark
import NumScript.Text.Quoted
import NumScript.Text.Ranges
import NumScript.Proofs.Expr.Grammar
import NumScript.Proofs.Expr.Spelling
import NumScript.Proofs.Expr.Precedence
import NumScript.Proofs.Script.Readers
import NumScript.Proofs.Script.Outline
import NumScript.Proofs.Script.Dispatch
import NumScript.Proofs.Script.Validation
import NumScript.Proofs.Script.Terminators
import NumScript.Proofs.Script.Shape
import NumScript.Proofs.Script.Visited
import NumScript.Proofs.Script.Soundness
import NumScript.Proofs.Script.Nesting
import NumScript.Proofs.Store.Places
import NumScript.Proofs.Script.Moments
import NumScript.Proofs.Script.Changes
import NumScript.Proofs.Script.Growth
import NumScript.Proofs.Script.Guarded
import NumScript.Proofs.Script.Lines
import NumScript.Proofs.Script.Blocks
import NumScript.Proofs.Script.Performs
import NumScript.Proofs.Script.Structured
import NumScript.Proofs.Expr.Arity
import NumScript.Proofs.Expr.Spread
import NumScript.Proofs.Expr.Accepted
import NumScript.Proofs.Script.Lockstep
import NumScript.Proofs.Script.Verdict
import NumScript.Proofs.Script.Checker
import NumScript.Proofs.Script.Alike
import NumScript.Proofs.Script.Parameters
import NumScript.Proofs.Script.Twins
import NumScript.Proofs.Script.Origins
import NumScript.Proofs.Script.Rewriting
import NumScript.Proofs.Script.Minified
import NumScript.Proofs.Script.Comments
import NumScript.Proofs.Script.Anatomy
import NumScript.Proofs.Script.Visits
import NumScript.Proofs.Script.Requests
import NumScript.Proofs.Script.Depth
import NumScript.Proofs.Script.Sight
import NumScript.Proofs.Script.Likeness
import NumScript.Proofs.Script.Residue
import NumScript.Proofs.Store.Nearest
import NumScript.Proofs.Store.Rebinding
import NumScript.Proofs.Store.Moving
import NumScript.Proofs.Script.Rebound
import NumScript.Proofs.Script.Progress
import NumScript.Proofs.Script.Halting
import NumScript.Proofs.Store.Listings
import NumScript.Proofs.Diagnostic.LineTable
import NumScript.Proofs.Expr.Conservation
import NumScript.Proofs.Expr.Bracketing
import NumScript.Proofs.Script.Landing
import NumScript.Proofs.Script.Boundaries
import NumScript.Proofs.Script.Finishing
import NumScript.Proofs.Expr.Minified
import NumScript.Proofs.Script.Canonical
import NumScript.Proofs.Store.Assignment
import NumScript.Proofs.Script.Handlers
import NumScript.Proofs.Script.Exporting
import NumScript.Proofs.Expr.Folding
import NumScript.Proofs.Diagnostic.Saturation
import NumScript.Proofs.Text.Slices
import NumScript.Proofs.Expr.Bytewise
import NumScript.Proofs.Script.Matching
import NumScript.Proofs.Script.Delimiters
import NumScript.Proofs.Script.Bytewise
