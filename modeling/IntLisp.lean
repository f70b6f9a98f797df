import IntLisp.Main
import IntLisp.Node.Forest
import IntLisp.Session
import IntLisp.Proofs.Access
import IntLisp.Proofs.Coupling
import IntLisp.Proofs.Stack
import IntLisp.Proofs.Restoration
import IntLisp.Proofs.Termination
import IntLisp.Proofs.Sums
import IntLisp.Proofs.Calls
import IntLisp.Proofs.Encoding
import IntLisp.Proofs.Lexeme
import IntLisp.Proofs.Tiling
import IntLisp.Proofs.Reading
import IntLisp.Proofs.Statements
import IntLisp.Proofs.Numeral
import IntLisp.Proofs.Canonical
import IntLisp.Proofs.Acceptance
import IntLisp.Proofs.Limit
import IntLisp.Proofs.Promise
import IntLisp.Proofs.Scoping
import IntLisp.Proofs.Cutting
import IntLisp.Proofs.Words
import IntLisp.Proofs.Composition
import IntLisp.Proofs.Tracing
import IntLisp.Proofs.Coverage
import IntLisp.Proofs.Recovery
import IntLisp.Proofs.FirstFailure
import IntLisp.Proofs.Naming
import IntLisp.Proofs.Moment
import IntLisp.Proofs.Blame
import IntLisp.Proofs.Completion
import IntLisp.Proofs.Prompt
import IntLisp.Proofs.Places
import IntLisp.Proofs.Meaning
import IntLisp.Proofs.Relocation
import IntLisp.Proofs.Complaints
import IntLisp.Proofs.Whereabouts
import IntLisp.Proofs.Chronicle
import IntLisp.Proofs.Safety
import IntLisp.Proofs.Registrations
import IntLisp.Proofs.Account
import IntLisp.Proofs.Lines
import IntLisp.Proofs.Conversation
import IntLisp.Proofs.Bindings
import IntLisp.Proofs.Application
import IntLisp.Proofs.Overflow
import IntLisp.Proofs.Definitions
import IntLisp.Proofs.Decomposition
import IntLisp.Proofs.Idempotence
import IntLisp.Proofs.MaximalMunch
import IntLisp.Proofs.Arithmetic
import IntLisp.Proofs.Interruption
import IntLisp.Proofs.Indentation
import IntLisp.Proofs.Brackets
import IntLisp.Proofs.Nesting
import IntLisp.Proofs.Integers
import IntLisp.Proofs.Visibility
