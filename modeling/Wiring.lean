import Wiring.Json.Reader
import Wiring.Main
import Wiring.Name.Memo
import Wiring.Value.Equality
import Wiring.Proofs.Path.Entrywise
import Wiring.Proofs.Path.Growth
import Wiring.Proofs.Path.Commutation
import Wiring.Proofs.Path.Repetition
import Wiring.Proofs.Runtime.Resolution
import Wiring.Proofs.Runtime.Sharing
import Wiring.Proofs.Runtime.Filing
import Wiring.Proofs.Runtime.Nesting
import Wiring.Proofs.Name.RoundTrip
import Wiring.Proofs.Runtime.Engine
import Wiring.Proofs.Runtime.Calls
import Wiring.Proofs.Runtime.Commands
import Wiring.Proofs.Template.Rendering
import Wiring.Proofs.Path.Dotted
import Wiring.Proofs.Path.Written
import Wiring.Proofs.Path.Composition
import Wiring.Proofs.Name.Separators
import Wiring.Proofs.Context.Storing
import Wiring.Proofs.Template.Malformed
import Wiring.Proofs.Value.Equality
import Wiring.Proofs.Json.Words
import Wiring.Proofs.Json.RoundTrip
import Wiring.Proofs.Cli.Maintenance
import Wiring.Proofs.Cli.Tokens
import Wiring.Proofs.Runtime.Reporting
import Wiring.Proofs.Line.Joining
import Wiring.Proofs.Value.Display
import Wiring.Proofs.Path.Equality
import Wiring.Proofs.Name.Memo
import Wiring.Proofs.Template.Scanner
