import EcmaScript.Character.Query
import EcmaScript.Grammar.ParameterRecord
import EcmaScript.Machine
import EcmaScript.Node.Store
import EcmaScript.Node.TypeName
import EcmaScript.Parser.Trace
import EcmaScript.Proofs.WellFormedness
import EcmaScript.Proofs.StatementRoundTrip
import EcmaScript.Proofs.LayoutInsensitivity
import EcmaScript.Proofs.LoopTargets
import EcmaScript.Proofs.ErrorLines
import EcmaScript.Proofs.Confinement
import EcmaScript.Proofs.Nesting
import EcmaScript.Proofs.ImportSwitch
import EcmaScript.Proofs.Properties
import EcmaScript.Proofs.Precedence
import EcmaScript.Proofs.IdentifierTest
import EcmaScript.Proofs.Obstacles
import EcmaScript.Proofs.Reinterpretation
