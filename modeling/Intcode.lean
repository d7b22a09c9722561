import Intcode.Main
import Intcode.Proofs.Circuit.Composition
import Intcode.Proofs.Circuit.Feedback
import Intcode.Proofs.Grammar.Parsing
import Intcode.Proofs.Ideal.Refinement
import Intcode.Proofs.Network
import Intcode.Proofs.History
import Intcode.Proofs.History.Conservation
import Intcode.Proofs.History.Extent
import Intcode.Proofs.Likeness
import Intcode.Proofs.Circuit.Likeness
import Intcode.Proofs.Grammar.Printing
import Intcode.Proofs.Renewal
import Intcode.Proofs.Sources
import Intcode.Proofs.Command.Run
import Intcode.Proofs.Terminal
import Intcode.Proofs.Command.Interactive
import Intcode.Proofs.Circuit.Ending
import Intcode.Proofs.PhaseSearch
import Intcode.Proofs.History.Progress
import Intcode.Proofs.Ideal.Agreement
import Intcode.Proofs.Memory
import Intcode.Proofs.Diagnosis
import Intcode.Proofs.Ideal.Encoding
import Intcode.Proofs.Command.Journal
