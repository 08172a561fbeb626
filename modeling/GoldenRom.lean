import GoldenRom.Check.Script
import GoldenRom.Main
import GoldenRom.Proofs.Access
import GoldenRom.Proofs.Effects
import GoldenRom.Proofs.Encoding
import GoldenRom.Proofs.Runs
import GoldenRom.Proofs.Calls
import GoldenRom.Proofs.Protection
import GoldenRom.Proofs.Faults
import GoldenRom.Proofs.Verdicts
import GoldenRom.Proofs.Halting
import GoldenRom.Proofs.Timeouts
import GoldenRom.Proofs.Reading
import GoldenRom.Proofs.Dumps
import GoldenRom.Proofs.Outputs
import GoldenRom.Proofs.Draws
import GoldenRom.Proofs.Agreement
import GoldenRom.Proofs.Rebasing
import GoldenRom.Proofs.ExitCodes
import GoldenRom.Proofs.Budgets
import GoldenRom.Proofs.InstructionTable
import GoldenRom.Proofs.Reports
import GoldenRom.Proofs.Tallies
import GoldenRom.Proofs.Blocks
import GoldenRom.Proofs.Reloads
import GoldenRom.Proofs.Memory
import GoldenRom.Proofs.Listings
import GoldenRom.Proofs.Queues
import GoldenRom.Proofs.Interchange
import GoldenRom.Proofs.Exchanges
import GoldenRom.Proofs.SearchOrder
import GoldenRom.Proofs.Expansions
import GoldenRom.Proofs.ControlFlow
import GoldenRom.Proofs.Siblings
