import Sm83.Command
import Sm83.Disassembly
import Sm83.Main
import Sm83.Proofs.Fetch
import Sm83.Proofs.Dispatch
import Sm83.Proofs.Frame
import Sm83.Proofs.Reachable
import Sm83.Proofs.Listing
import Sm83.Proofs.Ticks
import Sm83.Proofs.Control
import Sm83.Proofs.Simulation
import Sm83.Proofs.Journal
import Sm83.Proofs.LockUp
import Sm83.Proofs.Waiting
import Sm83.Proofs.Reset
import Sm83.Proofs.Buses
import Sm83.Proofs.Traffic
import Sm83.Proofs.Events
import Sm83.Proofs.FlagRules
import Sm83.Proofs.FlagInfluence
import Sm83.Proofs.Messages
import Sm83.Proofs.ImageRun
import Sm83.Proofs.Decimal
import Sm83.Proofs.LongArithmetic
import Sm83.Proofs.Bits
import Sm83.Proofs.LongRotation
import Sm83.Proofs.StraightLine
import Sm83.Proofs.ByteArithmetic
import Sm83.Proofs.BitFields
import Sm83.Proofs.MemoryStep
import Sm83.Proofs.Loads
import Sm83.Proofs.WordArithmetic
import Sm83.Proofs.Transfers
import Sm83.Proofs.Stack
import Sm83.Proofs.InstructionSteps
import Sm83.Proofs.Numerals
import Sm83.Proofs.OptionGroups
import Sm83.Proofs.Counting
import Sm83.Proofs.PrefixCode
import Sm83.Proofs.Placement
import Sm83.Proofs.Rendering
import Sm83.Proofs.RegisterCells
import Sm83.Proofs.Leftovers
import Sm83.Proofs.WordMemory
import Sm83.Proofs.Addresses
