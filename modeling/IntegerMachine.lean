import IntegerMachine.Chain.Best
import IntegerMachine.Main
import IntegerMachine.Network.Round
import IntegerMachine.Proofs.Assembly.Bookkeeping
import IntegerMachine.Proofs.Assembly.Coverage
import IntegerMachine.Proofs.Assembly.Encoding
import IntegerMachine.Proofs.Assembly.Layout
import IntegerMachine.Proofs.Assembly.Reading
import IntegerMachine.Proofs.Assembly.Relocation
import IntegerMachine.Proofs.Assembly.Rendering
import IntegerMachine.Proofs.Assembly.Scanning
import IntegerMachine.Proofs.Assembly.Written
import IntegerMachine.Proofs.Chain.Arrangement
import IntegerMachine.Proofs.Chain.Best
import IntegerMachine.Proofs.Chain.Dataflow
import IntegerMachine.Proofs.Chain.SingleShot
import IntegerMachine.Proofs.Command.ProgramFiles
import IntegerMachine.Proofs.Console.Conversation
import IntegerMachine.Proofs.Console.Echo
import IntegerMachine.Proofs.Console.Feeding
import IntegerMachine.Proofs.Console.Unprinted
import IntegerMachine.Proofs.Files.Writing
import IntegerMachine.Proofs.Machine.Calls
import IntegerMachine.Proofs.Machine.Cells
import IntegerMachine.Proofs.Machine.Consumption
import IntegerMachine.Proofs.Machine.Covering
import IntegerMachine.Proofs.Machine.Effect
import IntegerMachine.Proofs.Machine.Emission
import IntegerMachine.Proofs.Machine.Failing
import IntegerMachine.Proofs.Machine.Faults
import IntegerMachine.Proofs.Machine.Frame
import IntegerMachine.Proofs.Machine.Halting
import IntegerMachine.Proofs.Machine.InstructionTable
import IntegerMachine.Proofs.Machine.Production
import IntegerMachine.Proofs.Machine.Rest
import IntegerMachine.Proofs.Machine.Resumption
import IntegerMachine.Proofs.Machine.Standing
import IntegerMachine.Proofs.Machine.Stepping
import IntegerMachine.Proofs.Machine.Transcript
import IntegerMachine.Proofs.Machine.Waiting
import IntegerMachine.Proofs.Machine.Writes
import IntegerMachine.Proofs.Network.Calls
import IntegerMachine.Proofs.Network.Delivery
import IntegerMachine.Proofs.Network.History
import IntegerMachine.Proofs.Network.Polling
import IntegerMachine.Proofs.Network.Repetition
import IntegerMachine.Proofs.Network.Rounds
import IntegerMachine.Proofs.Network.Routing
import IntegerMachine.Proofs.Network.Silence
import IntegerMachine.Proofs.Network.Waking
import IntegerMachine.Proofs.Program.Decoding
import IntegerMachine.Proofs.Program.Dump
import IntegerMachine.Proofs.Program.Grammar
import IntegerMachine.Proofs.Program.Listing
import IntegerMachine.Proofs.Program.Meaning
import IntegerMachine.Proofs.Program.Reassembly
import IntegerMachine.Proofs.Text.Blank
import IntegerMachine.Proofs.Text.Escape
import IntegerMachine.Proofs.Text.Tabs
import IntegerMachine.Proofs.Word
