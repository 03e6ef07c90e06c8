import NumNum.Recorder
import NumNum.Digit.Encoder
import NumNum.Main
import NumNum.Proofs.Structure.Jumps
import NumNum.Proofs.Machine.Meaning
import NumNum.Proofs.Digit.RoundTrip
import NumNum.Proofs.Structure.Refusal
import NumNum.Proofs.Lua.Preservation
import NumNum.Proofs.Digit.Cut
import NumNum.Proofs.Machine.Frame
import NumNum.Proofs.Structure.OpenBlocks
import NumNum.Proofs.Structure.Acceptance
import NumNum.Proofs.Machine.Deliveries
import NumNum.Proofs.Cli.Files
import NumNum.Proofs.Structure.Leftover
import NumNum.Proofs.Digit.Canonical
import NumNum.Proofs.Machine.Faults
import NumNum.Proofs.Text.Characters
import NumNum.Proofs.Structure.Requests
import NumNum.Proofs.Channel.Capacity
import NumNum.Proofs.Machine.Echo
import NumNum.Proofs.Machine.Numbers
import NumNum.Proofs.Lua.Reading
import NumNum.Proofs.Digit.Calls
import NumNum.Proofs.Machine.Positions
import NumNum.Proofs.Machine.Flushes
import NumNum.Proofs.Structure.Bounds
import NumNum.Proofs.Digit.States
