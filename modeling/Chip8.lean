import Chip8.Alu
import Chip8.ByteStream
import Chip8.Code
import Chip8.Console
import Chip8.Dialect
import Chip8.Dump
import Chip8.Dump.MemoryLine
import Chip8.Fault
import Chip8.Font
import Chip8.Instruction
import Chip8.Instruction.Encoding
import Chip8.Keypad
import Chip8.Machine
import Chip8.Machine.Cycle
import Chip8.Machine.Execute
import Chip8.Memory
import Chip8.Numeral
import Chip8.Opcode
import Chip8.Outcome
import Chip8.Registers
import Chip8.Screen
import Chip8.Screen.Sprite
import Chip8.Timer
import Chip8.Proofs.Execution
import Chip8.Proofs.SameWay
import Chip8.Proofs.Failure
import Chip8.Proofs.CallStack
import Chip8.Proofs.Picture
import Chip8.Proofs.Bounds
import Chip8.Proofs.Guarded.Access
import Chip8.Proofs.Guarded.Sprite
import Chip8.Proofs.Guarded.Execute
import Chip8.Proofs.Guarded.Cycle
import Chip8.Proofs.InstructionSet
import Chip8.Proofs.Request
import Chip8.Proofs.CycleFault
import Chip8.Proofs.FontTable
import Chip8.Proofs.RandomBytes
import Chip8.Proofs.Reset
import Chip8.Proofs.FrameLaw
import Chip8.Proofs.ControlFlow
import Chip8.Proofs.Trace
import Chip8.Proofs.StraightLine
import Chip8.Proofs.Dump.Cells
import Chip8.Proofs.Dump.Memory
import Chip8.Proofs.Dump.Reading
import Chip8.Proofs.Dump.Tiling
import Chip8.Proofs.Dump.Section
import Chip8.Proofs.History
import Chip8.Proofs.Countdown
import Chip8.Proofs.Stutter
import Chip8.Proofs.Ticking
import Chip8.Proofs.Dialects
import Chip8.Proofs.SixteenKeys
import Chip8.Proofs.OutputOnly
import Chip8.Proofs.Pixelwise
import Chip8.Proofs.RegisterOperations
import Chip8.Proofs.Overpainting
import Chip8.Proofs.Torus
import Chip8.Proofs.KeyWait
import Chip8.Proofs.Loading
import Chip8.Proofs.CodeReading
import Chip8.Proofs.KeyHistory
import Chip8.Proofs.Messages
import Chip8.Proofs.Locality
import Chip8.Proofs.Transfer
import Chip8.Proofs.DecimalDigits
import Chip8.Proofs.BlockTransfer
import Chip8.Proofs.Dump.Section
