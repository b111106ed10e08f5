import Croc.Lib.Clocked
import Croc.Lib.Queue
import Croc.Lib.Bits
import Croc.Lib.ObiPort
import Croc.Lib.Window
import Croc.Lib.Lanes
import Croc.Lib.Zip
import Croc.Lib.Groups
import Croc.Cells
import Croc.Cells.Streams
import Croc.Cheriot.Capability
import Croc.Cheriot.Bounds
import Croc.Revocation.BitmapMemory
import Croc.Revocation.Trvk
import Croc.Revocation.Lookup
import Croc.Revocation.Bridge
import Croc.Revocation.Exactness
import Croc.Lib.StoreProg
import Croc.Revocation.Painting
import Croc.Cheriot.SetBounds
import Croc.Cheriot.Ex
import Croc.Cheriot.Permissions
import Croc.Cheriot.Derivation
import Croc.Cheriot.DeepPermissions
import Croc.Cheriot.Core
import Croc.Cheriot.Provenance
import Croc.Cheriot.Coherence
import Croc.Cheriot.Narrowing
import Croc.Cheriot.AccessChecks
import Croc.Cheriot.Sealing
import Croc.Idma.ConfigPort
import Croc.Idma.PartialWrites
import Croc.Idma.Midend
import Croc.Idma.Identifiers
import Croc.Idma.Legalizer
import Croc.Idma.Backend
import Croc.Idma.Dealing
import Croc.Idma.Flow
import Croc.Idma.Copy
import Croc.Idma.Completion
import Croc.Idma.Memory
import Croc.Idma.Jobs
import Croc.Idma.Dma
import Croc.Lib.Rv32
import Croc.Bootrom.Rom
import Croc.Bootrom.TrapWrapper
import Croc.Ibex.Interrupts
import Croc.Lsu.LoadStoreUnit
import Croc.Lsu.Issue
import Croc.Lsu.Protocol
import Croc.Lsu.CapAccess
import Croc.Lsu.StackMark
import Croc.Lib.ByteMemory
import Croc.Lsu.ByteLanes
import Croc.Lsu.WordMemory
import Croc.Lsu.ByteAccess
import Croc.SocCtrl.Registers
import Croc.ObiTimer.Timer
import Croc.Obi.ObiToReg
import Croc.Gpio.Registers
import Croc.Gpio.Interrupts
import Croc.Lib.Routine
import Croc.Lib.Interruptible
import Croc.Lib.SplitCounter
import Croc.Clint.Registers
import Croc.Clint.Time
import Croc.Lib.WordOps
import Croc.Rtos.TickConversion
import Croc.Software.Printf
import Croc.Software.SleepTicks
import Croc.Sram.Bank
import Croc.Sram.Macros
import Croc.Sram.DataPath
import Croc.Sram.Transfer
import Croc.Sram.StoreTag
import Croc.Sram.RoundTrip
import Croc.Sram.TagIntegrity
import Croc.Lib.SimplePath
import Croc.Lib.ListLoop
import Croc.Scripts.LongestPath
import Croc.Scripts.Frames
import Croc.Scripts.TrustedStack
import Croc.Cells.Rings
