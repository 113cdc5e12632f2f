import Flipper.Effect.Program
import Flipper.Effect.Protocol
import Flipper.Binary.Memory
import Flipper.Binary.AddressSpace
import Flipper.Binary.CyclicCode
import Flipper.Assembly.Text
import Flipper.Assembly.X64
import Flipper.Assembly.Avr
import Flipper.Fmr.Error
import Flipper.Fmr.Packet
import Flipper.Fmr.Crc
import Flipper.Fmr.Interface
import Flipper.Fmr.Module
import Flipper.Fmr.Handlers
import Flipper.Fmr.Perform
import Flipper.Fmr.CallGate
import Flipper.Fmr.Registration
import Flipper.Fmr.OperandOrigin
import Flipper.Fmr.StateArray
import Flipper.Fmr.ArgumentOrigin
import Flipper.Fmr.ErrorSurfacing
import Flipper.Fmr.CorruptionRejected
import Flipper.Fmr.CrcRemainder
import Flipper.Fmr.PacketBounds
import Flipper.Fmr.Footprint
import Flipper.Host.Lookup
import Flipper.Host.LookupAgreement
import Flipper.Host.Invoke
import Flipper.Host.RpcRoundTrip
import Flipper.Host.Behaviour
import Flipper.Host.ErrorReporting
import Flipper.Host.InvokeOutcome
import Flipper.Host.EncoderAgreement
import Flipper.Host.EncodingBounds
import Flipper.Host.CallRoundTrip
import Flipper.Host.CallCoverage
import Flipper.Host.InferredArguments
import Flipper.Host.ModuleCache
import Flipper.Host.Devices
import Flipper.Net.Datagrams
import Flipper.Net.Pacing
import Flipper.Net.ReplyMatching
import Flipper.Fvm.Loop
import Flipper.Fvm.DatagramIsolation
import Flipper.Fvm.Clients
import Flipper.Fvm.DebugPacket
import Flipper.Posix.Transport
import Flipper.Posix.Enumeration
import Flipper.Atmega.Uart
import Flipper.Atmega.Led
import Flipper.Fdfu.Verify
import Flipper.Fdfu.SamTransfer
import Flipper.Fdfu.Xmodem
import Flipper.Fdebug.Output
import Flipper.Linked.Ring
import Flipper.Linked.Chain
import Flipper.Lib.LinkedList
import Flipper.Os.Scheduler
import Flipper.Os.Release
import Flipper.Os.RoundRobin
import Flipper.Os.Machine
import Flipper.Os.TaskRing
import Flipper.Os.ContextSwitch
import Flipper.Os.PauseHolds
import Flipper.Os.Selection
import Flipper.Os.Loader
import Flipper.Arch.X64
import Flipper.Arch.Avr
import Flipper.Assembly.Thumb
import Flipper.Atmega.Bulk
import Flipper.Atmega.Control
import Flipper.Atmega.DebugChannel
import Flipper.Atmega.Service
import Flipper.Effect.Traverse
import Flipper.Fdfu.Applet
import Flipper.Fdwarf.Linking
import Flipper.Posix.Addressing
import Flipper.Sam4s.Service
