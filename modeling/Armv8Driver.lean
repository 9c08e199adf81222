import Armv8Driver.CompletionDemo.Model
import Armv8Driver.CompletionDemo.Readiness
import Armv8Driver.CompletionDemo.Unload
import Armv8Driver.CharDriver.Model
import Armv8Driver.CharDriver.Bounds
import Armv8Driver.CharDriver.Seek
import Armv8Driver.CharDriver.FlatFile
import Armv8Driver.CharDriver.Partial
import Armv8Driver.Kernel.Format
import Armv8Driver.Kernel.Scan
import Armv8Driver.AdvanceDriver.Model
import Armv8Driver.AdvanceDriver.Unwind
import Armv8Driver.AdvanceDriver.Names
import Armv8Driver.SemDemo.Fifo
import Armv8Driver.SemDemo.Unload
import Armv8Driver.SemDemo.Statistics
import Armv8Driver.Arm.Machine
import Armv8Driver.Arm.Translation
import Armv8Driver.Arm.Frame
import Armv8Driver.Arm.Code
import Armv8Driver.Abort.Context
import Armv8Driver.Boot.Context
import Armv8Driver.VectorTable.Resume
import Armv8Driver.GicInterrupt.Context
import Armv8Driver.GicInterrupt.Transparency
import Armv8Driver.Transition.Log
import Armv8Driver.IrqDemo.History
import Armv8Driver.IrqDemo.Leftover
import Armv8Driver.IrqDemo.Wakeup
import Armv8Driver.IrqDemo.Stale
import Armv8Driver.IrqDemo.Pairing
import Armv8Driver.ProcRead.Buffer
import Armv8Driver.ProcRead.Text
import Armv8Driver.ProcRead.Tokens
import Armv8Driver.KernelMmu.Coverage
import Armv8Driver.KernelMmu.Identity
import Armv8Driver.KernelMmu.Loop
import Armv8Driver.KernelMmu.Garbage
import Armv8Driver.Uart.Model
import Armv8Driver.Uart.Stranded
import Armv8Driver.Uart.Interrupt
import Armv8Driver.Uart.Quenched
import Armv8Driver.Uart.Echo
import Armv8Driver.KernelMmu.History
import Armv8Driver.MutexDriver.Model
import Armv8Driver.MutexDriver.Counting
import Armv8Driver.Kernel.Pointer
import Armv8Driver.Kernel.Kthread
import Armv8Driver.Kernel.Resource
import Armv8Driver.ThreadBooks.Creation
import Armv8Driver.PlatformDriver.Probe
import Armv8Driver.Gic.Machine
import Armv8Driver.Gic.Ticks
import Armv8Driver.Gic.EndOfInterrupt
import Armv8Driver.VmallocBasic.Model
import Armv8Driver.VmallocBasic.Contiguity
import Armv8Driver.MutexUserSpace.Model
import Armv8Driver.MutexUserSpace.Locked
import Armv8Driver.MutexUserSpace.Race
import Armv8Driver.MutexUserSpace.LostUpdates
import Armv8Driver.Console.Model
import Armv8Driver.Console.Output
import Armv8Driver.Console.Room
import Armv8Driver.Arm.Bank
import Armv8Driver.GicSetup.Registers
import Armv8Driver.GicSetup.Setup
import Armv8Driver.Arm.AddressSpace
import Armv8Driver.KernelMmu.Refinement
import Armv8Driver.KernelMmu.BringUp
import Armv8Driver.MutexDriver.Unload
import Armv8Driver.Kernel.LoadCycle
import Armv8Driver.LoadCycle.Drivers
import Armv8Driver.IrqDemo.RealIrq
import Armv8Driver.SemDemo.Quiescence
import Armv8Driver.CompletionDemo.Signals
import Armv8Driver.Transition.Independent
import Armv8Driver.CharDriver.Concurrent
import Armv8Driver.Gic.Drift
import Armv8Driver.Arm.Program
import Armv8Driver.Abort.Retry
import Armv8Driver.GicInterrupt.Invisible
