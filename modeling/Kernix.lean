import Kernix.Library.Memory
import Kernix.Library.Bits
import Kernix.Library.Tiling
import Kernix.Library.Runs
import Kernix.Memory.Paging
import Kernix.Memory.Heap
import Kernix.Memory.BlockList
import Kernix.Memory.Client
import Kernix.Memory.Growth
import Kernix.Proofs.Align
import Kernix.Proofs.Headers
import Kernix.Proofs.Linked
import Kernix.Proofs.Edits
import Kernix.Proofs.Represents
import Kernix.Proofs.Kmalloc
import Kernix.Proofs.Kfree
import Kernix.Proofs.Payloads
import Kernix.Proofs.Merged
import Kernix.Proofs.Krealloc
import Kernix.Proofs.Served
import Kernix.Proofs.Contents
import Kernix.Proofs.ClientSteps
import Kernix.Proofs.HeapRuns
import Kernix.Proofs.HeapGuarantees
import Kernix.Proofs.Lists
import Kernix.Proofs.Coalescing
import Kernix.Proofs.FirstFit
import Kernix.Proofs.ReallocMerged
import Kernix.Proofs.FreeOrder
import Kernix.Proofs.HeapStatistics
import Kernix.Proofs.FailedRequests
import Kernix.Proofs.InvalidPointers
import Kernix.Proofs.PageTables
import Kernix.Proofs.MapPage
import Kernix.Proofs.FlatMap
import Kernix.Proofs.Growth
import Kernix.Proofs.GrowthFits
import Kernix.Proofs.HeapMapping
import Kernix.Proofs.IdentityMap
import Kernix.Proofs.PoolExhaustion
import Kernix.Proofs.PageRights
import Kernix.Library.Stack
import Kernix.Interrupts.Cpu
import Kernix.Interrupts.Stubs
import Kernix.Syscalls.Dispatch
import Kernix.Proofs.Frames
import Kernix.Proofs.Syscalls
import Kernix.Library.Circular
import Kernix.Library.Loops
import Kernix.Library.Page
import Kernix.Library.Layout
import Kernix.Keyboard.Scancodes
import Kernix.Keyboard.ShiftKeys
import Kernix.Proofs.KeyQueue
import Kernix.Proofs.ShiftState
import Kernix.Screen.VgaBuffer
import Kernix.Proofs.Screen
import Kernix.Proofs.TextLayout
import Kernix.Screen.CursorBlink
import Kernix.Proofs.CursorBlink
import Kernix.Shell.ShellLoop
import Kernix.Shell.Console
import Kernix.Proofs.ShellLine
import Kernix.Proofs.ShellLoops
import Kernix.Library.Lexicographic
import Kernix.Strings.Compare
import Kernix.Proofs.Comparison
import Kernix.Library.Scan
import Kernix.Library.Text
import Kernix.Calc.Parse
import Kernix.Calc.Calculator
import Kernix.Calc.Grammar
import Kernix.Library.While
import Kernix.Library.Bisection
import Kernix.Calc.Arithmetic
import Kernix.Calc.Powers
import Kernix.Calc.Trigonometry
import Kernix.Calc.FixedPoint
import Kernix.Proofs.Grammar
import Kernix.Proofs.ParsedValues
import Kernix.Proofs.PrintedResults
import Kernix.Proofs.Division
import Kernix.Proofs.CheckedProducts
import Kernix.Proofs.Tetration
import Kernix.Proofs.UnsignedNumerals
import Kernix.Proofs.PrintedNumerals
import Kernix.Proofs.ScaledResults
import Kernix.Proofs.Powers
import Kernix.Proofs.RootSearch
import Kernix.Proofs.Roots
import Kernix.Proofs.Logarithms
import Kernix.Library.Signed
import Kernix.Proofs.Magnitudes
import Kernix.Proofs.SineRange
import Kernix.Proofs.Arctangent
import Kernix.Shell.Commands
import Kernix.Proofs.ShellCommands
import Kernix.Tasking.Tasks
import Kernix.Tasking.Ticks
import Kernix.Tasking.Stacks
import Kernix.Tasking.RoundRobin
import Kernix.Proofs.TaskStacks
import Kernix.Proofs.TaskSwitching
import Kernix.Proofs.ContextSwitches
import Kernix.Proofs.StackBounds
import Kernix.Proofs.TaskTurns
import Kernix.Library.LineEditor
import Kernix.Shell.Terminal
import Kernix.Proofs.LineDiscipline
import Kernix.Keyboard.Typing
import Kernix.Shell.Machine
import Kernix.Proofs.TypedLines
import Kernix.Calc.Requests
import Kernix.Proofs.CalculatorRequests
import Kernix.Proofs.TypedSums
import Kernix.Library.Segmentation
import Kernix.Gdt.Gdt
import Kernix.Gdt.Rings
import Kernix.Interrupts.Idt
import Kernix.Boot.Ring3
import Kernix.Proofs.Descriptors
import Kernix.Proofs.Segments
import Kernix.Proofs.Rings
import Kernix.Proofs.Ring3
import Kernix.Library.Devices
import Kernix.Interrupts.Controllers
import Kernix.Interrupts.Board
import Kernix.Proofs.Controllers
import Kernix.Proofs.Delivery
import Kernix.Proofs.DeliveredKeys
import Kernix.Proofs.PendingRequests
import Kernix.Proofs.KeyboardLine
import Kernix.Screen.HardwareCursor
import Kernix.Proofs.HardwareCursor
import Kernix.Calc.Sequences
import Kernix.Proofs.Sequences
import Kernix.Library.Taylor
import Kernix.Calc.Tangents
import Kernix.Proofs.SineAccuracy
import Kernix.Proofs.Tangents
