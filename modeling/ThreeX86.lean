import ThreeX86.Boot.Block
import ThreeX86.Boot.Copy
import ThreeX86.Boot.Handover
import ThreeX86.Boot.Load
import ThreeX86.Boot.LoadFloppy
import ThreeX86.Boot.MemoryMap
import ThreeX86.Boot.Passes
import ThreeX86.Boot.Probe
import ThreeX86.Boot.Retry
import ThreeX86.Boot.Sectors
import ThreeX86.Boot.Started
import ThreeX86.Console.Controller
import ThreeX86.Console.Cursor
import ThreeX86.Console.Interrupts
import ThreeX86.Console.Scancodes
import ThreeX86.Console.Terminal
import ThreeX86.Console.Vga
import ThreeX86.Console.Write
import ThreeX86.Heap.Alloc
import ThreeX86.Heap.Blocks
import ThreeX86.Heap.Calloc
import ThreeX86.Heap.Clients
import ThreeX86.Heap.Extents
import ThreeX86.Heap.FreeList
import ThreeX86.Heap.Growth
import ThreeX86.Heap.Guarantees
import ThreeX86.Heap.Insert
import ThreeX86.Heap.Insertion
import ThreeX86.Heap.Miniheap
import ThreeX86.Heap.Pages
import ThreeX86.Heap.Realloc
import ThreeX86.Heap.Rounding
import ThreeX86.Heap.Runs
import ThreeX86.Heap.Trim
import ThreeX86.Heap.Watermark
import ThreeX86.Heap.Wrap
import ThreeX86.Hw.Irqs
import ThreeX86.Hw.Pic
import ThreeX86.Lists.Embedding
import ThreeX86.Lists.Refinement
import ThreeX86.Lists.Safe
import ThreeX86.Machine.Cpu
import ThreeX86.Machine.Descriptors
import ThreeX86.Machine.I8259
import ThreeX86.Machine.Processor
import ThreeX86.Machine.Ram
import ThreeX86.Machine.Run
import ThreeX86.Machine.Strings
import ThreeX86.Printf.Convert
import ThreeX86.Printf.Directive
import ThreeX86.Printf.Emission
import ThreeX86.Printf.Engine
import ThreeX86.Printf.Format
import ThreeX86.Printf.Inputs
import ThreeX86.Printf.Laws
import ThreeX86.Printf.Numerals
import ThreeX86.Printf.Precision
import ThreeX86.Printf.Sinks
import ThreeX86.Printf.Vprintf
import ThreeX86.Printf.Vsnprintf
import ThreeX86.Tasks.BootStack
import ThreeX86.Tasks.Creation
import ThreeX86.Tasks.Guarantees
import ThreeX86.Tasks.InMemory
import ThreeX86.Tasks.Kernel
import ThreeX86.Tasks.Operations
import ThreeX86.Tasks.Reschedule
import ThreeX86.Tasks.RoundRobin
import ThreeX86.Tasks.Running
import ThreeX86.Tasks.Scheduler
import ThreeX86.Tasks.Switch
import ThreeX86.Tasks.Task
import ThreeX86.X86.Exceptions
import ThreeX86.X86.Tables
