import Mcsos.Block.Model
import Mcsos.Block.Refinement
import Mcsos.Boot.Kmain
import Mcsos.Boot.Reached
import Mcsos.Elf.Bounds
import Mcsos.Elf.Grammar
import Mcsos.Elf.Model
import Mcsos.Elf.Outcome
import Mcsos.Elf.Segments
import Mcsos.Irq.Answers
import Mcsos.Irq.Delivery
import Mcsos.Irq.Model
import Mcsos.Irq.Output
import Mcsos.Irq.Pic
import Mcsos.Irq.Pit
import Mcsos.Irq.Service
import Mcsos.Journal.Applied
import Mcsos.Journal.Bounds
import Mcsos.Journal.Interruption
import Mcsos.Journal.Invariant
import Mcsos.Journal.Isolation
import Mcsos.Journal.Model
import Mcsos.Journal.Records
import Mcsos.Journal.Recovery
import Mcsos.Journal.Replay
import Mcsos.Kmem.Alignment
import Mcsos.Kmem.Blocks
import Mcsos.Kmem.FirstFit
import Mcsos.Kmem.Fragmentation
import Mcsos.Kmem.Model
import Mcsos.Kmem.Recovery
import Mcsos.Kmem.Segments
import Mcsos.Kmem.Separation
import Mcsos.Kmem.SmallBuffer
import Mcsos.Kmem.Turns
import Mcsos.Kmem.Walk
import Mcsos.Log.Calls
import Mcsos.Log.Decimal
import Mcsos.Log.Hex
import Mcsos.Log.Model
import Mcsos.Log.Text
import Mcsos.Machine.BitArray
import Mcsos.Machine.Bytes
import Mcsos.Machine.CString
import Mcsos.Machine.Copy
import Mcsos.Machine.DigitField
import Mcsos.Machine.Interleaving
import Mcsos.Machine.Numeral
import Mcsos.Machine.Part
import Mcsos.Machine.Port
import Mcsos.Machine.Run
import Mcsos.Machine.Schedule
import Mcsos.Machine.Section
import Mcsos.Machine.SlotTable
import Mcsos.Machine.Slots
import Mcsos.Machine.Stack
import Mcsos.Machine.Tiling
import Mcsos.Machine.Trace
import Mcsos.Machine.Word
import Mcsos.Mcsfs.Bounds
import Mcsos.Mcsfs.Capacity
import Mcsos.Mcsfs.Files
import Mcsos.Mcsfs.Fill
import Mcsos.Mcsfs.HighWater
import Mcsos.Mcsfs.Isolation
import Mcsos.Mcsfs.Model
import Mcsos.Mcsfs.NameField
import Mcsos.Mcsfs.Names
import Mcsos.Mcsfs1.Agreement
import Mcsos.Mcsfs1.Files
import Mcsos.Mcsfs1.Model
import Mcsos.Mcsfs1.Names
import Mcsos.Mcsfs1.Refinement
import Mcsos.Memory.Model
import Mcsos.Memory.Move
import Mcsos.Pmm.Balance
import Mcsos.Pmm.Boot
import Mcsos.Pmm.Counters
import Mcsos.Pmm.Drain
import Mcsos.Pmm.Model
import Mcsos.Pmm.Operations
import Mcsos.Pmm.Ownership
import Mcsos.Pmm.Reservation
import Mcsos.Pmm.Storage
import Mcsos.Pmm.Taken
import Mcsos.Pmm.UsableMap
import Mcsos.Serial.Model
import Mcsos.Serial.Preempted
import Mcsos.Serial.Wire
import Mcsos.Strings.Equality
import Mcsos.Strings.Model
import Mcsos.Sync.Counter
import Mcsos.Sync.Exclusion
import Mcsos.Sync.Lockdep
import Mcsos.Sync.Model
import Mcsos.Sync.Progress
import Mcsos.Thread.Boot
import Mcsos.Thread.Fairness
import Mcsos.Thread.Model
import Mcsos.Thread.Nesting
import Mcsos.Trap.Gates
import Mcsos.Trap.Model
import Mcsos.Trap.Syscall
import Mcsos.Trap.Transparency
import Mcsos.Vfs.Descriptors
import Mcsos.Vfs.Effects
import Mcsos.Vfs.Failures
import Mcsos.Vfs.Layout
import Mcsos.Vfs.Model
import Mcsos.Vfs.Modes
import Mcsos.Vfs.NameField
import Mcsos.Vfs.Names
import Mcsos.Vfs.Nodes
import Mcsos.Vfs.Operations
import Mcsos.Vfs.Refinement
import Mcsos.Vfs.Seeding
import Mcsos.Vfs.Seek
import Mcsos.Vfs.Store
import Mcsos.Vfs.WriteBounds
import Mcsos.Vmm.Model
import Mcsos.Vmm.Refinement
import Mcsos.Vmm.Spaces
import Mcsos.Vmm.Table
import Mcsos.Vmm.WellFormed
