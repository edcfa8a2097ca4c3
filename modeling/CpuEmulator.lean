import CpuEmulator.Userspace.ProgramRefinement
import CpuEmulator.Userspace.Records
import CpuEmulator.Userspace.Confinement
import CpuEmulator.Userspace.DataMemory
import CpuEmulator.Userspace.Completion
import CpuEmulator.Userspace.InputRead
import CpuEmulator.Driver.Calls
import CpuEmulator.Driver.Messages
import CpuEmulator.Driver.Retrying
import CpuEmulator.Driver.Stepping
import CpuEmulator.Driver.Sharing
import CpuEmulator.Driver.ModuleInit
import CpuEmulator.TraceCollector.Delivery
import CpuEmulator.Library.Lru
import CpuEmulator.Cache.FullyAssociative
import CpuEmulator.Cache.Accounting
import CpuEmulator.Cache.Compulsory
import CpuEmulator.Cache.LoadTraces
import CpuEmulator.Cache.Inclusion
import CpuEmulator.Cache.DirectMapped
import CpuEmulator.Assembler.Branches
import CpuEmulator.Assembler.LabelTable
import CpuEmulator.Assembler.DirectOperands
import CpuEmulator.Assembler.Comments
import CpuEmulator.Assembler.Indentation
import CpuEmulator.Assembler.Bounds
import CpuEmulator.Assembler.Expressible
import CpuEmulator.Language.Pipeline
import CpuEmulator.Language.Display
import CpuEmulator.Language.Termination
import CpuEmulator.Language.Completeness
import CpuEmulator.Cache.TypedAnswers
import CpuEmulator.Cache.ReuseDistance
import CpuEmulator.Cache.Deeper
import CpuEmulator.TraceCollector.Lifetime
import CpuEmulator.TraceCollector.Locking
import CpuEmulator.Driver.Passing
