import RiscvKernel.HeapRuns
import RiscvKernel.SleepRuns
import RiscvKernel.Whereabouts
import RiscvKernel.Ownership
import RiscvKernel.Slices
import RiscvKernel.Input
import RiscvKernel.Exhaustion
import RiscvKernel.FreeChecks
import RiscvKernel.Cancel
import RiscvKernel.TimedClose
import RiscvKernel.Expiry
import RiscvKernel.TimedRuns
import RiscvKernel.Conservation
import RiscvKernel.Print
import RiscvKernel.Queues
import RiscvKernel.Registry
import RiscvKernel.Counts
import RiscvKernel.Getc
import RiscvKernel.OutOfMemory
import RiscvKernel.Shutdown
import RiscvKernel.BufferRuns
import RiscvKernel.Served
import RiscvKernel.Resumes
import RiscvKernel.Retries
import RiscvKernel.Latency
import RiscvKernel.Outcomes
import RiscvKernel.SpinLock
import RiscvKernel.Locks
import RiscvKernel.Dump
import RiscvKernel.Drain
import RiscvKernel.Printing
import RiscvKernel.Deadlock
import RiscvKernel.Refinement
