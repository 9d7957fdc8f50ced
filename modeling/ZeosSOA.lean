import ZeosSOA.Intrusive
import ZeosSOA.ListC
import ZeosSOA.Runs
import ZeosSOA.Turns
import ZeosSOA.Mm
import ZeosSOA.FrameSet
import ZeosSOA.DoDiv
import ZeosSOA.Itoa
import ZeosSOA.Sysenter.Partition
import ZeosSOA.Sysenter.RoundRobin
import ZeosSOA.Sysenter.Tokens
import ZeosSOA.Sysenter.Private
import ZeosSOA.Sysenter.Accounting
import ZeosSOA.Sysenter.Isolation
import ZeosSOA.Sysenter.Directories
import ZeosSOA.Sysenter.ForkCopy
import ZeosSOA.Sysenter.ExitRelease
import ZeosSOA.Sysenter.Grants
import ZeosSOA.Sysenter.HeapRuns
import ZeosSOA.Sysenter.ThreadRuns
import ZeosSOA.Sysenter.ForkFailed
import ZeosSOA.Sysenter.Write
import ZeosSOA.Sysenter.Buffers
import ZeosSOA.Sysenter.SpritePut
import ZeosSOA.Sysenter.Lookup
import ZeosSOA.Sysenter.Destroy
import ZeosSOA.Sysenter.Validate
import ZeosSOA.Sysenter.BlockedTime
import ZeosSOA.X86
import ZeosSOA.X86System
import ZeosSOA.SystemCall
import ZeosSOA.Gate
import ZeosSOA.Sysenter.Entry
import ZeosSOA.Sysenter.Stacks
import ZeosSOA.Copies
import ZeosSOA.Sysenter.ForkContext
import ZeosSOA.Sysenter.ThreadContext
import ZeosSOA.Sysenter.Switches
import ZeosSOA.Sysenter.Ticks
import ZeosSOA.Sysenter.SemRep
import ZeosSOA.Pparri.Exhaustion
import ZeosSOA.Pparri.Entry
import ZeosSOA.Dispatch
import ZeosSOA.Pparri.Orphans
import ZeosSOA.Pparri.Write
import ZeosSOA.Pparri.Wakeups
import ZeosSOA.Protection
import ZeosSOA.Sysenter.UserUtils
import ZeosSOA.Pparri.Wrappers
import ZeosSOA.Interrupt
import ZeosSOA.Spaces
import ZeosSOA.Sysenter.Contents
import ZeosSOA.Potential
import ZeosSOA.Sysenter.Waiting
import ZeosSOA.Boot.Build
import ZeosSOA.Boot.Load
import ZeosSOA.Sysenter.Starvation
import ZeosSOA.Sysenter.Display
import ZeosSOA.Paging
import ZeosSOA.MmC
import ZeosSOA.MmMirror
import ZeosSOA.MmRuns
import ZeosSOA.Sysenter.Hardware
