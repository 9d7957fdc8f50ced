import ZeosSOA.Int32
import ZeosSOA.ListC
import ZeosSOA.Mm

/-!
# ZeOSSysenter: the kernel's data

`sched.h`, `stats.h` and the globals of the kernel as one state. The `list` anchors of
the tasks and the heads of the queues live in `links`. `get_ticks` reads an arbitrary
stream of counter values.
-/

namespace ZeosSOA.Sysenter

open Intrusive

abbrev numSem : Nat := 10
abbrev lUserStart : Nat := 0x100000
abbrev userFirstPage : Nat := lUserStart >>> 12
abbrev pagLogInitCode : Nat := lUserStart >>> 12
abbrev pagLogInitData : Nat := pagLogInitCode + numPagCode
abbrev dataStart : Nat := lUserStart + numPagCode * pageSize
abbrev dataEnd : Nat := dataStart + numPagData * pageSize
abbrev initHeap : Nat := dataEnd + numPagData * pageSize
abbrev kernelStackSize : Nat := 1024
abbrev defaultQuantum : Int := 10

abbrev EAGAIN : Int := 11
abbrev ENOMEM : Int := 12
abbrev EFAULT : Int := 14

@[simp] theorem pagLogInitCode_eq : pagLogInitCode = 256 := rfl

@[simp] theorem pagLogInitData_eq : pagLogInitData = 264 := rfl

abbrev TaskId : Type := Fin nrTasks

/-- The arrays of semaphores there are: `semafor_proces` is the only one. -/
inductive SemTable where
  | semaforProces
  deriving DecidableEq

/-- The heads of the lists tasks can be linked in. -/
inductive Queue where
  | freequeue
  | readyqueue
  | blocked (tab : SemTable) (i : Fin numSem)
  deriving DecidableEq

abbrev ListHead : Type := Node Queue TaskId

/-- `enum state_t`. -/
inductive TaskState where
  | run
  | ready
  | blocked
  deriving DecidableEq

structure Stats where
  userTicks : UInt32
  systemTicks : UInt32
  blockedTicks : UInt32
  readyTicks : UInt32
  elapsedTotalTicks : UInt32
  totalTrans : UInt32
  remainingTicks : UInt32

/-- The counters `update_stats` is called with. -/
inductive TickCounter where
  | user
  | system
  | ready
  deriving DecidableEq

/-- `blocked` is a head of its own in the list memory. -/
structure SemT where
  semid : Int
  count : Int
  PID : Int

/-- An address in the kernel stack of a task. -/
structure StackPtr where
  page : TaskId
  offset : Nat

structure TaskStruct where
  PID : Int
  TID : Int
  dirPagesBaseAddr : Option Nat
  registerEsp : Option StackPtr
  state : TaskState
  totalQuantum : Int
  pStats : Stats
  heapStartProc : Nat
  heapEndProc : Nat
  heapPointerProc : Nat
  ustack : Nat
  semafors : Option SemTable

structure Kernel where
  links : Links Queue TaskId
  task : TaskId → TaskStruct
  /-- `current()`: the task whose kernel stack is in use. -/
  current : TaskId
  idleTask : Option TaskId
  remainingQuantum : Int
  sem : SemTable → Fin numSem → SemT
  /-- The bytes after the last entry of a table, read as one more entry. -/
  behind : SemTable → SemT
  mm : Mm
  globalPID : Int
  globalTID : Int
  zeosTicks : Int
  /-- The values `get_ticks` returns, and how many have been read. -/
  clock : Nat → UInt32
  reads : Nat
  /-- The stack pointer loaded by the last `switch_stack`. -/
  esp : Option StackPtr
  /-- The kernel stack of the task ends in `clock_handler`, which calls `system_to_user` next. -/
  interrupted : TaskId → Bool

namespace Kernel

def modTask (s : Kernel) (t : TaskId) (f : TaskStruct → TaskStruct) : Kernel :=
  { s with task := Function.update s.task t (f (s.task t)) }

def setState (s : Kernel) (t : TaskId) (st : TaskState) : Kernel :=
  s.modTask t fun c => { c with state := st }

def setSem (s : Kernel) (tab : SemTable) (i : Fin numSem) (v : SemT) : Kernel :=
  { s with sem := Function.update s.sem tab (Function.update (s.sem tab) i v) }

def setInterrupted (s : Kernel) (t : TaskId) (b : Bool) : Kernel :=
  { s with interrupted := Function.update s.interrupted t b }

/-! ## list.c on the list memory of the kernel -/

def initListHead (s : Kernel) (list : ListHead) : Kernel :=
  { s with links := ZeosSOA.initListHead s.links list }

def listAdd (s : Kernel) (new : ListHead) (head : Queue) : Option Kernel := do
  let links ← ZeosSOA.listAdd s.links new (.head head)
  return { s with links := links }

def listAddTail (s : Kernel) (new : ListHead) (head : Queue) : Option Kernel := do
  let links ← ZeosSOA.listAddTail s.links new (.head head)
  return { s with links := links }

def listDel (s : Kernel) (entry : ListHead) : Option Kernel := do
  let links ← ZeosSOA.listDel s.links entry
  return { s with links := links }

def listEmpty (s : Kernel) (head : Queue) : Bool := ZeosSOA.listEmpty s.links (.head head)

def listFirst (s : Kernel) (head : Queue) : Option ListHead := ZeosSOA.listFirst s.links (.head head)

/-- `list_head_to_task_struct`, which masks the address, of an anchor. A list head lies in no task
struct: there the model stops, whereas the code goes on with what is at the masked address. -/
def listHeadToTaskStruct : ListHead → Option TaskId
  | .anchor t => some t
  | .head _ => none

/-! ## p_stats.c -/

def getTicks (s : Kernel) : UInt32 × Kernel := (s.clock s.reads, { s with reads := s.reads + 1 })

def addTicks (p : Stats) (v : TickCounter) (currentTicks : UInt32) : Stats :=
  let d := currentTicks - p.elapsedTotalTicks
  let p := match v with
    | .user => { p with userTicks := p.userTicks + d }
    | .system => { p with systemTicks := p.systemTicks + d }
    | .ready => { p with readyTicks := p.readyTicks + d }
  { p with elapsedTotalTicks := currentTicks }

/-- `update_stats` on a counter of the task `t`. -/
def updateStats (s : Kernel) (t : TaskId) (v : TickCounter) : Kernel :=
  let (currentTicks, s) := s.getTicks
  s.modTask t fun c => { c with pStats := addTicks c.pStats v currentTicks }

end Kernel

end ZeosSOA.Sysenter
