import ZeosSOA.Pparri.Kernel

/-!
# zeOSpparri: sched.c

The round-robin scheduler and the creation of the first tasks. `task_switch` makes its
argument current; what it saves and loads as stack pointer is kept, the contents of the
kernel stacks are not. `ebp` is the frame pointer of the kernel code that is running.
-/

namespace ZeosSOA.Pparri.Kernel

open Intrusive

/-- `get_PT`, and `get_DIR` with it: the row of the table in the first entry of the directory. -/
def getPT (s : Kernel) (t : TaskId) : Option Nat := (s.task t).dirPagesBaseAddr

def allocateDIR (s : Kernel) (t : TaskId) : Kernel :=
  s.modTask t fun c => { c with dirPagesBaseAddr := some t.val }

/-- The destination is only looked at when the task runs. -/
def updateProcessStateRr (s : Kernel) (t : TaskId) (dstQueue : Option Queue) : Option Kernel :=
  match (s.task t).status with
  | .run => do
    let dst ← dstQueue
    let s ← s.listAddTail (.anchor t) dst
    return s.setStatus t .ready
  | .ready => do
    let s ← s.listDel (.anchor t)
    return s.setStatus t .run
  | .blocked => some s

/-- `cambio_contexto` gets the saved pointer of `new` as an argument, so it is read before the
pointer of the current task is saved. -/
def innerTaskSwitch (s : Kernel) (new : TaskId) (ebp : Nat) : Kernel :=
  let newEsp := (s.task new).kernelEsp
  let s := s.modTask s.current fun c => { c with kernelEsp := some ⟨s.current, ebp⟩ }
  { s with esp := newEsp, current := new }

def nextTask (s : Kernel) : Option (TaskId × Kernel) :=
  if ¬ s.listEmpty .readyqueue then do
    let getHead ← s.listFirst .readyqueue
    let getSt ← listHeadToTaskStruct getHead
    let s ← s.updateProcessStateRr getSt none
    return (getSt, s)
  else do
    let getSt ← s.idleTask
    return (getSt, s)

def schedNextRr (s : Kernel) (ebp : Nat) : Option Kernel := do
  let (getSt, s) ← s.nextTask
  let s := { s with qticks := (s.task getSt).quantum }
  return s.innerTaskSwitch getSt ebp

def needsSchedRr (s : Kernel) : Bool :=
  (s.qticks = 0 ∧ ¬ s.listEmpty .readyqueue) ∨ (s.task s.current).status = .blocked

def updateSchedDataRr (s : Kernel) : Kernel := { s with qticks := toInt32 (s.qticks - 1) }

def scheduler (s : Kernel) (ebp : Nat) : Option Kernel := do
  let s := s.updateSchedDataRr
  if s.needsSchedRr then
    let s ← s.updateProcessStateRr s.current (some .readyqueue)
    s.schedNextRr ebp
  else return s

/-! ## Start-up -/

def initSched (s : Kernel) : Option Kernel := do
  let s := ((s.initListHead (.head .freequeue)).initListHead (.head .readyqueue)).initListHead (.head .blocked)
  let s ← (List.finRange nrTasks).foldlM (fun s i => s.listAdd (.anchor i) .freequeue) s
  return { s with qticks := 1000 }

def initIdle (s : Kernel) : Option Kernel := do
  let e ← s.listFirst .freequeue
  let s ← s.listDel e
  let primer ← listHeadToTaskStruct e
  let s := s.modTask primer fun c => { c with PID := 0, quantum := 1000, pendingUnblocks := 0, status := .ready }
  let s := (s.initListHead (.head (.kids primer))).allocateDIR primer
  let s := s.modTask primer fun c => { c with kernelEsp := some ⟨primer, 4 * (kernelStackSize - 2)⟩ }
  return { s with idleTask := some primer }

/-- Control passes to the task at the end of `main`. -/
def initTask1 (s : Kernel) : Option Kernel := do
  let l ← s.listFirst .freequeue
  let s ← s.listDel l
  let primer ← listHeadToTaskStruct l
  let s := s.modTask primer fun c => { c with PID := 1, quantum := 1000, pendingUnblocks := 0, status := .run }
  let s := (s.initListHead (.head (.kids primer))).allocateDIR primer
  let pt ← s.getPT primer
  let s := s.setMm (s.mm.setUserPages pagLogInitCode pagLogInitData pt)
  return { s with current := primer }

end ZeosSOA.Pparri.Kernel
