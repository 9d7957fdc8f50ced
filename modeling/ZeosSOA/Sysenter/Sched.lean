import ZeosSOA.Sysenter.Kernel

/-!
# ZeOSSysenter: sched.c

The round-robin scheduler and the creation of the first tasks. `task_switch` makes its
argument current; what it saves and loads as stack pointer is kept, the contents of the
kernel stacks are not. `ebp` is the frame pointer of the kernel code that is running.
-/

namespace ZeosSOA.Sysenter.Kernel

open Intrusive

def initStats (s : Kernel) (t : TaskId) : Kernel :=
  let (elapsed, s) := s.getTicks
  let (remaining, s) := s.getTicks
  s.modTask t fun c => { c with pStats :=
    { userTicks := 0, systemTicks := 0, blockedTicks := 0, readyTicks := 0
      elapsedTotalTicks := elapsed, totalTrans := 0, remainingTicks := remaining } }

def getPT (s : Kernel) (t : TaskId) : Option Nat := (s.task t).dirPagesBaseAddr

def allocateDIR (s : Kernel) (t : TaskId) : Kernel :=
  s.modTask t fun c => { c with dirPagesBaseAddr := some t.val }

def getQuantum (s : Kernel) (t : TaskId) : Int := (s.task t).totalQuantum

def updateSchedDataRr (s : Kernel) : Kernel := { s with remainingQuantum := s.remainingQuantum - 1 }

def needsSchedRr (s : Kernel) : Bool × Kernel :=
  if s.remainingQuantum = 0 ∧ ¬ s.listEmpty .readyqueue then (true, s)
  else if s.remainingQuantum = 0 then (false, { s with remainingQuantum := s.getQuantum s.current })
  else (false, s)

def updateProcessStateRr (s : Kernel) (t : TaskId) (dstQueue : Option Queue) : Option Kernel := do
  let s ← if (s.task t).state ≠ .run then s.listDel (.anchor t) else some s
  match dstQueue with
  | some dst =>
    let s ← s.listAddTail (.anchor t) dst
    if dst ≠ .readyqueue then return s.setState t .blocked
    else return (s.updateStats t .system).setState t .ready
  | none => return s.setState t .run

/-- `switch_stack` gets the saved pointer of `new` as an argument, so it is read before the
pointer of the current task is saved. -/
def innerTaskSwitch (s : Kernel) (new : TaskId) (ebp : Nat) : Kernel :=
  let newEsp := (s.task new).registerEsp
  let s := s.modTask s.current fun c => { c with registerEsp := some ⟨s.current, ebp⟩ }
  { s with esp := newEsp, current := new }

/-- The task `sched_next_rr` takes: the first ready one, unlinked, or idle. -/
def nextTask (s : Kernel) : Option (TaskId × Kernel) :=
  if ¬ s.listEmpty .readyqueue then do
    let e ← s.listFirst .readyqueue
    let s ← s.listDel e
    let t ← listHeadToTaskStruct e
    return (t, s)
  else do
    let t ← s.idleTask
    return (t, s)

/-- The rest of `sched_next_rr`, for the chosen task. -/
def dispatch (s : Kernel) (t : TaskId) (ebp : Nat) : Kernel :=
  let s := s.setState t .run
  let s := { s with remainingQuantum := s.getQuantum t }
  let s := s.updateStats s.current .system
  let s := s.updateStats t .ready
  let s := s.modTask t fun c => { c with pStats := { c.pStats with totalTrans := c.pStats.totalTrans + 1 } }
  s.innerTaskSwitch t ebp

def schedNextRr (s : Kernel) (ebp : Nat) : Option Kernel := do
  let (t, s) ← s.nextTask
  return s.dispatch t ebp

def schedule (s : Kernel) (ebp : Nat) : Option Kernel := do
  let s := s.updateSchedDataRr
  match s.needsSchedRr with
  | (true, s) =>
    let s ← s.updateProcessStateRr s.current (some .readyqueue)
    s.schedNextRr ebp
  | (false, s) => return s

def forceTaskSwitch (s : Kernel) (ebp : Nat) : Option Kernel := do
  let s ← s.updateProcessStateRr s.current (some .readyqueue)
  s.schedNextRr ebp

/-! ## Start-up -/

def initFreequeue (s : Kernel) : Option Kernel :=
  (List.finRange nrTasks).foldlM (fun s i =>
    (s.modTask i fun c => { c with PID := -1 }).listAddTail (.anchor i) .freequeue)
    (s.initListHead (.head .freequeue))

def initSched (s : Kernel) : Option Kernel := do
  let s ← s.initFreequeue
  return s.initListHead (.head .readyqueue)

def initIdle (s : Kernel) : Option Kernel := do
  let l ← s.listFirst .freequeue
  let s ← s.listDel l
  let c ← listHeadToTaskStruct l
  let s := s.modTask c fun c => { c with PID := 0, TID := 0, totalQuantum := defaultQuantum }
  let s := s.initStats c
  let s := s.allocateDIR c
  let s := s.modTask c fun t => { t with registerEsp := some ⟨c, 4 * (kernelStackSize - 2)⟩ }
  return { s with idleTask := some c }

/-- The loop over a semaphore table in `init_task1` and in `sys_fork`. -/
def resetSemafors (s : Kernel) (tab : SemTable) : Kernel :=
  (List.finRange numSem).foldl (fun s i =>
    (s.setSem tab i { semid := -1, count := 0, PID := -1 }).initListHead (.head (.blocked tab i))) s

/-- Control passes to the task at the end of `main`. -/
def initTask1 (s : Kernel) : Option Kernel := do
  let l ← s.listFirst .freequeue
  let s ← s.listDel l
  let c ← listHeadToTaskStruct l
  let s := s.modTask c fun c => { c with
    PID := 1, TID := 1, totalQuantum := defaultQuantum, state := .run
    heapEndProc := totalPages <<< 12, heapStartProc := initHeap, heapPointerProc := initHeap }
  let s := { s with remainingQuantum := s.getQuantum c }
  let s := s.initStats c
  let s := s.allocateDIR c
  let pt ← s.getPT c
  let s := { s with mm := s.mm.setUserPages pagLogInitCode pagLogInitData pt }
  let s := s.modTask c fun c => { c with semafors := some .semaforProces }
  let s := s.resetSemafors .semaforProces
  return { s with current := c }

end ZeosSOA.Sysenter.Kernel
