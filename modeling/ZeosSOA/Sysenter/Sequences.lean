import ZeosSOA.Sysenter.Step

/-!
# ZeOSSysenter: the kernel over sequences

The purpose of the scheduler, the processes and the semaphores, in terms of sequences of
tasks: no list memory, no stack pointers, no statistics. A ready sequence is served from
the front, a call that ends a task gives its struct back, a blocked task waits in the
sequence of one semaphore. The frames and page tables are those of the kernel.
-/

namespace ZeosSOA.Sysenter

/-- The part of a task struct that decides what happens later. -/
structure TaskCore where
  PID : Int
  TID : Int
  dirPagesBaseAddr : Option Nat
  state : TaskState
  totalQuantum : Int
  heapStartProc : Nat
  heapPointerProc : Nat
  semafors : Option SemTable

def TaskStruct.core (c : TaskStruct) : TaskCore :=
  ⟨c.PID, c.TID, c.dirPagesBaseAddr, c.state, c.totalQuantum, c.heapStartProc, c.heapPointerProc, c.semafors⟩

structure AbsKernel where
  queue : Queue → List TaskId
  task : TaskId → TaskCore
  current : TaskId
  idleTask : TaskId
  remainingQuantum : Int
  sem : SemTable → Fin numSem → SemT
  behind : SemTable → SemT
  mm : Mm
  globalPID : Int
  globalTID : Int

namespace AbsKernel

def setQueue (a : AbsKernel) (i : Queue) (ts : List TaskId) : AbsKernel :=
  { a with queue := Function.update a.queue i ts }

def modTask (a : AbsKernel) (t : TaskId) (f : TaskCore → TaskCore) : AbsKernel :=
  { a with task := Function.update a.task t (f (a.task t)) }

def setState (a : AbsKernel) (t : TaskId) (st : TaskState) : AbsKernel :=
  a.modTask t fun c => { c with state := st }

def setSem (a : AbsKernel) (tab : SemTable) (i : Fin numSem) (v : SemT) : AbsKernel :=
  { a with sem := Function.update a.sem tab (Function.update (a.sem tab) i v) }

def setMm (a : AbsKernel) (m : Mm) : AbsKernel := { a with mm := m }

theorem mem_setQueue {a : AbsKernel} {i j : Queue} {xs : List TaskId} {t : TaskId} :
    t ∈ (a.setQueue i xs).queue j ↔ if j = i then t ∈ xs else t ∈ a.queue j := by
  simp only [setQueue, Function.update_apply]
  split <;> rfl

/-- The task puts itself at the end of the sequence. -/
def push (a : AbsKernel) (i : Queue) (t : TaskId) : AbsKernel := a.setQueue i (a.queue i ++ [t])

/-! ## Scheduling -/

/-- The first ready task, taken out of the sequence, or idle. -/
def nextTask (a : AbsKernel) : TaskId × AbsKernel :=
  match a.queue .readyqueue with
  | t :: ts => (t, a.setQueue .readyqueue ts)
  | [] => (a.idleTask, a)

def dispatch (a : AbsKernel) (t : TaskId) : AbsKernel :=
  { a.setState t .run with current := t, remainingQuantum := (a.task t).totalQuantum }

def schedNextRr (a : AbsKernel) : AbsKernel := a.nextTask.2.dispatch a.nextTask.1

section
variable (a : AbsKernel)

theorem schedNextRr_queue :
    a.schedNextRr.queue = Function.update a.queue .readyqueue (a.queue .readyqueue).tail := by
  unfold schedNextRr nextTask
  cases hq : a.queue .readyqueue with
  | nil =>
    have he : Function.update a.queue .readyqueue [] = a.queue := by rw [← hq, Function.update_eq_self]
    rw [List.tail_nil, he]; rfl
  | cons t ts => rfl

theorem schedNextRr_blocked (tab : SemTable) (i : Fin numSem) :
    a.schedNextRr.queue (.blocked tab i) = a.queue (.blocked tab i) := by
  rw [schedNextRr_queue, Function.update_of_ne (by simp)]

theorem schedNextRr_current : a.schedNextRr.current = (a.queue .readyqueue).headD a.idleTask := by
  unfold schedNextRr nextTask
  cases a.queue .readyqueue <;> rfl

theorem schedNextRr_task (t : TaskId) : a.schedNextRr.task t =
    if t = a.schedNextRr.current then { a.task t with state := .run } else a.task t := by
  rw [schedNextRr_current]
  unfold schedNextRr nextTask
  cases a.queue .readyqueue <;> simp only [dispatch, setState, modTask, setQueue, Function.update_apply,
    List.headD_nil, List.headD_cons] <;> split <;> simp [*]

theorem schedNextRr_rest : a.schedNextRr.idleTask = a.idleTask ∧ a.schedNextRr.sem = a.sem ∧
    a.schedNextRr.behind = a.behind ∧ a.schedNextRr.mm = a.mm ∧ a.schedNextRr.globalPID = a.globalPID := by
  unfold schedNextRr nextTask
  cases a.queue .readyqueue <;> exact ⟨rfl, rfl, rfl, rfl, rfl⟩

@[simp] theorem schedNextRr_idleTask : a.schedNextRr.idleTask = a.idleTask := a.schedNextRr_rest.1

@[simp] theorem schedNextRr_sem : a.schedNextRr.sem = a.sem := a.schedNextRr_rest.2.1

@[simp] theorem schedNextRr_mm : a.schedNextRr.mm = a.mm := a.schedNextRr_rest.2.2.2.1

@[simp] theorem schedNextRr_globalPID : a.schedNextRr.globalPID = a.globalPID := a.schedNextRr_rest.2.2.2.2

end

/-- The current task gives the CPU up and waits for its next turn. -/
def forceTaskSwitch (a : AbsKernel) : AbsKernel :=
  ((a.push .readyqueue a.current).setState a.current .ready).schedNextRr

theorem forceTaskSwitch_rem (a : AbsKernel) (r : Int) :
    { a with remainingQuantum := r }.forceTaskSwitch = a.forceTaskSwitch := by
  unfold forceTaskSwitch schedNextRr nextTask
  simp only [push, setQueue, setState, modTask]
  split <;> rfl

def clock (a : AbsKernel) : AbsKernel :=
  if a.remainingQuantum - 1 ≠ 0 then { a with remainingQuantum := a.remainingQuantum - 1 }
  else if a.queue .readyqueue = [] then { a with remainingQuantum := (a.task a.current).totalQuantum }
  else a.forceTaskSwitch

/-! ## Processes and threads -/

def freeSem : SemT := { semid := -1, count := 0, PID := -1 }

/-- Every semaphore of the table is free, and nobody waits on one. -/
def resetSemafors (a : AbsKernel) (tab : SemTable) : AbsKernel :=
  { a with
    sem := Function.update a.sem tab fun _ => freeSem
    queue := fun j => match j with
      | .blocked tab' i => if tab' = tab then [] else a.queue (.blocked tab' i)
      | j => a.queue j }

theorem foldl_resetSemafors (tab : SemTable) : ∀ (is : List (Fin numSem)) (a : AbsKernel),
    is.foldl (fun a i => (a.setSem tab i freeSem).setQueue (.blocked tab i) []) a = { a with
      sem := Function.update a.sem tab fun i => if i ∈ is then freeSem else a.sem tab i
      queue := fun j => match j with
        | .blocked tab' i => if tab' = tab ∧ i ∈ is then [] else a.queue (.blocked tab' i)
        | j => a.queue j }
  | [], a => by
    obtain ⟨queue, task, current, idleTask, rem, sem, behind, mm, pid, tid⟩ := a
    simp only [List.foldl_nil, mk.injEq, List.not_mem_nil, and_false, if_false, and_true,
      Function.update_eq_self]
    funext j
    cases j <;> rfl
  | i :: is, a => by
    rw [List.foldl_cons, foldl_resetSemafors tab is]
    simp only [setSem, setQueue, mk.injEq, and_true, true_and]
    constructor
    · funext j
      cases j with
      | blocked tab' k => by_cases hk : k ∈ is <;> by_cases hi : k = i <;> by_cases ht : tab' = tab <;> simp [hk, hi, ht]
      | _ => simp
    · funext tab' k
      obtain rfl : tab' = tab := by cases tab; cases tab'; rfl
      by_cases hk : k ∈ is <;> by_cases hi : k = i <;> simp [hk, hi]

theorem foldl_finRange_resetSemafors (a : AbsKernel) (tab : SemTable) :
    (List.finRange numSem).foldl (fun a i => (a.setSem tab i freeSem).setQueue (.blocked tab i) []) a =
      a.resetSemafors tab := by
  rw [foldl_resetSemafors]
  simp [resetSemafors]

/-- The task struct `dst` becomes a copy of the current one, with the directory `dir`. -/
def copyTask (a : AbsKernel) (dst : TaskId) (dir : Option Nat) : AbsKernel :=
  { a with task := Function.update a.task dst { a.task a.current with dirPagesBaseAddr := dir } }

/-- `sys_fork` until the frames are allocated: the free struct taken and filled in, the table of
semaphores emptied. -/
def forkChild (a : AbsKernel) (child : TaskId) (rest : List TaskId) (tab : SemTable) : AbsKernel :=
  ((a.setQueue .freequeue rest).copyTask child (some child.val)).resetSemafors tab

/-- The child gets a new PID and waits for its first turn. -/
def forkStart (a : AbsKernel) (child : TaskId) : AbsKernel :=
  { (a.modTask child fun c => { c with PID := a.globalPID + 1, state := .ready }).push .readyqueue child with
    globalPID := a.globalPID + 1 }

def fork (a : AbsKernel) : Option (Int × AbsKernel) :=
  match a.queue .freequeue with
  | [] => some (-ENOMEM, a)
  | child :: rest => do
    let c := a.task a.current
    let tab ← c.semafors
    let b := a.forkChild child rest tab
    match forkAllocData child.val numPagData 0 a.mm with
    | (false, mm) => return (-EAGAIN, (b.setMm mm).push .freequeue child)
    | (true, mm) =>
      let parentPT ← c.dirPagesBaseAddr
      let mm ← forkMap child.val parentPT c.heapStartProc c.heapPointerProc mm
      return (a.globalPID + 1, (b.setMm mm).forkStart child)

def setHeapPointer (a : AbsKernel) (hp : Nat) : AbsKernel :=
  a.modTask a.current fun c => { c with heapPointerProc := hp }

/-- The current task gives its struct back and leaves the CPU to the next one. -/
def leave (a : AbsKernel) : AbsKernel := (a.push .freequeue a.current).schedNextRr

def exit (a : AbsKernel) : Option AbsKernel := do
  let pt ← (a.task a.current).dirPagesBaseAddr
  let (hp, mm) ← releaseHeap pt (a.task a.current).heapStartProc pointerRounds
    (a.task a.current).heapPointerProc (releaseData pt numPagData a.mm)
  return (((a.setMm mm).setHeapPointer hp).modTask a.current fun c => { c with PID := -1 }).leave

def threadExit (a : AbsKernel) : Option AbsKernel := do
  let pt ← (a.task a.current).dirPagesBaseAddr
  let hp := (a.task a.current).heapPointerProc
  return ((a.setMm (releasePage pt a.mm (hp / pageSize))).setHeapPointer (subPage hp)).leave

/-- A thread of the current task: its own TID, the directory and the PID of its creator. -/
def threadChild (a : AbsKernel) (child : TaskId) (rest : List TaskId) : AbsKernel :=
  { ((a.setQueue .freequeue rest).copyTask child (a.task a.current).dirPagesBaseAddr).modTask child fun c =>
      { c with TID := a.globalTID + 1, state := .ready } with
    globalTID := a.globalTID + 1 }

/-- `sys_threadCreate`, once the arguments have passed the checks. -/
def threadCreate (a : AbsKernel) (function parameter : UInt32) : Option (Int × AbsKernel) :=
  match a.queue .freequeue with
  | [] => some (-ENOMEM, a)
  | child :: rest => do
    let c := a.task a.current
    let b := a.threadChild child rest
    let pagHeap := c.heapPointerProc / pageSize
    if pagHeap > totalPages then return (-1, b)
    let pt ← c.dirPagesBaseAddr
    match a.mm.allocFrame with
    | (newPhPag, mm) =>
      if newPhPag ≠ -1 then
        let mm ← Kernel.writeUstack (mm.setSsPag pt pagHeap newPhPag) pt pagHeap function parameter
        return (a.globalTID + 1, ((b.setMm mm).setHeapPointer (addPage c.heapPointerProc)).push .readyqueue child)
      else
        let (hp, mm) ← releaseHeap pt c.heapStartProc pointerRounds c.heapPointerProc mm
        return (-EAGAIN, ((b.setMm mm).setHeapPointer hp).push .freequeue child)

def sbrk (a : AbsKernel) (size : Int) : Option AbsKernel := do
  let c := a.task a.current
  if size = 0 then return a
  let pt ← c.dirPagesBaseAddr
  let (_, hp, mm) ← sbrkHeap pt c.heapStartProc c.heapPointerProc size a.mm
  return (a.setMm mm).setHeapPointer hp

/-! ## Semaphores -/

def semCheck (a : AbsKernel) (semID : Int) : Option Kernel.SemCheck :=
  let c := a.task a.current
  if semID > 10 ∨ semID < 0 then some .refused
  else do
    let tab ← c.semafors
    if h : semID.toNat < numSem then
      let v := a.sem tab ⟨semID.toNat, h⟩
      if v.PID ≠ c.PID then some .refused
      else if v.semid ≠ semID then some .refused
      else some (.accepted tab ⟨semID.toNat, h⟩)
    else
      let v := a.behind tab
      if v.PID ≠ c.PID then some .refused
      else if v.semid ≠ semID then some .refused
      else none

theorem semCheck_accepted {a : AbsKernel} {semID : Int} {tab : SemTable} {i : Fin numSem}
    (h : a.semCheck semID = some (.accepted tab i)) : (i.val : Int) = semID ∧ (a.sem tab i).semid = semID ∧
      (a.sem tab i).PID = (a.task a.current).PID ∧ (a.task a.current).semafors = some tab := by
  unfold semCheck at h
  dsimp only at h
  split at h
  · cases h
  rename_i hid
  obtain ⟨tab', htab, h⟩ := Option.bind_eq_some_iff.mp h
  split at h
  · rename_i hlt
    split at h
    · cases h
    rename_i hpid
    split at h
    · cases h
    rename_i hsem
    cases h
    exact ⟨Int.toNat_of_nonneg (by omega), not_not.mp hsem, not_not.mp hpid, htab⟩
  · split at h
    · cases h
    · split at h <;> cases h

def semCreate (a : AbsKernel) (value : Int) : Option (Int × AbsKernel) := do
  let tab ← (a.task a.current).semafors
  match (List.finRange numSem).find? fun i => (a.sem tab i).semid = -1 with
  | some i =>
    return (i.val, (a.setSem tab i { semid := i.val, count := value, PID := (a.task a.current).PID }).setQueue
      (.blocked tab i) [])
  | none => return (-1, a)

def addCount (a : AbsKernel) (tab : SemTable) (i : Fin numSem) (d : Int) : AbsKernel :=
  a.setSem tab i { a.sem tab i with count := toInt32 ((a.sem tab i).count + d) }

/-- The current task waits in front of the others that do. -/
def block (a : AbsKernel) (tab : SemTable) (i : Fin numSem) : AbsKernel :=
  ((a.setState a.current .blocked).setQueue (.blocked tab i) (a.current :: a.queue (.blocked tab i))).schedNextRr

def semWait (a : AbsKernel) (semID : Int) : Option AbsKernel := do
  match ← a.semCheck semID with
  | .refused => return a
  | .accepted tab i =>
    let b := a.addCount tab i (-1)
    if (b.sem tab i).count < 0 then return b.block tab i else return b

/-- The task at the front of the semaphore is the next to run; there must be one. -/
def wake (a : AbsKernel) (tab : SemTable) (i : Fin numSem) : Option AbsKernel :=
  match a.queue (.blocked tab i) with
  | t :: ts =>
    some (((a.setQueue (.blocked tab i) ts).setState t .ready).setQueue .readyqueue (t :: a.queue .readyqueue))
  | [] => none

def semSignal (a : AbsKernel) (semID : Int) : Option AbsKernel := do
  match ← a.semCheck semID with
  | .refused => return a
  | .accepted tab i =>
    let b := a.addCount tab i 1
    if (b.sem tab i).count ≤ 0 then b.wake tab i else return b

/-- Everyone who waits on the semaphore becomes ready, in order. -/
def wakeAll (a : AbsKernel) (tab : SemTable) (i : Fin numSem) : AbsKernel :=
  { (a.setQueue .readyqueue (a.queue .readyqueue ++ a.queue (.blocked tab i))).setQueue (.blocked tab i) [] with
    task := fun t => if t ∈ a.queue (.blocked tab i) then { a.task t with state := .ready } else a.task t }

theorem wakeAll_nil {a : AbsKernel} {tab : SemTable} {i : Fin numSem} (hq : a.queue (.blocked tab i) = []) :
    a.wakeAll tab i = a := by
  obtain ⟨queue, task, current, idleTask, rem, sem, behind, mm, pid, tid⟩ := a
  simp only [wakeAll, setQueue, mk.injEq, and_true] at hq ⊢
  constructor
  · rw [hq, List.append_nil, Function.update_eq_self, ← hq, Function.update_eq_self]
  · funext t; simp [hq]

theorem wakeAll_cons {a : AbsKernel} {tab : SemTable} {i : Fin numSem} {t : TaskId} {ts : List TaskId}
    (hq : a.queue (.blocked tab i) = t :: ts) :
    (((a.setQueue (.blocked tab i) ts).setState t .ready).push .readyqueue t).wakeAll tab i = a.wakeAll tab i := by
  simp only [wakeAll, push, setQueue, setState, modTask, mk.injEq, and_true]
  constructor
  · funext j
    by_cases hj : j = .blocked tab i
    · simp [hj]
    · by_cases hr : j = .readyqueue <;> simp [hj, hr, hq]
  · funext u
    by_cases hu : u = t
    · subst hu; simp [hq]
    · simp [hu, hq]

def semDestroy (a : AbsKernel) (semID : Int) : Option AbsKernel := do
  match ← a.semCheck semID with
  | .refused => return a
  | .accepted tab i => return (a.wakeAll tab i).setSem tab i freeSem

/-! ## Steps -/

/-- `ok`: the arguments of `sys_threadCreate` pass `access_ok`. -/
def handle (a : AbsKernel) (ok : Bool) : Kernel.Op → Option AbsKernel
  | .clock => some a.clock
  | .yield => some a.forceTaskSwitch
  | .exit => a.exit
  | .fork => a.fork.map Prod.snd
  | .threadCreate f p _ => if ok then (a.threadCreate f p).map Prod.snd else some a
  | .threadExit => a.threadExit
  | .sbrk size => a.sbrk size
  | .semCreate value => (a.semCreate value).map Prod.snd
  | .semWait semID => a.semWait semID
  | .semSignal semID => a.semSignal semID
  | .semDestroy semID => a.semDestroy semID

def step (a : AbsKernel) (ok : Bool) (op : Kernel.Op) : Option AbsKernel :=
  if op ≠ .clock ∧ a.idleTask = a.current then none else a.handle ok op

end AbsKernel

end ZeosSOA.Sysenter
