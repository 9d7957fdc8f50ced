import ZeosSOA.Sysenter.Sched

/-!
# ZeOSSysenter: sys.c, semaphores

`sys_semWait`, `sys_semSignal` and `sys_semDestroy` start with the same three checks,
`semCheck`. They let the id 10 through, one more than there are entries.
-/

namespace ZeosSOA.Sysenter.Kernel

open Intrusive

/-- What the checks find out about an id. -/
inductive SemCheck where
  | refused
  | accepted (tab : SemTable) (i : Fin numSem)

/-- The checks common to the three calls. The entry behind the table is only read; when its
bytes pass for a semaphore of the caller the call goes on in foreign memory (`none`). -/
def semCheck (s : Kernel) (semID : Int) : Option SemCheck :=
  let c := s.task s.current
  if semID > 10 ∨ semID < 0 then some .refused
  else do
    let tab ← c.semafors
    if h : semID.toNat < numSem then
      let v := s.sem tab ⟨semID.toNat, h⟩
      if v.PID ≠ c.PID then some .refused
      else if v.semid ≠ semID then some .refused
      else some (.accepted tab ⟨semID.toNat, h⟩)
    else
      let v := s.behind tab
      if v.PID ≠ c.PID then some .refused
      else if v.semid ≠ semID then some .refused
      else none

def sysSemCreate (s : Kernel) (value : Int) : Option (Int × Kernel) := do
  let tab ← (s.task s.current).semafors
  match (List.finRange numSem).find? fun i => (s.sem tab i).semid = -1 with
  | some i =>
    let s := s.setSem tab i { semid := i.val, count := value, PID := (s.task s.current).PID }
    return (i.val, s.initListHead (.head (.blocked tab i)))
  | none => return (-1, s)

def setCount (s : Kernel) (tab : SemTable) (i : Fin numSem) (count : Int) : Kernel :=
  s.setSem tab i { s.sem tab i with count := count }

def sysSemWait (s : Kernel) (semID : Int) (ebp : Nat) : Option (Int × Kernel) := do
  match ← s.semCheck semID with
  | .refused => return (-1, s)
  | .accepted tab i =>
    let s := s.setCount tab i (toInt32 ((s.sem tab i).count - 1))
    if (s.sem tab i).count < 0 then
      let s ← (s.setState s.current .blocked).listAdd (.anchor s.current) (.blocked tab i)
      let s ← s.schedNextRr ebp
      return (0, s)
    else return (0, s)

def sysSemSignal (s : Kernel) (semID : Int) : Option (Int × Kernel) := do
  match ← s.semCheck semID with
  | .refused => return (-1, s)
  | .accepted tab i =>
    let s := s.setCount tab i (toInt32 ((s.sem tab i).count + 1))
    if (s.sem tab i).count ≤ 0 then
      let l ← s.listFirst (.blocked tab i)
      let s ← s.listDel l
      let unblockedTask ← listHeadToTaskStruct l
      let s ← (s.setState unblockedTask .ready).listAdd l .readyqueue
      return (0, s)
    else return (0, s)

/-- The loop of `sys_semDestroy`; each round takes one of the tasks out. -/
def wakeAll (tab : SemTable) (i : Fin numSem) : Nat → Kernel → Option Kernel
  | 0, _ => none
  | fuel + 1, s =>
    if s.listEmpty (.blocked tab i) then some s
    else do
      let l ← s.listFirst (.blocked tab i)
      let s ← s.listDel l
      let blockedThread ← listHeadToTaskStruct l
      let s ← (s.setState blockedThread .ready).listAddTail (.anchor blockedThread) .readyqueue
      wakeAll tab i fuel s

def sysSemDestroy (s : Kernel) (semID : Int) : Option (Int × Kernel) := do
  match ← s.semCheck semID with
  | .refused => return (-1, s)
  | .accepted tab i =>
    let s ← wakeAll tab i (nrTasks + 1) s
    return (0, s.setSem tab i { semid := -1, count := 0, PID := -1 })

end ZeosSOA.Sysenter.Kernel
