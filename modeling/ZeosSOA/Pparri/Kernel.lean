import ZeosSOA.Int32
import ZeosSOA.ListC
import ZeosSOA.Mm

/-!
# zeOSpparri: the kernel's data

`sched.h` and the globals of this kernel as one state. A task has one anchor, `list`: the
queues link it, and so does the list `kids` of its parent, whose head is in the parent's
struct.
-/

namespace ZeosSOA.Pparri

open Intrusive

abbrev lUserStart : Nat := 0x100000
abbrev pagLogInitData : Nat := lUserStart >>> 12
abbrev pagLogInitCode : Nat := pagLogInitData + numPagData
abbrev kernelStackSize : Nat := 1024

abbrev EAGAIN : Int := 11
abbrev ENOMEM : Int := 12

abbrev TaskId : Type := Fin nrTasks

/-- The heads of the lists tasks can be linked in. -/
inductive Queue where
  | freequeue
  | readyqueue
  | blocked
  | kids (t : TaskId)
  deriving DecidableEq

abbrev ListHead : Type := Node Queue TaskId

/-- `enum state_t`. -/
inductive TaskState where
  | run
  | ready
  | blocked
  deriving DecidableEq

/-- An address in the kernel stack of a task. -/
structure StackPtr where
  page : TaskId
  offset : Nat

/-- Without its `list` and `kids`, which are in the list memory. -/
structure TaskStruct where
  PID : Int
  dirPagesBaseAddr : Option Nat
  kernelEsp : Option StackPtr
  quantum : Int
  status : TaskState
  pendingUnblocks : Int
  dad : Option TaskId

structure Kernel where
  links : Links Queue TaskId
  task : TaskId → TaskStruct
  /-- `current()`: the task whose kernel stack is in use. -/
  current : TaskId
  idleTask : Option TaskId
  qticks : Int
  mm : Mm
  sumPID : Int
  zeosTicks : Nat
  /-- The stack pointer loaded by the last `cambio_contexto`. -/
  esp : Option StackPtr

namespace Kernel

def modTask (s : Kernel) (t : TaskId) (f : TaskStruct → TaskStruct) : Kernel :=
  { s with task := Function.update s.task t (f (s.task t)) }

def setStatus (s : Kernel) (t : TaskId) (st : TaskState) : Kernel :=
  s.modTask t fun c => { c with status := st }

def setMm (s : Kernel) (m : Mm) : Kernel := { s with mm := m }

/-! ## list.c on the list memory of the kernel -/

def initListHead (s : Kernel) (list : ListHead) : Kernel :=
  { s with links := ZeosSOA.initListHead s.links list }

def listAdd (s : Kernel) (new : ListHead) (head : Queue) : Option Kernel := do
  let links ← ZeosSOA.listAdd s.links new (.head head)
  return { s with links := links }

def listAddTail (s : Kernel) (new : ListHead) (head : Queue) : Option Kernel := do
  let links ← ZeosSOA.listAddTail s.links new (.head head)
  return { s with links := links }

def listDel (s : Kernel) (entry : ListHead) : Option Kernel := do
  let links ← ZeosSOA.listDel s.links entry
  return { s with links := links }

def listEmpty (s : Kernel) (head : Queue) : Bool := ZeosSOA.listEmpty s.links (.head head)

def listFirst (s : Kernel) (head : Queue) : Option ListHead := ZeosSOA.listFirst s.links (.head head)

/-- `list_head_to_task_struct`, that is `list_entry` for the member `list`, of an anchor. A list head
is no such member (the head `kids` lies further on in its struct): there the model stops, whereas
the code goes on with what is at the address it has worked out. -/
def listHeadToTaskStruct : ListHead → Option TaskId
  | .anchor t => some t
  | .head _ => none

/-! ## What a list operation leaves alone -/

section
variable {s s' : Kernel}

theorem listAddTail_some {n : ListHead} {i : Queue} (h : s.listAddTail n i = some s') :
    ∃ l, ZeosSOA.listAddTail s.links n (.head i) = some l ∧ s' = { s with links := l } := by
  obtain ⟨l, hl, h⟩ := Option.bind_eq_some_iff.mp h
  cases h
  exact ⟨l, hl, rfl⟩

theorem listDel_some {n : ListHead} (h : s.listDel n = some s') :
    ∃ l, ZeosSOA.listDel s.links n = some l ∧ s' = { s with links := l } := by
  obtain ⟨l, hl, h⟩ := Option.bind_eq_some_iff.mp h
  cases h
  exact ⟨l, hl, rfl⟩

end

end Kernel

end ZeosSOA.Pparri
