import ZeosSOA.Runs
import ZeosSOA.Sysenter.Sem
import ZeosSOA.Sysenter.Sys

/-!
# ZeOSSysenter: the running system

The machine boots into task 1. From then on an event is a clock interrupt or a system
call of the current task; `cpu_idle`, which idle runs, makes none.
-/

namespace ZeosSOA.Sysenter

open Intrusive

/-- The pages of the task array: `protected_tasks` starts at the page `first`, and its twelve
pages lie in the kernel's part of memory. -/
structure Image where
  first : Nat
  pos : 0 < first
  lt : first + 11 < numPagKernel

/-- What the kernel finds in memory and in the time-stamp counter. -/
structure Machine where
  image : Image
  behind : SemTable → SemT
  ram : Nat → Nat → UInt32
  clock : Nat → UInt32

/-- A machine whose memory and counter are zero, with the task array at page 100. -/
def Machine.blank : Machine where
  image := ⟨100, by decide, by decide⟩
  behind _ := ⟨0, 0, 0⟩
  ram _ _ := 0
  clock _ := 0

/-- A machine with a clock that goes on by one with each reading. -/
def Machine.ticking : Machine := { Machine.blank with clock := fun n => .ofNat n }

namespace Kernel

/-- Static data before `main`: all zero. -/
def powerOn (mc : Machine) : Kernel where
  links := ⟨fun _ => none, fun _ => none⟩
  task := fun _ =>
    { PID := 0, TID := 0, dirPagesBaseAddr := none, registerEsp := none, state := .run, totalQuantum := 0
      pStats := ⟨0, 0, 0, 0, 0, 0, 0⟩, heapStartProc := 0, heapEndProc := 0, heapPointerProc := 0
      ustack := 0, semafors := none }
  current := 0
  idleTask := none
  remainingQuantum := 0
  sem := fun _ _ => ⟨0, 0, 0⟩
  behind := mc.behind
  mm := ⟨fun _ => .free, fun _ => .zero, mc.ram⟩
  globalPID := 1000
  globalTID := 1000
  zeosTicks := 0
  clock := mc.clock
  reads := 0
  esp := none
  interrupted := fun _ => false

/-- `init_mm`; the two guard pages are the first and the last of the task array. -/
def initMm (s : Kernel) (image : Image) : Kernel :=
  let m := (s.mm.initTablePages.guardPage image.first).guardPage (image.first + 11)
  (s.setMm m.initFrames).allocateDIR 0

def main (mc : Machine) : Option Kernel := do
  let s ← ((powerOn mc).initMm mc.image).initSched
  let s ← s.initIdle
  s.initTask1

theorem main_isSome (mc : Machine) : (main mc).isSome = true := rfl

/-- The kernel when control passes to task 1. -/
def boot (mc : Machine) : Kernel := (main mc).get (main_isSome mc)

/-! ## entry.S and interrupt.c -/

def userToSystem (s : Kernel) : Kernel := s.updateStats s.current .user

def systemToUser (s : Kernel) : Kernel := s.updateStats s.current .system

def clockRoutine (s : Kernel) (ebp : Nat) : Option Kernel :=
  { s with zeosTicks := s.zeosTicks + 1 }.schedule ebp

/-- `clock_handler` up to the end of `clock_routine`. -/
def clockHandler (s : Kernel) (ebp : Nat) : Option Kernel :=
  (s.userToSystem.setInterrupted s.current true).clockRoutine ebp

/-- The current task goes on where it gave up the CPU; when that was in `clock_handler`, with
`system_to_user`. -/
def resume (s : Kernel) : Kernel :=
  if s.interrupted s.current then s.systemToUser.setInterrupted s.current false else s

inductive Op where
  | clock
  | yield
  | exit
  | fork
  | threadCreate (function parameter wrapp : UInt32)
  | threadExit
  | sbrk (size : Int)
  | semCreate (value : Int)
  | semWait (semID : Int)
  | semSignal (semID : Int)
  | semDestroy (semID : Int)
  deriving DecidableEq

/-- `ebp` is the frame pointer `get_ebp` and `switch_stack` find, as an offset in the kernel
stack of the current task. -/
structure Event where
  op : Op
  ebp : Nat
  deriving DecidableEq

def handle (s : Kernel) (e : Event) : Option Kernel :=
  match e.op with
  | .clock => s.clockHandler e.ebp
  | .yield => s.sysYield e.ebp
  | .exit => s.sysExit e.ebp
  | .fork => (s.sysFork e.ebp).map Prod.snd
  | .threadCreate f p w => (s.sysThreadCreate f p w).map Prod.snd
  | .threadExit => s.sysThreadExit e.ebp
  | .sbrk size => (s.sysSbrk size).map Prod.snd
  | .semCreate value => (s.sysSemCreate value).map Prod.snd
  | .semWait semID => (s.sysSemWait semID e.ebp).map Prod.snd
  | .semSignal semID => (s.sysSemSignal semID).map Prod.snd
  | .semDestroy semID => (s.sysSemDestroy semID).map Prod.snd

/-- One event; `none` also when idle, which makes no system calls, is to make one. -/
def step (s : Kernel) (e : Event) : Option Kernel :=
  if e.op ≠ .clock ∧ s.idleTask = some s.current then none else (s.handle e).map resume

end Kernel

end ZeosSOA.Sysenter
