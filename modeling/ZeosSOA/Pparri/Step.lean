import ZeosSOA.Pparri.Sys
import ZeosSOA.Runs

/-!
# zeOSpparri: the running system

The machine boots into task 1. From then on an event is a clock interrupt or a system
call of the current task; `cpu_idle`, which idle runs, makes none.
-/

namespace ZeosSOA.Pparri.Kernel

open Intrusive

/-- Static data before `main`: all zero, with `ram` in the frames. -/
def powerOn (ram : Nat → Nat → UInt32) : Kernel where
  links := ⟨fun _ => none, fun _ => none⟩
  task := fun _ =>
    { PID := 0, dirPagesBaseAddr := none, kernelEsp := none, quantum := 0, status := .run, pendingUnblocks := 0
      dad := none }
  current := 0
  idleTask := none
  qticks := 0
  mm := ⟨fun _ => .free, fun _ => .zero, ram⟩
  sumPID := 2
  zeosTicks := 0
  esp := none

def initMm (s : Kernel) : Kernel := (s.setMm s.mm.initTablePages.initFrames).allocateDIR 0

def main (ram : Nat → Nat → UInt32) : Option Kernel := do
  let s ← (powerOn ram).initMm.initSched
  let s ← s.initIdle
  s.initTask1

theorem main_isSome (ram : Nat → Nat → UInt32) : (main ram).isSome = true := rfl

/-- The kernel when control passes to task 1. -/
def boot (ram : Nat → Nat → UInt32) : Kernel := (main ram).get (main_isSome ram)

def clockRoutine (s : Kernel) (ebp : Nat) : Option Kernel := { s with zeosTicks := s.zeosTicks + 1 }.scheduler ebp

inductive Op where
  | clock
  | fork
  | exit
  | block
  | unblock (pid : Int)
  deriving DecidableEq

/-- `ebp` is the frame pointer a task switch saves, as an offset in the kernel stack of the current
task; `foreign` is what a walk finds as a PID in front of a list head. -/
structure Event where
  op : Op
  ebp : Nat
  foreign : Queue → Int

def handle (s : Kernel) (e : Event) : Option (Int × Kernel) :=
  match e.op with
  | .clock => (s.clockRoutine e.ebp).map fun s => (0, s)
  | .fork => s.sysFork
  | .exit => (s.sysExit e.ebp).map fun s => (0, s)
  | .block => (s.sysBlock e.ebp).map fun s => (0, s)
  | .unblock pid => s.sysUnblock pid e.foreign

/-- One event with its result; `none` also when idle, which makes no system calls, is to make one. -/
def call (s : Kernel) (e : Event) : Option (Int × Kernel) :=
  if e.op ≠ .clock ∧ s.idleTask = some s.current then none else s.handle e

def step (s : Kernel) (e : Event) : Option Kernel := (s.call e).map Prod.snd

theorem step_some {s s' : Kernel} {e : Event} (hs : s.step e = some s') :
    ∃ r, s.call e = some r ∧ s.handle e = some r ∧ r.2 = s' := by
  obtain ⟨r, hr, rfl⟩ := Option.map_eq_some_iff.mp hs
  refine ⟨r, hr, ?_, rfl⟩
  unfold call at hr
  split at hr
  · cases hr
  · exact hr

theorem call_ne_idle {s : Kernel} {e : Event} {r : Int × Kernel} (h : s.call e = some r) (hop : e.op ≠ .clock) :
    s.idleTask ≠ some s.current := by
  unfold call at h
  split at h
  · cases h
  · rename_i hn
    exact fun hi => hn ⟨hop, hi⟩

end ZeosSOA.Pparri.Kernel
