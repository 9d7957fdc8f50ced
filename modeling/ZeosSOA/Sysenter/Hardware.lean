import ZeosSOA.MmRuns
import ZeosSOA.Sysenter.Contents

/-!
# ZeOSSysenter: private memory through the tables in memory

A program loads and stores without the kernel: the hardware walks the tables whose bytes the kernel has written. Where
these hold what the kernel's state says, the stores of a program are those of `userStore`, and its loads find in the data
and stack pages what the process itself stored there. The hardware walks the tables for each access and keeps no translation.
-/

namespace ZeosSOA.Sysenter

open X86 Paging Mm Runs Spaces

/-- A word of a page, or of a frame. -/
def wordAddress (page word : Nat) : UInt32 := cell (.ofNat (4096 * page)) word

/-- The machine runs the current task, and in its memory is what the kernel's state says. -/
structure Kernel.InBytes (L : Layout) (s : Kernel) (x : Paging.Machine) : Prop where
  holds : ∃ dir, Holds L x.mem dir s.mm ∧ Dirs L dir
  cr3 : ∀ pt, s.getPT s.current = some pt → x.cr3 = L.dir pt
  paging : x.paging = true

def hardwareStore (x : Paging.Machine) (p : Nat × Fin 1024 × UInt32) : Option Paging.Machine :=
  x.storeWord true (wordAddress p.1 p.2.1) p.2.2

/-- A store by the hardware, as it happens to the kernel. -/
def Happening.ofStore (p : Nat × Fin 1024 × UInt32) : Happening := .store p.1 p.2.1 p.2.2

section
variable {L : Layout} {s s' : Kernel} {x x' : Paging.Machine} {pt page word : Nat} {v : UInt32}

theorem lookup_word (mm : Mm) (pt : Nat) (acc : Access) (hp : page < totalPages) (hw : word < 1024) :
    (mm.lookup pt acc (wordAddress page word).toNat).map .ofNat =
      if (mm.entry pt page).allows acc then some (wordAddress (mm.entry pt page).pbaseAddr word) else none := by
  simp only [totalPages] at hp
  have hnum : (wordAddress page word).toNat = 4096 * page + 4 * word := frame_toNat (by omega) hw
  have hdiv : (4096 * page + 4 * word) / pageSize = page := by
    simp only [pageSize]
    omega
  have hmod : (4096 * page + 4 * word) % pageSize = 4 * word := by
    simp only [pageSize]
    omega
  rw [hnum, Mm.lookup, hdiv, hmod]
  by_cases hall : (mm.entry pt page).allows acc = true
  · have haddr : UInt32.ofNat ((mm.entry pt page).pbaseAddr * pageSize + 4 * word) =
        wordAddress (mm.entry pt page).pbaseAddr word := by
      rw [wordAddress, cell, UInt32.ofNat_add, UInt32.ofNat_mul 4 word, Nat.mul_comm]
      rfl
    rw [if_pos ⟨hp, hall⟩, if_pos hall, Option.map_some, haddr]
  · rw [if_neg hall, if_neg fun e => hall e.2, Option.map_none]

namespace Kernel.InBytes

theorem translate (h : s.InBytes L x) (hpt : s.getPT s.current = some pt) (hlt : pt < nrTasks) (acc : Access)
    (hp : page < totalPages) (hw : word < 1024) : x.translate acc (wordAddress page word) =
      if (s.mm.entry pt page).allows acc then some (wordAddress (s.mm.entry pt page).pbaseAddr word) else none := by
  obtain ⟨dir, hh, hd⟩ := h.holds
  rw [Machine.translate, h.paging, if_pos rfl, h.cr3 pt hpt, hh.walk hd hlt, lookup_word s.mm pt acc hp hw]

theorem base_lt (h : s.InBytes L x) (hlt : pt < nrTasks) (hp : page < totalPages) :
    (s.mm.entry pt page).pbaseAddr < 2 ^ 20 := by
  obtain ⟨dir, hh, -⟩ := h.holds
  rw [Mm.entry, ← hh.table _ (by simp only [nrTasks, totalPages, entries] at *; omega)]
  exact pbaseAddr_lt _

/-- A load through a page whose frame is not the kernel's. -/
theorem loadWord (h : s.InBytes L x) (hpt : s.getPT s.current = some pt) (hlt : pt < nrTasks) (hp : page < totalPages)
    (hw : word < 1024) (hall : (s.mm.entry pt page).allows ⟨true, false⟩ = true)
    (hf : numPagKernel ≤ (s.mm.entry pt page).pbaseAddr) :
    x.loadWord true (wordAddress page word) = some (s.mm.ram (s.mm.entry pt page).pbaseAddr word) := by
  obtain ⟨dir, hh, -⟩ := h.holds
  rw [Machine.loadWord, h.translate hpt hlt _ hp hw, if_pos hall]
  exact congrArg some (hh.ram _ hf (h.base_lt hlt hp) word hw)

theorem storeWord (h : s.InBytes L x) (hpt : s.getPT s.current = some pt) (hlt : pt < nrTasks) (hp : page < totalPages)
    (hw : word < 1024) (v : UInt32) : x.storeWord true (wordAddress page word) v =
      if (s.mm.entry pt page).allows ⟨true, true⟩ then
        some (x.withMem (store x.mem (wordAddress (s.mm.entry pt page).pbaseAddr word) v))
      else none := by
  rw [Machine.storeWord, h.translate hpt hlt _ hp hw]
  split <;> rfl

theorem stored (h : s.InBytes L x) (hlt : pt < nrTasks) (hp : page < totalPages) (hw : word < 1024) (v : UInt32)
    (hf : numPagKernel ≤ (s.mm.entry pt page).pbaseAddr) :
    (s.setMm (Sysenter.stored s.mm (s.mm.entry pt page).pbaseAddr word v)).InBytes L
      (x.withMem (store x.mem (wordAddress (s.mm.entry pt page).pbaseAddr word) v)) := by
  obtain ⟨dir, hh, hd⟩ := h.holds
  exact ⟨⟨dir, hh.setWord hf (h.base_lt hlt hp) hw v, hd⟩, h.cr3, h.paging⟩

end Kernel.InBytes

theorem userStore_eq (hi : s.idleTask ≠ some s.current) (hpt : s.getPT s.current = some pt) (hp : page < totalPages) :
    s.userStore page word v = if (s.mm.entry pt page).allows ⟨true, true⟩ then
      some (s.setMm (stored s.mm (s.mm.entry pt page).pbaseAddr word v)) else none := by
  rw [Kernel.userStore, if_neg hi, hpt, Option.bind_eq_bind, Option.bind_some, writeWord]
  by_cases hpres : (s.mm.entry pt page).present = true
  · rw [translate_of_present hp hpres]
    simp only [PageTableEntry.allows, hpres, Bool.true_and, Bool.not_true, Bool.false_or, Bool.and_eq_true]
    rfl
  · have htr : s.mm.translate pt page = none := if_neg fun e => hpres e.2
    rw [htr]
    simp [PageTableEntry.allows, hpres]

/-! ## Runs of stores -/

variable {mc : Machine} {a : AbsKernel} {as : List Act} {ws : List (Nat × Fin 1024 × UInt32)}

theorem Chronicled.ownFrame (h : Chronicled mc (as, s) a) (hpt : pt < nrTasks) (hp : OwnPage page)
    (hpres : (s.mm.entry pt page).present = true) : numPagKernel ≤ (s.mm.entry pt page).pbaseAddr := by
  have hrep : Rep s a := h.rep
  rw [hrep.mm] at hpres ⊢
  exact (mem_candidates.mp (h.owning.mm.frame pt hpt page hp hpres).1).1

/-- What the hardware stores is what the state's `userStore` does. -/
theorem Chronicled.hardwareStore (h : Chronicled mc (as, s) a) (hi : s.idleTask ≠ some s.current) (hx : s.InBytes L x)
    {p : Nat × Fin 1024 × UInt32} (hp : OwnPage p.1) (hs : hardwareStore x p = some x') :
    ∃ s', s.happen (.ofStore p) = some s' ∧ s'.InBytes L x' ∧ s'.idleTask ≠ some s'.current := by
  have hpt := h.currentTable hi
  have hlt := s.current.isLt
  rw [Sysenter.hardwareStore, hx.storeWord hpt hlt hp.lt p.2.1.isLt] at hs
  by_cases hall : (s.mm.entry s.current.val p.1).allows ⟨true, true⟩ = true
  · rw [if_pos hall] at hs
    obtain rfl := Option.some.inj hs
    have hf := h.ownFrame hlt hp (Bool.and_eq_true_iff.mp hall).1
    exact ⟨_, (userStore_eq hi hpt hp.lt).trans (if_pos hall), hx.stored hlt hp.lt p.2.1.isLt p.2.2 hf, hi⟩
  · rw [if_neg hall] at hs
    cases hs

theorem Chronicled.hardwareStore_isSome (h : Chronicled mc (as, s) a) (hi : s.idleTask ≠ some s.current)
    (hx : s.InBytes L x) {p : Nat × Fin 1024 × UInt32} (hp : OwnPage p.1) :
    (Sysenter.hardwareStore x p).isSome = (s.happen (.ofStore p)).isSome := by
  have hpt := h.currentTable hi
  have huser : s.happen (.ofStore p) = _ := userStore_eq hi hpt hp.lt
  rw [huser, Sysenter.hardwareStore, hx.storeWord hpt s.current.isLt hp.lt p.2.1.isLt]
  split <;> rfl

theorem Chronicled.hardwareStores (h : Chronicled mc (as, s) a) (hi : s.idleTask ≠ some s.current) (hx : s.InBytes L x)
    (hw : ∀ p ∈ ws, OwnPage p.1) (hrun : ws.foldlM Sysenter.hardwareStore x = some x') :
    ∃ as' s' b, exec Kernel.chronicle (as, s) (ws.map .ofStore) = some (as', s') ∧ Chronicled mc (as', s') b ∧
      s'.InBytes L x' ∧ s'.idleTask ≠ some s'.current := by
  induction ws generalizing as s x a with
  | nil =>
    obtain rfl := Option.some.inj hrun
    exact ⟨as, s, a, rfl, h, hx, hi⟩
  | cons p ws ih =>
    rw [List.foldlM_cons] at hrun
    obtain ⟨x₁, hx₁, hrun⟩ := Option.bind_eq_some_iff.mp hrun
    have hp := hw p List.mem_cons_self
    obtain ⟨s₁, hs₁, hin, hi₁⟩ := h.hardwareStore hi hx hp hx₁
    obtain ⟨b₁, h₁⟩ := h.store hp hs₁
    obtain ⟨as', s', b, he, h'⟩ := ih h₁ hi₁ hin (fun q hq => hw q (List.mem_cons_of_mem p hq)) hrun
    refine ⟨as', s', b, exec_cons.mpr ⟨_, ?_, he⟩, h'⟩
    exact Option.map_eq_some_iff.mpr ⟨s₁, hs₁, rfl⟩

/-- What the hardware loads is what the process stored. -/
theorem Chronicled.hardwareLoad (h : Chronicled mc (as, s) a) (hi : s.idleTask ≠ some s.current) (hx : s.InBytes L x)
    (k : Fin numPagData) (w : Fin 1024) : x.loadWord true (wordAddress (pagLogInitData + k) w) =
      some (replay (Kernel.firstContents mc) as (s.task s.current).PID k w) := by
  have hrep : Rep s a := h.rep
  have hcur := AbsKernel.runs_current (hrep.not_idle.mp hi)
  have hpt := h.currentTable hi
  have hlt := s.current.isLt
  obtain ⟨f, hf⟩ := h.housed.pages a.current hcur k k.isLt
  rw [← hrep.current, ← hrep.mm] at hf
  have hpage := ownPage_data k.isLt
  rw [hx.loadWord hpt hlt hpage.lt w.isLt (by rw [hf]; rfl) (h.ownFrame hlt hpage (by rw [hf]))]
  have hholds := h.housed.shown.holds a.current hcur k w
  rw [← hrep.current, ← pid_eq hrep, ← hrep.mm] at hholds
  exact congrArg some hholds

end

/-- Wherever a run has brought the kernel, as long as the bytes of the machine hold what its state says, what a program
stores in its pages through the hardware is what the run goes on with, and in its data and stack pages it loads what the
process itself stored there. -/
theorem memory_private_bytes (mc : Machine) {hs : List Happening} (hall : ∀ h ∈ hs, h.Allowed) {as : List Act}
    {s : Kernel} (he : exec Kernel.chronicle ([], Kernel.boot mc) hs = some (as, s)) (hi : s.idleTask ≠ some s.current)
    {L : Layout} {x x' : Paging.Machine} (hx : s.InBytes L x) {ws : List (Nat × Fin 1024 × UInt32)}
    (hw : ∀ p ∈ ws, OwnPage p.1) (hrun : ws.foldlM hardwareStore x = some x') :
    ∃ as' s', exec Kernel.chronicle ([], Kernel.boot mc) (hs ++ ws.map .ofStore) = some (as', s') ∧ s'.InBytes L x' ∧
      (∀ p, OwnPage p.1 → (hardwareStore x' p).isSome = (s'.happen (.ofStore p)).isSome) ∧
      ∀ (k : Fin numPagData) (w : Fin 1024), x'.loadWord true (wordAddress (pagLogInitData + k) w) =
        some (replay (Kernel.firstContents mc) as' (s'.task s'.current).PID k w) := by
  obtain ⟨a, h⟩ := exec_chronicled mc hall he
  obtain ⟨as', s', b, he', h', hx', hi'⟩ := h.hardwareStores hi hx hw hrun
  exact ⟨as', s', exec_append.mpr ⟨_, he, he'⟩, hx', fun p hp => h'.hardwareStore_isSome hi' hx' hp,
    h'.hardwareLoad hi' hx'⟩

/-! ## Start-up -/

/-- After `init_mm`, `set_user_pages` for task 1 and its `set_cr3` the bytes hold what the booted kernel's state says. -/
theorem boot_inBytes (mc : Machine) {L : Layout} (hg : L.guards = [mc.image.first, mc.image.first + 11]) {m : Memory}
    {dir : Nat → PageTableEntry} (h : Holds L m dir (Kernel.powerOn mc).mm)
    (hdir : ∀ t < nrTasks, ∀ i, 0 < i → i < totalPages → (dir (t * totalPages + i)).present = false) (cr3 : UInt32) :
    ∃ x, (MmC.initMm L ⟨m, cr3, false⟩).bind (fun x => MmC.setUserPages L x (L.dir 1)) = some x ∧
      (Kernel.boot mc).InBytes L { x with cr3 := L.dir 1 } := by
  have hstart : Unpaged L dir ⟨m, cr3, false⟩ (Kernel.powerOn mc).mm := ⟨rfl, h⟩
  obtain ⟨x₁, hx₁, h₁⟩ := hstart.initMm hdir
  obtain ⟨x₂, hx₂, h₂⟩ := h₁.setUserPages (t := 1) (by decide)
  have hmm : (Kernel.boot mc).mm = Mm.setUserPages MmC.pagLogInitCode MmC.pagLogInitData
      ((Kernel.powerOn mc).mm.initial L.guards) 1 := by
    have hcode : MmC.pagLogInitCode = pagLogInitCode := rfl
    have hdata : MmC.pagLogInitData = pagLogInitData := rfl
    rw [← bootAbs_mm, boot_mm, hg, Mm.initial, List.foldl_cons, List.foldl_cons, List.foldl_nil, hcode, hdata]
  refine ⟨x₂, by rw [hx₁, Option.bind_some, hx₂], ?_, fun pt hpt => ?_, h₂.paging⟩
  · rw [hmm]
    exact h₂.holds
  · obtain rfl : 1 = pt := Option.some.inj hpt
    rfl

/-- The addresses of `Layout.linked`, with the task array at page 100. -/
def guardedLayout : Layout := { Layout.linked with
  guards := [100, 111]
  dirIn := ⟨by decide, by decide, by decide⟩
  tableIn := ⟨by decide, by decide, by decide⟩
  physIn := ⟨by decide, by decide, by decide⟩
  guard := by decide }

/-- Task 1 stores a word and finds it, and zeros elsewhere. -/
theorem memory_private_bytes_store : ∃ x x', hardwareStore x (264, 0, 7) = some x' ∧
    x'.loadWord true (wordAddress 264 0) = some 7 ∧ x'.loadWord true (wordAddress 265 3) = some 0 := by
  obtain ⟨x, -, hx⟩ := boot_inBytes .blank (L := guardedLayout) rfl (holds_blank _) (fun _ _ _ _ _ => rfl) 0
  have hown : OwnPage 264 := .inl ⟨by decide, by decide⟩
  have hi : (Kernel.boot .blank).idleTask ≠ some (Kernel.boot .blank).current := by decide +kernel
  have hstore : (hardwareStore { x with cr3 := guardedLayout.dir 1 } (264, 0, 7)).isSome = true := by
    rw [(boot_chronicled .blank).hardwareStore_isSome hi hx hown]
    decide +kernel
  obtain ⟨x', hx'⟩ := Option.isSome_iff_exists.mp hstore
  have hall : ∀ h ∈ ([] : List Happening), h.Allowed := fun _ h => absurd h List.not_mem_nil
  have hw : ∀ p ∈ [((264 : Nat), (0 : Fin 1024), (7 : UInt32))], OwnPage p.1 := by
    intro p hp
    rw [List.mem_singleton.mp hp]
    exact hown
  have hrun : List.foldlM hardwareStore { x with cr3 := guardedLayout.dir 1 } [(264, 0, 7)] = some x' := by
    rw [List.foldlM_cons, hx']
    rfl
  obtain ⟨as', s', he, -, -, hload⟩ := memory_private_bytes .blank hall rfl hi hx hw hrun
  have hvalue : (exec Kernel.chronicle ([], Kernel.boot .blank) [.ofStore (264, 0, 7)]).all (fun y =>
      decide (replay (Kernel.firstContents .blank) y.1 (y.2.task y.2.current).PID 0 0 = 7 ∧
        replay (Kernel.firstContents .blank) y.1 (y.2.task y.2.current).PID 1 3 = 0)) = true := by
    decide +kernel
  rw [show exec Kernel.chronicle ([], Kernel.boot .blank) [.ofStore (264, 0, 7)] = some (as', s') from he] at hvalue
  obtain ⟨h0, h3⟩ := of_decide_eq_true hvalue
  exact ⟨_, x', hx', (hload 0 0).trans (congrArg some h0), (hload 1 3).trans (congrArg some h3)⟩

end ZeosSOA.Sysenter
