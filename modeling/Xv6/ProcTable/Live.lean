import Xv6.ProcTable.Model

/-!
# The live part of the process table

What a step shows, and the live part of the table it leaves, depend only on the live part of the
table before; several fields of a slot survive `freeproc` and `allocproc`.
-/

namespace Xv6.ProcTable

open Function

variable {Mem : Type} {α : Type}

/-! ## One slot -/

namespace Proc

open Memory (Vma)
open Sched (ProcState lsWeight)

@[simp]
theorem liveVma_used (v : Vma) : (liveVma v).used = v.used := by
  unfold liveVma
  split
  · rfl
  · next unused => simpa using unused

@[simp]
theorem liveVma_liveVma (v : Vma) : liveVma (liveVma v) = liveVma v := by
  conv_lhs => rw [liveVma, liveVma_used]
  unfold liveVma
  split <;> rfl

theorem liveVma_of_unused {v : Vma} (unused : v.used = false) : liveVma v = {} := by
  simp [liveVma, unused]

@[simp]
theorem live_state (p : Proc Mem) : p.live.state = p.state := rfl

@[simp]
theorem live_parent (p : Proc Mem) : p.live.parent = p.parent := rfl

@[simp]
theorem whileOccupied_idem (state : ProcState) (blank value : α) :
    whileOccupied state blank (whileOccupied state blank value) =
      whileOccupied state blank value := by
  unfold whileOccupied
  split <;> rfl

@[simp]
theorem whileRunnable_idem (state : ProcState) (value : BitVec 64) :
    whileRunnable state (whileRunnable state value) = whileRunnable state value := by
  unfold whileRunnable
  split <;> rfl

@[simp]
theorem whileOccupied_unused (blank value : α) : whileOccupied .unused blank value = blank := rfl

theorem whileOccupied_of_ne {state : ProcState} (blank value : α)
    (occupied : state ≠ .unused) : whileOccupied state blank value = value :=
  if_neg occupied

@[simp]
theorem whileRunnable_runnable (value : BitVec 64) : whileRunnable .runnable value = value := rfl

theorem live_live (p : Proc Mem) : p.live.live = p.live := by
  simp [live]

theorem freeproc_live (p : Proc Mem) : p.live.freeproc.live = p.freeproc.live := by
  simp [live, freeproc, whileRunnable]

theorem allocproc_live (p : Proc Mem) (pid : Int) (frame : Option Trapframe) (table : Option Mem) :
    Prod.map id live (p.live.allocproc pid frame table) =
      Prod.map id live (p.allocproc pid frame table) := by
  rcases frame with _ | frame
  · simp [live, freeproc, allocproc, whileRunnable]
  · rcases table with _ | table
    · simp [live, freeproc, allocproc, whileRunnable]
    · simp [live, allocproc, liveVma_of_unused, whileRunnable]

theorem copyFrom_live (child p : Proc Mem) (copied : Mem) :
    (child.live.copyFrom p.live copied).live = (child.copyFrom p copied).live := by
  have vmas : ∀ i, liveVma
      (if (p.vmas i).used then liveVma (p.vmas i) else liveVma (child.vmas i)) =
      liveVma (if (p.vmas i).used then p.vmas i else child.vmas i) := by
    intro i
    split <;> simp
  simp [live, copyFrom, vmas]

section

variable (p : Proc Mem)

theorem markRunnable_live (seq : BitVec 64) (ticks : BitVec 32) (occupied : p.state ≠ .unused) :
    (p.live.markRunnable seq ticks).live = (p.markRunnable seq ticks).live := by
  simp [live, markRunnable, whileOccupied_of_ne _ _ occupied]

theorem dispatch_live (ticks : BitVec 32) (waiting : p.state = .runnable) :
    (p.live.dispatch ticks).live = (p.dispatch ticks).live := by
  simp only [dispatch, live, waiting, whileRunnable_runnable, whileOccupied, Sched.closeWait]
  by_cases asleep : p.context = .sleep <;> simp [asleep]

theorem close_live : p.live.close.live = p.close.live := by
  simp [live, close, liveVma_of_unused]

theorem store_live (write : Store Mem) : (p.live.store write).live = (p.store write).live := by
  cases write with
  | vma i value =>
    have vmas : ∀ j, liveVma (update (fun j => liveVma (p.vmas j)) i value j) =
        liveVma (update p.vmas i value j) := by
      intro j
      by_cases same : j = i
      · subst same
        simp
      · simp [update_of_ne same]
    simp [live, store, vmas]
  | _ => simp [live, store]

theorem stats_live (ticks : BitVec 32) (occupied : p.state ≠ .unused) :
    p.live.stats ticks = p.stats ticks := by
  by_cases waiting : p.state = .runnable
  · simp [stats, live, waiting, whileOccupied]
  · simp [stats, live, waiting, whileOccupied_of_ne _ _ occupied]

theorem lsWeight_live (occupied : p.state ≠ .unused) :
    lsWeight p.live.toProc = lsWeight p.toProc := by
  simp [lsWeight, live, whileOccupied_of_ne _ _ occupied]

end

end Proc

/-! ## The table -/

namespace Kernel

def live (k : Kernel Mem) : Kernel Mem := { k with proc := fun i => (k.proc i).live }

section

variable (k : Kernel Mem)
include k

@[simp]
theorem live_proc (i : Slot) : k.live.proc i = (k.proc i).live := rfl

@[simp]
theorem live_position : k.live.position = k.position := rfl

@[simp]
theorem live_initproc : k.live.initproc = k.initproc := rfl

@[simp]
theorem live_nextPid : k.live.nextPid = k.nextPid := rfl

theorem live_live : k.live.live = k.live := by
  simp [live, Proc.live_live]

theorem live_set_congr (i : Slot) {p q : Proc Mem}
    (alike : q.live = p.live) : (k.live.set i q).live = (k.set i p).live := by
  have slots : ∀ j, (update (fun j => (k.proc j).live) i q j).live =
      (update k.proc i p j).live := by
    intro j
    by_cases same : j = i
    · subst same
      simpa using alike
    · simp [update_of_ne same, Proc.live_live]
  simp [live, set, slots]

theorem markRunnable_live (i : Slot) (occupied : (k.proc i).state ≠ .unused) :
    (k.live.markRunnable i).live = (k.markRunnable i).live := by
  have slots := live_set_congr k i (Proc.markRunnable_live (k.proc i) k.nextSeq k.ticks occupied)
  have weight := Proc.lsWeight_live (k.proc i) occupied
  simp only [live, set, Kernel.mk.injEq] at slots
  simp [live, markRunnable, set, slots.1, weight]

end

theorem fork_live (child p : Proc Mem) (pid : Int) (frame : Option Trapframe)
    (table copied : Option Mem) :
    Prod.map id Proc.live (child.live.fork p.live pid frame table copied) =
      Prod.map id Proc.live (child.fork p pid frame table copied) := by
  have alloc := Proc.allocproc_live child pid frame table
  unfold Proc.fork
  rcases left : child.live.allocproc pid frame table with ⟨made, new⟩
  rcases right : child.allocproc pid frame table with ⟨made', new'⟩
  rw [left, right, Prod.map_apply, Prod.map_apply, Prod.mk.injEq] at alloc
  obtain ⟨rfl : made = made', alike⟩ := alloc
  cases made with
  | false => simpa using alike
  | true =>
    cases copied with
    | none =>
      have freed : new.freeproc.live = new'.freeproc.live := by
        rw [← Proc.freeproc_live new, alike, Proc.freeproc_live]
      simpa using freed
    | some copied =>
      have child' := Proc.copyFrom_live new' p copied
      have parent := Proc.copyFrom_live new p.live copied
      rw [Proc.live_live, alike, child'] at parent
      simpa using parent.symm

theorem kfork_live (k : Kernel Mem) (p child : Slot) (frame : Option Trapframe)
    (table copied : Option Mem) :
    Prod.map id live (k.live.kfork p child frame table copied) =
      Prod.map id live (k.kfork p child frame table copied) := by
  have fork := fork_live (k.proc child) (k.proc p) k.nextPid frame table copied
  simp only [kfork, live_proc, live_nextPid]
  rcases left : (k.proc child).live.fork (k.proc p).live k.nextPid frame table copied
    with ⟨made, new⟩
  rcases right : (k.proc child).fork (k.proc p) k.nextPid frame table copied
    with ⟨made', new'⟩
  rw [left, right, Prod.map_apply, Prod.map_apply, Prod.mk.injEq] at fork
  obtain ⟨rfl : made = made', alike⟩ := fork
  have slots := live_set_congr { k with nextPid := k.nextPid + 1 } child alike
  cases made with
  | false => exact congrArg (Prod.mk _) slots
  | true => exact congrArg (fun next => (_, moveTo next child (.newborn p))) slots

private theorem apply_ite_congr {α β : Type*} (f : α → β) {c d : Prop}
    [Decidable c] [Decidable d] (same : c ↔ d) {yes yes' no no' : α}
    (whenYes : d → f yes = f yes') (whenNo : ¬ d → f no = f no') :
    f (if c then yes else no) = f (if d then yes' else no') := by
  by_cases test : d
  · rw [if_pos (same.mpr test), if_pos test, whenYes test]
  · rw [if_neg (mt same.mp test), if_neg test, whenNo test]

private theorem guarded_congr {α β : Type*} (f : α → β) {c d : Prop}
    [Decidable c] [Decidable d] (same : c ↔ d) {result result' : α}
    (agree : d → f result = f result') :
    (if c then some result else none).map f = (if d then some result' else none).map f :=
  apply_ite_congr (Option.map f) same (fun test => congrArg some (agree test)) (fun _ => rfl)

section

variable (k : Kernel Mem)
include k

theorem kwait_live (p i : Slot) (copied : Bool) : Prod.map id live (k.live.kwait p i copied) =
      Prod.map id live (k.kwait p i copied) := by
  apply apply_ite_congr _ Iff.rfl
  · intro _
    apply apply_ite_congr _ Iff.rfl
    · intro _
      apply apply_ite_congr _ Iff.rfl
      · intro _
        exact congrArg (Prod.mk _) (live_set_congr k i (Proc.freeproc_live (k.proc i)))
      · exact fun _ => congrArg (Prod.mk _) (live_live k)
    · exact fun _ => congrArg (Prod.mk _) (live_live k)
  · exact fun _ => congrArg (Prod.mk _) (live_live k)

theorem wakeup_live (i : Slot) (chan : Nat) :
    (k.live.wakeup i chan).live = (k.wakeup i chan).live := by
  apply apply_ite_congr _ Iff.rfl
  · intro (asleep : (k.proc i).state = .sleeping ∧ _)
    exact markRunnable_live k i (by simp [asleep.1])
  · exact fun _ => live_live k

theorem markRunnable_set_live (i : Slot) {p q : Proc Mem}
    (alike : q.live = p.live) (occupied : p.state ≠ .unused) :
    ((k.live.set i q).markRunnable i).live = ((k.set i p).markRunnable i).live := by
  have state : q.state = p.state := by
    rw [← Proc.live_state q, alike, Proc.live_state]
  have left := markRunnable_live (k.live.set i q) i (by simpa [set, state])
  have right := markRunnable_live (k.set i p) i (by simpa [set])
  rw [← left, live_set_congr k i alike, right]

theorem kkill_live (i : Slot) (pid : Int) :
    Prod.map id live (k.live.kkill i pid) = Prod.map id live (k.kkill i pid) := by
  have alike : ({ k.live.proc i with killed := true } : Proc Mem).live =
      ({ k.proc i with killed := true } : Proc Mem).live := by
    simp [Proc.live]
  apply apply_ite_congr _ Iff.rfl
  · intro _
    apply congrArg (Prod.mk _)
    apply apply_ite_congr _ Iff.rfl
    · intro (asleep : (k.proc i).state = .sleeping)
      exact markRunnable_set_live k i alike (by simp [asleep])
    · exact fun _ => live_set_congr k i alike
  · exact fun _ => congrArg (Prod.mk _) (live_live k)

theorem dispatch_live (i : Slot) : (k.live.dispatch i).live = (k.dispatch i).live := by
  apply apply_ite_congr _ Iff.rfl
  · intro (waiting : (k.proc i).state = .runnable)
    have slots := live_set_congr k i (Proc.dispatch_live (k.proc i) k.ticks waiting)
    have weight := Proc.lsWeight_live (k.proc i) (by simp [waiting])
    simp only [live, set, Kernel.mk.injEq] at slots
    simp [live, set, slots.1, weight]
  · exact fun _ => live_live k

theorem reparent_live (p : Slot) : (k.live.reparent p).live = (k.reparent p).live := by
  have slots : (k.live.reparent p).live.proc = (k.reparent p).live.proc := by
    funext i
    apply apply_ite_congr Proc.live Iff.rfl
    · intro _
      simp [Proc.live]
    · exact fun _ => Proc.live_live _
  exact congrArg (fun slots => { k with proc := slots }) slots

theorem setpriority_live (p : Slot) (level : Int) : Prod.map id live (k.live.setpriority p level) =
      Prod.map id live (k.setpriority p level) := by
  apply apply_ite_congr _ Iff.rfl
  · intro _
    exact congrArg (Prod.mk _) (live_set_congr k p (by simp [Proc.live]))
  · intro _
    apply apply_ite_congr _ Iff.rfl
    · intro _
      exact congrArg (Prod.mk _) (live_set_congr k p (by simp [Proc.live]))
    · exact fun _ => congrArg (Prod.mk _) (live_live k)

theorem schedStats_live (i : Slot) (pid : Int) : k.live.schedStats i pid = k.schedStats i pid := by
  apply apply_ite_congr id Iff.rfl
  · intro found
    exact congrArg Output.stats (Proc.stats_live _ _ found.2)
  · exact fun _ => rfl

theorem policyView_live : k.live.policyView = k.policyView := by
  funext i
  apply apply_ite_congr id Iff.rfl
  · intro (waiting : (k.proc i).state = .runnable)
    simp [Proc.live, waiting, Proc.whileOccupied]
  · exact fun _ => rfl

end

/-- Only a slot with a process in it is in the middle of `kfork` or `kexit`. -/
def Placed (k : Kernel Mem) : Prop := ∀ i, (k.proc i).state = .unused ∨ (k.proc i).state = .zombie →
    k.position i = .normal

theorem Placed.occupied {k : Kernel Mem} (placed : k.Placed) {i : Slot}
    (inside : k.position i ≠ .normal) : (k.proc i).state ≠ .unused :=
  fun unused => inside (placed i (Or.inl unused))

/-- A step shows the same and leaves the same live table, whatever the fields
that are not live contain. -/
theorem step_live {k : Kernel Mem} (placed : k.Placed) (e : Event Mem) :
    (k.live.step e).map (Prod.map id live) = (k.step e).map (Prod.map id live) := by
  cases e with
  | kfork p child frame table copied =>
    apply guarded_congr _ Iff.rfl
    exact fun _ => kfork_live k p child frame table copied
  | kforkParent p child =>
    apply guarded_congr _ Iff.rfl
    intro _
    exact congrArg (fun next => (_, moveTo next child .parented))
      (live_set_congr k child (by simp [Proc.live]))
  | kforkRunnable p child =>
    apply guarded_congr _ Iff.rfl
    intro guard
    exact congrArg (fun next => (_, moveTo next child .normal))
      (markRunnable_live k child (placed.occupied (by simp [← live_position, guard])))
  | kexitClose p =>
    apply guarded_congr _ Iff.rfl
    intro _
    exact congrArg (fun next => (_, moveTo next p .closed))
      (live_set_congr k p (Proc.close_live (k.proc p)))
  | kexitReparent p =>
    apply guarded_congr _ Iff.rfl
    intro _
    exact congrArg (fun next => (_, moveTo next p .reparented)) (reparent_live k p)
  | kexitZombie p status =>
    apply guarded_congr _ Iff.rfl
    intro (guard : (k.proc p).state = .running ∧ _)
    exact congrArg (fun next => (_, moveTo next p .normal)) (live_set_congr k p
        (by simp [Proc.live, guard.1, Proc.whileOccupied, Proc.whileRunnable]))
  | kwait p i copied =>
    apply guarded_congr _ Iff.rfl
    exact fun _ => kwait_live k p i copied
  | sleep p chan =>
    apply guarded_congr _ Iff.rfl
    intro (running : (k.proc p).state = .running)
    exact congrArg (Prod.mk _) (live_set_congr k p
      (by simp [Proc.live, running, Proc.whileOccupied, Proc.whileRunnable]))
  | wakeup i chan => exact congrArg (fun next => some (_, next)) (wakeup_live k i chan)
  | kkill i pid => exact congrArg some (kkill_live k i pid)
  | setkilled p =>
    apply guarded_congr _ Iff.rfl
    intro _
    exact congrArg (Prod.mk _) (live_set_congr k p (by simp [Proc.live]))
  | yield p =>
    apply guarded_congr _ Iff.rfl
    intro (running : (k.proc p).state = .running)
    exact congrArg (Prod.mk _) (markRunnable_set_live k p (by simp [Proc.live]) (by simp [running]))
  | pickNext =>
    exact congrArg some
      (congrArg₂ (fun view next => (Output.table view, next)) (policyView_live k) (live_live k))
  | dispatch i => exact congrArg (fun next => some (_, next)) (dispatch_live k i)
  | setpriority p level =>
    apply guarded_congr _ Iff.rfl
    exact fun _ => setpriority_live k p level
  | schedStats i pid =>
    exact congrArg some (congrArg₂ Prod.mk (schedStats_live k i pid) (live_live k))
  | clockintr =>
    exact congrArg (fun next => some (_, next)) (live_live { k with ticks := k.ticks + 1 })
  | countRunTick p =>
    apply guarded_congr _ Iff.rfl
    intro (running : (k.proc p).state = .running)
    exact congrArg (Prod.mk _) (live_set_congr k p
      (by simp [Proc.live, running, Proc.whileOccupied]))
  | store p write =>
    apply guarded_congr _ Iff.rfl
    intro _
    exact congrArg (Prod.mk _) (live_set_congr k p (Proc.store_live (k.proc p) write))
  | load p =>
    apply guarded_congr _ Iff.rfl
    intro _
    exact congrArg₂ (fun self next => (Output.self self, next))
      (Proc.live_live (k.proc p)) (live_live k)

end Kernel

end Xv6.ProcTable
