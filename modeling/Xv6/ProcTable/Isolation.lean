import Xv6.ProcTable.Live

/-!
# Isolation of process slots

No step depends on what is not live in the table, and the live part of an UNUSED slot is that of
a slot never used, unless a `kkill(0)` has found it.
-/

namespace Xv6.ProcTable

open Function

variable {Mem : Type}
variable {p q : Proc Mem} {i : Slot} {position position' : Position} {shown : Output Mem}
    {k' : Kernel Mem} {e : Event Mem}
variable {result : Output Mem × Kernel Mem} {parent : Proc Mem} {frame : Option Trapframe}
  {copied table : Option Mem} {forks polite : Prop} {k other : Kernel Mem}

/-! ## What a step can do to a slot -/

/-- The condition under which `kkill` spares the UNUSED slots: the slot whose
`pid` matches is not one of them. An UNUSED slot has `pid` 0, so only
`kkill(0)` can fail it. -/
def Event.Polite (k : Kernel Mem) : Event Mem → Prop
  | .kkill i pid => (k.proc i).pid = pid → (k.proc i).state ≠ .unused
  | _ => True

/-- The step is `kfork` and takes the slot `i`. -/
def Event.Forks (i : Slot) : Event Mem → Prop
  | .kfork _ child _ _ _ => child = i
  | _ => False

/-- The changes one step can make to one slot. -/
inductive SlotChange (polite forks : Prop) :
    Proc Mem → Position → Proc Mem → Position → Prop
  | keep (p : Proc Mem) (position : Position) : SlotChange polite forks p position p position
  | forkFailed (p parent : Proc Mem) (position : Position) (pid : Int)
      (frame : Option Trapframe) (table copied : Option Mem)
      (here : forks) (unused : p.state = .unused)
      (failed : (p.fork parent pid frame table copied).1 = false) :
      SlotChange polite forks p position (p.fork parent pid frame table copied).2 position
  | forked (p parent : Proc Mem) (position : Position) (forker : Slot) (pid : Int)
      (frame : Option Trapframe) (table copied : Option Mem)
      (here : forks) (unused : p.state = .unused)
      (made : (p.fork parent pid frame table copied).1 = true) :
      SlotChange polite forks p position (p.fork parent pid frame table copied).2 (.newborn forker)
  | parented (p : Proc Mem) (forker : Slot) :
      SlotChange polite forks p (.newborn forker) { p with parent := some forker } .parented
  | forkRunnable (p : Proc Mem) (seq : BitVec 64) (ticks : BitVec 32) :
      SlotChange polite forks p .parented (p.markRunnable seq ticks) .normal
  | closed (p : Proc Mem) (running : p.state = .running) :
      SlotChange polite forks p .normal p.close .closed
  | adopted (p : Proc Mem) (position : Position) (parent init : Slot)
      (orphan : p.parent = some parent) :
      SlotChange polite forks p position { p with parent := some init } position
  | reparented (p : Proc Mem) (parent : Option Slot) (running : p.state = .running) :
      SlotChange polite forks p .closed { p with parent := parent } .reparented
  | exited (p : Proc Mem) (status : BitVec 32) :
      SlotChange polite forks p .reparented { p with xstate := status, state := .zombie } .normal
  | freed (p : Proc Mem) (position : Position) (zombie : p.state = .zombie) :
      SlotChange polite forks p position p.freeproc position
  | slept (p : Proc Mem) (position : Position) (chan : Nat)
      (running : p.state = .running) :
      SlotChange polite forks p position
        { p with chan := chan, state := .sleeping, context := .sleep } position
  | woken (p : Proc Mem) (position : Position) (seq : BitVec 64) (ticks : BitVec 32)
      (asleep : p.state = .sleeping) :
      SlotChange polite forks p position (p.markRunnable seq ticks) position
  | killed (p : Proc Mem) (position : Position)
      (occupied : polite → p.state ≠ .unused) :
      SlotChange polite forks p position { p with killed := true } position
  | killedAsleep (p : Proc Mem) (position : Position) (seq : BitVec 64)
      (ticks : BitVec 32) (asleep : p.state = .sleeping) :
      SlotChange polite forks p position
        (Proc.markRunnable { p with killed := true } seq ticks) position
  | yielded (p : Proc Mem) (position : Position) (seq : BitVec 64)
      (ticks : BitVec 32) (running : p.state = .running) :
      SlotChange polite forks p position
        (Proc.markRunnable { p with context := .yield } seq ticks) position
  | dispatched (p : Proc Mem) (position : Position) (ticks : BitVec 32)
      (waiting : p.state = .runnable) :
      SlotChange polite forks p position (p.dispatch ticks) position
  | prioritised (p : Proc Mem) (position : Position) (priority : Sched.Priority)
      (running : p.state = .running) :
      SlotChange polite forks p position { p with priority := priority } position
  | counted (p : Proc Mem) (position : Position) (running : p.state = .running) :
      SlotChange polite forks p position { p with runTicksTotal := p.runTicksTotal + 1 } position
  | stored (p : Proc Mem) (write : Proc.Store Mem) (running : p.state = .running) :
      SlotChange polite forks p .normal (p.store write) .normal

namespace Kernel

/-- Every slot of `k'` comes from the same slot of `k` by one change. -/
def Changes (polite : Prop) (forks : Slot → Prop) (k k' : Kernel Mem) : Prop :=
  ∀ i, SlotChange polite (forks i) (k.proc i) (k.position i) (k'.proc i) (k'.position i)

section Changes

variable {forks : Slot → Prop}

theorem changes_self (k : Kernel Mem) : Changes polite forks k k := fun _ => .keep _ _

theorem changes_set
    (here : SlotChange polite (forks i) (k.proc i) (k.position i) p (k.position i)) :
    Changes polite forks k (k.set i p) := by
  intro j
  by_cases same : j = i
  · subst same
    simpa [set] using here
  · simpa [set, update_of_ne same] using SlotChange.keep _ _

theorem changes_setMoveTo
    (here : SlotChange polite (forks i) (k.proc i) (k.position i) p position) :
    Changes polite forks k ((k.set i p).moveTo i position) := by
  intro j
  by_cases same : j = i
  · subst same
    simpa [set, moveTo] using here
  · simpa [set, moveTo, update_of_ne same] using SlotChange.keep _ _

theorem changes_setMarkRunnable (here : SlotChange polite (forks i) (k.proc i) (k.position i)
      (p.markRunnable k.nextSeq k.ticks) (k.position i)) :
    Changes polite forks k ((k.set i p).markRunnable i) := by
  have marked := changes_set here
  simpa [Changes, markRunnable, set] using marked

theorem changes_kfork {p child : Slot} (frame : Option Trapframe)
    (table copied : Option Mem) (here : forks child) (unused : (k.proc child).state = .unused) :
    Changes polite forks k (k.kfork p child frame table copied).2 := by
  unfold kfork
  rcases outcome : (k.proc child).fork (k.proc p) k.nextPid frame table copied
    with ⟨made, new⟩
  have new_eq := congrArg Prod.snd outcome
  cases made with
  | false =>
    apply changes_set (k := { k with nextPid := k.nextPid + 1 })
    subst new_eq
    exact .forkFailed _ _ _ _ _ _ _ here unused (congrArg Prod.fst outcome)
  | true =>
    apply changes_setMoveTo (k := { k with nextPid := k.nextPid + 1 })
    subst new_eq
    exact .forked _ _ _ _ _ _ _ _ here unused (congrArg Prod.fst outcome)

theorem changes_kwait (p i : Slot) (copied : Bool) :
    Changes polite forks k (k.kwait p i copied).2 := by
  unfold kwait
  split
  · split
    · next zombie =>
      split
      · exact changes_set (.freed _ _ zombie)
      · exact changes_self k
    · exact changes_self k
  · exact changes_self k

theorem changes_wakeup (i : Slot) (chan : Nat) : Changes polite forks k (k.wakeup i chan) := by
  unfold wakeup
  split
  · next asleep => exact changes_set (.woken _ _ _ _ asleep.1)
  · exact changes_self k

theorem changes_kkill (i : Slot) (pid : Int)
    (spared : polite → (k.proc i).pid = pid → (k.proc i).state ≠ .unused) :
    Changes polite forks k (k.kkill i pid).2 := by
  unfold kkill
  split
  · next found =>
    split
    · next asleep =>
      exact changes_setMarkRunnable (.killedAsleep _ _ _ _ asleep)
    · exact changes_set (.killed _ _ fun considerate => spared considerate found)
  · exact changes_self k

theorem changes_dispatch (i : Slot) : Changes polite forks k (k.dispatch i) := by
  unfold dispatch
  split
  · next waiting => exact changes_set (.dispatched _ _ _ waiting)
  · exact changes_self k

theorem changes_setpriority {p : Slot} (level : Int) (running : (k.proc p).state = .running) :
    Changes polite forks k (k.setpriority p level).2 := by
  unfold setpriority
  split
  · exact changes_set (.prioritised _ _ _ running)
  · split
    · exact changes_set (.prioritised _ _ _ running)
    · exact changes_self k

theorem changes_reparent {p : Slot} (running : (k.proc p).state = .running)
    (here : k.position p = .closed) :
    Changes polite forks k ((k.reparent p).moveTo p .reparented) := by
  intro i
  by_cases same : i = p
  · subst same
    simp only [reparent, moveTo, update_self, here]
    split
    · exact .reparented _ _ running
    · exact .reparented (k.proc i) (k.proc i).parent running
  · simp only [reparent, moveTo, update_of_ne same]
    split
    · next orphan => exact .adopted _ _ _ _ orphan
    · exact .keep _ _

private theorem enabled {guard : Prop} [Decidable guard]
    (step : (if guard then some result else none) = some (shown, k')) :
    guard ∧ result.2 = k' := by
  rw [Option.ite_none_right_eq_some, Option.some.injEq] at step
  exact ⟨step.1, congrArg Prod.snd step.2⟩

private theorem shown_next (step : some result = some (shown, k')) : result.2 = k' :=
  congrArg Prod.snd (Option.some.inj step)

theorem changes_step (step : k.step e = some (shown, k')) : Changes (e.Polite k) e.Forks k k' := by
  cases e with
  | kfork p child frame table copied =>
    obtain ⟨guard, rfl⟩ := enabled step
    exact changes_kfork frame table copied rfl guard.2
  | kforkParent p child =>
    obtain ⟨guard, rfl⟩ := enabled step
    apply changes_setMoveTo
    rw [guard.2]
    exact .parented _ p
  | kforkRunnable p child =>
    obtain ⟨guard, rfl⟩ := enabled step
    apply changes_setMoveTo
    rw [guard.2.1]
    exact .forkRunnable _ _ _
  | kexitClose p =>
    obtain ⟨guard, rfl⟩ := enabled step
    apply changes_setMoveTo
    rw [guard.1.2]
    exact .closed _ guard.1.1
  | kexitReparent p =>
    obtain ⟨guard, rfl⟩ := enabled step
    exact changes_reparent guard.1 guard.2
  | kexitZombie p status =>
    obtain ⟨guard, rfl⟩ := enabled step
    apply changes_setMoveTo
    rw [guard.2]
    exact .exited _ status
  | kwait p i copied =>
    obtain ⟨_, rfl⟩ := enabled step
    exact changes_kwait p i copied
  | sleep p chan =>
    obtain ⟨running, rfl⟩ := enabled step
    exact changes_set (.slept _ _ chan running)
  | wakeup i chan =>
    obtain rfl := shown_next step
    exact changes_wakeup i chan
  | kkill i pid =>
    obtain rfl := shown_next step
    exact changes_kkill i pid id
  | setkilled p =>
    obtain ⟨guard, rfl⟩ := enabled step
    exact changes_set (.killed _ _ fun _ => by simp [guard.1])
  | yield p =>
    obtain ⟨running, rfl⟩ := enabled step
    exact changes_setMarkRunnable (.yielded _ _ _ _ running)
  | pickNext | schedStats i pid | clockintr =>
    obtain rfl := shown_next step
    exact changes_self k
  | dispatch i =>
    obtain rfl := shown_next step
    exact changes_dispatch i
  | setpriority p level =>
    obtain ⟨guard, rfl⟩ := enabled step
    exact changes_setpriority level guard.1
  | countRunTick p =>
    obtain ⟨running, rfl⟩ := enabled step
    exact changes_set (.counted _ _ running)
  | store p write =>
    obtain ⟨guard, rfl⟩ := enabled step
    apply changes_set
    rw [guard.2]
    exact .stored _ write guard.1
  | load p =>
    obtain ⟨_, rfl⟩ := enabled step
    exact changes_self k

end Changes

end Kernel

/-! ## The invariant -/

/-- Nothing open: what `kexit` leaves. -/
structure Proc.Closed (p : Proc Mem) : Prop where
  ofile : p.ofile = fun _ => none
  cwd : p.cwd = none
  vmas : ∀ i, (p.vmas i).used = false

namespace Proc

theorem Closed.congr (closed : p.Closed) (ofile : q.ofile = p.ofile)
    (cwd : q.cwd = p.cwd) (vmas : ∀ i, (q.vmas i).used = (p.vmas i).used) : q.Closed where
  ofile := ofile.trans closed.ofile
  cwd := cwd.trans closed.cwd
  vmas := fun i => (vmas i).trans (closed.vmas i)

theorem closed_close (p : Proc Mem) : p.close.Closed := ⟨rfl, rfl, fun _ => rfl⟩

theorem closed_of_blank (blank : p.live = {}) : p.Closed where
  ofile := congrArg (·.ofile) blank
  cwd := congrArg (·.cwd) blank
  vmas := by
    intro i
    rw [← liveVma_used]
    exact congrArg (fun q => (q.vmas i).used) blank

theorem live_freeproc (closed : p.Closed) : p.freeproc.live = {} := by
  simp [live, freeproc, whileRunnable, closed.ofile, closed.cwd, liveVma_of_unused (closed.vmas _)]

theorem live_fork_of_failed {pid : Int} (closed : p.Closed)
    (failed : (p.fork parent pid frame table copied).1 = false) :
    (p.fork parent pid frame table copied).2.live = {} := by
  rcases frame with _ | frame
  · exact live_freeproc (closed.congr rfl rfl fun _ => rfl)
  · rcases table with _ | table
    · exact live_freeproc (closed.congr rfl rfl fun _ => rfl)
    · rcases copied with _ | copied
      · exact live_freeproc (closed.congr rfl rfl fun i => (closed.vmas i).symm)
      · cases failed

theorem fork_state_of_made {pid : Int} (made : (p.fork parent pid frame table copied).1 = true) :
    (p.fork parent pid frame table copied).2.state = .used := by
  rcases frame with _ | frame
  · cases made
  · rcases table with _ | table
    · cases made
    · rcases copied with _ | copied
      · cases made
      · rfl

theorem dispatch_state (p : Proc Mem) (ticks : BitVec 32) :
    (p.dispatch ticks).state = .running := by
  unfold dispatch
  split <;> rfl

theorem Closed.dispatch (closed : p.Closed) (ticks : BitVec 32) : (p.dispatch ticks).Closed := by
  unfold Proc.dispatch
  split <;> exact closed.congr rfl rfl fun _ => rfl

theorem store_state (p : Proc Mem) (write : Store Mem) : (p.store write).state = p.state := by
  cases write <;> rfl

end Proc

/-- What holds of one slot: an UNUSED one is blank, and a process past the
closing part of `kexit` has nothing open. -/
structure SlotInv (p : Proc Mem) (position : Position) : Prop where
  blank : p.state = .unused → p.live = {}
  closed : p.state = .zombie ∨ position = .closed ∨ position = .reparented → p.Closed

theorem SlotInv.alive (inv : SlotInv p position)
    (occupied : q.state ≠ .unused) (alive : q.state ≠ .zombie)
    (ofile : q.ofile = p.ofile) (cwd : q.cwd = p.cwd) (vmas : q.vmas = p.vmas) :
    SlotInv q position where
  blank := fun unused => absurd unused occupied
  closed := by
    rintro (zombie | exiting)
    · exact absurd zombie alive
    · exact (inv.closed (Or.inr exiting)).congr ofile cwd fun _ => by rw [vmas]

theorem placed_of_slotChange (change : SlotChange polite forks p position q position')
    (placed : p.state = .unused ∨ p.state = .zombie → position = .normal) :
    q.state = .unused ∨ q.state = .zombie → position' = .normal := by
  cases change with
  | forkFailed _ _ _ _ _ _ _ unused => exact fun _ => placed (Or.inl unused)
  | forked _ _ _ _ _ _ _ _ unused made =>
    rw [Proc.fork_state_of_made made]
    simp
  | parented forker => exact fun vacant => absurd (placed vacant) (by simp)
  | closed running => simp [Proc.close, running]
  | reparented parent running => simp [running]
  | freed position zombie => exact fun _ => placed (Or.inr zombie)
  | dispatched position ticks waiting => simp [Proc.dispatch_state]
  | stored write running | forkRunnable | exited => exact fun _ => rfl
  | keep | adopted | killed | prioritised | counted => exact placed
  | slept | woken | killedAsleep | yielded => simp [Proc.markRunnable]

section

variable (considerate : polite) (change : SlotChange polite forks p position q position')
include considerate change

theorem slotInv_of_slotChange (placed : p.state = .unused ∨ p.state = .zombie → position = .normal)
    (inv : SlotInv p position) : SlotInv q position' := by
  cases change with
  | keep => exact inv
  | forkFailed _ _ _ _ _ _ _ unused failed =>
    have closed := Proc.closed_of_blank (inv.blank unused)
    have blank := Proc.live_fork_of_failed closed failed
    exact ⟨fun _ => blank, fun _ => Proc.closed_of_blank blank⟩
  | forked _ _ _ _ _ _ _ _ unused made =>
    have state := Proc.fork_state_of_made made
    exact ⟨by simp [state], by simp [state]⟩
  | parented forker =>
    refine ⟨fun unused => ?_, fun exited => ?_⟩
    · exact absurd (placed (Or.inl unused)) (by simp)
    · rcases exited with zombie | impossible
      · exact absurd (placed (Or.inr zombie)) (by simp)
      · simp at impossible
  | forkRunnable => exact ⟨by simp [Proc.markRunnable], by simp [Proc.markRunnable]⟩
  | closed running =>
    exact ⟨by simp [Proc.close, running], fun _ => Proc.closed_close p⟩
  | adopted position parent init orphan =>
    refine ⟨fun unused => ?_, fun exited => ?_⟩
    · have parentless := congrArg (·.parent) (inv.blank unused)
      rw [Proc.live_parent, orphan] at parentless
      cases parentless
    · exact (inv.closed exited).congr rfl rfl fun _ => rfl
  | reparented parent running =>
    refine ⟨by simp [running], fun _ => ?_⟩
    exact (inv.closed (by simp)).congr rfl rfl fun _ => rfl
  | exited status =>
    refine ⟨by simp, fun _ => ?_⟩
    exact (inv.closed (by simp)).congr rfl rfl fun _ => rfl
  | freed position zombie =>
    have blank := Proc.live_freeproc (inv.closed (Or.inl zombie))
    exact ⟨fun _ => blank, fun _ => Proc.closed_of_blank blank⟩
  | killed position occupied =>
    refine ⟨fun unused => absurd unused (occupied considerate), fun exited => ?_⟩
    exact (inv.closed exited).congr rfl rfl fun _ => rfl
  | stored write running =>
    exact ⟨by simp [Proc.store_state, running], by simp [Proc.store_state, running]⟩
  | dispatched position ticks waiting =>
    have state := Proc.dispatch_state p ticks
    exact ⟨by simp [state], fun exited => (inv.closed
      (exited.imp_left fun zombie => by simp [state] at zombie)).dispatch ticks⟩
  | slept | woken | killedAsleep | yielded =>
    exact inv.alive (by simp [Proc.markRunnable]) (by simp [Proc.markRunnable]) rfl rfl rfl
  | prioritised position priority running | counted position running =>
    exact inv.alive (by simp [running]) (by simp [running]) rfl rfl rfl

theorem eq_of_unused (placed : p.state = .unused ∨ p.state = .zombie → position = .normal)
    (inv : SlotInv p position) (unused : p.state = .unused) (spared : ¬ forks) : q = p := by
  have normal := placed (Or.inl unused)
  cases change with
  | keep => rfl
  | forkFailed _ _ _ _ _ _ here | forked _ _ _ _ _ _ _ here => exact absurd here spared
  | parented | forkRunnable | reparented | exited => cases normal
  | adopted position parent init orphan =>
    have parentless := congrArg (·.parent) (inv.blank unused)
    rw [Proc.live_parent, orphan] at parentless
    cases parentless
  | killed position occupied => exact absurd unused (occupied considerate)
  | _ => simp_all

end

namespace Kernel

structure Inv (k : Kernel Mem) : Prop where
  placed : k.Placed
  slots : ∀ i, SlotInv (k.proc i) (k.position i)

theorem Placed.step (placed : k.Placed) (step : k.step e = some (shown, k')) : k'.Placed :=
  fun i => placed_of_slotChange (changes_step step i) (placed i)

theorem Inv.step (inv : k.Inv) (polite : e.Polite k) (step : k.step e = some (shown, k')) :
    k'.Inv where
  placed := inv.placed.step step
  slots := fun i =>
    slotInv_of_slotChange polite (changes_step step i) (inv.placed i) (inv.slots i)

theorem inv_boot (frame : Trapframe) (table : Mem) (root : Nat) : (boot frame table root).Inv where
  placed := fun _ _ => rfl
  slots := by
    intro i
    by_cases first : i = 0
    · subst first
      exact ⟨by simp [boot], by simp [boot]⟩
    · have blank : (boot frame table root).proc i = {} := by
        simp [boot, update_of_ne first]
      rw [blank]
      exact ⟨fun _ => rfl, fun _ => ⟨rfl, rfl, fun _ => rfl⟩⟩

/-- The states of the runs from boot in which no `kkill` finds an UNUSED slot. -/
inductive PoliteRun : Kernel Mem → Prop
  | boot (frame : Trapframe) (table : Mem) (root : Nat) :
      PoliteRun (.boot frame table root)
  | step {k k' : Kernel Mem} {e : Event Mem} {shown : Output Mem}
      (before : PoliteRun k) (polite : e.Polite k)
      (step : k.step e = some (shown, k')) : PoliteRun k'

theorem inv_of_politeRun (reached : PoliteRun k) : k.Inv := by
  induction reached with
  | boot frame table root => exact inv_boot frame table root
  | step before polite step ih =>
    exact ih.step polite step

/-! ## Two runs -/

theorem run_congr (placed : k.Placed) (placed' : other.Placed)
    (alike : other.live = k.live) (events : List (Event Mem)) :
    (other.run events).map (Prod.map id live) = (k.run events).map (Prod.map id live) := by
  induction events generalizing k other with
  | nil => exact congrArg (fun next => some ([], next)) alike
  | cons e rest ih =>
    have first := step_live placed' e
    rw [alike, step_live placed e] at first
    simp only [run]
    rcases here : k.step e with _ | ⟨shown, next⟩
    · rw [here, Option.map_none, eq_comm, Option.map_eq_none_iff] at first
      rw [first]
    · rcases there : other.step e with _ | ⟨shown', next'⟩
      · rw [here, there] at first
        cases first
      · rw [here, there] at first
        simp only [Option.map_some, Option.some.injEq, Prod.map_apply, id_eq,
          Prod.mk.injEq] at first
        have later := ih (placed.step here) (placed'.step there)
          first.2.symm
        rw [first.1]
        have together := congrArg (Option.map fun pair => (shown' :: pair.1, pair.2)) later
        simpa [Option.map_map, comp_def] using together

/-- Two tables that differ at most in one slot. -/
structure SameExcept (i : Slot) (k other : Kernel Mem) : Prop where
  proc : ∀ j, j ≠ i → other.proc j = k.proc j
  position : ∀ j, j ≠ i → other.position j = k.position j
  initproc : other.initproc = k.initproc
  nextPid : other.nextPid = k.nextPid
  nextSeq : other.nextSeq = k.nextSeq
  gLsRunnableCount : other.gLsRunnableCount = k.gLsRunnableCount
  ticks : other.ticks = k.ticks

theorem live_eq_of_sameExcept (inv : k.Inv)
    (inv' : other.Inv) (unused : (k.proc i).state = .unused)
    (unused' : (other.proc i).state = .unused) (same : SameExcept i k other) :
    other.live = k.live := by
  have slots : other.live.proc = k.live.proc := by
    funext j
    by_cases here : j = i
    · subst here
      exact ((inv'.slots j).blank unused').trans ((inv.slots j).blank unused).symm
    · exact congrArg Proc.live (same.proc j here)
  have positions : other.live.position = k.live.position := by
    funext j
    by_cases here : j = i
    · subst here
      exact (inv'.placed j (Or.inl unused')).trans (inv.placed j (Or.inl unused)).symm
    · exact same.position j here
  simp only [live] at slots positions
  simp [live, slots, positions, same.initproc, same.nextPid, same.nextSeq,
    same.gLsRunnableCount, same.ticks]

end Kernel

/-- A process right after `allocproc` returned it. -/
structure Proc.Fresh (p : Proc Mem) : Prop where
  killed : p.killed = false
  xstate : p.xstate = 0
  chan : p.chan = 0
  parent : p.parent = none
  sz : p.sz = 0
  ofile : ∀ fd, p.ofile fd = none
  cwd : p.cwd = none
  vmas : ∀ i, (p.vmas i).used = false
  priority : p.priority = .normal
  waitTicksTotal : p.waitTicksTotal = 0
  waitTicksMax : p.waitTicksMax = 0
  runTicksTotal : p.runTicksTotal = 0

theorem Proc.fresh_allocproc (blank : p.live = {}) (pid : Int) (frame : Trapframe) (table : Mem) :
    (p.allocproc pid (some frame) (some table)).2.Fresh where
  killed := congrArg (·.killed) blank
  xstate := congrArg (·.xstate) blank
  chan := congrArg (·.chan) blank
  parent := congrArg (·.parent) blank
  sz := congrArg (·.sz) blank
  ofile := congrFun (Proc.closed_of_blank blank).ofile
  cwd := (Proc.closed_of_blank blank).cwd
  vmas := fun _ => rfl
  priority := rfl
  waitTicksTotal := rfl
  waitTicksMax := rfl
  runTicksTotal := rfl

/-- As long as no `kkill` finds an UNUSED slot: what `allocproc` returns is
fresh, every step but the `kfork` that takes it leaves an UNUSED slot alone, and
two such runs that differ only in the history of an UNUSED slot go on alike. -/
theorem slot_isolation_of_polite (k : Kernel Mem) (reached : k.PoliteRun) :
    (∀ i pid frame table, (k.proc i).state = .unused →
      ((k.proc i).allocproc pid (some frame) (some table)).2.Fresh) ∧
    (∀ e shown k', e.Polite k → k.step e = some (shown, k') →
      ∀ i, (k.proc i).state = .unused → ¬ e.Forks i → k'.proc i = k.proc i) ∧
    (∀ other i, other.PoliteRun → (k.proc i).state = .unused →
      (other.proc i).state = .unused → k.SameExcept i other →
      ∀ events, (other.run events).map (Prod.map id Kernel.live) =
        (k.run events).map (Prod.map id Kernel.live)) := by
  have inv := Kernel.inv_of_politeRun reached
  refine ⟨?_, ?_, ?_⟩
  · intro i pid frame table unused
    exact Proc.fresh_allocproc ((inv.slots i).blank unused) pid frame table
  · intro e shown k' polite step i unused spared
    exact eq_of_unused polite (Kernel.changes_step step i) (inv.placed i)
      (inv.slots i) unused spared
  · intro other i reached' unused unused' same events
    have inv' := Kernel.inv_of_politeRun reached'
    exact Kernel.run_congr inv.placed inv'.placed
      (Kernel.live_eq_of_sameExcept inv inv' unused unused' same) events

/-- The first process runs and forks a child into slot 1. -/
theorem slot_isolation_after_fork : ∃ k : Kernel Unit, k.PoliteRun ∧ (k.proc 1).pid = 2 ∧
      (k.proc 2).state = .unused ∧
      ((k.proc 2).allocproc 3 (some fun _ => 0) (some ())).2.Fresh := by
  have running : Kernel.PoliteRun _ :=
    (Kernel.PoliteRun.boot (fun _ => 0) () 0).step (e := .dispatch 0) trivial rfl
  have forked := running.step (e := .kfork 0 1 (some fun _ => 0) (some ()) (some ())) trivial rfl
  exact ⟨_, forked, rfl, rfl, (slot_isolation_of_polite _ forked).1 2 3 _ _ rfl⟩

/-- `kill(0)`: the scan of `kkill` passes the running process in slot 0 and
matches the UNUSED slot 1; the process then forked into it is born killed. -/
theorem kkill_zero_kills_next_child : ∃ (shown : List (Output Unit)) (k : Kernel Unit),
      (Kernel.boot (fun _ => 0) () 0).run [.dispatch 0, .kkill 0 0, .kkill 1 0,
          .kfork 0 1 (some fun _ => 0) (some ()) (some ())] = some (shown, k) ∧
      (k.proc 1).state = .used ∧ (k.proc 1).pid = 2 ∧ (k.proc 1).killed = true :=
  ⟨_, _, rfl, rfl, rfl, rfl⟩

end Xv6.ProcTable
