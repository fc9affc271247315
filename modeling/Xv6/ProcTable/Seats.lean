import Xv6.ProcTable.Turns

/-!
# Locks and places of the threads

A thread holds exactly the lock that its place says, a thread that holds one is RUNNING, and a
process inside one of the functions is alive.
-/

namespace Xv6.ProcTable

open Sched (ProcState)
open Function

variable {Mem : Type} {lock : Lock} {k' : Kernel Mem}
variable {state : ProcState} {p : Slot} {m' n : Machine Mem} {pc : Pc} {action : Action Mem}
  {condition : Machine Mem → Action Mem → Prop}

theorem alive_iff : Alive state ↔ state ≠ .unused ∧ state ≠ .used ∧ state ≠ .zombie := by
  cases state <;> simp [Alive]

theorem alive_of_running (running : state = .running) : Alive state := by
  rw [running]
  trivial

theorem Kernel.Running.alive {k : Kernel Mem} (running : k.Running p) : Alive (k.proc p).state :=
  alive_of_running running.1

/-- A process that `kfork` is still making. -/
def Unborn : Position → Prop
  | .newborn _ | .parented => True
  | .normal | .closed | .reparented => False

namespace Moved

variable {e : Event Mem} {i : Slot} {p q : Proc Mem}

section

variable (moved : Moved e i p q)
include moved

theorem alive_iff : Alive q.state ↔ Alive p.state := by
  cases moved with
  | same state | killed _ _ state | selfKilled _ _ state => rw [state]
  | woken before after | killedAsleep _ before after | dispatched before after
  | slept _ _ before after | yielded _ before after => simp [before, after, Alive]

theorem state_of_not_alive (dead : ¬Alive p.state) : q.state = p.state := by
  cases moved with
  | same state | killed _ _ state | selfKilled _ _ state => exact state
  | woken before | killedAsleep _ before | dispatched before | slept _ _ before
  | yielded _ before =>
    rw [before] at dead
    exact absurd trivial dead

theorem zombie_iff : q.state = .zombie ↔ p.state = .zombie := by
  cases moved with
  | same state | killed _ _ state | selfKilled _ _ state => rw [state]
  | woken before after | killedAsleep _ before after | dispatched before after
  | slept _ _ before after | yielded _ before after => simp [before, after]

theorem running (before : p.state = .running)
    (awake : ∀ chan, e ≠ .sleep i chan) (stays : e ≠ .yield i) : q.state = .running := by
  cases moved with
  | same state | killed _ _ state | selfKilled _ _ state => rwa [state]
  | dispatched _ after => exact after
  | woken asleep | killedAsleep _ asleep =>
    rw [before] at asleep
    cases asleep
  | slept chan event => exact absurd event (awake chan)
  | yielded event => exact absurd event stays

end

end Moved

namespace Machine

variable {m : Machine Mem}

section

variable (m)

@[simp]
theorem goTo_pc (p : Slot) (pc : Pc) : (m.goTo p pc).pc = update m.pc p pc := rfl

@[simp]
theorem goTo_kernel (p : Slot) (pc : Pc) : (m.goTo p pc).kernel = m.kernel := rfl

@[simp]
theorem goTo_holder (p : Slot) (pc : Pc) : (m.goTo p pc).holder = m.holder := rfl

@[simp]
theorem acquire_pc (p : Slot) (lock : Lock) : (m.acquire p lock).pc = m.pc := rfl

@[simp]
theorem acquire_kernel (p : Slot) (lock : Lock) : (m.acquire p lock).kernel = m.kernel := rfl

@[simp]
theorem acquire_holder (p : Slot) (lock : Lock) :
    (m.acquire p lock).holder = update m.holder lock (some p) := rfl

@[simp]
theorem release_pc (lock : Lock) : (m.release lock).pc = m.pc := rfl

@[simp]
theorem release_kernel (lock : Lock) : (m.release lock).kernel = m.kernel := rfl

@[simp]
theorem release_holder (lock : Lock) : (m.release lock).holder = update m.holder lock none := rfl

end

structure Seated (m : Machine Mem) : Prop where
  placed : m.kernel.Placed
  unborn : ∀ i, Unborn (m.kernel.position i) → (m.kernel.proc i).state = .used
  lock : ∀ lock p, m.holder lock = some p ↔ (m.pc p).holds = some lock
  running : ∀ p, (m.pc p).holds ≠ none → (m.kernel.proc p).state = .running
  alive : ∀ p, m.pc p ≠ .outside → Alive (m.kernel.proc p).state
  scans : ∀ p, m.pc p ≠ .test .kwait

namespace Seated

section

variable (inv : Seated m)
include inv

theorem outside {p : Slot} (dead : ¬Alive (m.kernel.proc p).state) :
    m.pc p = .outside :=
  by_contra fun inside => dead (inv.alive p inside)

theorem exclusive {q : Slot}
    (first : (m.pc p).holds = some lock) (second : (m.pc q).holds = some lock) : p = q := by
  have holder := (inv.lock lock p).mpr first
  rw [(inv.lock lock q).mpr second] at holder
  exact (Option.some.inj holder).symm

theorem not_holding (free : m.holder lock = none) : (m.pc p).holds ≠ some lock := by
  intro held
  rw [(inv.lock lock p).mpr held] at free
  cases free

theorem setKernel (placed : k'.Placed)
    (unborn : ∀ i, Unborn (k'.position i) → (k'.proc i).state = .used)
    (running : ∀ p, (m.pc p).holds ≠ none → (m.kernel.proc p).state = .running →
      (k'.proc p).state = .running)
    (alive : ∀ p, m.pc p ≠ .outside → Alive (m.kernel.proc p).state → Alive (k'.proc p).state) :
    Seated { m with kernel := k' } where
  placed := placed
  unborn := unborn
  lock := inv.lock
  running := fun p held => running p held (inv.running p held)
  alive := fun p inside => alive p inside (inv.alive p inside)
  scans := inv.scans

/-- One thread goes to another place. -/
theorem move (kernel : n.kernel = m.kernel) (place : n.pc = update m.pc p pc)
    (lock : ∀ lock q, n.holder lock = some q ↔ (update m.pc p pc q).holds = some lock)
    (running : pc.holds ≠ none → (m.kernel.proc p).state = .running)
    (alive : pc ≠ .outside → Alive (m.kernel.proc p).state) (scans : pc ≠ .test .kwait) :
    Seated n := by
  refine ⟨kernel ▸ inv.placed, kernel ▸ inv.unborn, by rwa [place], fun q held => ?_,
    fun q inside => ?_, fun q => ?_⟩
  · rw [kernel]
    by_cases same : q = p
    · subst same
      rw [place, update_self] at held
      exact running held
    · rw [place, update_of_ne same] at held
      exact inv.running q held
  · rw [kernel]
    by_cases same : q = p
    · subst same
      rw [place, update_self] at inside
      exact alive inside
    · rw [place, update_of_ne same] at inside
      exact inv.alive q inside
  · by_cases same : q = p
    · subst same
      rwa [place, update_self]
    · rw [place, update_of_ne same]
      exact inv.scans q

theorem goTo (p : Slot) (pc : Pc) (holds : pc.holds = (m.pc p).holds)
    (alive : pc ≠ .outside → Alive (m.kernel.proc p).state) (scans : pc ≠ .test .kwait) :
    Seated (m.goTo p pc) := by
  refine inv.move rfl rfl (fun lock q => ?_) (fun held => inv.running p (holds ▸ held)) alive scans
  rw [goTo_holder, inv.lock]
  by_cases same : q = p
  · subst same
    rw [update_self, holds]
  · rw [update_of_ne same]

theorem acquire (free : m.holder lock = none) (before : (m.pc p).holds = none)
    (after : pc.holds = some lock) (running : (m.kernel.proc p).state = .running)
    (scans : pc ≠ .test .kwait) : Seated ((m.goTo p pc).acquire p lock) := by
  refine inv.move rfl rfl (fun other q => ?_) (fun _ => running)
    (fun _ => alive_of_running running) scans
  rw [acquire_holder, goTo_holder]
  by_cases same : q = p
  · subst same
    rw [update_self, after]
    by_cases this : other = lock
    · subst this
      rw [update_self]
      exact iff_of_true rfl rfl
    · rw [update_of_ne this, inv.lock other q, before]
      exact iff_of_false nofun fun found => this (Option.some.inj found).symm
  · rw [update_of_ne same]
    by_cases this : other = lock
    · subst this
      rw [update_self]
      exact iff_of_false (fun found => same (Option.some.inj found).symm) (inv.not_holding free)
    · rw [update_of_ne this]
      exact inv.lock other q

theorem release (before : (m.pc p).holds = some lock) (after : pc.holds = none)
    (scans : pc ≠ .test .kwait) : Seated ((m.goTo p pc).release lock) := by
  refine inv.move rfl rfl (fun other q => ?_) (fun held => absurd after held)
    (fun _ => alive_of_running (inv.running p (by simp [before]))) scans
  rw [release_holder, goTo_holder]
  by_cases same : q = p
  · subst same
    rw [update_self, after]
    by_cases this : other = lock
    · subst this
      rw [update_self]
      exact iff_of_false nofun nofun
    · rw [update_of_ne this, inv.lock other q, before]
      exact iff_of_false (fun found => this (Option.some.inj found).symm) nofun
  · rw [update_of_ne same]
    by_cases this : other = lock
    · subst this
      rw [update_self]
      exact iff_of_false nofun fun held => same (inv.exclusive held before)
    · rw [update_of_ne this]
      exact inv.lock other q

theorem quiet {e : Event Mem} (quiet : Kernel.Quiet e m.kernel k')
    (awake : ∀ p, (m.pc p).holds ≠ none → (∀ chan, e ≠ .sleep p chan) ∧ e ≠ .yield p) :
    Seated { m with kernel := k' } := by
  apply inv.setKernel
  · intro i vacant
    rw [quiet.position]
    apply inv.placed i
    have dead : ¬Alive (k'.proc i).state := by
      rw [alive_iff]
      rcases vacant with unused | zombie
      · simp [unused]
      · simp [zombie]
    rwa [← (quiet.moved i).state_of_not_alive ((quiet.moved i).alive_iff.not.mp dead)]
  · intro i unborn
    rw [quiet.position] at unborn
    have used := inv.unborn i unborn
    rw [(quiet.moved i).state_of_not_alive (by simp [used, Alive]), used]
  · intro p held running
    exact (quiet.moved p).running running (awake p held).1 (awake p held).2
  · intro p _ alive
    exact (quiet.moved p).alive_iff.mpr alive

theorem writes {i : Slot} {q : Proc Mem} {position : Position} {nextPid : Int}
    (writes : Kernel.Writes m.kernel k' i q position nextPid)
    (vacant : q.state = .unused ∨ q.state = .zombie → position = .normal)
    (unborn : Unborn position → q.state = .used)
    (running : (m.pc i).holds ≠ none → q.state = .running)
    (alive : m.pc i ≠ .outside → Alive q.state) : Seated { m with kernel := k' } := by
  apply inv.setKernel
  · intro j free
    rw [writes.position]
    rw [writes.proc] at free
    by_cases same : j = i
    · subst same
      rw [update_self] at free ⊢
      exact vacant free
    · rw [update_of_ne same] at free ⊢
      exact inv.placed j free
  · intro j
    rw [writes.position, writes.proc]
    by_cases same : j = i
    · subst same
      rwa [update_self, update_self]
    · rw [update_of_ne same, update_of_ne same]
      exact inv.unborn j
  · intro j held before
    rw [writes.proc]
    by_cases same : j = i
    · subst same
      rw [update_self]
      exact running held
    · rwa [update_of_ne same]
  · intro j inside before
    rw [writes.proc]
    by_cases same : j = i
    · subst same
      rw [update_self]
      exact alive inside
    · rwa [update_of_ne same]

theorem congr (kernel : n.kernel = m.kernel)
    (pc : n.pc = m.pc) (holder : n.holder = m.holder) : Seated n where
  placed := kernel ▸ inv.placed
  unborn := kernel ▸ inv.unborn
  lock := by
    rw [pc, holder]
    exact inv.lock
  running := by
    rw [pc, kernel]
    exact inv.running
  alive := by
    rw [pc, kernel]
    exact inv.alive
  scans := pc ▸ inv.scans

end

theorem holds_start (loop : Loop) : (Pc.start loop).holds = some loop.lock := by
  cases loop <;> rfl

theorem start_ne_test (loop : Loop) : Pc.start loop ≠ .test .kwait := by
  cases loop <;> simp [Pc.start]

theorem writes_freeproc (inv : Seated m) {i : Slot} (zombie : (m.kernel.proc i).state = .zombie) :
    Kernel.Writes m.kernel (m.kernel.set i (m.kernel.proc i).freeproc) i
      (m.kernel.proc i).freeproc .normal m.kernel.nextPid :=
  ⟨rfl, by rw [← inv.placed i (Or.inr zombie), update_eq_self]; rfl, rfl, rfl⟩

theorem turn (inv : Seated m) (turn : Turn m action m') : Seated m' := by
  cases turn with
  | @elsewhere e k' allowed quiet =>
    apply inv.quiet quiet
    intro p held
    constructor
    · rintro chan rfl
      rw [show m.pc p = .outside from allowed] at held
      exact held rfl
    · rintro rfl
      exact held allowed
  | @forkFailed p child _ _ _ q k' unused place state parent writes =>
    have outside := inv.outside (p := child) (by simp [unused, Alive])
    have normal := inv.placed child (Or.inl unused)
    exact inv.writes writes (fun _ => normal) (by simp [normal, Unborn])
      (by simp [outside, Pc.holds]) (by simp [outside])
  | @forked p child _ _ _ q k' unused place running state pid parent writes =>
    have outside := inv.outside (p := child) (by simp [unused, Alive])
    have written : Seated { m with kernel := k' } :=
      inv.writes writes (by simp [state]) (fun _ => state) (by simp [outside, Pc.holds])
        (by simp [outside])
    have other : p ≠ child := by
      rintro rfl
      rw [running.1] at unused
      cases unused
    refine (written.goTo p (.forked child) ?_ ?_ Pc.noConfusion).congr rfl rfl rfl
    · rw [place]
      rfl
    · intro _
      rw [writes.proc, update_of_ne other]
      exact running.alive
  | @kforkParent p child k' place free running newborn writes =>
    have used := inv.unborn child (by rw [newborn]; trivial)
    have outside := inv.outside (p := child) (by simp [used, Alive])
    have written : Seated { m with kernel := k' } :=
      inv.writes writes (by simp [used]) (fun _ => used) (by simp [outside, Pc.holds])
        (by simp [outside])
    have other : p ≠ child := by
      rintro rfl
      rw [used] at running
      cases running
    refine written.goTo p (.parented child) ?_ ?_ Pc.noConfusion
    · rw [place]
      rfl
    · intro _
      rw [writes.proc, update_of_ne other]
      exact alive_of_running running
  | @kforkRunnable p child q k' place running unborn parent state family writes =>
    have used := inv.unborn child (by rw [unborn]; trivial)
    have outside := inv.outside (p := child) (by simp [used, Alive])
    have written : Seated { m with kernel := k' } :=
      inv.writes writes (by simp [state]) False.elim (by simp [outside, Pc.holds])
        (by simp [outside])
    refine written.goTo p .outside ?_ (fun inside => absurd rfl inside) Pc.noConfusion
    rw [place]
    rfl
  | @kexitClose p q k' place running other state family writes =>
    have written : Seated { m with kernel := k' } :=
      inv.writes writes (by simp [state, running.1]) False.elim (by simp [place, Pc.holds])
        (by simp [place])
    refine written.goTo p .closed ?_ ?_ Pc.noConfusion
    · rw [place]
      rfl
    · intro _
      rw [writes.proc, update_self, state]
      exact running.alive
  | @kexitReparent p place free running =>
    have states : ∀ i, (((m.kernel.reparent p).moveTo p .reparented).proc i).state =
        (m.kernel.proc i).state := by
      intro i
      change ((m.kernel.reparent p).proc i).state = _
      unfold Kernel.reparent
      dsimp only
      split <;> rfl
    have positions : ((m.kernel.reparent p).moveTo p .reparented).position =
        update m.kernel.position p .reparented := rfl
    have written : Seated { m with kernel := (m.kernel.reparent p).moveTo p .reparented } := by
      apply inv.setKernel
      · intro i vacant
        rw [states] at vacant
        have other : i ≠ p := by
          rintro rfl
          simp [running] at vacant
        rw [positions, update_of_ne other]
        exact inv.placed i vacant
      · intro i unborn
        rw [positions] at unborn
        have other : i ≠ p := by
          rintro rfl
          rw [update_self] at unborn
          exact unborn
        rw [update_of_ne other] at unborn
        rw [states]
        exact inv.unborn i unborn
      · intro i _ before
        rwa [states]
      · intro i _ before
        rwa [states]
    exact written.acquire free (by rw [place]; rfl) rfl ((states p).trans running) Pc.noConfusion
  | @kexitWakeup p i chan visits place =>
    have woken : Seated { m with kernel := m.kernel.wakeup i chan } :=
      inv.quiet (Kernel.quiet_wakeup (e := .wakeup i chan) i chan) fun q _ => ⟨nofun, nofun⟩
    exact woken.goTo p _ (by rw [place]; rfl) (fun _ => woken.alive p (by simp [place]))
      Pc.noConfusion
  | @kexitZombie p status k' place writes =>
    have left : Seated ((m.goTo p .outside).release .waitLock) :=
      inv.release (by rw [place]; rfl) rfl Pc.noConfusion
    have written := left.writes writes (fun _ => rfl) False.elim (by simp [Pc.holds]) (by simp)
    exact written.congr rfl rfl rfl
  | @enter p loop place running free =>
    exact inv.acquire free (by rw [place]; rfl) (holds_start loop) running.1 (start_ne_test loop)
  | @reaped p i copied havekids place child zombie =>
    have left : Seated ((m.goTo p .outside).release .waitLock) :=
      inv.release (by rw [place]; rfl) rfl Pc.noConfusion
    have outside := inv.outside (p := i) (by simp [zombie, Alive])
    have stays : ((m.goTo p .outside).release .waitLock).pc i = .outside := by
      by_cases same : i = p
      · simp [same]
      · simp [update_of_ne same, outside]
    have written := left.writes (inv.writes_freeproc zombie) (fun _ => rfl) False.elim
      (by simp [stays, Pc.holds]) (by simp [stays])
    exact written.congr rfl rfl rfl
  | copyFailed place | kwaitLeave place | loopLeave place =>
    exact inv.release (by rw [place]; rfl) rfl Pc.noConfusion
  | @visitChild p _ _ _ place | @visitOther p _ _ _ place | @kwaitPassed p _ place
  | @loopPassed p _ _ place | @again p _ place =>
    exact inv.goTo p _ (by rw [place]; rfl) (fun _ => inv.alive p (by simp [place])) (by simp)
  | @sleep p loop k' place quiet =>
    have left : Seated ((m.goTo p (.asleep loop)).release loop.lock) :=
      inv.release (by rw [place]; rfl) rfl Pc.noConfusion
    refine left.quiet quiet fun q held => ⟨fun chan => ?_, nofun⟩
    intro same
    cases same
    simp [Pc.holds] at held
  | @reacquire p loop place running free =>
    exact inv.acquire free (by rw [place]; rfl) (holds_start loop) running (start_ne_test loop)

theorem boot (frame : Trapframe) (table : Mem) (root : Nat) :
    Seated (Machine.boot frame table root) where
  placed := (Kernel.inv_boot frame table root).placed
  unborn := fun _ => False.elim
  lock := fun _ _ => iff_of_false nofun nofun
  running := fun _ held => absurd rfl held
  alive := fun _ inside => absurd rfl inside
  scans := fun _ => Pc.noConfusion

end Seated

theorem Reachable.seated (reached : Reachable condition m) : Seated m := by
  induction reached with
  | boot frame table root => exact .boot frame table root
  | step _ _ _ stepped ih =>
    exact ih.turn (turn_of_step ih.placed stepped)

theorem Reachable.turn (reached : Reachable condition m)
    (stepped : m.step action = some m') : Turn m action m' :=
  turn_of_step reached.seated.placed stepped

end Machine

end Xv6.ProcTable
