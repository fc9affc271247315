import Xv6.ProcTable.Seats

/-!
# Killed processes that sleep

Between `killed(p)`, which has released `p->lock` with the answer 0, and the `acquire` in
`sleep` a kill is noticed by nobody.
-/

namespace Xv6.ProcTable

open Sched (ProcState)
open Function

variable {Mem : Type} {q p : Proc Mem} {pc : Pc}

/-- A process in a waiting loop has not been killed since its test. -/
def Heeds : Pc → Proc Mem → Prop
  | .passed _, p => p.killed = false
  | .asleep _, p => p.state = .sleeping → p.killed = false
  | .outside, _ | .forked _, _ | .parented _, _ | .closed, _ | .waking _, _ | .scan _ _, _
  | .test _, _ => True

theorem Heeds.congr (heeds : Heeds pc p)
    (state : q.state = p.state) (killed : q.killed = p.killed) : Heeds pc q := by
  cases pc with
  | passed loop => exact killed.trans heeds
  | asleep loop =>
    intro sleeping
    exact killed.trans (heeds (state.symm.trans sleeping))
  | outside | forked | parented | closed | waking | scan | test => trivial

theorem Heeds.of_awake (heeds : Heeds pc p)
    (awake : q.state ≠ .sleeping) (killed : q.killed = p.killed) : Heeds pc q := by
  cases pc with
  | passed loop => exact killed.trans heeds
  | asleep loop => exact fun sleeping => absurd sleeping awake
  | outside | forked | parented | closed | waking | scan | test => trivial

theorem Heeds.moved {e : Event Mem} {i : Slot} (heeds : Heeds pc p)
    (moved : Moved e i p q) (missed : e = .kkill i p.pid → ∀ loop, pc ≠ .passed loop)
    (own : pc ≠ .outside → e ≠ .setkilled i ∧ ∀ chan, e ≠ .sleep i chan) : Heeds pc q := by
  cases moved with
  | same state _ killed => exact heeds.congr state killed
  | woken _ after killed | dispatched _ after killed | yielded _ _ after killed =>
    exact heeds.of_awake (by simp [after]) killed
  | killed event awake state =>
    cases pc with
    | passed loop => exact absurd rfl (missed event loop)
    | asleep loop => exact fun sleeping => absurd (state.symm.trans sleeping) awake
    | outside | forked | parented | closed | waking | scan | test => trivial
  | killedAsleep event _ after =>
    cases pc with
    | passed loop => exact absurd rfl (missed event loop)
    | asleep loop => exact fun sleeping => absurd (after.symm.trans sleeping) (by simp)
    | outside | forked | parented | closed | waking | scan | test => trivial
  | selfKilled event =>
    by_cases outside : pc = .outside
    · rw [outside]
      trivial
    · exact absurd event (own outside).1
  | slept chan event =>
    by_cases outside : pc = .outside
    · rw [outside]
      trivial
    · exact absurd event ((own outside).2 chan)

namespace Machine

variable {m m' : Machine Mem}

/-- The step is no kill that hits its victim in the window. -/
def KillsOutsideWindow (m : Machine Mem) (action : Action Mem) : Prop :=
  ∀ i, action = .elsewhere (.kkill i (m.kernel.proc i).pid) → ∀ loop, m.pc i ≠ .passed loop

def AllHeed (m : Machine Mem) : Prop := ∀ p, Heeds (m.pc p) (m.kernel.proc p)

namespace AllHeed

theorem goTo (heed : AllHeed m) (p : Slot) (pc : Pc) (here : Heeds pc (m.kernel.proc p)) :
    AllHeed (m.goTo p pc) := by
  intro q
  rw [goTo_pc, goTo_kernel]
  by_cases same : q = p
  · subst same
    rwa [update_self]
  · rw [update_of_ne same]
    exact heed q

theorem congr (heed : AllHeed m) (pc : m'.pc = m.pc) (kernel : m'.kernel = m.kernel) :
    AllHeed m' := by
  intro p
  rw [pc, kernel]
  exact heed p

theorem writes (heed : AllHeed m) {i : Slot} {position : Position} {nextPid : Int} {k' : Kernel Mem}
    (writes : Kernel.Writes m.kernel k' i q position nextPid) (here : m.pc i = .outside) :
    AllHeed { m with kernel := k' } := by
  intro j
  rw [writes.proc]
  by_cases same : j = i
  · subst same
    rw [here]
    trivial
  · rw [update_of_ne same]
    exact heed j

theorem start (loop : Loop) (p : Proc Mem) : Heeds (Pc.start loop) p := by
  cases loop <;> trivial

theorem turn (heed : AllHeed m) (inv : Seated m) {action : Action Mem}
    (timely : m.KillsOutsideWindow action) (turn : Turn m action m') : AllHeed m' := by
  cases turn with
  | @elsewhere e k' allowed quiet =>
    intro p
    refine (heed p).moved (quiet.moved p) ?_ ?_
    · rintro rfl
      exact timely p rfl
    · intro inside
      constructor
      · rintro rfl
        exact inside allowed
      · rintro chan rfl
        exact inside allowed
  | @forkFailed p child _ _ _ q k' unused place state parent writes =>
    exact heed.writes writes (inv.outside (by simp [unused, Alive]))
  | @forked p child _ _ _ q k' unused place running state pid parent writes =>
    have written := heed.writes writes (inv.outside (by simp [unused, Alive]))
    exact (written.goTo p (.forked child) trivial).congr rfl rfl
  | @kforkParent p child k' place free running newborn writes =>
    have used := inv.unborn child (by rw [newborn]; trivial)
    exact (heed.writes writes (inv.outside (by simp [used, Alive]))).goTo p _ trivial
  | @kforkRunnable p child q k' place running unborn parent state family writes =>
    have used := inv.unborn child (by rw [unborn]; trivial)
    exact (heed.writes writes (inv.outside (by simp [used, Alive]))).goTo p _ trivial
  | @kexitClose p q k' place running other state family writes =>
    exact (heed.writes writes place).goTo p _ trivial
  | @kexitReparent p place free running =>
    have adopted : AllHeed { m with kernel := (m.kernel.reparent p).moveTo p .reparented } := by
      intro i
      change Heeds (m.pc i) ((m.kernel.reparent p).proc i)
      unfold Kernel.reparent
      dsimp only
      split
      · exact (heed i).congr rfl rfl
      · exact heed i
    exact (adopted.goTo p (.waking _) trivial).congr rfl rfl
  | @kexitWakeup p i chan visits place =>
    have woken : AllHeed { m with kernel := m.kernel.wakeup i chan } := fun q =>
      (heed q).moved ((Kernel.quiet_wakeup (e := .wakeup i chan) i chan).moved q) (by simp)
        fun _ => ⟨by simp, by simp⟩
    exact woken.goTo p _ trivial
  | @kexitZombie p status k' place writes =>
    have left := heed.goTo p .outside trivial
    have written := left.writes writes (update_self ..)
    exact written.congr rfl rfl
  | @enter p loop place running free | @reacquire p loop place running free =>
    exact (heed.goTo p _ (start loop _)).congr rfl rfl
  | @reaped p i copied havekids place child zombie =>
    have outside := inv.outside (p := i) (by simp [zombie, Alive])
    have left := heed.goTo p .outside trivial
    have written := left.writes (inv.writes_freeproc zombie) (by
      by_cases same : i = p
      · simp [same]
      · simp [update_of_ne same, outside])
    exact written.congr rfl rfl
  | copyFailed place | kwaitLeave place | loopLeave place =>
    exact (heed.goTo _ .outside trivial).congr rfl rfl
  | visitChild place | visitOther place | again place => exact heed.goTo _ _ trivial
  | kwaitPassed _ _ spared | loopPassed _ spared => exact heed.goTo _ _ spared
  | @sleep p loop k' place quiet =>
    have spared : (m.kernel.proc p).killed = false := by
      have here := heed p
      rwa [place] at here
    intro q
    by_cases same : q = p
    · subst same
      change Heeds (update m.pc q (.asleep loop) q) (k'.proc q)
      rw [update_self]
      intro _
      cases quiet.moved q with
      | same _ _ killed | slept _ _ _ _ _ killed | woken _ _ killed | dispatched _ _ killed
      | yielded _ _ _ killed => exact killed.trans spared
      | killed event | killedAsleep event | selfKilled event => cases event
    · change Heeds (update m.pc p (.asleep loop) q) (k'.proc q)
      rw [update_of_ne same]
      refine (heed q).moved (quiet.moved q) (by simp) fun _ => ⟨by simp, fun chan event => ?_⟩
      cases event
      exact same rfl

end AllHeed

theorem Reachable.allHeed (reached : Reachable KillsOutsideWindow m) : AllHeed m := by
  induction reached with
  | boot frame table root => exact fun _ => trivial
  | step reached _ timely stepped ih =>
    exact ih.turn reached.seated timely (reached.turn stepped)

/-- A process asleep in a waiting loop although it has been killed. -/
def KilledAsleep (m : Machine Mem) (p : Slot) : Prop :=
  (∃ loop, m.pc p = .asleep loop) ∧ (m.kernel.proc p).state = .sleeping ∧
    (m.kernel.proc p).killed = true

theorem step_sleep {p : Slot} {loop : Loop} (window : m.pc p = .passed loop)
    (running : (m.kernel.proc p).state = .running) :
    m.step (.sleep p) = some ((Machine.goTo
      { m with kernel := m.kernel.set p { m.kernel.proc p with
          chan := (loop.chan p).address, state := .sleeping, context := .sleep } }
        p (.asleep loop)).release loop.lock) := by
  simp only [Machine.step, window, perform, Kernel.step, if_pos running, Option.map_some]

theorem kkill_in_window {p : Slot} {loop : Loop} (inv : Seated m) (window : m.pc p = .passed loop) :
    ∃ m₁ m₂, m.step (.elsewhere (.kkill p (m.kernel.proc p).pid)) = some m₁ ∧
      m₁.step (.sleep p) = some m₂ ∧ m₂.KilledAsleep p := by
  have running := inv.running p (by simp [window, Pc.holds])
  have killed : m.step (.elsewhere (.kkill p (m.kernel.proc p).pid)) =
      some { m with kernel := m.kernel.set p { m.kernel.proc p with killed := true } } := by
    simp [Machine.step, Elsewhere, perform, Kernel.step, Kernel.kkill, running]
  have slept := step_sleep (p := p)
    (m := { m with kernel := m.kernel.set p { m.kernel.proc p with killed := true } }) window
    (by simp [Kernel.set, running])
  refine ⟨_, _, killed, slept, ⟨loop, update_self ..⟩, ?_, ?_⟩
  · simp [Kernel.set]
  · simp [Kernel.set]

/-- Without kills in the window no process is SLEEPING in a waiting loop with `killed` set:
a kill wakes a sleeping victim, and a kill before the test is seen by it. A kill of `p`
followed by `p` going to sleep leaves such a sleeper exactly if it hits the window. -/
theorem no_killed_sleeper_iff_outside_window :
    (∀ m : Machine Mem, Reachable KillsOutsideWindow m → ∀ p, ¬m.KilledAsleep p) ∧
    (∀ m : Machine Mem, Reachable KillsOutsideWindow m → ∀ p,
      (∃ m₁ m₂, m.step (.elsewhere (.kkill p (m.kernel.proc p).pid)) = some m₁ ∧
        m₁.step (.sleep p) = some m₂ ∧ m₂.KilledAsleep p) ↔
      ¬m.KillsOutsideWindow (.elsewhere (.kkill p (m.kernel.proc p).pid))) := by
  have safe : ∀ m : Machine Mem, Reachable KillsOutsideWindow m → ∀ p, ¬m.KilledAsleep p := by
    rintro m reached p ⟨⟨loop, asleep⟩, sleeping, killed⟩
    have heeds := reached.allHeed p
    rw [asleep] at heeds
    rw [heeds sleeping] at killed
    cases killed
  refine ⟨safe, fun m reached p => ⟨?_, ?_⟩⟩
  · rintro ⟨m₁, m₂, kill, sleep, asleep⟩ timely
    have reached₁ := reached.step _ timely kill
    refine safe m₂ (reached₁.step _ ?_ sleep) p asleep
    exact fun i event => nomatch event
  · intro hit
    have window : ∃ loop, m.pc p = .passed loop := by
      by_contra missed
      refine hit fun i same loop here => missed ⟨loop, ?_⟩
      cases same
      exact here
    obtain ⟨loop, window⟩ := window
    exact kkill_in_window reached.seated window

/-- A child asleep in `piperead` is killed, and made RUNNABLE. -/
theorem no_killed_sleeper_in_piperead :
    ∃ m : Machine Unit, Reachable KillsOutsideWindow m ∧ m.pc 1 = .asleep (.piperead 0) ∧
      (m.kernel.proc 1).killed = true ∧ (m.kernel.proc 1).state = .runnable ∧
      ∀ p, ¬m.KilledAsleep p := by
  have booted : Reachable KillsOutsideWindow (Machine.boot (fun _ => 0) () 0) := .boot _ _ _
  have running := booted.step (.elsewhere (.dispatch 0)) nofun rfl
  have forked := running.step (.kfork 0 1 (some fun _ => 0) (some ()) (some ())) nofun rfl
  have parented := forked.step (.kforkParent 0) nofun rfl
  have born := parented.step (.kforkRunnable 0) nofun rfl
  have dispatched := born.step (.elsewhere (.dispatch 1)) nofun rfl
  have entered := dispatched.step (.enter 1 (.piperead 0)) nofun rfl
  have passed := entered.step (.loopKilled 1 true) nofun rfl
  have asleep := passed.step (.sleep 1) nofun rfl
  have killed := asleep.step (.elsewhere (.kkill 1 2))
    (fun i event loop => by cases event; exact nofun) rfl
  exact ⟨_, killed, rfl, rfl, rfl, no_killed_sleeper_iff_outside_window.1 _ killed⟩

/-- The first process forks a child, which tests `killed` in `piperead` of an empty pipe; the
first process kills it, and then it goes to sleep. -/
theorem killed_child_sleeps_in_piperead : ∃ m : Machine Unit, (Machine.boot (fun _ => 0) () 0).run
        [.elsewhere (.dispatch 0),
          .kfork 0 1 (some fun _ => 0) (some ()) (some ()), .kforkParent 0, .kforkRunnable 0,
          .elsewhere (.dispatch 1), .enter 1 (.piperead 0), .loopKilled 1 true,
          .elsewhere (.kkill 0 2), .elsewhere (.kkill 1 2), .sleep 1] = some m ∧
      m.KilledAsleep 1 :=
  ⟨_, rfl, ⟨.piperead 0, rfl⟩, rfl, rfl⟩

end Machine

end Xv6.ProcTable
