import Xv6.Sched.Inversion

/-!
# How a LatencySensitive process loses its hart

A RUNNING LatencySensitive process is made RUNNABLE by a `yield` at a timer interrupt only. In
user mode the policy has answered for a Normal process; in the kernel nobody asks.
-/

namespace Xv6.Sched

variable {n : Nat}

/-- The process that gives up its hart in a `yield` that has not stored its state. -/
def Pc.yielding : Pc n → Option (Fin n)
  | .markSeq p .yield | .markCounter p .yield | .markTick p .yield | .markState p .yield => some p
  | _ => none

section Step

variable {m m' : Machine Unit n} {p : Fin n}

theorem yielding_before (step : Step m m') (inside : ¬(m'.cpu ()).pc.Entry)
    (yielding : (m'.cpu ()).pc.yielding = some p) : (m.cpu ()).pc.yielding = some p := by
  cases step
  case clockintr => exact yielding
  case yieldAcquire =>
    exact absurd trivial inside
  case markSeq h q caller at_ | markCounter h q caller at_ | markTick h q caller at_ =>
    rw [at_]
    cases caller
    · exact yielding
    · cases yielding
    · cases yielding
  case markState h q caller at_ =>
    cases caller <;> cases yielding
  case dispatchSwtch | leave =>
    cases yielding
  all_goals
    cases yielding

theorem priority_step (step : Step m m') (q : Fin n) (normal : (m.slot q).proc.priority = .normal) :
    (m'.slot q).proc.priority = .normal ∨ m.cpu () = { proc := some q } := by
  cases effect_of_step step q with
  | quiet same => exact .inl (same.priority.trans normal)
  | reset h at_ next proc =>
    rw [proc]
    exact .inl rfl
  | setpriority h level current proc => exact .inr current
  | dispatch h at_ before proc | reap h at_ before proc | use h at_ before proc
  | stamp h caller at_ next proc | mark h caller at_ proc
  | account h at_ next proc | sleep h at_ proc | exit h at_ proc | fail h at_ proc =>
    rw [proc]
    exact .inl normal

theorem running_step (inv : Inv m) (step : Step m m') (q : Fin n)
    (running : (m.slot q).proc.state = .running) :
    (m'.slot q).proc.state = .running ∨
    ((m'.slot q).proc.state = .sleeping ∧ (m.cpu ()).pc = .sleepState q) ∨
    ((m'.slot q).proc.state = .zombie ∧ (m.cpu ()).pc = .exitLocked q) ∨
    ((m'.slot q).proc.state = .runnable ∧ (m.cpu ()).pc = .markState q .yield) := by
  cases effect_of_step step q with
  | quiet same => exact .inl (same.state.trans running)
  | dispatch h at_ before proc | reap h at_ before proc | use h at_ before proc =>
    rw [running] at before
    cases before
  | account h at_ next proc | stamp h caller at_ next proc | reset h at_ next proc
  | setpriority h level current proc =>
    rw [proc]
    exact .inl running
  | mark h caller at_ proc =>
    have placed := inv.at_place at_ rfl
    cases caller with
    | yield =>
      rw [proc]
      exact .inr (.inr (.inr ⟨rfl, at_⟩))
    | wakeup => cases running.symm.trans placed
    | kfork => cases running.symm.trans placed.1
  | sleep h at_ proc =>
    rw [proc]
    exact .inr (.inl ⟨rfl, at_⟩)
  | exit h at_ proc =>
    rw [proc]
    exact .inr (.inr (.inl ⟨rfl, at_⟩))
  | fail h at_ proc =>
    have used := used_of_allocating inv at_
    rw [running] at used
    cases used

end Step

namespace OneHart

variable {useCounter : Bool} {u u' : OneHart (priorityPreempt useCounter) n}

theorem normal_of_shouldPreempt {p : Fin n}
    (preempt : (priorityPreempt useCounter).shouldPreempt (u.proc p) = true) :
    (u.proc p).priority = .normal := by
  have other : (u.proc p).priority ≠ .latencySensitive := of_decide_eq_true preempt
  cases priority : (u.proc p).priority with
  | normal => rfl
  | latencySensitive => exact absurd priority other

theorem yielding_free {p q : Fin n} (current : u.cpu = { proc := some p }) :
    u.cpu.pc.yielding ≠ some q := by
  rw [current]
  nofun

/-- A `yield` at a timer interrupt in user mode is that of a Normal process. -/
def UserYields (u : OneHart (priorityPreempt useCounter) n) : Prop :=
  ∀ p, u.cpu.pc.yielding = some p →
    u.mode p = .kernelYield ∨ u.mode p = .userYield ∧ (u.proc p).priority = .normal

theorem userYields_step (yields : u.UserYields) (step : HartStep u u') : u'.UserYields := by
  cases step with
  | code step on kernel inside =>
    intro p yielding
    have before := yielding_before step inside yielding
    refine (yields p before).imp_right fun ⟨mode, normal⟩ => ⟨mode, ?_⟩
    refine (priority_step step p normal).resolve_right fun current => ?_
    rw [current] at before
    cases before
  | enter p current mode | prepareReturn p current mode | usertrap p current mode
  | kerneltrap p current mode | clockintr p current mode | usertrapKilled p current mode killed
  | usertrapKeep p current mode alive keep | kerneltrapReturn p current mode =>
    exact fun q yielding => absurd yielding (yielding_free current)
  | usertrapYield p current mode alive preempt unlocked =>
    intro q yielding
    cases yielding
    refine .inr ⟨setMode_self u p _, ?_⟩
    rw [proc, yieldAcquire, Machine.go_acquire_proc]
    exact normal_of_shouldPreempt preempt
  | kerneltrapYield p current mode unlocked =>
    intro q yielding
    cases yielding
    exact .inl (setMode_self u p _)
  | clockintrWakeup p q chan current mode other unlocked | acquire next picked scheduler unlocked =>
    intro q yielding
    cases yielding
  | intrOff | pickNext | pickNextNull | wfi => exact yields

theorem userYields_of_reachable (reach : u.Reachable) : u.UserYields := by
  obtain ⟨p, run⟩ := reach
  induction run with
  | refl => exact nofun
  | tail _ step ih => exact userYields_step ih step

/-- `kerneltrap` takes no timer interrupt in this step, or one that finds a Normal process. -/
def Shielded (u u' : OneHart (priorityPreempt useCounter) n) : Prop :=
  ∀ p, u.mode p = .kernel → u'.mode p = .kernelTick → (u.proc p).priority = .normal

/-- No LatencySensitive process is on its way to give up the hart. -/
structure Protects (u : OneHart (priorityPreempt useCounter) n) : Prop where
  tick : ∀ p, u.mode p = .kernelTick → (u.proc p).priority = .normal
  yields : ∀ p, u.cpu.pc.yielding = some p → (u.proc p).priority = .normal

theorem Protects.setMode (protects : u.Protects) {p : Fin n} {mode : Mode}
    (current : u.cpu = { proc := some p })
    (tick : mode = .kernelTick → (u.proc p).priority = .normal) :
    (u.setMode p mode).Protects where
  tick := by
    intro q ticking
    by_cases same : q = p
    · subst same
      rw [setMode_self] at ticking
      exact tick ticking
    · rw [setMode_of_ne u same] at ticking
      exact protects.tick q ticking
  yields := fun q yielding => absurd yielding (yielding_free current)

theorem Protects.acquire (protects : u.Protects) {pc : Pc n} {q : Fin n}
    (yields : ∀ p, pc.yielding = some p → (u.proc p).priority = .normal) :
    Protects { u with machine := u.machine.go () pc q ((u.machine.slot q).acquire ()) } := by
  have same := Machine.go_acquire_proc u.machine pc q
  refine ⟨fun p ticking => ?_, fun p yielding => ?_⟩
  · rw [proc, same]
    exact protects.tick p ticking
  · rw [proc, same]
    exact yields p yielding

theorem protects_step (protects : u.Protects) (step : HartStep u u') (shielded : Shielded u u') :
    u'.Protects := by
  cases step with
  | code step on kernel inside =>
    refine ⟨fun p ticking => ?_, fun p yielding => ?_⟩
    · refine (priority_step step p (protects.tick p ticking)).resolve_right fun current => ?_
      have mode := kernel p current
      rw [ticking] at mode
      cases mode
    · have before := yielding_before step inside yielding
      refine (priority_step step p (protects.yields p before)).resolve_right fun current => ?_
      rw [current] at before
      cases before
  | enter p current mode | prepareReturn p current mode | usertrap p current mode
  | usertrapKilled p current mode killed | usertrapKeep p current mode alive keep
  | kerneltrapReturn p current mode =>
    exact protects.setMode current nofun
  | kerneltrap p current mode =>
    exact protects.setMode current fun _ => shielded p mode (setMode_self u p _)
  | clockintr p current mode =>
    exact ⟨protects.tick, fun q yielding => absurd yielding (yielding_free current)⟩
  | usertrapYield p current mode alive preempt unlocked =>
    refine Protects.acquire (u := u.setMode p .userYield) (protects.setMode current nofun) ?_
    intro q yielding
    cases yielding
    exact normal_of_shouldPreempt preempt
  | kerneltrapYield p current mode unlocked =>
    refine Protects.acquire (u := u.setMode p .kernelYield) (protects.setMode current nofun) ?_
    intro q yielding
    cases yielding
    exact protects.tick p mode
  | clockintrWakeup p q chan current mode other unlocked => exact protects.acquire nofun
  | acquire next picked scheduler unlocked =>
    exact Protects.acquire (u := { u with loop := .on }) ⟨protects.tick, protects.yields⟩ nofun
  | intrOff | pickNext | pickNextNull | wfi => exact ⟨protects.tick, protects.yields⟩

def ShieldedReachable (u : OneHart (priorityPreempt useCounter) n) : Prop :=
  ∃ p, Relation.ReflTransGen (fun u u' => HartStep u u' ∧ Shielded u u') (boot _ p) u

theorem ShieldedReachable.reachable (reach : u.ShieldedReachable) : u.Reachable := by
  obtain ⟨p, run⟩ := reach
  exact ⟨p, run.lift id fun _ _ step => step.1⟩

theorem protects_of_shielded (reach : u.ShieldedReachable) : u.Protects := by
  obtain ⟨p, run⟩ := reach
  induction run with
  | refl => exact ⟨nofun, nofun⟩
  | tail _ step ih => exact protects_step ih step.1 step.2

theorem running_hartStep (reach : u.Reachable) (step : HartStep u u') (p : Fin n)
    (running : (u.proc p).state = .running) (left : (u'.proc p).state ≠ .running) :
    ((u'.proc p).state = .sleeping ∧ u.cpu.pc = .sleepState p) ∨
    ((u'.proc p).state = .zombie ∧ u.cpu.pc = .exitLocked p) ∨
    ((u'.proc p).state = .runnable ∧ u.cpu.pc = .markState p .yield) := by
  rcases step.base with same | step
  · rw [proc, same] at left
    exact absurd running left
  · exact (running_step (inv_of_reachable reach.machine) step p running).resolve_left left

theorem kerneltrap_yields {p : Fin n} (current : u.cpu = { proc := some p })
    (unlocked : (u.machine.slot p).lock = none) (on : u.loop = .on) :
    ∃ v v', Relation.ReflTransGen HartStep (u.setMode p .kernelTick) v ∧ HartStep v v' ∧
      (v.proc p).priority = (u.proc p).priority ∧ (v'.proc p).state = .runnable := by
  have run := Relation.ReflTransGen.single
        (@HartStep.kerneltrapYield n _ (u.setMode p .kernelTick) p current
          (setMode_self u p _) unlocked)
      |>.tail (.locked (.markSeq () p .yield rfl) on nofun nofun)
      |>.tail (.locked (.markCounter () p .yield rfl) on nofun nofun)
      |>.tail (.locked (.markTick () p .yield rfl) on nofun nofun)
  refine ⟨_, _, run, .locked (.markState () p .yield rfl) on nofun nofun, ?_, ?_⟩
  · simp [proc, setMode, yieldAcquire, Machine.go, Machine.put]
  · simp [proc, setMode, yieldAcquire, Machine.go, Machine.put]

theorem unlocked_of_free (reach : u.Reachable) {p : Fin n}
    (current : u.cpu = { proc := some p }) (q : Fin n) : (u.machine.slot q).lock = none := by
  cases lock : (u.machine.slot q).lock with
  | none => rfl
  | some h =>
    have held := ((inv_of_reachable reach.machine).lock_iff h q).mp lock
    have place : u.machine.cpu h = { proc := some p } := current
    rw [place] at held
    cases held

theorem kernelTick_step {p : Fin n} (step : HartStep u u') (ticking : u.mode p = .kernelTick)
    (left : u'.mode p ≠ .kernelTick) :
    u' = { u.setMode p .kernelYield with machine := yieldAcquire u.machine p } := by
  -- A step that sets the mode of another process leaves this one's as it is.
  have other {q : Fin n} {mode mode' : Mode} (current : u.mode q = mode)
      (apart : mode ≠ .kernelTick) : (u.setMode q mode').mode p = .kernelTick := by
    rw [setMode_of_ne u (by rintro rfl; exact apart (current.symm.trans ticking)), ticking]
  cases step with
  | kerneltrapYield q current mode unlocked =>
    by_cases same : p = q
    · rw [same]
    · exact absurd ((setMode_of_ne u same _).trans ticking) left
  | prepareReturn q current mode =>
    rcases mode with mode | mode <;> exact absurd (other mode nofun) left
  | kerneltrap q current mode | enter q current mode | usertrap q current mode
  | usertrapKilled q current mode | usertrapKeep q current mode | usertrapYield q current mode
  | kerneltrapReturn q current mode => exact absurd (other mode nofun) left
  | code | clockintr | clockintrWakeup | intrOff | pickNext | pickNextNull | acquire | wfi =>
    exact absurd ticking left

/-- A RUNNING LatencySensitive process leaves that state when it sleeps, when it exits, or when
it executes in the kernel at a timer interrupt. In runs without such an interrupt it only
sleeps and exits. The handler of every such interrupt is left only by the `yield`, which makes the
process give up the hart. -/
theorem latencySensitive_leaves_running (useCounter : Bool) (n : Nat) :
    (∀ (u u' : OneHart (priorityPreempt useCounter) n) (p : Fin n), u.Reachable →
      HartStep u u' → (u.proc p).state = .running →
      (u.proc p).priority = .latencySensitive → (u'.proc p).state ≠ .running →
      ((u'.proc p).state = .sleeping ∧ u.cpu.pc = .sleepState p) ∨
      ((u'.proc p).state = .zombie ∧ u.cpu.pc = .exitLocked p) ∨
      ((u'.proc p).state = .runnable ∧ u.mode p = .kernelYield)) ∧
    (∀ (u u' : OneHart (priorityPreempt useCounter) n) (p : Fin n), u.ShieldedReachable →
      HartStep u u' → (u.proc p).state = .running →
      (u.proc p).priority = .latencySensitive → (u'.proc p).state ≠ .running →
      ((u'.proc p).state = .sleeping ∧ u.cpu.pc = .sleepState p) ∨
      ((u'.proc p).state = .zombie ∧ u.cpu.pc = .exitLocked p)) ∧
    (∀ (u : OneHart (priorityPreempt useCounter) n) (p : Fin n), u.Reachable →
      u.cpu = { proc := some p } → u.mode p = .kernel →
      ∃ v v', HartStep u (u.setMode p .kernelTick) ∧
        Relation.ReflTransGen HartStep (u.setMode p .kernelTick) v ∧ HartStep v v' ∧
        (v.proc p).priority = (u.proc p).priority ∧ (v'.proc p).state = .runnable) ∧
    ∀ (u u' : OneHart (priorityPreempt useCounter) n) (p : Fin n), HartStep u u' →
      u.mode p = .kernelTick → u'.mode p ≠ .kernelTick →
      u' = { u.setMode p .kernelYield with machine := yieldAcquire u.machine p } := by
  refine ⟨?_, ?_, ?_, fun _ _ _ => kernelTick_step⟩
  · intro u u' p reachable step running ls left
    rcases running_hartStep reachable step p running left with slept | exited | ⟨runnable, place⟩
    · exact .inl slept
    · exact .inr (.inl exited)
    · refine .inr (.inr ⟨runnable, ?_⟩)
      rcases userYields_of_reachable reachable p (by rw [place]; rfl) with kernel | ⟨-, normal⟩
      · exact kernel
      · rw [ls] at normal
        cases normal
  · intro u u' p reachable step running ls left
    rcases running_hartStep reachable.reachable step p running left with
      slept | exited | ⟨-, place⟩
    · exact .inl slept
    · exact .inr exited
    · have normal := (protects_of_shielded reachable).yields p (by rw [place]; rfl)
      rw [ls] at normal
      cases normal
  · intro u p reachable current mode
    have selects := selects_of_reachable (priorityPreempt_prefersLs useCounter) reachable
    obtain ⟨v, v', run, step, priority, runnable⟩ := kerneltrap_yields current
      (unlocked_of_free reachable current p) (selects.on current)
    exact ⟨v, v', .kerneltrap p current mode, run, step, priority, runnable⟩

/-- The first process declares itself LatencySensitive and sleeps, in a run without timer
interrupts. -/
theorem latencySensitive_sleeps_shielded :
    ∃ u u' : OneHart (priorityPreempt true) 1, u.ShieldedReachable ∧ HartStep u u' ∧
      (u.proc 0).state = .running ∧ (u.proc 0).priority = .latencySensitive ∧
      (((u'.proc 0).state = .sleeping ∧ u.cpu.pc = .sleepState 0) ∨
        ((u'.proc 0).state = .zombie ∧ u.cpu.pc = .exitLocked 0)) := by
  have run := Relation.ReflTransGen.single (r := fun u u' => HartStep u u' ∧ Shielded u u')
      ⟨@HartStep.intrOff 1 (priorityPreempt true) (boot _ 0) rfl rfl, nofun⟩
      |>.tail ⟨.pickNext 0 _ rfl rfl, nofun⟩
      |>.tail ⟨.acquire 0 rfl rfl rfl, nofun⟩
      |>.tail ⟨.locked (.dispatchStore () 0 rfl rfl), nofun⟩
      |>.tail ⟨.locked (.dispatchCount () 0 rfl), nofun⟩
      |>.tail ⟨.locked (.dispatchAccount () 0 rfl), nofun⟩
      |>.tail ⟨.locked (.dispatchSwtch () 0 rfl), nofun⟩
      |>.tail ⟨.locked (.resume () 0 rfl), nofun⟩
      |>.tail ⟨.code (.setpriority () 0 .latencySensitive rfl) rfl (fun _ _ => rfl) nofun, nofun⟩
      |>.tail ⟨.code (.sleepAcquire () 0 7 rfl rfl) rfl (fun _ _ => rfl) nofun, nofun⟩
      |>.tail ⟨.locked (.sleepChan () 0 7 rfl), nofun⟩
  refine ⟨_, _, ⟨0, run⟩, .locked (.sleepState () 0 rfl), rfl, rfl, ?_⟩
  exact (latencySensitive_leaves_running true 1).2.1 _ _ 0 ⟨0, run⟩
    (.locked (.sleepState () 0 rfl)) rfl rfl nofun

/-- The first process declares itself LatencySensitive, and a timer interrupt arrives before
its system call has returned. -/
theorem latencySensitive_preempted_in_kernel :
    ∃ u u' : OneHart (priorityPreempt true) 1, u.Reachable ∧ HartStep u u' ∧
      (u.proc 0).state = .running ∧ (u.proc 0).priority = .latencySensitive ∧
      (u'.proc 0).state = .runnable ∧ u.cpu.pc ≠ .sleepState 0 ∧ u.cpu.pc ≠ .exitLocked 0 := by
  have run := Relation.ReflTransGen.single
      (@HartStep.intrOff 1 (priorityPreempt true) (boot _ 0) rfl rfl)
      |>.tail (.pickNext 0 _ rfl rfl)
      |>.tail (.acquire 0 rfl rfl rfl)
      |>.tail (.locked (.dispatchStore () 0 rfl rfl))
      |>.tail (.locked (.dispatchCount () 0 rfl))
      |>.tail (.locked (.dispatchAccount () 0 rfl))
      |>.tail (.locked (.dispatchSwtch () 0 rfl))
      |>.tail (.locked (.resume () 0 rfl))
      |>.tail (.code (.setpriority () 0 .latencySensitive rfl) rfl (fun _ _ => rfl) nofun)
      |>.tail (.kerneltrap 0 rfl rfl)
      |>.tail (.kerneltrapYield 0 rfl rfl rfl)
      |>.tail (.locked (.markSeq () 0 .yield rfl))
      |>.tail (.locked (.markCounter () 0 .yield rfl))
      |>.tail (.locked (.markTick () 0 .yield rfl))
  refine ⟨_, _, ⟨0, run⟩, .locked (.markState () 0 .yield rfl), rfl, rfl, rfl,
    nofun, nofun⟩

end OneHart

end Xv6.Sched
