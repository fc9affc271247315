import Xv6.Sched.OneHart

/-!
# No priority inversion at a dispatch

The counter is never below the number of waiting LatencySensitive processes, and on a single
hart the table stays as it is until the process has been switched to.
-/

namespace Xv6.Sched

open Xv6.CyclicScan

variable {n : Nat} {useCounter : Bool} {procs : Nat → Proc} {count : Int} {policy : PriorityPreempt}

/-! ## Policies -/

/-- The policy answers with a Normal process only if no LatencySensitive one is RUNNABLE, and
with null only if no process is. -/
structure SchedulerPolicy.PrefersLs (P : SchedulerPolicy) : Prop where
  some : ∀ {object object' : P.Object} {procs : Nat → Proc} {n idx : Nat} {count : Int},
    0 < n → (lsRunnable procs n : Int) ≤ count →
    P.pickNext object procs n count = (some idx, object') → (procs idx).priority = .normal →
    ∀ i, i < n → (procs i).isRunnableLs = false
  none : ∀ {object object' : P.Object} {procs : Nat → Proc} {n : Nat} {count : Int},
    0 < n → P.pickNext object procs n count = (none, object') →
    ∀ i, i < n → (procs i).isRunnable = false

theorem PriorityPreempt.firstPass_none {n : Nat} (pos : 0 < n)
    (enough : (lsRunnable procs n : Int) ≤ count)
    (nothing : policy.firstPass useCounter procs n count = none) :
    ∀ i, i < n → (procs i).isRunnableLs = false := by
  unfold firstPass at nothing
  split at nothing
  · exact (scan_eq_none_iff pos).mp nothing
  · rename_i skipped
    have exhausted : count ≤ 0 := by
      unfold maybeLs at skipped
      split at skipped
      · simpa using skipped
      · exact absurd rfl skipped
    exact not_isRunnableLs_of_lsRunnable_eq_zero (by omega)

theorem PriorityPreempt.firstPass_ls {n idx : Nat}
    (found : policy.firstPass useCounter procs n count = some idx) :
    (procs idx).priority = .latencySensitive := by
  unfold firstPass at found
  split at found
  · have waiting := scan_accept found
    simp only [Proc.isRunnableLs, decide_eq_true_eq] at waiting
    exact waiting.2
  · cases found

theorem PriorityPreempt.pickNext_normal {policy' : PriorityPreempt} {n idx : Nat} (pos : 0 < n)
    (enough : (lsRunnable procs n : Int) ≤ count)
    (picked : policy.pickNext useCounter procs n count = (some idx, policy'))
    (normal : (procs idx).priority = .normal) :
    ∀ i, i < n → (procs i).isRunnableLs = false := by
  cases found : policy.firstPass useCounter procs n count with
  | none => exact firstPass_none pos enough found
  | some first =>
    rw [pickNext, found] at picked
    cases picked
    rw [firstPass_ls found] at normal
    cases normal

theorem priorityPreempt_prefersLs (useCounter : Bool) : (priorityPreempt useCounter).PrefersLs where
  some := PriorityPreempt.pickNext_normal
  none := fun pos picked => (PriorityPreempt.pickNext_none pos picked).2

theorem PrioritySelectOnly.pickNext_inner {policy policy' : PrioritySelectOnly} {n : Nat}
    {answer : Option Nat} (picked : policy.pickNext useCounter procs n count = (answer, policy')) :
    policy.inner.pickNext useCounter procs n count = (answer, policy'.inner) := by
  cases picked
  rfl

theorem prioritySelectOnly_prefersLs (useCounter : Bool) :
    (prioritySelectOnly useCounter).PrefersLs where
  some := fun pos enough picked =>
    PriorityPreempt.pickNext_normal pos enough (PrioritySelectOnly.pickNext_inner picked)
  none := fun pos picked =>
    (PriorityPreempt.pickNext_none pos (PrioritySelectOnly.pickNext_inner picked)).2

/-! ## From the answer to the switch -/

/-- The process that `dispatch` is about to switch to, or has just switched to. -/
def Pc.target : Pc n → Option (Fin n)
  | .dispatchLocked p | .dispatchStored p | .dispatchCounted p | .dispatchAccounted p
  | .entered p => some p
  | _ => none

namespace Machine

/-- The process is not preferred to a LatencySensitive one that waits. -/
def Chosen (m : Machine Unit n) (next : Fin n) : Prop :=
  (m.slot next).proc.priority = .normal → ∀ q, (m.slot q).proc.isRunnableLs = false

theorem Chosen.congr {m m' : Machine Unit n} {next : Fin n} (chosen : m.Chosen next)
    (priority : (m'.slot next).proc.priority = (m.slot next).proc.priority)
    (waits : ∀ q, (m'.slot q).proc.isRunnableLs = true → (m.slot q).proc.isRunnableLs = true) :
    m'.Chosen next := by
  intro normal q
  have before := chosen (priority.symm.trans normal) q
  cases after : (m'.slot q).proc.isRunnableLs with
  | false => rfl
  | true =>
    rw [waits q after] at before
    cases before

end Machine

section Step

variable {m m' : Machine Unit n} {next : Fin n}

theorem effect_at_target (step : Step m m') (target : (m.cpu ()).pc.target = some next)
    (q : Fin n) :
    (m'.slot q).proc.priority = (m.slot q).proc.priority ∧
      ((m'.slot q).proc.state = (m.slot q).proc.state ∨ (m'.slot q).proc.state = .running) := by
  cases effect_of_step step q with
  | quiet same => exact ⟨same.priority, .inl same.state⟩
  | dispatch h at_ runnable proc =>
    rw [proc]
    exact ⟨rfl, .inr rfl⟩
  | account h at_ next proc =>
    rw [proc]
    exact ⟨rfl, .inl rfl⟩
  | stamp h caller at_ | mark h caller at_ | sleep h at_ | exit h at_ | reap h at_ | use h at_
  | reset h at_ =>
    rw [at_] at target
    cases target
  | fail h at_ =>
    rcases at_ with at_ | at_ <;> (rw [at_] at target; cases target)
  | setpriority h level current =>
    rw [current] at target
    cases target

theorem chosen_step (step : Step m m') (target : (m.cpu ()).pc.target = some next)
    (chosen : m.Chosen next) : m'.Chosen next := by
  refine chosen.congr (effect_at_target step target next).1 fun q waits => ?_
  obtain ⟨priority, state⟩ := effect_at_target step target q
  simp only [Proc.isRunnableLs, decide_eq_true_eq] at waits ⊢
  rcases state with same | running
  · exact ⟨same.symm.trans waits.1, priority.symm.trans waits.2⟩
  · rw [running] at waits
    cases waits.1

theorem target_before (step : Step m m') (inside : ¬(m'.cpu ()).pc.Entry)
    (target : (m'.cpu ()).pc.target = some next) : (m.cpu ()).pc.target = some next := by
  cases step
  case clockintr => exact target
  case dispatchAcquire =>
    exact absurd trivial inside
  case dispatchStore h p at_ _ | dispatchCount h p at_ | dispatchAccount h p at_ =>
    rw [at_]
    simpa only [Machine.go_cpu, Pc.target] using target
  case dispatchSwtch h p at_ =>
    rw [at_]
    simpa only [Machine.put_cpu, Pc.target] using target
  case markState h p caller at_ =>
    cases caller <;> cases target
  case leave => simp [Pc.target] at target
  all_goals
    cases target

theorem entered_of_step (step : Step m m') (before : (m.cpu ()).proc = none)
    (after : (m'.cpu ()).proc = some next) : (m'.cpu ()).pc = .entered next := by
  cases step
  case clockintr =>
    rw [before] at after
    cases after
  case dispatchSwtch =>
    cases after
    rfl
  case leave =>
    cases after
  all_goals
    simp only [Machine.go_cpu, before] at after
    cases after

end Step

/-! ## Runs -/

theorem Machine.call_procs (m : Machine Unit n) (q : Fin n) : m.call.procs q = (m.slot q).proc :=
  dif_pos q.isLt

namespace OneHart

variable {P : SchedulerPolicy} {u u' : OneHart P n}

structure Selects (u : OneHart P n) : Prop where
  scheduler : u.loop ≠ .on → u.cpu = {}
  picked : ∀ next, u.loop = .picked next → u.machine.Chosen next
  idle : u.loop = .idle → ∀ q, (u.proc q).state ≠ .runnable
  target : ∀ next, u.cpu.pc.target = some next → u.machine.Chosen next

theorem Selects.on (selects : u.Selects) {p : Fin n} (current : u.cpu = { proc := some p }) :
    u.loop = .on := by
  by_contra off
  have idle := selects.scheduler off
  rw [current] at idle
  cases idle

theorem Selects.ofOn (on : u.loop = .on)
    (target : ∀ next, u.cpu.pc.target = some next → u.machine.Chosen next) : u.Selects where
  scheduler := fun off => absurd on off
  picked := by
    intro next picked
    rw [on] at picked
    cases picked
  idle := by
    intro idle
    rw [on] at idle
    cases idle
  target := target

theorem selects_step (prefers : P.PrefersLs) (pos : 0 < n)
    (covered : u.machine.call.Covered n) (selects : u.Selects) (step : HartStep u u') :
    u'.Selects := by
  cases step with
  | code step on kernel inside =>
    refine .ofOn on fun next target => ?_
    have before := target_before step inside target
    exact chosen_step step before (selects.target next before)
  | enter p current mode | prepareReturn p current mode | usertrap p current mode
  | kerneltrap p current mode | clockintr p current mode | usertrapKilled p current mode killed
  | usertrapKeep p current mode alive keep | kerneltrapReturn p current mode =>
    exact .ofOn (selects.on current) selects.target
  | clockintrWakeup p q chan current mode other unlocked
  | usertrapYield p current mode alive preempt unlocked
  | kerneltrapYield p current mode unlocked =>
    refine .ofOn (selects.on current) fun next target => ?_
    cases target
  | intrOff scheduler on => exact ⟨fun _ => scheduler, nofun, nofun, selects.target⟩
  | pickNext next policy off picked =>
    have scheduler : u.cpu = {} := selects.scheduler (by rw [off]; nofun)
    refine ⟨fun _ => scheduler, ?_, nofun, selects.target⟩
    intro next' same
    cases same
    intro normal q
    rw [← Machine.call_procs] at normal ⊢
    exact prefers.some pos covered picked normal q q.isLt
  | pickNextNull policy off picked =>
    have scheduler : u.cpu = {} := selects.scheduler (by rw [off]; nofun)
    refine ⟨fun _ => scheduler, nofun, ?_, selects.target⟩
    intro _ q runnable
    have idle := prefers.none pos picked q q.isLt
    rw [Machine.call_procs, Proc.isRunnable, decide_eq_false_iff_not] at idle
    exact idle runnable
  | acquire next picked scheduler unlocked =>
    refine .ofOn rfl fun next' target => ?_
    cases target
    have same := Machine.go_acquire_proc u.machine (.dispatchLocked next) next
    exact (selects.picked next picked).congr (by rw [same]) fun q waits => by rwa [same] at waits
  | wfi idle => exact .ofOn rfl selects.target

theorem selects_of_reachable (prefers : P.PrefersLs) (reach : u.Reachable) : u.Selects := by
  obtain ⟨p, run⟩ := reach
  induction run with
  | refl => exact .ofOn rfl nofun
  | tail before step ih =>
    have covered := covered_of_reachable (Reachable.machine ⟨p, before⟩)
    exact selects_step prefers (Fin.pos p) covered ih step

theorem entered_of_switch {next : Fin n} (step : HartStep u u') (before : u.cpu.proc = none)
    (after : u'.cpu.proc = some next) : u'.cpu.pc = .entered next := by
  rcases step.base with same | step
  · rw [cpu, same] at after
    rw [cpu, after] at before
    cases before
  · exact entered_of_step step before after

/-- The policies that prefer LatencySensitive processes outright. -/
inductive Prefers : SchedulerPolicy → Prop
  | preempt (useCounter : Bool) : Prefers (priorityPreempt useCounter)
  | selectOnly (useCounter : Bool) : Prefers (prioritySelectOnly useCounter)

/-- `dispatch` switches to a Normal process only when no LatencySensitive one is RUNNABLE, and
executes `wfi` only when no process is RUNNABLE. -/
theorem no_priority_inversion (active : Prefers P) (reachable : u.Reachable)
    (step : HartStep u u') :
    (∀ next, u.cpu.proc = none → u'.cpu.proc = some next → (u'.proc next).priority = .normal →
      ∀ q, ¬((u'.proc q).state = .runnable ∧ (u'.proc q).priority = .latencySensitive)) ∧
    (u.loop = .idle → ∀ q, (u.proc q).state ≠ .runnable) := by
  have prefers : P.PrefersLs := by
    cases active with
    | preempt useCounter => exact priorityPreempt_prefersLs useCounter
    | selectOnly useCounter => exact prioritySelectOnly_prefersLs useCounter
  have selects := selects_of_reachable prefers reachable
  refine ⟨?_, selects.idle⟩
  intro next before after normal q waits
  obtain ⟨p, run⟩ := reachable
  have selects' := selects_of_reachable prefers ⟨p, run.tail step⟩
  have place := entered_of_switch step before after
  have none := selects'.target next (by rw [place]; rfl) normal q
  rw [Proc.isRunnableLs, decide_eq_false_iff_not] at none
  exact none waits

/-- The first process has forked a child and yielded. Both wait, and `dispatch` is about to switch
to the child. -/
theorem no_priority_inversion_two_waiting :
    ∃ u u' : OneHart (priorityPreempt true) 2, u.Reachable ∧ HartStep u u' ∧ u'.cpu.proc = some 1 ∧
      (u'.proc 0).state = .runnable ∧
      ∀ q, ¬((u'.proc q).state = .runnable ∧ (u'.proc q).priority = .latencySensitive) := by
  have running := Relation.ReflTransGen.single
      (@HartStep.intrOff 2 (priorityPreempt true) (boot _ 0) rfl rfl)
    |>.tail (.pickNext 0 _ rfl rfl)
    |>.tail (.acquire 0 rfl rfl rfl)
    |>.tail (.locked (.dispatchStore () 0 rfl rfl))
    |>.tail (.locked (.dispatchCount () 0 rfl))
    |>.tail (.locked (.dispatchAccount () 0 rfl))
    |>.tail (.locked (.dispatchSwtch () 0 rfl))
    |>.tail (.locked (.resume () 0 rfl))
  have forked := running
    |>.tail (.code (.allocAcquire () 1 rfl rfl) rfl (fun _ _ => rfl) nofun)
    |>.tail (.locked (.allocUse () 1 rfl rfl))
    |>.tail (.locked (.allocReset () 1 rfl))
    |>.tail (.locked (.forkRelease () 0 1 rfl))
    |>.tail (.code (.forkAcquire () 0 1 rfl rfl rfl) rfl (fun _ _ => rfl) nofun)
    |>.tail (.locked (.markSeq () 1 .kfork rfl))
    |>.tail (.locked (.markCounter () 1 .kfork rfl))
    |>.tail (.locked (.markTick () 1 .kfork rfl))
    |>.tail (.locked (.markState () 1 .kfork rfl))
    |>.tail (.locked (.release () 1 rfl))
  have yielded := forked
    |>.tail (.kerneltrap 0 rfl rfl)
    |>.tail (.kerneltrapYield 0 rfl rfl rfl)
    |>.tail (.locked (.markSeq () 0 .yield rfl))
    |>.tail (.locked (.markCounter () 0 .yield rfl))
    |>.tail (.locked (.markTick () 0 .yield rfl))
    |>.tail (.locked (.markState () 0 .yield rfl))
    |>.tail (.locked (.leave () 0 rfl))
  have picked := yielded
    |>.tail (.intrOff rfl rfl)
    |>.tail (.pickNext 1 _ rfl rfl)
    |>.tail (.acquire 1 rfl rfl rfl)
    |>.tail (.locked (.dispatchStore () 1 rfl rfl))
    |>.tail (.locked (.dispatchCount () 1 rfl))
    |>.tail (.locked (.dispatchAccount () 1 rfl))
  refine ⟨_, _, ⟨0, picked⟩, .locked (.dispatchSwtch () 1 rfl), rfl, rfl, ?_⟩
  exact (no_priority_inversion (.preempt true) ⟨0, picked⟩
    (.locked (.dispatchSwtch () 1 rfl))).1 1 rfl rfl rfl

end OneHart

end Xv6.Sched
