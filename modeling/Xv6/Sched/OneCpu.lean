import Xv6.Sched.Counter

/-!
# One hart per process

A RUNNING process is `c->proc` of exactly one hart, or one hart is about to switch to it and holds
its lock.
-/

namespace Xv6.Sched

open Function

variable {Hart : Type} {n : Nat} {pc : Pc n} {slot : Slot Hart n}

/-- The process a hart has made RUNNING in `dispatch` and has not switched to. -/
def Pc.dispatching : Pc n → Option (Fin n)
  | .dispatchStored p | .dispatchCounted p | .dispatchAccounted p => some p
  | _ => none

/-- The hart runs the process, or is about to. -/
def Cpu.Serves (cpu : Cpu n) (q : Fin n) : Prop := cpu.proc = some q ∨ cpu.pc.dispatching = some q

/-- Every RUNNING process has its hart, and a process that leaves its hart is not
RUNNING any more. -/
structure Served (m : Machine Hart n) : Prop where
  serves : ∀ q, (m.slot q).proc.state = .running → ∃ h, (m.cpu h).Serves q
  stopped : ∀ h q, (m.cpu h).pc = .left q → (m.slot q).proc.state ≠ .running

theorem held_of_dispatching {q : Fin n} (dispatching : pc.dispatching = some q) :
    pc.held = some q := by
  cases pc <;> simp_all [Pc.dispatching, Pc.held]

/-- What a step of hart `h` on slot `q` does to the processes of the harts. -/
structure Moves (m : Machine Hart n) (h : Hart) (q : Fin n) (cpu : Cpu n)
    (slot : Slot Hart n) : Prop where
  held : ∀ r, (m.cpu h).pc.held = some r → r = q
  kept : ∀ r, r ≠ q → (m.cpu h).proc = some r → cpu.proc = some r
  running : slot.proc.state = .running →
    cpu.Serves q ∨ ((m.slot q).proc.state = .running ∧ ¬ (m.cpu h).Serves q)
  entered : ∀ r, cpu.proc = some r →
    (m.cpu h).proc = some r ∨ (r = q ∧ (m.cpu h).pc = .dispatchAccounted q)
  starts : slot.proc.state = .running → (m.slot q).proc.state = .running ∨
    ((m.cpu h).pc = .dispatchLocked q ∧ (m.slot q).proc.state = .runnable)
  stops : ∀ r, cpu.pc = .left r → r = q ∧ slot.proc.state ≠ .running

section Step

variable {m m' : Machine Hart n} {h : Hart} {q : Fin n}

theorem Moves.ofGo (held : ∀ r, (m.cpu h).pc.held = some r → r = q)
    (running : slot.proc.state = .running →
      (pc.dispatching = some q ∨ (m.cpu h).pc.dispatching ≠ some q) ∧
        ((m.slot q).proc.state = .running ∨ (((m.cpu h).pc = .dispatchLocked q ∧
          (m.slot q).proc.state = .runnable) ∧ pc.dispatching = some q)))
    (stays : ∀ r, pc ≠ .left r) :
    Moves m h q { m.cpu h with pc := pc } slot where
  held := held
  kept := fun _ _ same => same
  running := by
    intro state
    obtain ⟨after, before | ⟨_, dispatching⟩⟩ := running state
    · rcases after with dispatching | idle
      · exact Or.inl (Or.inr dispatching)
      · by_cases mine : (m.cpu h).proc = some q
        · exact Or.inl (Or.inl mine)
        · exact Or.inr ⟨before, fun serves => serves.elim mine idle⟩
    · exact Or.inl (Or.inr dispatching)
  entered := fun _ same => Or.inl same
  starts := fun state => (running state).2.imp_right And.left
  stops := fun r left => absurd left (stays r)

theorem Moves.ofQuiet (held : ∀ r, (m.cpu h).pc.held = some r → r = q)
    (state : slot.proc.state = (m.slot q).proc.state)
    (idle : (m.cpu h).pc.dispatching = none) (stays : ∀ r, pc ≠ .left r) :
    Moves m h q { m.cpu h with pc := pc } slot :=
  .ofGo held (fun running => ⟨Or.inr (by simp [idle]), Or.inl (state ▸ running)⟩) stays

theorem Moves.ofStopped (held : (m.cpu h).pc.held = some q) (stopped : slot.proc.state ≠ .running)
    (leaves : ∀ r, pc = .left r → r = q) :
    Moves m h q { m.cpu h with pc := pc } slot where
  held := fun _ holds => Option.some.inj (holds.symm.trans held)
  kept := fun _ _ same => same
  running := fun state => absurd state stopped
  entered := fun _ same => Or.inl same
  starts := fun state => absurd state stopped
  stops := fun r left => ⟨leaves r left, stopped⟩

theorem served_of_moves [DecidableEq Hart] {cpu : Cpu n} (inv : Inv m) (served : Served m)
    (slots : m'.slot = update m.slot q slot)
    (cpus : m'.cpu = update m.cpu h cpu) (moves : Moves m h q cpu slot) :
    Served m' where
  serves := by
    intro r running
    rw [slots] at running
    by_cases same : r = q
    · subst same
      rw [update_self] at running
      rcases moves.running running with serves | ⟨before, idle⟩
      · exact ⟨h, by rw [cpus, update_self]; exact serves⟩
      · obtain ⟨other, serves⟩ := served.serves r before
        have apart : other ≠ h := by
          rintro rfl
          exact idle serves
        exact ⟨other, by rw [cpus, update_of_ne apart]; exact serves⟩
    · rw [update_of_ne same] at running
      obtain ⟨other, serves⟩ := served.serves r running
      by_cases here : other = h
      · subst here
        refine ⟨other, ?_⟩
        rw [cpus, update_self]
        rcases serves with runs | dispatching
        · exact Or.inl (moves.kept r same runs)
        · exact absurd (moves.held r (held_of_dispatching dispatching)) same
      · exact ⟨other, by rw [cpus, update_of_ne here]; exact serves⟩
  stopped := by
    intro other r left
    rw [slots]
    rw [cpus] at left
    by_cases here : other = h
    · subst here
      rw [update_self] at left
      obtain ⟨rfl, stopped⟩ := moves.stops r left
      rw [update_self]
      exact stopped
    · rw [update_of_ne here] at left
      have before := served.stopped other r left
      by_cases same : r = q
      · subst same
        rw [update_self]
        intro running
        rcases moves.starts running with ran | ⟨locked, -⟩
        · exact before ran
        · -- both harts would hold the lock
          exact here (inv.held_unique (q := r) (by rw [left]; rfl) (by rw [locked]; rfl))
      · rw [update_of_ne same]
        exact before

variable [DecidableEq Hart]

theorem moves_of_step (inv : Inv m) (served : Served m) (step : Step m m') :
    (m'.slot = m.slot ∧ m'.cpu = m.cpu) ∨
    ∃ h q cpu slot, m'.slot = update m.slot q slot ∧
      m'.cpu = update m.cpu h cpu ∧ Moves m h q cpu slot := by
  cases step
  case clockintr => exact Or.inl ⟨rfl, rfl⟩
  all_goals right
  -- a lock is taken, or the process works on its own slot
  case dispatchAcquire h p at_ _ | yieldAcquire h p at_ _ | sleepAcquire h p _ at_ _
  | exitAcquire h p at_ _ | wakeupAcquire h p _ at_ _ _ | killAcquire h p _ at_ _
  | waitAcquire h p at_ _ | allocAcquire h p at_ _ | forkAcquire h _ p at_ _ _
  | setpriority h p _ at_ | forkRelease h _ p at_ =>
    exact ⟨h, p, _, _, rfl, rfl,
      .ofQuiet (by simp [at_, Pc.held]) rfl (by simp [at_, Pc.dispatching]) (by simp)⟩
  -- the state of the slot stays as it is
  case dispatchSkip h p at_ _ | markSeq h p _ at_ | markCounter h p _ at_
  | markTick h p _ at_ | sleepChan h p _ at_ | wakeupMark h p _ at_ _
  | wakeupSkip h p _ at_ _ | killMark h p _ at_ _ _ | killFlag h p _ at_ _ _
  | killSkip h p _ at_ _ | waitSkip h p at_ | allocSkip h p at_ _ | allocReset h p at_
  | release h p at_ =>
    exact ⟨h, p, _, _, rfl, rfl,
      .ofQuiet (by simp [at_, Pc.held]) rfl (by simp [at_, Pc.dispatching]) (by simp)⟩
  case resume h p at_ =>
    refine ⟨h, p, _, _, rfl, rfl,
      .ofQuiet (by simp [at_, Pc.held]) ?_ (by simp [at_, Pc.dispatching]) (by simp)⟩
    split <;> rfl
  -- the slot is made something else than RUNNING
  case sleepState h p at_ | exitState h p at_ | waitReap h p at_ _ | allocUse h p at_ _ =>
    exact ⟨h, p, _, _, rfl, rfl, .ofStopped (by simp [at_, Pc.held]) (by rintro ⟨⟩) (by simp)⟩
  case allocFail h p at_ =>
    refine ⟨h, p, _, _, rfl, rfl, .ofStopped ?_ (by rintro ⟨⟩) (by simp)⟩
    rcases at_ with at_ | at_ <;> simp [at_, Pc.held]
  case markState h p caller at_ =>
    refine ⟨h, p, _, _, rfl, rfl, .ofStopped (by simp [at_, Pc.held]) (by simp) ?_⟩
    cases caller <;> simp [Caller.next]
  case dispatchStore h p at_ runnable =>
    exact ⟨h, p, _, _, rfl, rfl,
      .ofGo (by simp [at_, Pc.held]) (fun _ => ⟨Or.inl rfl, Or.inr ⟨⟨at_, runnable⟩, rfl⟩⟩)
        (by simp)⟩
  case dispatchCount h p at_ | dispatchAccount h p at_ =>
    exact ⟨h, p, _, _, rfl, rfl,
      .ofGo (by simp [at_, Pc.held]) (fun running => ⟨Or.inl rfl, Or.inl running⟩) (by simp)⟩
  case dispatchSwtch h p at_ =>
    have placed := inv.at_place at_ rfl
    exact ⟨h, p, _, _, rfl, rfl,
      { held := by simp [at_, Pc.held]
        kept := fun r _ runs => by rw [placed.1] at runs; cases runs
        running := fun _ => Or.inl (Or.inl rfl)
        entered := fun r runs => Or.inr ⟨(Option.some.inj runs).symm, at_⟩
        starts := Or.inl
        stops := by simp }⟩
  case leave h p at_ =>
    have placed := inv.at_place at_ rfl
    exact ⟨h, p, _, _, rfl, rfl,
      { held := by simp [at_, Pc.held]
        kept := fun r other runs => absurd (Option.some.inj (runs.symm.trans placed)) other
        running := fun state => absurd state (served.stopped h p at_)
        entered := by simp
        starts := Or.inl
        stops := by simp }⟩

theorem served_step (inv : Inv m) (served : Served m) (step : Step m m') : Served m' := by
  rcases moves_of_step inv served step with ⟨slots, cpus⟩ | ⟨h, q, cpu, slot, slots, cpus, moves⟩
  · exact
      { serves := by rw [slots, cpus]; exact served.serves
        stopped := by rw [slots, cpus]; exact served.stopped }
  · exact served_of_moves inv served slots cpus moves

end Step

theorem served_boot (p : Fin n) : Served (Machine.boot p : Machine Hart n) where
  serves := by
    intro q running
    simp only [Machine.boot] at running
    by_cases same : q = p
    · subst same
      rw [update_self] at running
      cases running
    · rw [update_of_ne same] at running
      cases running
  stopped := nofun

theorem served_of_reachable [DecidableEq Hart] {m : Machine Hart n}
    (reach : Reachable m) : Served m := by
  obtain ⟨p, run⟩ := reach
  induction run with
  | refl => exact served_boot p
  | tail before step ih =>
    exact served_step (inv_of_reachable ⟨p, before⟩) ih step

/-- In every reachable state a process is `c->proc` of at most one hart, a RUNNING
process whose lock is free is `c->proc` of exactly one, a hart that switches to
a process finds it RUNNING and no hart on its stack, and only a RUNNABLE process is
made RUNNING. -/
theorem one_hart_per_process [DecidableEq Hart] {m : Machine Hart n} (reachable : Reachable m) :
    (∀ h h' q, (m.cpu h).proc = some q → (m.cpu h').proc = some q → h = h') ∧
    (∀ q, (m.slot q).proc.state = .running → (m.slot q).lock = none →
      ∃! h, (m.cpu h).proc = some q) ∧
    (∀ m', Step m m' → ∀ h q, (m'.cpu h).proc = some q → (m.cpu h).proc ≠ some q →
      (∀ other, (m.cpu other).proc ≠ some q) ∧ (m.slot q).proc.state = .running) ∧
    ∀ m', Step m m' → ∀ q, (m'.slot q).proc.state = .running →
      (m.slot q).proc.state = .running ∨ (m.slot q).proc.state = .runnable := by
  have inv := inv_of_reachable reachable
  have served := served_of_reachable reachable
  refine ⟨inv.runner_unique, fun q running unlocked => ?_, fun m' step h q after before => ?_,
    fun m' step q running => ?_⟩
  · obtain ⟨h, runs | dispatching⟩ := served.serves q running
    · exact ⟨h, runs, fun other runs' => inv.runner_unique other h q runs' runs⟩
    · have locked := (inv.lock_iff h q).mpr (held_of_dispatching dispatching)
      rw [unlocked] at locked
      cases locked
  · rcases moves_of_step inv served step with ⟨_, cpus⟩ | ⟨h', r, cpu, slot, _, cpus, moves⟩
    · rw [cpus] at after
      exact absurd after before
    · rw [cpus] at after
      by_cases same : h = h'
      · subst same
        rw [update_self] at after
        rcases moves.entered q after with stayed | ⟨rfl, place⟩
        · exact absurd stayed before
        · obtain ⟨-, running, unrun⟩ := inv.at_place place rfl
          exact ⟨unrun, running⟩
      · rw [update_of_ne same] at after
        exact absurd after before
  · rcases moves_of_step inv served step with ⟨slots, _⟩ | ⟨h, r, cpu, slot, slots, _, moves⟩
    · rw [slots] at running
      exact Or.inl running
    · rw [slots] at running
      by_cases same : q = r
      · subst same
        rw [update_self] at running
        exact (moves.starts running).imp_right And.right
      · rw [update_of_ne same] at running
        exact Or.inl running

/-- Two harts, of which the second runs the first process after it has yielded on
the first hart. -/
theorem one_hart_after_yield : ∃ m : Machine (Fin 2) 1, Reachable m ∧ (m.cpu 1).proc = some 0 ∧
      ∃! h, (m.cpu h).proc = some 0 := by
  have first := Relation.ReflTransGen.single
      (@Step.dispatchAcquire (Fin 2) 1 _ (Machine.boot 0) 0 0 rfl rfl)
      |>.tail (Step.dispatchStore 0 0 rfl rfl)
      |>.tail (Step.dispatchCount 0 0 rfl)
      |>.tail (Step.dispatchAccount 0 0 rfl)
      |>.tail (Step.dispatchSwtch 0 0 rfl)
      |>.tail (Step.resume 0 0 rfl)
  have yielded :=
    first.tail (Step.yieldAcquire 0 0 rfl rfl)
      |>.tail (Step.markSeq 0 0 .yield rfl)
      |>.tail (Step.markCounter 0 0 .yield rfl)
      |>.tail (Step.markTick 0 0 .yield rfl)
      |>.tail (Step.markState 0 0 .yield rfl)
      |>.tail (Step.leave 0 0 rfl)
  have second := yielded.tail (Step.dispatchAcquire 1 0 rfl rfl)
      |>.tail (Step.dispatchStore 1 0 rfl rfl)
      |>.tail (Step.dispatchCount 1 0 rfl)
      |>.tail (Step.dispatchAccount 1 0 rfl)
      |>.tail (Step.dispatchSwtch 1 0 rfl)
      |>.tail (Step.resume 1 0 rfl)
  exact ⟨_, ⟨0, second⟩, rfl, (one_hart_per_process ⟨0, second⟩).2.1 0 rfl rfl⟩

end Xv6.Sched
