import Xv6.Library.RefCount
import Xv6.Sched.Machine

/-!
# The LatencySensitive counter

`g_ls_runnable_count` is incremented by `mark_runnable` before its state store and decremented by
`dispatch` after its own, so a hart between the two makes it too large by one. No hart is there
for a process whose priority `sys_setpriority` changes.
-/

namespace Xv6.Sched

open Function

variable {Hart : Type} {n : Nat} {caller : Caller} {before : Pc n}
variable {cpu : Cpu n} {slot slot' : Slot Hart n}

/-- What a slot contributes to the counter, given whether the hart that holds
its lock is between the counter update and the state store. -/
def weight (p : Proc) (inFlight : Bool) : Int :=
  if p.priority = .latencySensitive ∧ (p.state = .runnable ∨ inFlight = true) then 1 else 0

namespace Machine

def inFlight (m : Machine Hart n) (q : Fin n) : Bool :=
  match (m.slot q).lock with
  | some h => (m.cpu h).pc.inFlight
  | none => false

def contribution (m : Machine Hart n) (q : Fin n) : Int := weight (m.slot q).proc (m.inFlight q)

/-- The number of slots that are RUNNABLE and LatencySensitive. -/
def lsRunnableSlots (m : Machine Hart n) : Nat :=
  (Finset.univ.filter fun q => (m.slot q).proc.isRunnableLs = true).card

def Unrun (m : Machine Hart n) (q : Fin n) : Prop := ∀ h, (m.cpu h).proc ≠ some q

end Machine

def CallerOn (cpu : Cpu n) (q : Fin n) (slot : Slot Hart n) : Caller → Prop
  | .yield => cpu.proc = some q
  | .wakeup => slot.proc.state = .sleeping
  | .kfork => slot.proc.state = .used ∧ slot.forker = none

/-- What is known about the slot whose lock a hart holds at its place. -/
def PlacedOn (cpu : Cpu n) (q : Fin n) (slot : Slot Hart n) (unrun : Prop) : Prop :=
  match cpu.pc with
  | .dispatchLocked _ => cpu.proc = none
  | .dispatchStored _ | .dispatchCounted _ | .dispatchAccounted _ =>
    cpu.proc = none ∧ slot.proc.state = .running ∧ unrun
  | .entered _ | .sleepLocked _ _ | .sleepState _ | .exitLocked _ | .left _ =>
    cpu.proc = some q
  | .markSeq _ caller | .markCounter _ caller | .markTick _ caller
  | .markState _ caller => CallerOn cpu q slot caller
  | .allocUsed _ | .allocated _ => slot.proc.state = .used ∧ slot.forker = none
  | _ => True

theorem CallerOn.congr {cpu' : Cpu n} {q : Fin n} (inside : CallerOn cpu q slot caller)
    (sameProc : cpu'.proc = cpu.proc) (sameState : slot'.proc.state = slot.proc.state)
    (sameForker : slot'.forker = slot.forker) : CallerOn cpu' q slot' caller := by
  cases caller with
  | yield => exact sameProc.trans inside
  | wakeup => exact sameState.trans inside
  | kfork => exact ⟨sameState.trans inside.1, sameForker.trans inside.2⟩

theorem PlacedOn.congr {q : Fin n} {unrun unrun' : Prop} (placed : PlacedOn cpu q slot unrun)
    (sameState : slot'.proc.state = slot.proc.state) (sameForker : slot'.forker = slot.forker)
    (weaker : cpu.proc = none → unrun → unrun') : PlacedOn cpu q slot' unrun' := by
  unfold PlacedOn at placed ⊢
  split at placed
  case h_2 | h_3 | h_4 =>
    exact ⟨placed.1, sameState.trans placed.2.1, weaker placed.1 placed.2.2⟩
  case h_10 | h_11 | h_12 | h_13 =>
    exact placed.congr rfl sameState sameForker
  case h_14 | h_15 =>
    exact ⟨sameState.trans placed.1, sameForker.trans placed.2⟩
  all_goals exact placed

structure Inv (m : Machine Hart n) : Prop where
  lock_iff : ∀ h q, (m.slot q).lock = some h ↔ (m.cpu h).pc.held = some q
  runner : ∀ h q, (m.cpu h).proc = some q →
      (m.slot q).proc.state = .running ∨ (m.cpu h).pc = .left q
  runner_unique : ∀ h h' q, (m.cpu h).proc = some q → (m.cpu h').proc = some q → h = h'
  placed : ∀ h q, (m.cpu h).pc.held = some q → PlacedOn (m.cpu h) q (m.slot q) (m.Unrun q)
  forked : ∀ q, (m.slot q).forker ≠ none → (m.slot q).proc.state = .used
  counter : m.gLsRunnableCount = ∑ q, m.contribution q

/-- A step of hart `h` on slot `q`, described by the new contents of the two
and the new counter. -/
structure LocalStep (m : Machine Hart n) (h : Hart) (q : Fin n)
    (cpu : Cpu n) (slot : Slot Hart n) (count : Int) : Prop where
  lock_before : (m.slot q).lock = none ∨ (m.slot q).lock = some h
  held_before : ∀ r, (m.cpu h).pc.held = some r → r = q
  lock_after : slot.lock = if cpu.pc.held = none then none else some h
  held_after : ∀ r, cpu.pc.held = some r → r = q
  current : ∀ r, cpu.proc = some r → (m.cpu h).proc = some r ∨ (r = q ∧ m.Unrun q)
  runner_after : cpu.proc = some q → slot.proc.state = .running ∨ cpu.pc = .left q
  state_kept : (m.slot q).proc.state = .running → (m.cpu h).proc ≠ some q →
      slot.proc.state = .running
  placed_after : cpu.pc.held = some q → PlacedOn cpu q slot (m.Unrun q)
  forked_after : slot.forker ≠ none → slot.proc.state = .used
  counter_after : count = m.gLsRunnableCount + weight slot.proc cpu.pc.inFlight - m.contribution q

section Preservation

variable {m m' : Machine Hart n} {h : Hart} {q : Fin n} {count : Int}

theorem Inv.held_unique (inv : Inv m) {h' : Hart}
    (held : (m.cpu h).pc.held = some q) (held' : (m.cpu h').pc.held = some q) : h = h' := by
  have mine := (inv.lock_iff h q).mpr held
  have theirs := (inv.lock_iff h' q).mpr held'
  rw [mine] at theirs
  exact Option.some.inj theirs

private theorem ne_of_other_holds (inv : Inv m) (step : LocalStep m h q cpu slot count)
    {other : Hart} {r : Fin n} (apart : other ≠ h)
    (holds : (m.cpu other).pc.held = some r) : r ≠ q := by
  rintro rfl
  have locked := (inv.lock_iff other r).mpr holds
  rcases step.lock_before with unlocked | mine
  · rw [unlocked] at locked
    cases locked
  · rw [mine] at locked
    exact apart (Option.some.inj locked).symm

theorem inv_of_localStep [DecidableEq Hart] (inv : Inv m) (cpuEq : m'.cpu = update m.cpu h cpu)
    (slotEq : m'.slot = update m.slot q slot) (countEq : m'.gLsRunnableCount = count)
    (step : LocalStep m h q cpu slot count) : Inv m' := by
  have cpuSelf : m'.cpu h = cpu := by simp [cpuEq]
  have cpuOther : ∀ other, other ≠ h → m'.cpu other = m.cpu other := by
    intro other apart
    simp [cpuEq, apart]
  have slotSelf : m'.slot q = slot := by simp [slotEq]
  have slotOther : ∀ r, r ≠ q → m'.slot r = m.slot r := by
    intro r apart
    simp [slotEq, apart]
  have otherRunner : ∀ other, other ≠ h → (m.cpu other).proc = some q →
        slot.proc.state = .running := by
    intro other apart runs
    rcases inv.runner other q runs with running | leaving
    · apply step.state_kept running
      intro mine
      exact apart (inv.runner_unique other h q runs mine)
    · exact absurd rfl (ne_of_other_holds inv step apart (by rw [leaving]; rfl))
  have unrunOther : ∀ r, r ≠ q → m.Unrun r → m'.Unrun r := by
    intro r apart unrun other
    by_cases moved : other = h
    · subst moved
      rw [cpuSelf]
      intro runs
      rcases step.current r runs with ran | ⟨same, _⟩
      · exact unrun other ran
      · exact apart same
    · rw [cpuOther other moved]
      exact unrun other
  constructor
  · intro other r
    by_cases moved : other = h
    · subst moved
      rw [cpuSelf]
      by_cases same : r = q
      · subst same
        rw [slotSelf, step.lock_after]
        constructor
        · intro locked
          split at locked
          · cases locked
          · rename_i holds
            obtain ⟨s, holdsEq⟩ := Option.ne_none_iff_exists'.mp holds
            rw [holdsEq, step.held_after s holdsEq]
        · intro holds
          simp [holds]
      · rw [slotOther r same]
        constructor
        · intro locked
          exact absurd (step.held_before r ((inv.lock_iff other r).mp locked)) same
        · intro holds
          exact absurd (step.held_after r holds) same
    · rw [cpuOther other moved]
      by_cases same : r = q
      · subst same
        rw [slotSelf, step.lock_after]
        constructor
        · intro locked
          split at locked
          · cases locked
          · exact absurd (Option.some.inj locked).symm moved
        · intro holds
          exact absurd rfl (ne_of_other_holds inv step moved holds)
      · rw [slotOther r same]
        exact inv.lock_iff other r
  · intro other r runs
    by_cases same : r = q
    · subst same
      rw [slotSelf]
      by_cases moved : other = h
      · subst moved
        rw [cpuSelf] at runs ⊢
        exact step.runner_after runs
      · rw [cpuOther other moved] at runs
        exact Or.inl (otherRunner other moved runs)
    · rw [slotOther r same]
      by_cases moved : other = h
      · subst moved
        rw [cpuSelf] at runs
        rcases step.current r runs with ran | ⟨equal, _⟩
        · rcases inv.runner other r ran with running | leaving
          · exact Or.inl running
          · exact absurd (step.held_before r (by rw [leaving]; rfl)) same
        · exact absurd equal same
      · rw [cpuOther other moved] at runs ⊢
        exact inv.runner other r runs
  · have mover : ∀ other r, other ≠ h → (m.cpu other).proc = some r → cpu.proc ≠ some r := by
      intro other r moved runs movesTo
      rcases step.current r movesTo with ran | ⟨same, unrun⟩
      · exact moved (inv.runner_unique other h r runs ran)
      · subst same
        exact unrun other runs
    intro left right r leftRuns rightRuns
    by_cases leftMoved : left = h
    · by_cases rightMoved : right = h
      · rw [leftMoved, rightMoved]
      · rw [leftMoved, cpuSelf] at leftRuns
        rw [cpuOther right rightMoved] at rightRuns
        exact absurd leftRuns (mover right r rightMoved rightRuns)
    · rw [cpuOther left leftMoved] at leftRuns
      by_cases rightMoved : right = h
      · rw [rightMoved, cpuSelf] at rightRuns
        exact absurd rightRuns (mover left r leftMoved leftRuns)
      · rw [cpuOther right rightMoved] at rightRuns
        exact inv.runner_unique left right r leftRuns rightRuns
  · intro other r holds
    by_cases moved : other = h
    · subst moved
      rw [cpuSelf] at holds ⊢
      obtain rfl := step.held_after r holds
      rw [slotSelf]
      apply (step.placed_after holds).congr rfl rfl
      intro idle unrun someHart
      by_cases self : someHart = other
      · subst self
        rw [cpuSelf, idle]
        simp
      · rw [cpuOther someHart self]
        exact unrun someHart
    · rw [cpuOther other moved] at holds ⊢
      have apart := ne_of_other_holds inv step moved holds
      rw [slotOther r apart]
      exact (inv.placed other r holds).congr rfl rfl (fun _ => unrunOther r apart)
  · intro r
    by_cases same : r = q
    · subst same
      rw [slotSelf]
      exact step.forked_after
    · rw [slotOther r same]
      exact inv.forked r
  · have sameElsewhere : ∀ r, r ≠ q → m'.contribution r = m.contribution r := by
      intro r apart
      simp only [Machine.contribution, Machine.inFlight, slotOther r apart]
      cases locked : (m.slot r).lock with
      | none => rfl
      | some holder =>
        have moved : holder ≠ h := by
          rintro rfl
          exact apart (step.held_before r ((inv.lock_iff holder r).mp locked))
        simp only [cpuOther holder moved]
    have here : m'.contribution q = weight slot.proc cpu.pc.inFlight := by
      simp only [Machine.contribution, Machine.inFlight, slotSelf, step.lock_after]
      by_cases holds : cpu.pc.held = none
      · have landed : cpu.pc.inFlight = false := by
          cases place : cpu.pc <;> simp_all [Pc.held, Pc.inFlight]
        simp [holds, landed]
      · simp [holds, cpuSelf]
    have changed := RefCount.sum_change (Finset.mem_univ q) sameElsewhere
    rw [countEq, step.counter_after, inv.counter]
    omega

/-! ### Kinds of steps -/

theorem contribution_eq_of_held (inv : Inv m) (holds : (m.cpu h).pc.held = some q) :
    m.contribution q = weight (m.slot q).proc (m.cpu h).pc.inFlight := by
  simp only [Machine.contribution, Machine.inFlight, (inv.lock_iff h q).mpr holds]

theorem LocalStep.ofAcquire (pc : Pc n) (inv : Inv m) (free : (m.cpu h).pc = .free)
    (unlocked : (m.slot q).lock = none) (holds : pc.held = some q) (landed : pc.inFlight = false)
    (sameProc : slot.proc = (m.slot q).proc) (locked : slot.lock = some h)
    (forked : slot.forker ≠ none → slot.proc.state = .used)
    (placed : PlacedOn { m.cpu h with pc := pc } q slot (m.Unrun q)) :
    LocalStep m h q { m.cpu h with pc := pc } slot m.gLsRunnableCount where
  lock_before := Or.inl unlocked
  held_before := by
    intro r held
    rw [free] at held
    cases held
  lock_after := by
    simp [locked, holds]
  held_after := by
    intro r held
    exact (Option.some.inj (holds.symm.trans held)).symm
  current := fun r runs => Or.inl runs
  runner_after := by
    intro runs
    rcases inv.runner h q runs with running | leaving
    · exact Or.inl (by rw [sameProc]; exact running)
    · rw [free] at leaving
      cases leaving
  state_kept := by
    intro running _
    rw [sameProc]
    exact running
  placed_after := fun _ => placed
  forked_after := forked
  counter_after := by
    have before : m.contribution q = weight (m.slot q).proc false := by
      simp only [Machine.contribution, Machine.inFlight, unlocked]
    simp only [sameProc, landed, before]
    omega

theorem Inv.at_place (inv : Inv m) (at_ : (m.cpu h).pc = before) (held : before.held = some q) :
    PlacedOn { m.cpu h with pc := before } q (m.slot q) (m.Unrun q) := by
  subst at_
  exact inv.placed h q held

theorem LocalStep.ofHeld (pc : Pc n) (inv : Inv m) (at_ : (m.cpu h).pc = before)
    (held : before.held = some q) (holds : pc.held = some q)
    (sameLock : slot.lock = (m.slot q).lock)
    (runner : (m.cpu h).proc = some q → slot.proc.state = .running ∨ pc = .left q)
    (kept : (m.slot q).proc.state = .running → (m.cpu h).proc ≠ some q → slot.proc.state = .running)
    (placed : PlacedOn { m.cpu h with pc := pc } q slot (m.Unrun q))
    (forked : slot.forker ≠ none → slot.proc.state = .used)
    (counted : count = m.gLsRunnableCount + weight slot.proc pc.inFlight -
          weight (m.slot q).proc before.inFlight) :
    LocalStep m h q { m.cpu h with pc := pc } slot count := by
  subst at_
  exact
    { lock_before := Or.inr ((inv.lock_iff h q).mpr held)
      held_before := fun r other => (Option.some.inj (held.symm.trans other)).symm
      lock_after := by simp [sameLock, (inv.lock_iff h q).mpr held, holds]
      held_after := fun r other => (Option.some.inj (holds.symm.trans other)).symm
      current := fun r runs => Or.inl runs
      runner_after := runner
      state_kept := kept
      placed_after := fun _ => placed
      forked_after := forked
      counter_after := by rw [counted, contribution_eq_of_held inv held] }

/-- The fields of a slot that the invariant reads, the lock apart. -/
structure SameFields (slot slot' : Slot Hart n) : Prop where
  forker : slot'.forker = slot.forker
  state : slot'.proc.state = slot.proc.state
  priority : slot'.proc.priority = slot.proc.priority

section

variable (inv : Inv m)
include inv

theorem Inv.runner_kept (at_ : (m.cpu h).pc = before) (stays : before ≠ .left q)
    (sameState : slot.proc.state = (m.slot q).proc.state)
    (runs : (m.cpu h).proc = some q) : slot.proc.state = .running := by
  subst at_
  exact sameState.trans ((inv.runner h q runs).resolve_right stays)

theorem inv_of_quiet [DecidableEq Hart] {pc : Pc n} (at_ : (m.cpu h).pc = before)
    (cpuEq : m'.cpu = update m.cpu h { m.cpu h with pc := pc })
    (slotEq : m'.slot = update m.slot q slot)
    (countEq : m'.gLsRunnableCount = m.gLsRunnableCount)
    (held : before.held = some q) (holds : pc.held = some q) (stays : before ≠ .left q)
    (sameFlight : pc.inFlight = before.inFlight) (sameLock : slot.lock = (m.slot q).lock)
    (same : SameFields (m.slot q) slot)
    (placed : PlacedOn { m.cpu h with pc := pc } q slot (m.Unrun q)) : Inv m' := by
  refine inv_of_localStep inv cpuEq slotEq countEq
    (LocalStep.ofHeld pc inv at_ held holds sameLock ?_ ?_ placed ?_ ?_)
  · intro runs
    exact Or.inl (inv.runner_kept at_ stays same.state runs)
  · intro running _
    exact same.state.trans running
  · intro forked
    rw [same.state]
    exact inv.forked q (by rw [← same.forker]; exact forked)
  · simp only [weight, same.state, same.priority, sameFlight]
    omega

theorem inv_of_release [DecidableEq Hart] (at_ : (m.cpu h).pc = before)
    (cpuEq : m'.cpu = update m.cpu h { m.cpu h with pc := .free })
    (slotEq : m'.slot = update m.slot q slot)
    (countEq : m'.gLsRunnableCount = m.gLsRunnableCount)
    (held : before.held = some q) (stays : before ≠ .left q) (landed : before.inFlight = false)
    (unlocked : slot.lock = none) (sameState : slot.proc.state = (m.slot q).proc.state)
    (samePriority : slot.proc.priority = (m.slot q).proc.priority)
    (forked : slot.forker ≠ none → slot.proc.state = .used) : Inv m' := by
  have holds : (m.cpu h).pc.held = some q := by rw [at_, held]
  refine inv_of_localStep inv cpuEq slotEq countEq
    { lock_before := Or.inr ((inv.lock_iff h q).mpr holds)
      held_before := fun r other => (Option.some.inj (holds.symm.trans other)).symm
      lock_after := unlocked
      held_after := nofun
      current := fun r runs => Or.inl runs
      runner_after := fun runs => Or.inl (inv.runner_kept at_ stays sameState runs)
      state_kept := fun running _ => sameState.trans running
      placed_after := nofun
      forked_after := forked
      counter_after := ?_ }
  rw [contribution_eq_of_held inv holds, at_, landed]
  simp only [weight, sameState, samePriority, Pc.inFlight]
  omega

theorem running_of_runs (current : (m.cpu h).proc = some q)
    (stays : (m.cpu h).pc ≠ .left q) : (m.slot q).proc.state = .running :=
  (inv.runner h q current).resolve_right stays

section

variable (place : (m.cpu h).pc = .allocUsed q ∨ (m.cpu h).pc = .allocated q)
include place

theorem placed_of_allocating : (m.slot q).proc.state = .used ∧ (m.slot q).forker = none := by
  rcases place with at_ | at_ <;> exact inv.at_place at_ rfl

theorem used_of_allocating : (m.slot q).proc.state = .used :=
  (placed_of_allocating inv place).1

end

section

variable (inside : CallerOn (m.cpu h) q (m.slot q) caller) (stays : (m.cpu h).pc ≠ .left q)
include inside stays

theorem state_of_callerOn : (m.slot q).proc.state =
      match caller with
      | .yield => .running
      | .wakeup => .sleeping
      | .kfork => .used := by
  cases caller with
  | yield => exact running_of_runs inv inside stays
  | wakeup => exact inside
  | kfork => exact inside.1

theorem state_ne_runnable_of_callerOn : (m.slot q).proc.state ≠ .runnable := by
  rw [state_of_callerOn inv inside stays]
  cases caller <;> simp

end

private theorem unrun_of_held (holds : (m.cpu h).pc.held = some q) (idle : (m.cpu h).proc = none)
    (stopped : (m.slot q).proc.state ≠ .running) : m.Unrun q := by
  intro other runs
  rcases inv.runner other q runs with running | leaving
  · exact stopped running
  · obtain rfl : other = h := inv.held_unique (by rw [leaving]; rfl) holds
    rw [idle] at runs
    cases runs

private theorem running_of_current (runs : m.cpu h = { proc := some q }) :
    (m.slot q).proc.state = .running ∧ m.inFlight q = false := by
  have current : (m.cpu h).proc = some q := by rw [runs]
  have running : (m.slot q).proc.state = .running := by
    rcases inv.runner h q current with running | leaving
    · exact running
    · rw [runs] at leaving
      cases leaving
  refine ⟨running, ?_⟩
  simp only [Machine.inFlight]
  cases locked : (m.slot q).lock with
  | none => rfl
  | some holder =>
    have holds := (inv.lock_iff holder q).mp locked
    have placed := inv.placed holder q holds
    have notSelf : holder ≠ h := by
      rintro rfl
      rw [runs] at holds
      cases holds
    have notMarking : ∀ caller, ¬ CallerOn (m.cpu holder) q (m.slot q) caller := by
      intro caller inside
      cases caller with
      | yield => exact notSelf (inv.runner_unique holder h q inside current)
      | wakeup => cases running.symm.trans inside
      | kfork => cases running.symm.trans inside.1
    cases place : (m.cpu holder).pc with
    | dispatchStored next =>
      simp only [PlacedOn, place] at placed
      exact absurd current (placed.2.2 h)
    | markTick p caller | markState p caller =>
      simp only [PlacedOn, place] at placed
      exact absurd placed (notMarking caller)
    | _ => simp [place, Pc.inFlight]

private theorem inv_of_frame (sameCpu : m'.cpu = m.cpu)
    (sameLock : ∀ r, (m'.slot r).lock = (m.slot r).lock)
    (sameForker : ∀ r, (m'.slot r).forker = (m.slot r).forker)
    (sameState : ∀ r, (m'.slot r).proc.state = (m.slot r).proc.state)
    (sameWeight : ∀ r, m'.contribution r = m.contribution r)
    (sameCount : m'.gLsRunnableCount = m.gLsRunnableCount) : Inv m' where
  lock_iff := by
    intro h q
    rw [sameLock, sameCpu]
    exact inv.lock_iff h q
  runner := by
    intro h q runs
    rw [sameState, sameCpu]
    rw [sameCpu] at runs
    exact inv.runner h q runs
  runner_unique := by
    rw [sameCpu]
    exact inv.runner_unique
  placed := by
    intro h q holds
    rw [sameCpu] at holds ⊢
    apply (inv.placed h q holds).congr (sameState q) (sameForker q)
    intro _ unrun other
    rw [sameCpu]
    exact unrun other
  forked := by
    intro q
    rw [sameForker, sameState]
    exact inv.forked q
  counter := by
    rw [sameCount, inv.counter]
    exact Finset.sum_congr rfl (fun r _ => (sameWeight r).symm)

section

variable (at_ : (m.cpu h).pc = before) (held : before.held = some q) (stays : before ≠ .left q)
  (landed : before.inFlight = false)
include at_ held stays landed

private theorem ofStop (current : (m.cpu h).proc = some q) (sameLock : slot.lock = (m.slot q).lock)
    (sameForker : slot.forker = (m.slot q).forker) (stopped : slot.proc.state ≠ .runnable) :
    LocalStep m h q { m.cpu h with pc := .left q } slot m.gLsRunnableCount := by
  have running := inv.runner_kept at_ stays rfl current
  refine LocalStep.ofHeld (.left q) inv at_ held rfl sameLock (fun _ => Or.inr rfl) ?_ current ?_ ?_
  · intro _ other
    exact absurd current other
  · intro forked
    have used := inv.forked q (by rw [← sameForker]; exact forked)
    cases running.symm.trans used
  · rw [landed]
    simp [weight, Pc.inFlight, stopped, running]

private theorem ofFree (dead : (m.slot q).proc.state = .zombie ∨
        ((m.slot q).proc.state = .used ∧ (m.slot q).forker = none)) :
    LocalStep m h q { m.cpu h with pc := .releasing q }
      ((m.slot q).setProc freeproc) m.gLsRunnableCount := by
  have stopped : (m.slot q).proc.state ≠ .running ∧ (m.slot q).proc.state ≠ .runnable := by
    rcases dead with zombie | ⟨used, _⟩
    · simp [zombie]
    · simp [used]
  refine LocalStep.ofHeld (.releasing q) inv at_ held rfl rfl ?_ ?_ trivial ?_ ?_
  · intro runs
    exact absurd (inv.runner_kept at_ stays rfl runs) stopped.1
  · intro running _
    exact absurd running stopped.1
  · intro forked
    rcases dead with zombie | ⟨_, unforked⟩
    · cases zombie.symm.trans (inv.forked q forked)
    · exact absurd unforked forked
  · rw [landed]
    simp [weight, freeproc, Pc.inFlight, stopped.2]

end

private theorem ofMark (at_ : (m.cpu h).pc = .markState q caller)
    (marked : slot.proc = { (m.slot q).proc with state := .runnable })
    (sameLock : slot.lock = (m.slot q).lock) (sameForker : slot.forker = (m.slot q).forker) :
    LocalStep m h q { m.cpu h with pc := caller.next q } slot m.gLsRunnableCount := by
  have stays : (m.cpu h).pc ≠ .left q := by simp [at_]
  have inside : CallerOn (m.cpu h) q (m.slot q) caller :=
    CallerOn.congr (inv.at_place at_ rfl) rfl rfl rfl
  have state := state_of_callerOn inv inside stays
  have landed : (caller.next q).inFlight = false := by cases caller <;> rfl
  refine LocalStep.ofHeld (caller.next q) inv at_ rfl (by cases caller <;> rfl) sameLock
    ?_ ?_ ?_ ?_ ?_
  · intro runs
    have running := running_of_runs inv runs stays
    cases caller with
    | yield => exact Or.inr rfl
    | wakeup | kfork => cases running.symm.trans state
  · intro running other
    cases caller with
    | yield => exact absurd inside other
    | wakeup | kfork => cases running.symm.trans state
  · cases caller with
    | yield => exact inside
    | wakeup | kfork => trivial
  · intro forked
    rw [sameForker] at forked
    have used := inv.forked q forked
    cases caller with
    | yield | wakeup => cases used.symm.trans state
    | kfork => exact absurd inside.2 forked
  · rw [marked, landed]
    simp [weight, Pc.inFlight]

end

/-! ### Every step -/

variable [DecidableEq Hart]

/-- Every store of every hart keeps the invariant. -/
theorem inv_step (inv : Inv m) (step : Step m m') : Inv m' := by
  cases step
  case dispatchAcquire h next scheduler unlocked =>
    refine inv_of_localStep inv rfl rfl rfl (LocalStep.ofAcquire (.dispatchLocked next) inv
        (by rw [scheduler]) unlocked rfl rfl rfl rfl (inv.forked next) ?_)
    simp [PlacedOn, scheduler]
  case dispatchSkip h p at_ _ | release h p at_ =>
    exact inv_of_release inv at_ rfl rfl rfl rfl nofun rfl rfl rfl rfl (inv.forked p)
  case dispatchStore h next at_ runnable =>
    have idle : (m.cpu h).proc = none := inv.at_place at_ rfl
    have unrun : m.Unrun next := unrun_of_held inv (by rw [at_]; rfl) idle (by simp [runnable])
    refine inv_of_localStep inv rfl rfl rfl
      (LocalStep.ofHeld (.dispatchStored next) inv at_ rfl rfl rfl ?_ ?_ ?_ ?_ ?_)
    · intro runs
      cases idle.symm.trans runs
    · intro _ _
      rfl
    · exact ⟨idle, rfl, unrun⟩
    · intro forked
      cases runnable.symm.trans (inv.forked next forked)
    · simp [weight, Pc.inFlight, runnable]
  case dispatchCount h next at_ =>
    obtain ⟨idle, running, unrun⟩ := inv.at_place at_ rfl
    refine inv_of_localStep inv rfl rfl rfl
      (LocalStep.ofHeld (.dispatchCounted next) inv at_ rfl rfl rfl ?_ ?_ ?_ ?_ ?_)
    · exact fun _ => Or.inl running
    · exact fun running _ => running
    · exact ⟨idle, running, unrun⟩
    · exact inv.forked next
    · simp only [weight, lsWeight, Pc.inFlight, running]
      split <;> simp_all
  case dispatchAccount h next at_ | sleepChan h p chan at_ =>
    exact inv_of_quiet inv at_ rfl rfl rfl rfl rfl nofun rfl rfl ⟨rfl, rfl, rfl⟩
      (inv.at_place at_ rfl)
  case dispatchSwtch h next at_ =>
    have holds : (m.cpu h).pc.held = some next := by rw [at_]; rfl
    obtain ⟨_, running, unrun⟩ := inv.at_place at_ rfl
    refine inv_of_localStep inv rfl rfl rfl
      { lock_before := Or.inr ((inv.lock_iff h next).mpr holds)
        held_before := fun r other => (Option.some.inj (holds.symm.trans other)).symm
        lock_after := (inv.lock_iff h next).mpr holds
        held_after := fun r other => (Option.some.inj other).symm
        current := fun r runs => Or.inr ⟨(Option.some.inj runs).symm, unrun⟩
        runner_after := fun _ => Or.inl running
        state_kept := fun running _ => running
        placed_after := fun _ => rfl
        forked_after := inv.forked next
        counter_after := ?_ }
    rw [contribution_eq_of_held inv holds, at_]
    simp [Machine.put, Pc.inFlight]
  case resume h p at_ =>
    have same : SameFields (m.slot p) ((m.slot p).setProc fun proc =>
          if (m.slot p).resume = .sleep then { proc with chan := 0 } else proc).release := by
      refine ⟨rfl, ?_, ?_⟩ <;> (simp only [Slot.release_proc, Slot.setProc_proc]; split <;> rfl)
    exact inv_of_release inv at_ rfl rfl rfl rfl nofun rfl rfl same.state same.priority
      fun forked => same.state.trans (inv.forked p forked)
  case markSeq h p caller at_ | markTick h p caller at_ =>
    exact inv_of_quiet inv at_ rfl rfl rfl rfl rfl nofun rfl rfl ⟨rfl, rfl, rfl⟩
      (CallerOn.congr (inv.at_place at_ rfl) rfl rfl rfl)
  case markCounter h p caller at_ =>
    have inside : CallerOn (m.cpu h) p (m.slot p) caller :=
      CallerOn.congr (inv.at_place at_ rfl) rfl rfl rfl
    have fresh := state_ne_runnable_of_callerOn inv inside (by simp [at_])
    refine inv_of_localStep inv rfl rfl rfl
      (LocalStep.ofHeld (.markTick p caller) inv at_ rfl rfl rfl ?_ ?_ ?_ ?_ ?_)
    · intro runs
      exact Or.inl (inv.runner_kept at_ nofun rfl runs)
    · exact fun running _ => running
    · exact inside.congr rfl rfl rfl
    · exact inv.forked p
    · simp only [weight, lsWeight, Pc.inFlight, fresh]
      split <;> simp_all
  case markState h p caller at_ =>
    exact inv_of_localStep inv rfl rfl rfl (ofMark inv at_ rfl rfl rfl)
  case yieldAcquire h p current unlocked | sleepAcquire h p _ current unlocked
  | exitAcquire h p current unlocked =>
    refine inv_of_localStep inv rfl rfl rfl
      (LocalStep.ofAcquire _ inv (by rw [current]) unlocked rfl rfl rfl rfl (inv.forked p) ?_)
    simp [PlacedOn, CallerOn, current]
  case sleepState h p at_ | exitState h p at_ =>
    exact inv_of_localStep inv rfl rfl rfl
      (ofStop inv at_ rfl nofun rfl (inv.at_place at_ rfl) rfl rfl nofun)
  case leave h p at_ =>
    have holds : (m.cpu h).pc.held = some p := by rw [at_]; rfl
    refine inv_of_localStep inv rfl rfl rfl
      { lock_before := Or.inr ((inv.lock_iff h p).mpr holds)
        held_before := fun r other => (Option.some.inj (holds.symm.trans other)).symm
        lock_after := rfl
        held_after := nofun
        current := nofun
        runner_after := nofun
        state_kept := fun running _ => running
        placed_after := nofun
        forked_after := inv.forked p
        counter_after := ?_ }
    rw [contribution_eq_of_held inv holds, at_]
    simp [Machine.put, Pc.inFlight]
  case wakeupAcquire h p _ free _ unlocked | killAcquire h p _ free unlocked
  | waitAcquire h p free unlocked | allocAcquire h p free unlocked =>
    exact inv_of_localStep inv rfl rfl rfl
      (LocalStep.ofAcquire _ inv free unlocked rfl rfl rfl rfl (inv.forked p) trivial)
  case wakeupMark h p chan at_ asleep =>
    exact inv_of_quiet inv at_ rfl rfl rfl rfl rfl nofun rfl rfl ⟨rfl, rfl, rfl⟩ asleep.1
  case killMark h p pid at_ _ asleep =>
    exact inv_of_quiet inv at_ rfl rfl rfl rfl rfl nofun rfl rfl ⟨rfl, rfl, rfl⟩ asleep
  case wakeupSkip h p _ at_ _ | killFlag h p _ at_ _ _ | killSkip h p _ at_ _
  | waitSkip h p at_ | allocSkip h p at_ _ =>
    exact inv_of_quiet inv at_ rfl rfl rfl rfl rfl nofun rfl rfl ⟨rfl, rfl, rfl⟩ trivial
  case waitReap h p at_ exited =>
    exact inv_of_localStep inv rfl rfl rfl (ofFree inv at_ rfl nofun rfl (Or.inl exited))
  case allocUse h p at_ unused =>
    have unforked : (m.slot p).forker = none := by
      by_contra forked
      cases unused.symm.trans (inv.forked p forked)
    refine inv_of_localStep inv rfl rfl rfl
      (LocalStep.ofHeld (.allocUsed p) inv at_ rfl rfl rfl ?_ ?_ ?_ ?_ ?_)
    · intro runs
      cases unused.symm.trans (inv.runner_kept at_ nofun rfl runs)
    · intro running _
      cases unused.symm.trans running
    · exact ⟨rfl, unforked⟩
    · exact fun _ => rfl
    · simp [weight, Pc.inFlight, unused]
  case allocReset h p at_ =>
    obtain ⟨used, unforked⟩ := inv.at_place at_ rfl
    refine inv_of_localStep inv rfl rfl rfl
      (LocalStep.ofHeld (.allocated p) inv at_ rfl rfl rfl ?_ ?_ ?_ ?_ ?_)
    · intro runs
      exact Or.inl (inv.runner_kept at_ nofun rfl runs)
    · exact fun running _ => running
    · exact ⟨used, unforked⟩
    · exact fun _ => used
    · simp [weight, Pc.inFlight, used]
  case allocFail h p at_ =>
    have dead := placed_of_allocating inv at_
    rcases at_ with at_ | at_ <;>
      exact inv_of_localStep inv rfl rfl rfl (ofFree inv at_ rfl nofun rfl (Or.inr dead))
  case forkRelease h parent p at_ =>
    have used := used_of_allocating inv (.inr (congrArg Cpu.pc at_))
    exact inv_of_release inv (congrArg Cpu.pc at_) rfl rfl rfl rfl nofun rfl rfl rfl rfl
      fun _ => used
  case forkAcquire h parent p current np unlocked =>
    refine inv_of_localStep inv rfl rfl rfl (LocalStep.ofAcquire (.markSeq p .kfork) inv
        (by rw [current]) unlocked rfl rfl rfl rfl (by simp) ?_)
    exact ⟨inv.forked p (by simp [np]), rfl⟩
  case setpriority h p level current =>
    obtain ⟨running, landed⟩ := running_of_current inv current
    have sameCpu : update m.cpu h { m.cpu h with pc := .free } = m.cpu := by
      rw [current]
      exact update_eq_self_iff.mpr current.symm
    have kept : ∀ {α : Type} (field : Slot Hart n → α) (r : Fin n),
        field ((m.slot p).setProc ({ · with priority := level })) = field (m.slot p) →
        field ((m.go h .free p ((m.slot p).setProc ({ · with priority := level }))).slot r) =
            field (m.slot r) := by
      intro α field r here
      simp only [Machine.go, Machine.put, update_apply]
      split
      · rename_i same
        rw [here, same]
      · rfl
    refine inv_of_frame inv sameCpu (fun r => kept _ r rfl) (fun r => kept _ r rfl)
      (fun r => kept (fun slot => slot.proc.state) r rfl) ?_ rfl
    intro r
    by_cases same : r = p
    · subst same
      simp only [Machine.inFlight] at landed
      simp only [Machine.contribution, Machine.inFlight, Machine.go, Machine.put,
        update_self, sameCpu, Slot.setProc_proc, Slot.setProc_lock, landed]
      simp [weight, running]
    · simp only [Machine.contribution, Machine.inFlight, Machine.go, Machine.put,
        update_of_ne same, sameCpu]
  case clockintr =>
    exact inv_of_frame inv rfl (fun _ => rfl) (fun _ => rfl) (fun _ => rfl) (fun _ => rfl) rfl

end Preservation

/-! ## Every run -/

section Runs

theorem inv_boot (p : Fin n) : Inv (Machine.boot p : Machine Hart n) := by
  have fresh : ∀ q, ((Machine.boot p : Machine Hart n).slot q).lock = none ∧
      ((Machine.boot p : Machine Hart n).slot q).forker = none ∧
      ((Machine.boot p : Machine Hart n).slot q).proc.priority = .normal := by
    intro q
    simp only [Machine.boot, update_apply]
    split <;> exact ⟨rfl, rfl, rfl⟩
  constructor
  · intro h q
    rw [(fresh q).1]
    simp [Machine.boot, Pc.held]
  · intro h q runs
    simp [Machine.boot] at runs
  · intro h h' q runs
    simp [Machine.boot] at runs
  · intro h q holds
    simp [Machine.boot, Pc.held] at holds
  · intro q forked
    exact absurd (fresh q).2.1 forked
  · have idle : ∀ q, (Machine.boot p : Machine Hart n).contribution q = 0 := by
      intro q
      simp [Machine.contribution, weight, (fresh q).2.2]
    rw [Finset.sum_eq_zero (fun q _ => idle q)]
    rfl

theorem inv_of_reachable [DecidableEq Hart] {m : Machine Hart n} (reach : Reachable m) : Inv m := by
  obtain ⟨p, run⟩ := reach
  induction run with
  | refl => exact inv_boot p
  | tail _ step ih => exact inv_step ih step

theorem weight_isRunnableLs (p : Proc) :
    weight p false = if p.isRunnableLs = true then 1 else 0 := by
  simp [weight, Proc.isRunnableLs, and_comm]

theorem weight_false_le (p : Proc) (inFlight : Bool) : weight p false ≤ weight p inFlight := by
  cases inFlight with
  | false => exact le_refl _
  | true =>
    simp only [weight]
    split <;> split <;> simp_all

theorem lsRunnableSlots_eq_sum (m : Machine Hart n) :
    (m.lsRunnableSlots : Int) = ∑ q, weight (m.slot q).proc false := by
  rw [Machine.lsRunnableSlots, Finset.card_filter]
  push_cast
  exact Finset.sum_congr rfl (fun q _ => (weight_isRunnableLs _).symm)

theorem Inv.lsRunnableSlots_le {m : Machine Hart n} (inv : Inv m) :
    (m.lsRunnableSlots : Int) ≤ m.gLsRunnableCount := by
  rw [inv.counter, lsRunnableSlots_eq_sum]
  exact Finset.sum_le_sum (fun q _ => weight_false_le _ _)

/-- In every reachable state the counter is at least the number of RUNNABLE
LatencySensitive slots, hence not negative, and it is that number unless some
hart is between a counter update and the state store that belongs to it. -/
theorem lsCounter_exact_up_to_inFlight [DecidableEq Hart]
    (m : Machine Hart n) (reachable : Reachable m) :
    (m.lsRunnableSlots : Int) ≤ m.gLsRunnableCount ∧ 0 ≤ m.gLsRunnableCount ∧
      ((∀ h, (m.cpu h).pc.inFlight = false) → m.gLsRunnableCount = m.lsRunnableSlots) := by
  have inv := inv_of_reachable reachable
  have bound := inv.lsRunnableSlots_le
  refine ⟨bound, by omega, ?_⟩
  intro landed
  rw [inv.counter, lsRunnableSlots_eq_sum]
  apply Finset.sum_congr rfl
  intro q _
  have nothing : m.inFlight q = false := by
    simp only [Machine.inFlight]
    split
    · exact landed _
    · rfl
  rw [Machine.contribution, nothing]

end Runs

/-- A process that declares itself LatencySensitive and yields: the counter
runs ahead while the hart is between its two halves of `mark_runnable`. -/
theorem lsCounter_on_yield : ∃ m m' : Machine Unit 1,
      (m.lsRunnableSlots = 0 ∧ (m.lsRunnableSlots : Int) ≤ m.gLsRunnableCount ∧
        m.gLsRunnableCount = 1) ∧
      (m'.lsRunnableSlots = 1 ∧ m'.gLsRunnableCount = m'.lsRunnableSlots) := by
  have entered := Relation.ReflTransGen.single
      (Step.dispatchAcquire (m := Machine.boot (0 : Fin 1)) () 0 rfl rfl)
      |>.tail (Step.dispatchStore () 0 rfl rfl)
      |>.tail (Step.dispatchCount () 0 rfl)
      |>.tail (Step.dispatchAccount () 0 rfl)
      |>.tail (Step.dispatchSwtch () 0 rfl)
      |>.tail (Step.resume () 0 rfl)
  have counted := entered.tail (Step.setpriority () 0 .latencySensitive rfl)
      |>.tail (Step.yieldAcquire () 0 rfl rfl)
      |>.tail (Step.markSeq () 0 .yield rfl)
      |>.tail (Step.markCounter () 0 .yield rfl)
  have stored := counted.tail (Step.markTick () 0 .yield rfl)
      |>.tail (Step.markState () 0 .yield rfl)
  refine ⟨_, _, ⟨?_, (lsCounter_exact_up_to_inFlight _ ⟨0, counted⟩).1, ?_⟩,
    ⟨?_, (lsCounter_exact_up_to_inFlight _ ⟨0, stored⟩).2.2 ?_⟩⟩
  · decide
  · decide
  · decide
  · decide

end Xv6.Sched
