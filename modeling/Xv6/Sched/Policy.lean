import Xv6.Library.CyclicScan

/-!
# Scheduling policies

The policy objects of `kernel/sched_fcfs.hpp`, `kernel/sched_rr.hpp` and
`kernel/sched_priority.hpp`. A policy sees the table as a pointer to the first slot and a
length, and answers with a slot number or with null.
-/

namespace Xv6.Sched

open Xv6.CyclicScan

/-- `enum procstate` of `kernel/proc.h`. -/
inductive ProcState where
  | unused
  | used
  | sleeping
  | runnable
  | running
  | zombie
  deriving DecidableEq, Repr

/-- `enum class Priority` of `kernel/sched_priority.hpp`. -/
inductive Priority where
  | normal
  | latencySensitive
  deriving DecidableEq, Repr

/-- The fields of `struct proc` that scheduling code reads or writes. The
channel is an address, with `0` for none. -/
structure Proc where
  state : ProcState := .unused
  chan : Nat := 0
  killed : Bool := false
  pid : Int := 0
  priority : Priority := .normal
  arrivalSeq : BitVec 64 := 0
  schedReadyTick : BitVec 64 := 0
  waitTicksTotal : BitVec 64 := 0
  waitTicksMax : BitVec 64 := 0
  deriving DecidableEq, Repr

namespace Proc

def isRunnable (p : Proc) : Bool := p.state = .runnable

def isRunnableLs (p : Proc) : Bool := p.state = .runnable ∧ p.priority = .latencySensitive

theorem isRunnable_of_isRunnableLs {p : Proc} (waiting : p.isRunnableLs = true) :
    p.isRunnable = true := by
  simp only [isRunnableLs, decide_eq_true_eq] at waiting
  simp [isRunnable, waiting.1]

end Proc

/-- The number of RUNNABLE LatencySensitive processes among the first `n` slots. -/
def lsRunnable (procs : Nat → Proc) (n : Nat) : Nat :=
  (List.range n).countP (fun idx => (procs idx).isRunnableLs)

theorem not_isRunnableLs_of_lsRunnable_eq_zero {procs : Nat → Proc} {n : Nat}
    (none : lsRunnable procs n = 0) :
    ∀ idx, idx < n → (procs idx).isRunnableLs = false := by
  intro idx inside
  have := List.countP_eq_zero.mp none idx (List.mem_range.mpr inside)
  simpa using this

/-! ## `FCFS` -/

/-- One round of the loop of `FCFS::pick_next`. -/
def FCFS.consider (procs : Nat → Proc) (candidate : Option Nat) (i : Nat) : Option Nat :=
  if (procs i).state = .runnable then
    match candidate with
    | none => some i
    | some best =>
      if (procs i).arrivalSeq < (procs best).arrivalSeq then some i else some best
  else
    candidate

def FCFS.pickNext (procs : Nat → Proc) (n : Nat) : Option Nat :=
  (List.range n).foldl (FCFS.consider procs) none

/-! ## `RR` -/

/-- `struct RR` of `kernel/sched_rr.hpp`. -/
structure RR where
  last : Int := -1
  deriving DecidableEq, Repr

def RR.pickNext (policy : RR) (procs : Nat → Proc) (n : Nat) : Option Nat × RR :=
  match scan n policy.last (fun idx => (procs idx).isRunnable) with
  | some idx => (some idx, { last := idx })
  | none => (none, policy)

/-! ## `PriorityPreempt` and `PrioritySelectOnly` -/

structure PriorityPreempt where
  last : Int := -1
  deriving DecidableEq, Repr

def maybeLs (useCounter : Bool) (gLsRunnableCount : Int) : Bool :=
  if useCounter then decide (0 < gLsRunnableCount) else true

namespace PriorityPreempt

def firstPass (useCounter : Bool) (policy : PriorityPreempt)
    (procs : Nat → Proc) (n : Nat) (gLsRunnableCount : Int) : Option Nat :=
  if maybeLs useCounter gLsRunnableCount then
    scan n policy.last (fun idx => (procs idx).isRunnableLs)
  else
    none

def secondPass (policy : PriorityPreempt) (procs : Nat → Proc) (n : Nat) : Option Nat :=
  scan n policy.last (fun idx => (procs idx).isRunnable)

/-- `PriorityPreempt<UseCounter>::pick_next`. -/
def pickNext (useCounter : Bool) (policy : PriorityPreempt)
    (procs : Nat → Proc) (n : Nat) (gLsRunnableCount : Int) :
    Option Nat × PriorityPreempt :=
  match policy.firstPass useCounter procs n gLsRunnableCount with
  | some idx => (some idx, { last := idx })
  | none =>
    match policy.secondPass procs n with
    | some idx => (some idx, { last := idx })
    | none => (none, policy)

def shouldPreempt (running : Proc) : Bool := running.priority ≠ .latencySensitive

variable {useCounter : Bool} {policy : PriorityPreempt}
  {procs : Nat → Proc} {n : Nat} {gLsRunnableCount : Int}

theorem pickNext_some (pos : 0 < n) {idx : Nat} {policy' : PriorityPreempt} (picked :
      policy.pickNext useCounter procs n gLsRunnableCount = (some idx, policy')) :
    idx < n ∧ (procs idx).isRunnable = true ∧ policy' = { last := idx } := by
  unfold pickNext at picked
  split at picked
  · rename_i found
    obtain ⟨rfl, rfl⟩ : _ = idx ∧ _ = policy' := by simpa using picked
    unfold firstPass at found
    split at found
    · exact ⟨scan_lt pos found, Proc.isRunnable_of_isRunnableLs (scan_accept found), rfl⟩
    · cases found
  · split at picked
    · rename_i found
      obtain ⟨rfl, rfl⟩ : _ = idx ∧ _ = policy' := by simpa using picked
      exact ⟨scan_lt pos found, scan_accept found, rfl⟩
    · cases picked

theorem pickNext_none (pos : 0 < n) {policy' : PriorityPreempt} (picked :
      policy.pickNext useCounter procs n gLsRunnableCount = (none, policy')) :
    policy' = policy ∧ ∀ idx, idx < n → (procs idx).isRunnable = false := by
  unfold pickNext at picked
  split at picked
  · cases picked
  · split at picked
    · cases picked
    · rename_i exhausted
      obtain rfl : policy = policy' := by simpa using picked
      exact ⟨rfl, (scan_eq_none_iff pos).mp exhausted⟩

end PriorityPreempt

structure PrioritySelectOnly where
  inner : PriorityPreempt := {}
  deriving DecidableEq, Repr

/-- `PrioritySelectOnly<UseCounter>::pick_next`. -/
def PrioritySelectOnly.pickNext (useCounter : Bool) (policy : PrioritySelectOnly)
    (procs : Nat → Proc) (n : Nat) (gLsRunnableCount : Int) :
    Option Nat × PrioritySelectOnly :=
  let (picked, inner) := policy.inner.pickNext useCounter procs n gLsRunnableCount
  (picked, { inner := inner })

def PrioritySelectOnly.shouldPreempt (_running : Proc) : Bool := true

/-! ## `BudgetWindowTracker` and `PrioritySelectBudget` -/

/-- The template arguments of `BudgetWindowTracker`, with its static
assertion. Both are C `int` values. -/
structure BudgetParams where
  budgetTicks : Nat
  windowTicks : Nat
  budget_pos : 0 < budgetTicks
  budget_lt_window : budgetTicks < windowTicks
  window_fits : windowTicks < 2 ^ 31

structure BudgetWindowTracker where
  lastWindowIndex : BitVec 32 := 0
  haveWindow : Bool := false
  chargedThisWindow : Nat := 0
  lsChargedTicksTotal : BitVec 64 := 0
  budgetExhaustionsTotal : BitVec 64 := 0
  deriving DecidableEq, Repr

namespace BudgetWindowTracker

variable (params : BudgetParams)

/-- `observe(now)`: enter the window of `now` if it is not the current one. -/
def observe (tracker : BudgetWindowTracker) (now : BitVec 32) :
    BudgetWindowTracker :=
  let idx := now / BitVec.ofNat 32 params.windowTicks
  if !tracker.haveWindow || idx ≠ tracker.lastWindowIndex then
    { tracker with
      lastWindowIndex := idx
      haveWindow := true
      chargedThisWindow := 0 }
  else
    tracker

def budgetAvailable (tracker : BudgetWindowTracker) (now : BitVec 32) :
    Bool × BudgetWindowTracker :=
  let tracker := tracker.observe params now
  (decide (tracker.chargedThisWindow < params.budgetTicks), tracker)

def charge (tracker : BudgetWindowTracker) (now : BitVec 32) :
    BudgetWindowTracker :=
  let tracker := tracker.observe params now
  let tracker := { tracker with lsChargedTicksTotal := tracker.lsChargedTicksTotal + 1 }
  if tracker.chargedThisWindow < params.budgetTicks then
    let charged := tracker.chargedThisWindow + 1
    { tracker with
      chargedThisWindow := charged
      budgetExhaustionsTotal :=
        if charged = params.budgetTicks then
          tracker.budgetExhaustionsTotal + 1
        else
          tracker.budgetExhaustionsTotal }
  else
    tracker

end BudgetWindowTracker

structure PrioritySelectBudget where
  last : Int := -1
  budget : BudgetWindowTracker := {}
  normalSelectedWhileLsRunnable : BitVec 64 := 0
  deriving DecidableEq, Repr

namespace PrioritySelectBudget

variable (params : BudgetParams)

/-- `PrioritySelectBudget<UseCounter, BudgetTicks, WindowTicks>::pick_next`,
with the value of `ticks` that it loads. -/
def pickNext (useCounter : Bool) (policy : PrioritySelectBudget)
    (procs : Nat → Proc) (n : Nat) (gLsRunnableCount : Int)
    (ticks : BitVec 32) : Option Nat × PrioritySelectBudget :=
  let (budgetOk, budget) := policy.budget.budgetAvailable params ticks
  let policy := { policy with budget := budget }
  let firstPass :=
    if maybeLs useCounter gLsRunnableCount && budgetOk then
      scan n policy.last (fun idx => (procs idx).isRunnableLs)
    else
      none
  match firstPass with
  | some idx => (some idx, { policy with last := idx })
  | none =>
    let lsWasWaiting := !budgetOk && decide (0 < gLsRunnableCount)
    match scan n policy.last (fun idx => (procs idx).isRunnable) with
    | some idx =>
      (some idx,
        { policy with
          last := idx
          normalSelectedWhileLsRunnable :=
            if lsWasWaiting &&
                decide ((procs idx).priority ≠ .latencySensitive) then
              policy.normalSelectedWhileLsRunnable + 1
            else
              policy.normalSelectedWhileLsRunnable })
    | none => (none, policy)

/-- `charge_tick(running)`, with the value of `ticks` that it loads. -/
def chargeTick (policy : PrioritySelectBudget) (running : Option Proc)
    (ticks : BitVec 32) : PrioritySelectBudget :=
  match running with
  | some p =>
    if p.priority = .latencySensitive then
      { policy with budget := policy.budget.charge params ticks }
    else
      policy
  | none => policy

end PrioritySelectBudget

/-! ## Sequences of calls on one object -/

section Sequences

variable {σ ε α : Type} (respond : σ → ε → α × σ)

/-- The events of a sequence together with their answers, the policy object
being threaded through. -/
def answers : σ → List ε → List (ε × α)
  | _, [] => []
  | policy, event :: rest =>
    (event, (respond policy event).1) :: answers (respond policy event).2 rest

def finalPolicy : σ → List ε → σ
  | policy, [] => policy
  | policy, event :: rest => finalPolicy (respond policy event).2 rest

/-- `condition` holds of the policy object and of the event before every one
of them. -/
def Along (condition : σ → ε → Prop) : σ → List ε → Prop
  | _, [] => True
  | policy, event :: rest =>
    condition policy event ∧ Along condition (respond policy event).2 rest

variable {respond}

theorem finalPolicy_append (later : List ε) : ∀ (earlier : List ε) (policy : σ),
      finalPolicy respond policy (earlier ++ later) =
        finalPolicy respond (finalPolicy respond policy earlier) later
  | [], _ => rfl
  | _ :: rest, _ => finalPolicy_append later rest _

theorem finalPolicy_invariant (invariant : σ → Prop)
    (kept : ∀ policy event, invariant policy → invariant (respond policy event).2) :
    ∀ (events : List ε) (policy : σ),
      invariant policy → invariant (finalPolicy respond policy events)
  | [], _, holds => holds
  | event :: rest, policy, holds =>
    finalPolicy_invariant invariant kept rest _ (kept policy event holds)

end Sequences

structure Call where
  procs : Nat → Proc
  gLsRunnableCount : Int

def pickRR (n : Nat) (policy : RR) (call : Call) : Option Nat × RR := policy.pickNext call.procs n

def pickPreempt (useCounter : Bool) (n : Nat) (policy : PriorityPreempt)
    (call : Call) : Option Nat × PriorityPreempt :=
  policy.pickNext useCounter call.procs n call.gLsRunnableCount

def pickSelectOnly (useCounter : Bool) (n : Nat) (policy : PrioritySelectOnly)
    (call : Call) : Option Nat × PrioritySelectOnly :=
  policy.pickNext useCounter call.procs n call.gLsRunnableCount

/-- The calls that a `PrioritySelectBudget` object receives, with the tick
they load. -/
inductive BudgetEvent where
  | pick (call : Call) (ticks : BitVec 32)
  | charge (running : Option Proc) (ticks : BitVec 32)

def respondBudget (params : BudgetParams) (useCounter : Bool) (n : Nat)
    (policy : PrioritySelectBudget) :
    BudgetEvent → Option Nat × PrioritySelectBudget
  | .pick call ticks =>
    policy.pickNext params useCounter call.procs n call.gLsRunnableCount ticks
  | .charge running ticks => (none, policy.chargeTick params running ticks)

end Xv6.Sched
