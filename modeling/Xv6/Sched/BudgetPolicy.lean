import Xv6.Sched.BoundedBypass
import Xv6.Sched.BudgetWindows

/-!
# The budget policy between its two base policies

`Tracks` ties the tracker inside `PrioritySelectBudget` to the LatencySensitive ticks charged so
far, so it decides the mode of every pick in a run.
-/

namespace Xv6.Sched

open Xv6.CyclicScan

namespace BudgetEvent

def ticks : BudgetEvent → BitVec 32
  | .pick _ ticks => ticks
  | .charge _ ticks => ticks

def isPick : BudgetEvent → Bool
  | .pick _ _ => true
  | .charge _ _ => false

/-- The tick of the event, if it charges a LatencySensitive process. -/
def charged? : BudgetEvent → Option Nat
  | .charge (some running) ticks =>
    if running.priority = .latencySensitive then some ticks.toNat else none
  | _ => none

/-- The counter is the number of RUNNABLE LatencySensitive slots at a pick. -/
def CountsExactly (n : Nat) : BudgetEvent → Prop
  | .pick call _ => call.gLsRunnableCount = lsRunnable call.procs n
  | .charge _ _ => True

end BudgetEvent

/-- The ticks loaded by the events do not decrease. -/
def Ordered (events : List BudgetEvent) : Prop :=
  events.Pairwise (fun earlier later => earlier.ticks.toNat ≤ later.ticks.toNat)

/-- The LatencySensitive ticks charged in the window of `ticks`. -/
def lsCharged (params : BudgetParams) (history : List BudgetEvent) (ticks : BitVec 32) : Nat :=
  chargedIn params.windowTicks (history.filterMap BudgetEvent.charged?) ticks.toNat

/-- A pick that finds the budget of its window used up and a LatencySensitive
slot RUNNABLE, and returns a Normal slot. -/
def displaces (params : BudgetParams) (n : Nat) (history : List BudgetEvent) :
    BudgetEvent → Option Nat → Bool
  | .pick call ticks, some idx =>
    decide (params.budgetTicks ≤ lsCharged params history ticks) &&
      decide (∃ other, other < n ∧ (call.procs other).isRunnableLs = true) &&
      decide ((call.procs idx).priority = .normal)
  | _, _ => false

/-- The displacing picks among events with their answers. -/
def displacements (params : BudgetParams) (n : Nat) :
    List BudgetEvent → List (BudgetEvent × Option Nat) → Nat
  | _, [] => 0
  | history, (event, answer) :: rest =>
    (displaces params n history event answer).toNat +
      displacements params n (history ++ [event]) rest

theorem lsRunnable_pos_iff {procs : Nat → Proc} {n : Nat} :
    0 < lsRunnable procs n ↔ ∃ idx, idx < n ∧ (procs idx).isRunnableLs = true := by
  rw [lsRunnable, List.countP_pos_iff]
  simp

theorem lsCharged_append_le {params : BudgetParams} {ticks : BitVec 32}
    (history later : List BudgetEvent) :
    lsCharged params history ticks ≤ lsCharged params (history ++ later) ticks := by
  simp [lsCharged, chargedIn, List.count_append]

/-! ## One pick in each mode -/

namespace PrioritySelectBudget

variable {params : BudgetParams} {useCounter : Bool} {policy : PrioritySelectBudget}
  {procs : Nat → Proc} {n : Nat} {gLsRunnableCount : Int} {ticks : BitVec 32}

theorem budget_pickNext :
    (policy.pickNext params useCounter procs n gLsRunnableCount ticks).2.budget =
      policy.budget.observe params ticks := by
  rw [pickNext]
  dsimp only [BudgetWindowTracker.budgetAvailable]
  split
  · rfl
  · split <;> rfl

theorem pickNext_of_available (useCounter : Bool) (procs : Nat → Proc) (n : Nat)
    (gLsRunnableCount : Int)
    (available : (policy.budget.budgetAvailable params ticks).1 = true) :
    let picked := policy.pickNext params useCounter procs n gLsRunnableCount ticks
    let preempt :=
      PriorityPreempt.pickNext useCounter { last := policy.last } procs n gLsRunnableCount
    picked.1 = preempt.1 ∧ picked.2.last = preempt.2.last ∧
      picked.2.normalSelectedWhileLsRunnable = policy.normalSelectedWhileLsRunnable := by
  simp only [pickNext, PriorityPreempt.pickNext, PriorityPreempt.firstPass,
    PriorityPreempt.secondPass, available, Bool.and_true, Bool.not_true, Bool.false_and,
    Bool.false_eq_true, ↓reduceIte]
  split
  · exact ⟨rfl, rfl, rfl⟩
  · split <;> exact ⟨rfl, rfl, rfl⟩

theorem pickNext_of_exhausted (useCounter : Bool) (procs : Nat → Proc) (n : Nat)
    (gLsRunnableCount : Int)
    (exhausted : (policy.budget.budgetAvailable params ticks).1 = false) :
    let picked := policy.pickNext params useCounter procs n gLsRunnableCount ticks
    let robin := RR.pickNext { last := policy.last } procs n
    picked.1 = robin.1 ∧ picked.2.last = robin.2.last ∧ picked.2.normalSelectedWhileLsRunnable =
        policy.normalSelectedWhileLsRunnable + BitVec.ofNat 64 (decide (0 < gLsRunnableCount) &&
            picked.1.any fun idx => decide ((procs idx).priority = .normal)).toNat := by
  have normal : ∀ idx, decide ((procs idx).priority ≠ .latencySensitive) =
      decide ((procs idx).priority = .normal) := by
    intro idx
    cases (procs idx).priority <;> rfl
  simp only [pickNext, RR.pickNext, exhausted, Bool.and_false, Bool.not_false,
    Bool.true_and, Bool.false_eq_true, ↓reduceIte, normal]
  cases scan n policy.last (fun idx => (procs idx).isRunnable) with
  | none => simp
  | some idx =>
    refine ⟨rfl, rfl, ?_⟩
    simp only [Option.any_some]
    cases decide (0 < gLsRunnableCount) && decide ((procs idx).priority = .normal) with
    | false => exact (BitVec.add_zero _).symm
    | true => rfl

end PrioritySelectBudget

/-! ## The tracker along a run -/

/-- The tracker keeps the accounts of the LatencySensitive ticks charged in
`history`, and has looked at no tick outside it. -/
def Tracks (params : BudgetParams) (policy : PrioritySelectBudget)
    (history : List BudgetEvent) : Prop :=
  ∃ current, policy.budget.Accounts params (history.filterMap BudgetEvent.charged?) current ∧
      ∀ time, current = some time → ∃ event ∈ history, event.ticks.toNat = time

section Runs

variable {params : BudgetParams} {useCounter : Bool} {n : Nat}
  {policy : PrioritySelectBudget} {history : List BudgetEvent} {event : BudgetEvent}

theorem follows_of_le {windowTicks : Nat} {current : Option Nat} {ticks : BitVec 32}
    (seen : ∀ time, current = some time → ∃ event ∈ history, event.ticks.toNat = time)
    (later : ∀ earlier ∈ history, earlier.ticks.toNat ≤ ticks.toNat) :
    Follows windowTicks current ticks.toNat := by
  intro before last
  obtain ⟨earlier, mem, rfl⟩ := seen before last
  refine ⟨later earlier mem, fun same => ?_⟩
  simp only [window, Prod.mk.injEq]
  refine ⟨?_, same⟩
  rw [Nat.div_eq_of_lt earlier.ticks.isLt, Nat.div_eq_of_lt ticks.isLt]

theorem toNat_eq_mod (ticks : BitVec 32) : ticks.toNat = ticks.toNat % 2 ^ 32 :=
  (Nat.mod_eq_of_lt ticks.isLt).symm

theorem Tracks.respond (useCounter : Bool) (n : Nat) (tracks : Tracks params policy history)
    (later : ∀ earlier ∈ history, earlier.ticks.toNat ≤ event.ticks.toNat) :
    Tracks params (respondBudget params useCounter n policy event).2 (history ++ [event]) := by
  obtain ⟨current, accounts, seen⟩ := tracks
  have follows : Follows params.windowTicks current event.ticks.toNat := follows_of_le seen later
  have here : ∀ time, some event.ticks.toNat = some time →
      ∃ found ∈ history ++ [event], found.ticks.toNat = time := by
    rintro _ ⟨⟩
    exact ⟨event, by simp, rfl⟩
  have quiet : BudgetEvent.charged? event = none → policy.budget.Accounts params
        ((history ++ [event]).filterMap BudgetEvent.charged?) current := by
    intro silent
    simpa [List.filterMap_append, silent] using accounts
  have before : ∀ time, current = some time →
      ∃ found ∈ history ++ [event], found.ticks.toNat = time := by
    intro time last
    obtain ⟨found, mem, same⟩ := seen time last
    exact ⟨found, List.mem_append_left _ mem, same⟩
  cases event with
  | pick call ticks =>
    refine ⟨some ticks.toNat, ?_, here⟩
    rw [respondBudget, PrioritySelectBudget.budget_pickNext]
    exact (quiet rfl).observe (toNat_eq_mod ticks) follows
  | charge running ticks =>
    cases running with
    | none => exact ⟨current, quiet rfl, before⟩
    | some running =>
      by_cases urgent : running.priority = .latencySensitive
      · refine ⟨some ticks.toNat, ?_, here⟩
        have charged := accounts.charge (toNat_eq_mod ticks) follows
        simpa [respondBudget, PrioritySelectBudget.chargeTick, List.filterMap_append,
          BudgetEvent.charged?, urgent] using charged
      · refine ⟨current, ?_, before⟩
        have kept := quiet (by simp [BudgetEvent.charged?, urgent])
        simpa [respondBudget, PrioritySelectBudget.chargeTick, urgent] using kept

section

variable (tracks : Tracks params policy history) (ticks : BitVec 32)
  (later : ∀ earlier ∈ history, earlier.ticks.toNat ≤ ticks.toNat)
include tracks ticks later

theorem Tracks.available_iff : (policy.budget.budgetAvailable params ticks).1 = true ↔
      lsCharged params history ticks < params.budgetTicks := by
  obtain ⟨current, accounts, seen⟩ := tracks
  exact accounts.budgetAvailable_iff (toNat_eq_mod ticks) (follows_of_le seen later)

theorem Tracks.exhausted (used : ¬ lsCharged params history ticks < params.budgetTicks) :
    (policy.budget.budgetAvailable params ticks).1 = false := by
  rw [← Bool.not_eq_true, tracks.available_iff ticks later]
  exact used

end

theorem tracks_empty {cursor : Int} : Tracks params { last := cursor } [] :=
  ⟨none, BudgetWindowTracker.accounts_empty, nofun⟩

theorem Ordered.le_of_append {later : List BudgetEvent}
    (ordered : Ordered (history ++ event :: later)) :
    ∀ earlier ∈ history, earlier.ticks.toNat ≤ event.ticks.toNat := by
  intro earlier mem
  exact (List.pairwise_append.mp ordered).2.2 earlier mem event List.mem_cons_self

theorem tracks_final : ∀ (events : List BudgetEvent) (policy : PrioritySelectBudget)
      (history : List BudgetEvent),
      Tracks params policy history → Ordered (history ++ events) →
      Tracks params (finalPolicy (respondBudget params useCounter n) policy events)
        (history ++ events)
  | [], _, history, tracks, _ => by
      rw [List.append_nil]
      exact tracks
  | event :: rest, policy, history, tracks, ordered => by
      have next := tracks.respond useCounter n ordered.le_of_append
      rw [List.append_cons] at ordered ⊢
      exact tracks_final rest _ _ next ordered

theorem Tracks.normalSelected_respond (useCounter : Bool) (tracks : Tracks params policy history)
    (later : ∀ earlier ∈ history, earlier.ticks.toNat ≤ event.ticks.toNat)
    (counts : event.CountsExactly n) :
    let response := respondBudget params useCounter n policy event
    response.2.normalSelectedWhileLsRunnable = policy.normalSelectedWhileLsRunnable +
        BitVec.ofNat 64 (displaces params n history event response.1).toNat := by
  cases event with
  | charge running ticks =>
    cases running with
    | none => exact (BitVec.add_zero _).symm
    | some running =>
      simp only [respondBudget, PrioritySelectBudget.chargeTick, displaces]
      split <;> exact (BitVec.add_zero _).symm
  | pick call ticks =>
    rw [BudgetEvent.CountsExactly] at counts
    simp only [respondBudget]
    by_cases left : lsCharged params history ticks < params.budgetTicks
    · have available := (tracks.available_iff ticks later).mpr left
      rw [(PrioritySelectBudget.pickNext_of_available _ _ _ _ available).2.2]
      cases (policy.pickNext params useCounter call.procs n call.gLsRunnableCount ticks).1 with
      | none => exact (BitVec.add_zero _).symm
      | some idx => simp [displaces, Nat.not_le.mpr left]
    · have exhausted := tracks.exhausted ticks later left
      rw [(PrioritySelectBudget.pickNext_of_exhausted _ _ _ _ exhausted).2.2]
      cases (policy.pickNext params useCounter call.procs n call.gLsRunnableCount ticks).1 with
      | none => simp [displaces]
      | some idx =>
        simp [displaces, Nat.le_of_not_lt left, counts, lsRunnable_pos_iff]

theorem normalSelected_final : ∀ (events : List BudgetEvent) (policy : PrioritySelectBudget)
      (history : List BudgetEvent),
      Tracks params policy history → Ordered (history ++ events) →
      (∀ event ∈ events, event.CountsExactly n) →
      (finalPolicy (respondBudget params useCounter n) policy
          events).normalSelectedWhileLsRunnable =
        policy.normalSelectedWhileLsRunnable + BitVec.ofNat 64 (displacements params n history
            (answers (respondBudget params useCounter n) policy events))
  | [], _, _, _, _, _ => (BitVec.add_zero _).symm
  | event :: rest, policy, history, tracks, ordered, counts => by
      have next := tracks.respond useCounter n ordered.le_of_append
      have counted := tracks.normalSelected_respond useCounter ordered.le_of_append
          (counts event List.mem_cons_self)
      rw [List.append_cons] at ordered
      have remaining := normalSelected_final rest _ _ next ordered
        fun later mem => counts later (List.mem_cons_of_mem event mem)
      rw [finalPolicy, remaining, counted, answers, displacements, BitVec.ofNat_add,
        BitVec.add_assoc]

theorem Tracks.advances {q : Nat} (tracks : Tracks params policy history)
    (later : ∀ earlier ∈ history, earlier.ticks.toNat ≤ event.ticks.toNat)
    (exhausted : ∀ call ticks, event = .pick call ticks →
      params.budgetTicks ≤ lsCharged params history ticks)
    (waiting : ∀ call ticks, event = .pick call ticks → (call.procs q).state = .runnable) :
    Advances (respondBudget params useCounter n) PrioritySelectBudget.last n q
      BudgetEvent.isPick policy event := by
  cases event with
  | charge running ticks =>
    cases running with
    | none => rfl
    | some running =>
      simp only [Advances, BudgetEvent.isPick, respondBudget,
        PrioritySelectBudget.chargeTick, Bool.false_eq_true, ↓reduceIte]
      split <;> rfl
  | pick call ticks =>
    have used := tracks.exhausted ticks later (Nat.not_lt.mpr (exhausted call ticks rfl))
    have robin := PrioritySelectBudget.pickNext_of_exhausted useCounter call.procs n
      call.gLsRunnableCount used
    refine ⟨fun idx => (call.procs idx).isRunnable,
      by simp [Proc.isRunnable, waiting call ticks rfl], ?_⟩
    intro idx found
    rw [@RR.pickNext_of_scan { last := policy.last } _ _ _ found] at robin
    exact ⟨robin.1, robin.2.1⟩

theorem along_advances {q : Nat} : ∀ (stretch : List BudgetEvent) (policy : PrioritySelectBudget)
      (history : List BudgetEvent),
      Tracks params policy history → Ordered (history ++ stretch) →
      (∀ call ticks, .pick call ticks ∈ stretch →
        params.budgetTicks ≤ lsCharged params history ticks ∧ (call.procs q).state = .runnable) →
      Along (respondBudget params useCounter n)
        (Advances (respondBudget params useCounter n) PrioritySelectBudget.last n q
          BudgetEvent.isPick) policy stretch
  | [], _, _, _, _, _ => trivial
  | event :: rest, policy, history, tracks, ordered, picks => by
      have next := tracks.respond useCounter n ordered.le_of_append
      refine ⟨tracks.advances ordered.le_of_append ?_ ?_, ?_⟩
      · rintro call ticks rfl
        exact (picks call ticks List.mem_cons_self).1
      · rintro call ticks rfl
        exact (picks call ticks List.mem_cons_self).2
      · rw [List.append_cons] at ordered
        apply along_advances rest _ _ next ordered
        intro call ticks mem
        obtain ⟨used, waiting⟩ := picks call ticks (List.mem_cons_of_mem event mem)
        exact ⟨used.trans (lsCharged_append_le history [event]), waiting⟩

end Runs

/-- In every interleaving of picks and charged ticks: each pick is the one of
`PriorityPreempt` or of `RR` by the LatencySensitive ticks charged in its
window, the displacing picks are counted modulo `2 ^ 64`, and `n` consecutive picks of a window
without budget serve every slot that stays RUNNABLE. -/
theorem budget_switches_between_policies
    (params : BudgetParams) (useCounter : Bool) (n : Nat) (positive : 0 < n)
    (cursor : Int) (events : List BudgetEvent)
    (ordered : Ordered events) (counts : ∀ event ∈ events, event.CountsExactly n) :
    let respond := respondBudget params useCounter n
    let start : PrioritySelectBudget := { last := cursor }
    (∀ before call ticks rest, events = before ++ .pick call ticks :: rest →
      let policy := finalPolicy respond start before
      let picked := policy.pickNext params useCounter call.procs n call.gLsRunnableCount ticks
      if lsCharged params before ticks < params.budgetTicks then
        let preempt := PriorityPreempt.pickNext useCounter { last := policy.last }
          call.procs n call.gLsRunnableCount
        picked.1 = preempt.1 ∧ picked.2.last = preempt.2.last
      else
        let robin := RR.pickNext { last := policy.last } call.procs n
        picked.1 = robin.1 ∧ picked.2.last = robin.2.last) ∧
    (finalPolicy respond start events).normalSelectedWhileLsRunnable =
      BitVec.ofNat 64 (displacements params n [] (answers respond start events)) ∧
    (∀ before stretch rest q, events = before ++ stretch ++ rest → q < n →
      stretch.countP BudgetEvent.isPick = n →
      (∀ call ticks, .pick call ticks ∈ stretch →
        params.budgetTicks ≤ lsCharged params before ticks ∧ (call.procs q).state = .runnable) →
      ∃ event, (event, some q) ∈ answers respond (finalPolicy respond start before) stretch) := by
  intro respond start
  have tracks : ∀ before rest, events = before ++ rest →
      Tracks params (finalPolicy respond start before) before := by
    rintro before rest rfl
    exact tracks_final before start [] tracks_empty (List.pairwise_append.mp ordered).1
  refine ⟨?_, ?_, ?_⟩
  · intro before call ticks rest split
    have followed := tracks before _ split
    have later : ∀ earlier ∈ before, earlier.ticks.toNat ≤ ticks.toNat := by
      subst split
      exact ordered.le_of_append
    by_cases left : lsCharged params before ticks < params.budgetTicks
    · have available := (followed.available_iff ticks later).mpr left
      have same := PrioritySelectBudget.pickNext_of_available useCounter call.procs n
        call.gLsRunnableCount available
      rw [if_pos left]
      exact ⟨same.1, same.2.1⟩
    · have exhausted := followed.exhausted ticks later left
      have same := PrioritySelectBudget.pickNext_of_exhausted useCounter call.procs n
        call.gLsRunnableCount exhausted
      rw [if_neg left]
      exact ⟨same.1, same.2.1⟩
  · have counted : (finalPolicy respond start events).normalSelectedWhileLsRunnable =
        0 + BitVec.ofNat 64 (displacements params n [] (answers respond start events)) :=
      normalSelected_final events start [] tracks_empty ordered counts
    exact counted.trans (BitVec.zero_add _)
  · intro before stretch rest q split slotInside size picks
    have followed := tracks before (stretch ++ rest) (by rw [split, List.append_assoc])
    subst split
    apply exists_answer_of_advances slotInside
    · exact along_advances stretch _ before followed (List.pairwise_append.mp ordered).1 picks
    · rw [size]
      exact distance_le positive _ q

/-! ## A budget of one tick -/

def oneTick : BudgetParams := ⟨1, 3, by decide, by decide, by decide⟩

/-- Slot 0 is LatencySensitive, slot 1 is Normal, and both stay RUNNABLE. -/
def bothRunnable : Call :=
  { procs := fun idx =>
      { state := .runnable, priority := if idx = 0 then .latencySensitive else .normal }
    gLsRunnableCount := 1 }

/-- Slot 0 uses up the budget, and `k` pairs of picks follow in the window. -/
def pairs (k : Nat) : List BudgetEvent :=
  .charge (some (bothRunnable.procs 0)) 1 ::
    (List.replicate k [.pick bothRunnable 1, .pick bothRunnable 1]).flatten

theorem mem_pairs {k : Nat} {event : BudgetEvent} (mem : event ∈ pairs k) :
    event = .charge (some (bothRunnable.procs 0)) 1 ∨ event = .pick bothRunnable 1 := by
  simp only [pairs, List.mem_cons, List.mem_flatten, List.mem_replicate] at mem
  rcases mem with first | ⟨_, ⟨_, rfl⟩, later⟩
  · exact .inl first
  · simpa using Or.inr later

theorem pairs_ordered (k : Nat) : Ordered (pairs k) := by
  have ticks : ∀ event ∈ pairs k, event.ticks = 1 := by
    intro event mem
    rcases mem_pairs mem with rfl | rfl <;> rfl
  refine List.pairwise_of_forall_mem_list fun earlier before later after => ?_
  rw [ticks earlier before, ticks later after]

theorem pairs_counts (k : Nat) : ∀ event ∈ pairs k, event.CountsExactly 2 := by
  intro event mem
  rcases mem_pairs mem with rfl | rfl
  · trivial
  · exact rfl

/-- `PrioritySelectBudget` when slot 1 was picked last, after the charge. -/
def afterCharge (total : BitVec 64) : PrioritySelectBudget :=
  { last := 1, budget := ⟨0, true, 1, 1, 1⟩, normalSelectedWhileLsRunnable := total }

/-- Of each two picks the second one returns the Normal slot. -/
theorem displacements_picks (k : Nat) (total : BitVec 64) (history : List BudgetEvent)
    (used : oneTick.budgetTicks ≤ lsCharged oneTick history 1) :
    displacements oneTick 2 history (answers (respondBudget oneTick true 2) (afterCharge total)
      (List.replicate k [.pick bothRunnable 1, .pick bothRunnable 1]).flatten) = k := by
  induction k generalizing total history with
  | zero => rfl
  | succ k ih =>
    have first : respondBudget oneTick true 2 (afterCharge total) (.pick bothRunnable 1) =
        (some 0, { afterCharge total with last := 0 }) := rfl
    have second : respondBudget oneTick true 2 { afterCharge total with last := 0 }
        (.pick bothRunnable 1) = (some 1, afterCharge (total + 1)) := rfl
    have waiting : ∃ other < 2, (bothRunnable.procs other).isRunnableLs = true :=
      ⟨0, by decide, rfl⟩
    have grown (later) : oneTick.budgetTicks ≤ lsCharged oneTick (history ++ later) 1 :=
      used.trans (lsCharged_append_le history later)
    have urgent : displaces oneTick 2 history (.pick bothRunnable 1) (some 0) = false := by
      simp [displaces, bothRunnable]
    have normal : displaces oneTick 2 (history ++ [.pick bothRunnable 1]) (.pick bothRunnable 1)
        (some 1) = true := by
      rw [displaces, decide_eq_true (grown _), decide_eq_true waiting]
      rfl
    rw [List.replicate_succ, List.flatten_cons, List.cons_append, List.cons_append, List.nil_append,
      answers, first, answers, second, displacements, displacements, urgent, normal, ih]
    · exact (Nat.zero_add _).trans (Nat.add_comm 1 k)
    · rw [List.append_assoc]
      exact grown _

theorem displacements_pairs (k : Nat) : displacements oneTick 2 []
    (answers (respondBudget oneTick true 2) { last := 1 } (pairs k)) = k :=
  (Nat.zero_add _).trans
    (displacements_picks k 0 [.charge (some (bothRunnable.procs 0)) 1] (by decide))

/-- Slot 1 was picked last, and `2 ^ 64` picks displace slot 0: the counter is 0 again. -/
theorem displaced_picks_wrap : ∃ (params : BudgetParams) (events : List BudgetEvent),
    Ordered events ∧ (∀ event ∈ events, event.CountsExactly 2) ∧
      let respond := respondBudget params true 2
      displacements params 2 [] (answers respond { last := 1 } events) = 2 ^ 64 ∧
        (finalPolicy respond { last := 1 } events).normalSelectedWhileLsRunnable = 0 := by
  refine ⟨oneTick, _, pairs_ordered _, pairs_counts _, displacements_pairs (2 ^ 64), ?_⟩
  rw [normalSelected_final (pairs _) _ [] tracks_empty (pairs_ordered _) (pairs_counts _),
    displacements_pairs]
  rfl

/-- Of the two picks after the charge one displaces slot 0. -/
theorem budget_switches_after_one_tick : (finalPolicy (respondBudget oneTick true 2) {}
      (pairs 1)).normalSelectedWhileLsRunnable = 1 := by
  rw [(budget_switches_between_policies oneTick true 2 (by decide) (-1) (pairs 1)
    (pairs_ordered 1) (pairs_counts 1)).2.1]
  decide

end Xv6.Sched
