import Xv6.Sched.Counter

/-!
# Counter-guided and full-scan policies

A counter that is never below the number of RUNNABLE LatencySensitive processes makes it harmless
to skip the first pass while the counter is not positive.
-/

namespace Xv6.Sched

open Xv6.CyclicScan

variable {n : Nat} {procs : Nat → Proc} {count : Int}

private theorem scan_eq_none_of_counter {last : Int} (pos : 0 < n)
    (enough : (lsRunnable procs n : Int) ≤ count) (exhausted : ¬ 0 < count) :
    scan n last (fun idx => (procs idx).isRunnableLs) = none := by
  have empty : lsRunnable procs n = 0 := by omega
  exact (scan_eq_none_iff pos).mpr (not_isRunnableLs_of_lsRunnable_eq_zero empty)

theorem PriorityPreempt.pickNext_counter_eq (pos : 0 < n)
    (enough : (lsRunnable procs n : Int) ≤ count) (policy : PriorityPreempt) :
    policy.pickNext true procs n count = policy.pickNext false procs n count := by
  have samePass : policy.firstPass true procs n count = policy.firstPass false procs n count := by
    by_cases ahead : 0 < count
    · simp [firstPass, maybeLs, ahead]
    · simp [firstPass, maybeLs, ahead, scan_eq_none_of_counter pos enough ahead]
  rw [pickNext, pickNext, samePass]

theorem PrioritySelectBudget.pickNext_counter_eq (params : BudgetParams)
    (pos : 0 < n) (enough : (lsRunnable procs n : Int) ≤ count)
    (policy : PrioritySelectBudget) (ticks : BitVec 32) :
    policy.pickNext params true procs n count ticks =
      policy.pickNext params false procs n count ticks := by
  by_cases ahead : 0 < count
  · simp [pickNext, maybeLs, ahead]
  · simp [pickNext, maybeLs, ahead, scan_eq_none_of_counter pos enough ahead]

private theorem answers_eq_of_respond_eq {σ ε α : Type} {left right : σ → ε → α × σ} :
    ∀ (events : List ε) (policy : σ),
      (∀ event ∈ events, ∀ policy, left policy event = right policy event) →
      answers left policy events = answers right policy events ∧
        finalPolicy left policy events = finalPolicy right policy events
  | [], _, _ => ⟨rfl, rfl⟩
  | event :: rest, policy, alike => by
      have now := alike event (by simp) policy
      have later := answers_eq_of_respond_eq rest (right policy event).2
          (fun other mem => alike other (List.mem_cons_of_mem event mem))
      simp only [answers, finalPolicy, now]
      exact ⟨by rw [later.1], later.2⟩

/-- The counter of a call covers the RUNNABLE LatencySensitive processes. -/
def Call.Covered (n : Nat) (call : Call) : Prop :=
  (lsRunnable call.procs n : Int) ≤ call.gLsRunnableCount

def BudgetEvent.Covered (n : Nat) : BudgetEvent → Prop
  | .pick call _ => call.Covered n
  | .charge _ _ => True

/-! ## Reachable tables -/

/-- What a `pick_next` call finds in the memory of a machine. -/
def Machine.call {Hart : Type} {n : Nat} (m : Machine Hart n) : Call where
  procs idx := if inside : idx < n then (m.slot ⟨idx, inside⟩).proc else {}
  gLsRunnableCount := m.gLsRunnableCount

theorem lsRunnable_call {Hart : Type} (m : Machine Hart n) :
    lsRunnable m.call.procs n = m.lsRunnableSlots := by
  calc
    lsRunnable m.call.procs n = ((Finset.range n).filter
          (fun idx => (m.call.procs idx).isRunnableLs = true)).card := by
      rw [lsRunnable, List.countP_eq_length_filter]
      simp [Finset.card, Finset.filter, Finset.range, Multiset.range]
    _ = ∑ idx ∈ Finset.range n,
          if (m.call.procs idx).isRunnableLs = true then 1 else 0 :=
      Finset.card_filter _ _
    _ = ∑ q : Fin n, if (m.call.procs q).isRunnableLs = true then 1 else 0 :=
      (Fin.sum_univ_eq_sum_range
        (fun idx => if (m.call.procs idx).isRunnableLs = true then 1 else 0) n).symm
    _ = m.lsRunnableSlots := by
      rw [Machine.lsRunnableSlots, Finset.card_filter]
      apply Finset.sum_congr rfl
      intro q _
      simp [Machine.call]

theorem covered_of_reachable {Hart : Type} [DecidableEq Hart]
    {m : Machine Hart n} (reach : Reachable m) : m.call.Covered n := by
  rw [Call.Covered, lsRunnable_call]
  exact (inv_of_reachable reach).lsRunnableSlots_le

/-! ## Agreement -/

/-- Over every sequence of calls whose counter covers the RUNNABLE
LatencySensitive processes, from every cursor and every budget state, the
counter-guided and the full-scan instantiations give the same answers and end
in the same object; the counter does cover them in every reachable state. -/
theorem counterGuided_eq_fullScan (n : Nat) (positive : 0 < n) :
    (∀ (calls : List Call) (policy : PriorityPreempt), (∀ call ∈ calls, call.Covered n) →
      answers (pickPreempt true n) policy calls = answers (pickPreempt false n) policy calls ∧
        finalPolicy (pickPreempt true n) policy calls =
          finalPolicy (pickPreempt false n) policy calls) ∧
    (∀ (params : BudgetParams) (events : List BudgetEvent) (policy : PrioritySelectBudget),
      (∀ event ∈ events, event.Covered n) →
      answers (respondBudget params true n) policy events =
          answers (respondBudget params false n) policy events ∧
        finalPolicy (respondBudget params true n) policy events =
          finalPolicy (respondBudget params false n) policy events) ∧
    (∀ (Hart : Type) [DecidableEq Hart] (m : Machine Hart n), Reachable m → m.call.Covered n) := by
  refine ⟨?_, ?_, ?_⟩
  · intro calls policy covered
    apply answers_eq_of_respond_eq
    intro call member policy
    exact policy.pickNext_counter_eq positive (covered call member)
  · intro params events policy covered
    apply answers_eq_of_respond_eq
    intro event member policy
    cases event with
    | pick call ticks =>
      exact policy.pickNext_counter_eq params positive (covered (.pick call ticks) member) ticks
    | charge running ticks => rfl
  · intro Hart _ m reachable
    exact covered_of_reachable reachable

/-- A LatencySensitive process behind a Normal one, with a counter that is
one too large, as inside `mark_runnable`. -/
def overcountedCall : Call where
  procs idx := { state := .runnable, priority := if idx = 1 then .latencySensitive else .normal }
  gLsRunnableCount := 2

def normalCall : Call where
  procs idx := { state := if idx = 0 then .runnable else .sleeping }
  gLsRunnableCount := 0

theorem counterGuided_eq_fullScan_sample :
    answers (pickPreempt true 2) {} [overcountedCall, normalCall] =
        answers (pickPreempt false 2) {} [overcountedCall, normalCall] ∧
      answers (respondBudget ⟨1, 2, by decide, by decide, by decide⟩ true 2) {}
          [.pick overcountedCall 0, .charge none 1, .pick normalCall 1] =
        answers (respondBudget ⟨1, 2, by decide, by decide, by decide⟩ false 2) {}
          [.pick overcountedCall 0, .charge none 1, .pick normalCall 1] ∧
      (Machine.boot 0 : Machine Unit 2).call.Covered 2 := by
  have agreement := counterGuided_eq_fullScan 2 (by decide)
  have overcounted : overcountedCall.Covered 2 := by
    unfold Call.Covered
    decide
  have exact_ : normalCall.Covered 2 := by
    unfold Call.Covered
    decide
  refine ⟨(agreement.1 _ {} ?_).1, (agreement.2.1 _ _ {} ?_).1,
    agreement.2.2 Unit _ ⟨0, Relation.ReflTransGen.refl⟩⟩
  · intro call member
    rcases List.mem_pair.mp member with rfl | rfl
    · exact overcounted
    · exact exact_
  · intro event member
    simp only [List.mem_cons, List.not_mem_nil, or_false] at member
    rcases member with rfl | rfl | rfl
    · exact overcounted
    · trivial
    · exact exact_

end Xv6.Sched
