import Xv6.Sched.Policy

/-!
# Bounded bypass of the cyclic scans

A policy whose every answer is the first match of a scan behind its cursor, and whose cursor
then moves onto that match, returns a slot that each of these scans accepts after at most `n`
calls.
-/

namespace Xv6.Sched

open Xv6.CyclicScan

section Scans

variable {σ ε : Type} (respond : σ → ε → Option Nat × σ) (last : σ → Int) (n q : Nat)

/-- The answer to the event is found by a scan behind the cursor that accepts
`q`, and the cursor moves onto the answer. -/
def ScansFor (policy : σ) (event : ε) : Prop := ∃ accept : Nat → Bool, accept q = true ∧
    ∀ idx, scan n (last policy) accept = some idx →
      (respond policy event).1 = some idx ∧ last (respond policy event).2 = idx

variable {respond last n q}

theorem ScansFor.served_or_closer (inside : q < n) {policy : σ} {event : ε}
    (scans : ScansFor respond last n q policy event) :
    (respond policy event).1 = some q ∨
      distance n (last (respond policy event).2) q < distance n (last policy) q := by
  obtain ⟨accept, accepted, answered⟩ := scans
  cases found : scan n (last policy) accept with
  | none =>
    have rejected := (scan_eq_none_iff (by omega)).mp found q inside
    rw [accepted] at rejected
    cases rejected
  | some idx =>
    obtain ⟨answer, moved⟩ := answered idx found
    by_cases same : idx = q
    · left
      rw [answer, same]
    · right
      rw [moved]
      exact distance_scan_lt found inside accepted same

theorem Along.of_forall {condition : σ → ε → Prop} : ∀ (events : List ε) (policy : σ),
      (∀ event ∈ events, ∀ policy, condition policy event) →
      Along respond condition policy events
  | [], _, _ => trivial
  | event :: rest, _, holds =>
    ⟨holds event List.mem_cons_self _, Along.of_forall rest _ fun later mem =>
        holds later (List.mem_cons_of_mem event mem)⟩

/-- An event that is a pick scans for `q`, and every other one leaves the cursor
where it is. -/
def Advances (respond : σ → ε → Option Nat × σ) (last : σ → Int) (n q : Nat)
    (isPick : ε → Bool) (policy : σ) (event : ε) : Prop :=
  if isPick event then
    ScansFor respond last n q policy event
  else
    last (respond policy event).2 = last policy

theorem exists_answer_of_advances (inside : q < n) {isPick : ε → Bool} :
    ∀ (events : List ε) (policy : σ),
      Along respond (Advances respond last n q isPick) policy events →
      distance n (last policy) q ≤ events.countP isPick →
      ∃ event, (event, some q) ∈ answers respond policy events
  | [], policy, _, enough => by
      have pos := one_le_distance n (last policy) q
      rw [List.countP_nil] at enough
      omega
  | event :: rest, policy, advances, enough => by
      have later : distance n (last (respond policy event).2) q ≤ rest.countP isPick →
            ∃ found, (found, some q) ∈ answers respond policy (event :: rest) := by
        intro closer
        obtain ⟨found, mem⟩ := exists_answer_of_advances inside rest _ advances.2 closer
        exact ⟨found, List.mem_cons_of_mem _ mem⟩
      have now := advances.1
      rw [Advances] at now
      by_cases pick : isPick event = true
      · rw [if_pos pick] at now
        rw [List.countP_cons_of_pos pick] at enough
        rcases now.served_or_closer inside with served | closer
        · refine ⟨event, ?_⟩
          rw [answers, served]
          exact List.mem_cons_self
        · exact later (by omega)
      · rw [if_neg pick] at now
        rw [List.countP_cons_of_neg pick] at enough
        exact later (by rw [now]; exact enough)

theorem exists_answer_of_scansFor (inside : q < n) {events : List ε} (policy : σ)
    (size : events.length = n)
    (scans : ∀ event ∈ events, ∀ policy, ScansFor respond last n q policy event) :
    ∃ event, (event, some q) ∈ answers respond policy events := by
  apply @exists_answer_of_advances _ _ _ _ _ _ inside (fun _ => true)
  · exact Along.of_forall events policy scans
  · rw [List.countP_true, size]
    exact distance_le (by omega) _ q

/-- The cursor is a slot of the table, or `-1` before the first answer. -/
def CursorInside (n : Nat) (last : Int) : Prop := -1 ≤ last ∧ last < n

end Scans

/-! ## `RR` -/

namespace RR

variable {policy : RR} {procs : Nat → Proc} {n : Nat}

theorem pickNext_of_scan {idx : Nat}
    (found : scan n policy.last (fun idx => (procs idx).isRunnable) = some idx) :
    policy.pickNext procs n = (some idx, { last := idx }) := by
  rw [pickNext, found]

theorem pickNext_of_scan_none
    (exhausted : scan n policy.last (fun idx => (procs idx).isRunnable) = none) :
    policy.pickNext procs n = (none, policy) := by
  rw [pickNext, exhausted]

theorem scansFor {q : Nat} {call : Call} (waiting : (call.procs q).state = .runnable) :
    ScansFor (pickRR n) last n q policy call := by
  refine ⟨fun idx => (call.procs idx).isRunnable, by simp [Proc.isRunnable, waiting], ?_⟩
  intro idx found
  rw [pickRR, pickNext_of_scan found]
  exact ⟨rfl, rfl⟩

theorem pickNext_eq_none_iff (pos : 0 < n) : (policy.pickNext procs n).1 = none ↔
      ∀ idx, idx < n → (procs idx).state ≠ .runnable := by
  cases found : scan n policy.last (fun idx => (procs idx).isRunnable) with
  | none =>
    have idle := (scan_eq_none_iff pos).mp found
    rw [pickNext_of_scan_none found]
    simpa [Proc.isRunnable] using idle
  | some idx =>
    have accepted := scan_accept found
    simp only [pickNext_of_scan found, reduceCtorEq, false_iff]
    intro idle
    exact idle idx (scan_lt pos found) (by simpa [Proc.isRunnable] using accepted)

theorem cursorInside_pickNext (pos : 0 < n) (inside : CursorInside n policy.last) :
    CursorInside n (policy.pickNext procs n).2.last := by
  cases found : scan n policy.last (fun idx => (procs idx).isRunnable) with
  | none =>
    rw [pickNext_of_scan_none found]
    exact inside
  | some idx =>
    have idxInside := scan_lt pos found
    rw [pickNext_of_scan found]
    exact ⟨by simp only; omega, by simp only; omega⟩

end RR

/-! ## `PriorityPreempt` -/

namespace PriorityPreempt

variable {useCounter : Bool} {policy : PriorityPreempt} {procs : Nat → Proc} {n : Nat}
  {gLsRunnableCount : Int}

theorem maybeLs_of_pos (counted : 0 < gLsRunnableCount) :
    maybeLs useCounter gLsRunnableCount = true := by
  cases useCounter with
  | false => rfl
  | true => simpa [maybeLs] using counted

theorem scansFor {q : Nat} {call : Call} (waiting : (call.procs q).state = .runnable)
    (urgent : (call.procs q).priority = .latencySensitive)
    (counted : 0 < call.gLsRunnableCount) :
    ScansFor (pickPreempt useCounter n) last n q policy call := by
  refine ⟨fun idx => (call.procs idx).isRunnableLs,
    by simp [Proc.isRunnableLs, waiting, urgent], ?_⟩
  intro idx found
  simp [pickPreempt, pickNext, firstPass, maybeLs_of_pos counted, found]

theorem pickNext_eq_none_iff (pos : 0 < n) :
    (policy.pickNext useCounter procs n gLsRunnableCount).1 = none ↔
      ∀ idx, idx < n → (procs idx).state ≠ .runnable := by
  cases picked : policy.pickNext useCounter procs n gLsRunnableCount with
  | mk answer policy' =>
    cases answer with
    | none =>
      have idle := (pickNext_none pos picked).2
      simpa [Proc.isRunnable] using idle
    | some idx =>
      obtain ⟨inside, accepted, _⟩ := pickNext_some pos picked
      simp only [reduceCtorEq, false_iff]
      intro idle
      exact idle idx inside (by simpa [Proc.isRunnable] using accepted)

theorem cursorInside_pickNext (pos : 0 < n) (inside : CursorInside n policy.last) :
    CursorInside n (policy.pickNext useCounter procs n gLsRunnableCount).2.last := by
  cases picked : policy.pickNext useCounter procs n gLsRunnableCount with
  | mk answer policy' =>
    cases answer with
    | none =>
      obtain ⟨rfl, _⟩ := pickNext_none pos picked
      exact inside
    | some idx =>
      obtain ⟨idxInside, _, rfl⟩ := pickNext_some pos picked
      exact ⟨by simp only; omega, by simp only; omega⟩

end PriorityPreempt

/-! ## Whole sequences of calls -/

/-- What holds of a policy object with a cursor in every sequence of calls:
the cursor stays inside, the answer is null exactly when nothing is RUNNABLE,
and of `n` consecutive calls that each find `q` waiting one returns `q`. -/
structure BoundedBypass {σ : Type} (pick : σ → Call → Option Nat × σ)
    (last : σ → Int) (n : Nat) (Waits : Nat → Call → Prop) : Prop where
  cursor : ∀ (start : σ) (calls : List Call), CursorInside n (last start) →
    CursorInside n (last (finalPolicy pick start calls))
  null_iff : ∀ (start : σ) (before : List Call) (call : Call), CursorInside n (last start) →
    ((pick (finalPolicy pick start before) call).1 = none ↔
      ∀ idx, idx < n → (call.procs idx).state ≠ .runnable)
  served : ∀ (start : σ) (before window : List Call) (q : Nat),
    CursorInside n (last start) → q < n → window.length = n →
    (∀ call ∈ window, Waits q call) →
    ∃ call, (call, some q) ∈ answers pick (finalPolicy pick start before) window

/-- Bounded bypass of `RR::pick_next` for RUNNABLE slots, and of
`PriorityPreempt::pick_next` for RUNNABLE LatencySensitive slots while the
counter is positive. -/
theorem bounded_bypass (useCounter : Bool) (n : Nat) (positive : 0 < n) :
    BoundedBypass (pickRR n) RR.last n (fun q call => (call.procs q).state = .runnable) ∧
      BoundedBypass (pickPreempt useCounter n) PriorityPreempt.last n (fun q call =>
          (call.procs q).state = .runnable ∧ (call.procs q).priority = .latencySensitive ∧
            0 < call.gLsRunnableCount) := by
  constructor
  · constructor
    · intro start calls inside
      exact finalPolicy_invariant (fun policy : RR => CursorInside n policy.last)
        (fun policy call holds => RR.cursorInside_pickNext positive holds)
        calls start inside
    · intro start before call _
      exact RR.pickNext_eq_none_iff positive
    · intro start before window q _ inside size waiting
      exact exists_answer_of_scansFor inside _ size fun call member policy =>
        RR.scansFor (waiting call member)
  · constructor
    · intro start calls inside
      exact finalPolicy_invariant (fun policy : PriorityPreempt => CursorInside n policy.last)
        (fun policy call holds => PriorityPreempt.cursorInside_pickNext positive holds)
        calls start inside
    · intro start before call _
      exact PriorityPreempt.pickNext_eq_none_iff positive
    · intro start before window q _ inside size waiting
      apply exists_answer_of_scansFor inside _ size
      intro call member policy
      obtain ⟨runnable, urgent, counted⟩ := waiting call member
      exact PriorityPreempt.scansFor runnable urgent counted

theorem bounded_bypass_two : ∃ call, (call, some 1) ∈ answers (pickRR 2) {}
        [⟨fun _ => { state := .runnable }, 0⟩, ⟨fun _ => { state := .runnable }, 0⟩] :=
  (bounded_bypass true 2 (by decide)).1.served {} [] _ 1
    (by constructor <;> decide) (by decide) rfl (by simp)

end Xv6.Sched
