import Xv6.Sched.Policy

/-!
# Rotation among the Normal processes

The two passes of `PriorityPreempt::pick_next` share the cursor `last`. As long as no
LatencySensitive pick carries it past a waiting Normal process `q`, every pick brings it closer
to `q`.
-/

namespace Xv6.Sched

open Xv6.CyclicScan

variable {policy : PriorityPreempt}

section Run

variable {σ : Type} (pick : σ → Call → Option Nat × σ)

def normalAnswer : Call × Option Nat → Option Nat
  | (call, answer) =>
    answer.filter (fun idx => decide ((call.procs idx).priority = .normal))

/-- The Normal slots returned by a sequence of calls, in order. -/
def normalPicks (policy : σ) (calls : List Call) : List Nat :=
  (answers pick policy calls).filterMap normalAnswer

/-- `q` is a Normal process that is RUNNABLE at the call. -/
def WaitsNormal (q : Nat) (call : Call) : Prop :=
  (call.procs q).state = .runnable ∧ (call.procs q).priority = .normal

/-- Among any `n` consecutive Normal picks, one is `q`. -/
def ServedEvery (n q : Nat) (policy : σ) (calls : List Call) : Prop :=
  ∀ window, window <:+: normalPicks pick policy calls → window.length = n → q ∈ window

/-- Round robin among the Normal processes, for every sequence of calls. -/
def NormalRoundRobin (n : Nat) (policy : σ) : Prop :=
  ∀ calls q, q < n → (∀ call ∈ calls, WaitsNormal q call) → ServedEvery pick n q policy calls

theorem normalPicks_cons (policy : σ) (call : Call) (rest : List Call) :
    normalPicks pick policy (call :: rest) = (normalAnswer (call, (pick policy call).1)).toList ++
        normalPicks pick (pick policy call).2 rest := by
  cases found : normalAnswer (call, (pick policy call).1) with
  | none | some idx =>
    simp [normalPicks, answers, found]

end Run

/-- The LatencySensitive pass is run, there is something for it to find, and
all of it lies beyond `q` as seen from the cursor. -/
def PassesOver (useCounter : Bool) (n q : Nat) (last : Int) (call : Call) : Prop :=
  maybeLs useCounter call.gLsRunnableCount = true ∧
    (∃ idx, idx < n ∧ (call.procs idx).isRunnableLs = true) ∧
    ∀ idx, idx < n → (call.procs idx).isRunnableLs = true → distance n last q < distance n last idx

instance (useCounter : Bool) (n q : Nat) (last : Int) (call : Call) :
    Decidable (PassesOver useCounter n q last call) :=
  inferInstanceAs (Decidable (_ ∧ _ ∧ _))

section Unpassed

variable {useCounter : Bool} {n q : Nat}

section

variable (inside : q < n) {policy' : PriorityPreempt} {call : Call} {idx : Nat}
  (waiting : WaitsNormal q call) (unpassed : ¬ PassesOver useCounter n q policy.last call)
  (picked : pickPreempt useCounter n policy call = (some idx, policy'))
include inside waiting unpassed picked

private theorem picked_distance_le :
    distance n policy.last idx ≤ distance n policy.last q := by
  rw [pickPreempt, PriorityPreempt.pickNext] at picked
  split at picked
  · rename_i slot found
    obtain ⟨rfl, rfl⟩ : slot = idx ∧ _ = policy' := by
      simpa using picked
    rw [PriorityPreempt.firstPass] at found
    split at found
    · rename_i pass
      by_contra farther
      apply unpassed
      refine ⟨pass, ⟨slot, scan_lt (by omega) found, scan_accept found⟩, ?_⟩
      intro other otherInside otherWaits
      have nearest := scan_distance_le found otherInside otherWaits
      omega
    · cases found
  · split at picked
    · rename_i slot found
      obtain ⟨rfl, rfl⟩ : slot = idx ∧ _ = policy' := by
        simpa using picked
      exact scan_distance_le found inside (by simp [Proc.isRunnable, waiting.1])
    · cases picked

private theorem distance_decreases (other : idx ≠ q) :
    distance n policy'.last q < distance n policy.last q := by
  obtain ⟨idxInside, _, rfl⟩ := PriorityPreempt.pickNext_some (show 0 < n by omega) picked
  have nearer := picked_distance_le inside waiting unpassed picked
  have covered := distance_move idxInside inside other nearer
  have pos := one_le_distance n policy.last idx
  simp only
  omega

end

/-- Every run of Normal picks without `q` from the start of the sequence is
shorter than the distance from the cursor to `q`. -/
private theorem prefix_length_lt (inside : q < n) :
    ∀ (calls : List Call) (policy : PriorityPreempt) (initial : List Nat),
      (∀ call ∈ calls, WaitsNormal q call) →
      Along (pickPreempt useCounter n)
        (fun policy call => ¬ PassesOver useCounter n q policy.last call)
        policy calls →
      initial <+: normalPicks (pickPreempt useCounter n) policy calls →
      q ∉ initial →
      initial.length < distance n policy.last q
  | [], policy, initial, _, _, shape, _ => by
      have empty : initial = [] := by
        simpa [normalPicks, answers] using shape
      have pos := one_le_distance n policy.last q
      simp only [empty, List.length_nil]
      omega
  | call :: rest, policy, initial, waiting, unpassed, shape, missed => by
      have waitsNow : WaitsNormal q call := waiting call (by simp)
      have waitsLater : ∀ later ∈ rest, WaitsNormal q later :=
        fun later mem => waiting later (List.mem_cons_of_mem call mem)
      obtain ⟨unpassedNow, unpassedLater⟩ := unpassed
      rw [normalPicks_cons] at shape
      cases picked : pickPreempt useCounter n policy call with
      | mk answer policy' =>
        simp only [picked] at shape unpassedLater
        cases answer with
        | none =>
          obtain ⟨_, idle⟩ := PriorityPreempt.pickNext_none (show 0 < n by omega) picked
          have contradiction := idle q inside
          simp [Proc.isRunnable, waitsNow.1] at contradiction
        | some idx =>
          by_cases normal : (call.procs idx).priority = .normal
          · have returned : normalAnswer (call, some idx) = some idx := by
              simp [normalAnswer, normal]
            rw [returned, Option.toList_some, List.singleton_append] at shape
            cases initial with
            | nil =>
              exact one_le_distance n policy.last q
            | cons head tail =>
              obtain ⟨rfl, tailShape⟩ := List.cons_prefix_cons.mp shape
              have tailMissed : q ∉ tail := fun mem => missed (List.mem_cons_of_mem head mem)
              have other : head ≠ q := fun equal => missed (by simp [equal])
              have bound := prefix_length_lt inside rest policy' tail
                  waitsLater unpassedLater tailShape tailMissed
              have closer := distance_decreases inside waitsNow unpassedNow picked other
              simp only [List.length_cons]
              omega
          · have skipped : normalAnswer (call, some idx) = none := by
              simp [normalAnswer, normal]
            rw [skipped, Option.toList_none, List.nil_append] at shape
            have other : idx ≠ q := by
              rintro rfl
              exact normal waitsNow.2
            have bound := prefix_length_lt inside rest policy' initial
                waitsLater unpassedLater shape missed
            have closer := distance_decreases inside waitsNow unpassedNow picked other
            omega

private theorem infix_length_lt (inside : q < n) :
    ∀ (calls : List Call) (policy : PriorityPreempt) (window : List Nat),
      (∀ call ∈ calls, WaitsNormal q call) →
      Along (pickPreempt useCounter n)
        (fun policy call => ¬ PassesOver useCounter n q policy.last call)
        policy calls →
      window <:+: normalPicks (pickPreempt useCounter n) policy calls →
      q ∉ window →
      window.length < n
  | [], policy, window, _, _, shape, _ => by
      have empty : window = [] := by
        simpa [normalPicks, answers] using shape
      simp only [empty, List.length_nil]
      omega
  | call :: rest, policy, window, waiting, unpassed, shape, missed => by
      have later : window <:+: normalPicks (pickPreempt useCounter n)
                (pickPreempt useCounter n policy call).2 rest →
            window.length < n := by
        intro laterShape
        exact infix_length_lt inside rest _ window
          (fun later mem => waiting later (List.mem_cons_of_mem call mem))
          unpassed.2 laterShape missed
      have now : window <+: normalPicks (pickPreempt useCounter n) policy (call :: rest) →
            window.length < n := by
        intro nowShape
        have bound := prefix_length_lt inside (call :: rest) policy window
            waiting unpassed nowShape missed
        have upper := distance_le (show 0 < n by omega) policy.last q
        omega
      have shape' := shape
      rw [normalPicks_cons] at shape'
      cases found : normalAnswer (call, (pickPreempt useCounter n policy call).1) with
      | none =>
        rw [found, Option.toList_none, List.nil_append] at shape'
        exact later shape'
      | some idx =>
        rw [found, Option.toList_some, List.singleton_append] at shape'
        rcases List.infix_cons_iff.mp shape' with atHead | inTail
        · apply now
          rw [normalPicks_cons, found]
          exact atHead
        · exact later inTail

theorem servedEvery_of_unpassed (inside : q < n) {calls : List Call}
    (waiting : ∀ call ∈ calls, WaitsNormal q call)
    (unpassed : Along (pickPreempt useCounter n)
        (fun policy call => ¬ PassesOver useCounter n q policy.last call)
        policy calls) :
    ServedEvery (pickPreempt useCounter n) n q policy calls := by
  intro window shape size
  by_contra missed
  have bound := infix_length_lt inside calls policy window waiting unpassed shape missed
  omega

end Unpassed

/-! ## The delegating policy -/

theorem normalPicks_selectOnly (useCounter : Bool) (n : Nat) :
    ∀ (calls : List Call) (policy : PrioritySelectOnly),
      normalPicks (pickSelectOnly useCounter n) policy calls =
        normalPicks (pickPreempt useCounter n) policy.inner calls
  | [], _ => rfl
  | call :: rest, policy => by
      rw [normalPicks_cons, normalPicks_cons, normalPicks_selectOnly useCounter n rest]
      rfl

theorem along_selectOnly (useCounter : Bool) (n : Nat) (condition : PriorityPreempt → Call → Prop) :
    ∀ (calls : List Call) (policy : PrioritySelectOnly), Along (pickSelectOnly useCounter n)
          (fun policy call => condition policy.inner call) policy calls ↔
        Along (pickPreempt useCounter n) condition policy.inner calls
  | [], _ => Iff.rfl
  | call :: rest, policy => by
      rw [Along, Along, along_selectOnly useCounter n condition rest]
      rfl

/-! ## Round robin among the Normal processes -/

/-- In every sequence of calls in which no LatencySensitive pick carries the
shared cursor past the waiting Normal process `q`, every `n` consecutive
Normal picks contain `q`. -/
theorem normal_roundRobin_of_unpassed
    (useCounter : Bool) (n q : Nat) (inside : q < n) (calls : List Call)
    (waiting : ∀ call ∈ calls, WaitsNormal q call) :
    (∀ policy : PriorityPreempt, Along (pickPreempt useCounter n)
        (fun policy call => ¬ PassesOver useCounter n q policy.last call)
        policy calls →
      ServedEvery (pickPreempt useCounter n) n q policy calls) ∧
    (∀ policy : PrioritySelectOnly, Along (pickSelectOnly useCounter n)
        (fun policy call => ¬ PassesOver useCounter n q policy.inner.last call)
        policy calls →
      ServedEvery (pickSelectOnly useCounter n) n q policy calls) := by
  constructor
  · intro policy unpassed
    exact servedEvery_of_unpassed inside waiting unpassed
  · intro policy unpassed window shape size
    rw [normalPicks_selectOnly] at shape
    have innerUnpassed := (along_selectOnly useCounter n
        (fun policy call => ¬ PassesOver useCounter n q policy.last call)
        calls policy).mp unpassed
    exact servedEvery_of_unpassed inside waiting innerUnpassed window shape size

/-- Three slots: slot 1 is LatencySensitive and RUNNABLE at every other call,
slots 0 and 2 are Normal and always RUNNABLE. -/
def alternatingCall (lsAwake : Bool) : Call where
  procs idx :=
    if idx = 1 then
      { state := if lsAwake then .runnable else .sleeping
        priority := .latencySensitive }
    else
      { state := .runnable }
  gLsRunnableCount := if lsAwake then 1 else 0

def alternatingCalls : List Call := [true, false, true, false, true, false].map alternatingCall

private theorem alternatingCalls_waitsNormal {q : Nat} (apart : q ≠ 1) :
    ∀ call ∈ alternatingCalls, WaitsNormal q call := by
  intro call mem
  obtain ⟨lsAwake, _, rfl⟩ := List.mem_map.mp mem
  simp [WaitsNormal, alternatingCall, apart]

/-- Slot 2 is never passed over in the alternating run, so it is served. -/
theorem normal_roundRobin_alternating : ServedEvery (pickPreempt true 3) 3 2 {} alternatingCalls ∧
      ServedEvery (pickSelectOnly true 3) 3 2 {} alternatingCalls := by
  have served := normal_roundRobin_of_unpassed true 3 2 (by decide) alternatingCalls
      (alternatingCalls_waitsNormal (by decide))
  refine ⟨served.1 {} ?_, served.2 {} ?_⟩
  · simp only [alternatingCalls, List.map, Along]
    decide
  · simp only [alternatingCalls, List.map, Along]
    decide

/-- Slot 0 of the alternating run is passed over by every LatencySensitive
pick: three consecutive Normal picks all return slot 2. -/
theorem normal_roundRobin_fails : ¬ NormalRoundRobin (pickPreempt true 3) 3 {} ∧
      ¬ NormalRoundRobin (pickSelectOnly true 3) 3 {} := by
  constructor
  · intro fair
    have served := fair alternatingCalls 0 (by decide)
        (alternatingCalls_waitsNormal (by decide)) [2, 2, 2] (by decide) rfl
    revert served
    decide
  · intro fair
    have served := fair alternatingCalls 0 (by decide)
        (alternatingCalls_waitsNormal (by decide)) [2, 2, 2] (by decide) rfl
    revert served
    decide

end Xv6.Sched
