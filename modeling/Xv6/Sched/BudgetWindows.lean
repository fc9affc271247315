import Xv6.Sched.Policy

/-!
# The accounts of the budget window tracker

`BudgetWindowTracker` sees times modulo `2 ^ 32` and recognises a new window by a change of the
window index. The only way to miss a window is to meet the same index again in a later epoch of
the counter.
-/

namespace Xv6.Sched

/-- The window of a true time: its epoch of the tick counter, and its window
index within the epoch. -/
def window (windowTicks time : Nat) : Nat × Nat := (time / 2 ^ 32, time % 2 ^ 32 / windowTicks)

def chargedIn (windowTicks : Nat) (charges : List Nat) (time : Nat) : Nat :=
  (charges.map (window windowTicks)).count (window windowTicks time)

/-- The windows that occur at least `budget` times. -/
def spent (budget : Nat) (windows : List (Nat × Nat)) : Finset (Nat × Nat) :=
  windows.toFinset.filter (fun w => budget ≤ windows.count w)

section Spent

variable {budget : Nat}

theorem mem_spent (pos : 0 < budget) {windows : List (Nat × Nat)} {w : Nat × Nat} :
    w ∈ spent budget windows ↔ budget ≤ windows.count w := by
  simp only [spent, Finset.mem_filter, List.mem_toFinset, and_iff_right_iff_imp]
  intro enough
  exact List.count_pos_iff.mp (by omega)

theorem card_spent_append (pos : 0 < budget) (windows : List (Nat × Nat)) (w : Nat × Nat) :
    (spent budget (windows ++ [w])).card =
      (spent budget windows).card + if windows.count w + 1 = budget then 1 else 0 := by
  have counted : ∀ v, (windows ++ [w]).count v = windows.count v + if w = v then 1 else 0 := by
    intro v
    simp [List.count_append, List.count_singleton]
  by_cases last : windows.count w + 1 = budget
  · have fresh : w ∉ spent budget windows := by
      rw [mem_spent pos]
      omega
    have grown : spent budget (windows ++ [w]) = insert w (spent budget windows) := by
      ext v
      rw [Finset.mem_insert, mem_spent pos, mem_spent pos, counted]
      by_cases same : w = v
      · subst same
        simp [last]
      · simp [same, Ne.symm same]
    rw [grown, Finset.card_insert_of_notMem fresh, if_pos last]
  · have unchanged : spent budget (windows ++ [w]) = spent budget windows := by
      ext v
      rw [mem_spent pos, mem_spent pos, counted]
      by_cases same : w = v
      · subst same
        simp only [↓reduceIte]
        omega
      · simp [same]
    rw [unchanged, if_neg last, add_zero]

end Spent

section Windows

variable {windowTicks : Nat}

theorem window_convex {first middle last : Nat} (lower : first ≤ middle) (upper : middle ≤ last)
    (same : window windowTicks first = window windowTicks last) :
    window windowTicks middle = window windowTicks last := by
  simp only [window, Prod.mk.injEq] at same ⊢
  have restLower : first % 2 ^ 32 ≤ middle % 2 ^ 32 := by omega
  have restUpper : middle % 2 ^ 32 ≤ last % 2 ^ 32 := by omega
  have indexLower := Nat.div_le_div_right (c := windowTicks) restLower
  have indexUpper := Nat.div_le_div_right (c := windowTicks) restUpper
  omega

theorem window_eq_of_index_eq {first last : Nat}
    (pos : 0 < windowTicks) (fits : windowTicks < 2 ^ 31)
    (lower : first ≤ last) (near : last - first ≤ 2 ^ 32 - windowTicks)
    (same : first % 2 ^ 32 / windowTicks = last % 2 ^ 32 / windowTicks) :
    window windowTicks first = window windowTicks last := by
  simp only [window, Prod.mk.injEq]
  refine ⟨?_, same⟩
  have firstRest := Nat.mod_lt (first % 2 ^ 32) pos
  have firstWhole := Nat.div_add_mod (first % 2 ^ 32) windowTicks
  have lastWhole := Nat.div_add_mod (last % 2 ^ 32) windowTicks
  rw [same] at firstWhole
  omega

def Follows (windowTicks : Nat) (current : Option Nat) (time : Nat) : Prop :=
  ∀ before, current = some before → before ≤ time ∧
      (before % 2 ^ 32 / windowTicks = time % 2 ^ 32 / windowTicks →
        window windowTicks before = window windowTicks time)

end Windows

/-! ## One call -/

namespace BudgetWindowTracker

/-- The tracker against the true times of the charges so far; `current` is the
time of the call that last looked at the window. -/
structure Accounts (params : BudgetParams) (tracker : BudgetWindowTracker)
    (charges : List Nat) (current : Option Nat) : Prop where
  fresh : current = none → tracker.haveWindow = false ∧ charges = []
  haveWindow : ∀ time, current = some time → tracker.haveWindow = true
  index : ∀ time, current = some time →
    tracker.lastWindowIndex.toNat = time % 2 ^ 32 / params.windowTicks
  charged : ∀ time, current = some time → tracker.chargedThisWindow =
      min params.budgetTicks (chargedIn params.windowTicks charges time)
  earlier : ∀ time, current = some time → ∀ charge ∈ charges, charge ≤ time
  total : tracker.lsChargedTicksTotal = BitVec.ofNat 64 charges.length
  exhaustions : tracker.budgetExhaustionsTotal = BitVec.ofNat 64
      (spent params.budgetTicks (charges.map (window params.windowTicks))).card

variable {params : BudgetParams} {tracker : BudgetWindowTracker}
  {charges : List Nat} {current : Option Nat} {time : Nat} {now : BitVec 32}

theorem accounts_empty : Accounts params {} [] none where
  fresh _ := ⟨rfl, rfl⟩
  haveWindow _ absurd := nomatch absurd
  index _ absurd := nomatch absurd
  charged _ absurd := nomatch absurd
  earlier _ absurd := nomatch absurd
  total := rfl
  exhaustions := rfl

theorem toNat_index (read : now.toNat = time % 2 ^ 32) :
    (now / BitVec.ofNat 32 params.windowTicks).toNat = time % 2 ^ 32 / params.windowTicks := by
  have fits := params.window_fits
  have width : params.windowTicks % 2 ^ 32 = params.windowTicks := Nat.mod_eq_of_lt (by omega)
  rw [BitVec.toNat_udiv, BitVec.toNat_ofNat, width, read]

theorem Accounts.chargedIn_eq_zero {before : Nat}
    (accounts : Accounts params tracker charges (some before))
    (later : before ≤ time)
    (entered : window params.windowTicks before ≠ window params.windowTicks time) :
    chargedIn params.windowTicks charges time = 0 := by
  rw [chargedIn, List.count_eq_zero]
  intro mem
  obtain ⟨charge, chargeMember, same⟩ := List.mem_map.mp mem
  exact entered (window_convex (accounts.earlier before rfl charge chargeMember) later same)

section

variable (accounts : Accounts params tracker charges current) (read : now.toNat = time % 2 ^ 32)
include accounts read

theorem Accounts.enter (none : chargedIn params.windowTicks charges time = 0)
    (earlier : ∀ charge ∈ charges, charge ≤ time) :
    Accounts params
      { tracker with
        lastWindowIndex := now / BitVec.ofNat 32 params.windowTicks
        haveWindow := true
        chargedThisWindow := 0 }
      charges (some time) where
  fresh absurd := nomatch absurd
  haveWindow _ _ := rfl
  index := by
    rintro _ ⟨⟩
    exact toNat_index read
  charged := by
    rintro _ ⟨⟩
    simp [none]
  earlier := by
    rintro _ ⟨⟩
    exact earlier
  total := accounts.total
  exhaustions := accounts.exhaustions

theorem Accounts.observe (follows : Follows params.windowTicks current time) :
    Accounts params (tracker.observe params now) charges (some time) := by
  cases current with
  | none =>
    obtain ⟨unset, rfl⟩ := accounts.fresh rfl
    simp only [BudgetWindowTracker.observe, unset, Bool.not_false, Bool.true_or, ↓reduceIte]
    exact accounts.enter read (by simp [chargedIn]) (by simp)
  | some before =>
    obtain ⟨later, distinguished⟩ := follows before rfl
    have haveWindow := accounts.haveWindow before rfl
    have index := accounts.index before rfl
    have arrived : ∀ charge ∈ charges, charge ≤ time := fun charge mem =>
      (accounts.earlier before rfl charge mem).trans later
    by_cases moved : now / BitVec.ofNat 32 params.windowTicks = tracker.lastWindowIndex
    · have same : window params.windowTicks before = window params.windowTicks time := by
        apply distinguished
        rw [← index, ← moved, toNat_index read]
      simp only [BudgetWindowTracker.observe, haveWindow, moved, Bool.not_true,
        Bool.false_or, ne_eq, not_true_eq_false, decide_false, Bool.false_eq_true,
        ↓reduceIte]
      refine ⟨nofun, fun _ _ => haveWindow, ?_, ?_, ?_, accounts.total, accounts.exhaustions⟩
      · rintro _ ⟨⟩
        rw [← moved, toNat_index read]
      · rintro _ ⟨⟩
        rw [accounts.charged before rfl, chargedIn, chargedIn, same]
      · rintro _ ⟨⟩
        exact arrived
    · have entered : window params.windowTicks before ≠ window params.windowTicks time := by
        intro same
        apply moved
        apply BitVec.eq_of_toNat_eq
        rw [index, toNat_index read]
        exact (congrArg Prod.snd same).symm
      simp only [BudgetWindowTracker.observe, ne_eq, moved, not_false_eq_true, decide_true,
        Bool.or_true, ↓reduceIte]
      exact accounts.enter read (accounts.chargedIn_eq_zero later entered) arrived

theorem Accounts.budgetAvailable_iff (follows : Follows params.windowTicks current time) :
    (tracker.budgetAvailable params now).1 = true ↔
      chargedIn params.windowTicks charges time < params.budgetTicks := by
  have charged := (accounts.observe read follows).charged time rfl
  simp only [budgetAvailable, decide_eq_true_eq]
  omega

end

theorem Accounts.record (accounts : Accounts params tracker charges (some time)) {charged : Nat}
    {exhaustions : BitVec 64}
    (counted : charged = min params.budgetTicks (chargedIn params.windowTicks charges time + 1))
    (used : exhaustions = tracker.budgetExhaustionsTotal +
        if chargedIn params.windowTicks charges time + 1 = params.budgetTicks then 1 else 0) :
    Accounts params
      { tracker with
        chargedThisWindow := charged
        lsChargedTicksTotal := tracker.lsChargedTicksTotal + 1
        budgetExhaustionsTotal := exhaustions }
      (charges ++ [time]) (some time) where
  fresh absurd := nomatch absurd
  haveWindow _ _ := accounts.haveWindow time rfl
  index := by
    rintro _ ⟨⟩
    exact accounts.index time rfl
  charged := by
    rintro _ ⟨⟩
    simpa [chargedIn, List.count_append] using counted
  earlier := by
    rintro _ ⟨⟩ charge mem
    rcases List.mem_append.mp mem with old | new
    · exact accounts.earlier time rfl charge old
    · exact (List.mem_singleton.mp new).le
  total := by simp [accounts.total, BitVec.ofNat_add]
  exhaustions := by
    rw [List.map_append, List.map_singleton, card_spent_append params.budget_pos,
      BitVec.ofNat_add, ← accounts.exhaustions, used, chargedIn]
    split <;> rfl

theorem Accounts.charge (accounts : Accounts params tracker charges current)
    (read : now.toNat = time % 2 ^ 32)
    (follows : Follows params.windowTicks current time) :
    Accounts params (tracker.charge params now) (charges ++ [time]) (some time) := by
  have observed := accounts.observe read follows
  have charged := observed.charged time rfl
  rw [BudgetWindowTracker.charge]
  dsimp only
  generalize tracker.observe params now = tracker at observed charged ⊢
  by_cases left : tracker.chargedThisWindow < params.budgetTicks
  · rw [if_pos left]
    apply observed.record
    · omega
    · have last : tracker.chargedThisWindow = chargedIn params.windowTicks charges time := by
        omega
      rw [last]
      split
      · rfl
      · exact (BitVec.add_zero _).symm
  · rw [if_neg left]
    apply observed.record
    · omega
    · rw [if_neg (by omega)]
      exact (BitVec.add_zero _).symm

end BudgetWindowTracker

/-! ## Sequences of calls -/

inductive TrackerCall where
  | budgetAvailable (time : Nat)
  | charge (time : Nat)

namespace TrackerCall

def time : TrackerCall → Nat
  | .budgetAvailable time => time
  | .charge time => time

def charged? : TrackerCall → Option Nat
  | .budgetAvailable _ => none
  | .charge time => some time

end TrackerCall

/-- The tracker is given the low 32 bits of the time. -/
def respondTracker (params : BudgetParams) (tracker : BudgetWindowTracker) :
    TrackerCall → Option Bool × BudgetWindowTracker
  | .budgetAvailable time =>
    let (available, tracker) := tracker.budgetAvailable params (BitVec.ofNat 32 time)
    (some available, tracker)
  | .charge time => (none, tracker.charge params (BitVec.ofNat 32 time))

/-- The times do not decrease, and consecutive ones are at most
`2 ^ 32 - windowTicks` apart. -/
def Paced (windowTicks : Nat) (calls : List TrackerCall) : Prop :=
  (calls.map TrackerCall.time).IsChain
    (fun earlier later => earlier ≤ later ∧ later - earlier ≤ 2 ^ 32 - windowTicks)

section Runs

variable {params : BudgetParams}

section

variable {calls : List TrackerCall} {call : TrackerCall}
  (paced : Paced params.windowTicks (calls ++ [call]))
include paced

theorem Paced.before : Paced params.windowTicks calls := by
  rw [Paced, List.map_append] at paced
  exact paced.left_of_append

theorem Paced.follows :
    Follows params.windowTicks (calls.map TrackerCall.time).getLast? call.time := by
  rw [Paced, List.map_append, List.isChain_append] at paced
  intro before last
  obtain ⟨later, near⟩ := paced.2.2 before last call.time (by simp)
  have budget := params.budget_lt_window
  exact ⟨later, window_eq_of_index_eq (by omega) params.window_fits later near⟩

end

theorem accounts_of_paced (calls : List TrackerCall) : Paced params.windowTicks calls →
    (finalPolicy (respondTracker params) {} calls).Accounts params
      (calls.filterMap TrackerCall.charged?) (calls.map TrackerCall.time).getLast? := by
  induction calls using List.reverseRecOn with
  | nil =>
    intro _
    exact BudgetWindowTracker.accounts_empty
  | append_singleton calls call ih =>
    intro paced
    have accounts := ih paced.before
    have follows := paced.follows
    rw [finalPolicy_append, List.filterMap_append, List.map_append, List.map_singleton,
      List.getLast?_concat]
    cases call with
    | budgetAvailable time =>
      rw [show List.filterMap TrackerCall.charged? [.budgetAvailable time] = [] from rfl,
        List.append_nil]
      exact accounts.observe (BitVec.toNat_ofNat time 32) follows
    | charge time =>
      exact accounts.charge (BitVec.toNat_ofNat time 32) follows

/-- A query is answered by the charges of its window, and the two 64-bit totals are the number of
charges and the number of windows whose budget was used up, modulo `2 ^ 64`. -/
theorem budget_window_accounting (params : BudgetParams) (calls : List TrackerCall)
    (paced : Paced params.windowTicks calls) :
    let tracker := finalPolicy (respondTracker params) {} calls
    let charges := calls.filterMap TrackerCall.charged?
    tracker.lsChargedTicksTotal = BitVec.ofNat 64 charges.length ∧
      tracker.budgetExhaustionsTotal = BitVec.ofNat 64
        (spent params.budgetTicks (charges.map (window params.windowTicks))).card ∧
      ∀ time, Paced params.windowTicks (calls ++ [.budgetAvailable time]) →
        ((respondTracker params tracker (.budgetAvailable time)).1 = some true ↔
          chargedIn params.windowTicks charges time < params.budgetTicks) := by
  have accounts := accounts_of_paced calls paced
  refine ⟨accounts.total, accounts.exhaustions, ?_⟩
  intro time next
  have available := accounts.budgetAvailable_iff (BitVec.toNat_ofNat time 32) next.follows
  simpa [respondTracker] using available

theorem paced_replicate (k time : Nat) :
    Paced params.windowTicks (List.replicate k (.charge time)) := by
  rw [Paced, List.map_replicate]
  exact List.isChain_replicate_of_rel k ⟨le_rfl, by omega⟩

/-- `2 ^ 64` charges at one tick: the total is 0 again. -/
theorem ls_charged_ticks_wraps : ∃ (params : BudgetParams) (calls : List TrackerCall),
    Paced params.windowTicks calls ∧ (calls.filterMap TrackerCall.charged?).length = 2 ^ 64 ∧
      (finalPolicy (respondTracker params) {} calls).lsChargedTicksTotal = 0 := by
  have count : ((List.replicate (2 ^ 64) (TrackerCall.charge 0)).filterMap
      TrackerCall.charged?).length = 2 ^ 64 := by
    have charged : TrackerCall.charged? (.charge 0) = some 0 := rfl
    rw [List.filterMap_replicate_of_some charged, List.length_replicate]
  refine ⟨⟨1, 3, by decide, by decide, by decide⟩, _, paced_replicate _ 0, count, ?_⟩
  rw [(accounts_of_paced _ (paced_replicate _ 0)).total, count]
  rfl

theorem budget_window_accounting_at_wrap :
    let calls : List TrackerCall := [.charge (2 ^ 32 - 1), .charge (2 ^ 32), .charge (2 ^ 32 + 1)]
    (finalPolicy
      (respondTracker ⟨1, 3, by decide, by decide, by decide⟩) {} calls).budgetExhaustionsTotal =
        2 := by
  intro calls
  have paced : Paced 3 calls := by
    simp [Paced, calls, TrackerCall.time]
  rw [(budget_window_accounting ⟨1, 3, by decide, by decide, by decide⟩ calls paced).2.1]
  decide

end Runs

end Xv6.Sched
