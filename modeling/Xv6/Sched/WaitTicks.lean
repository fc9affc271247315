import Xv6.Sched.Counter
import Xv6.Sched.Effects

/-!
# Waiting times

The clock and the intervals are followed beside the machine: the number of ticks without a bound,
and for each process the stamps and closings since its slot was allocated. A wait is open from
the stamp to the closing, which is longer than the process is RUNNABLE.
-/

namespace Xv6.Sched

open Function

variable {Hart : Type} {n : Nat} {q : Fin n} {pc : Pc n} {waits : List Nat} {since : Option Nat}

/-! ## Open waits -/

/-- The process has been stamped and its state is not stored, or it has been made RUNNING and
its wait is not closed. -/
def Pc.unsettled : Pc n → Option (Fin n)
  | .markState p _ | .dispatchStored p | .dispatchCounted p => some p
  | _ => none

theorem held_of_unsettled (unsettled : pc.unsettled = some q) : pc.held = some q := by
  cases pc <;> simp_all [Pc.unsettled, Pc.held]

namespace Machine

def Waits (m : Machine Hart n) (q : Fin n) : Prop :=
  (m.slot q).proc.state = .runnable ∨ ∃ h, (m.cpu h).pc.unsettled = some q

/-- A hart other than `h` is between the stores. -/
def Elsewhere (m : Machine Hart n) (h : Hart) (q : Fin n) : Prop :=
  ∃ other, other ≠ h ∧ (m.cpu other).pc.unsettled = some q

theorem waits_iff (m : Machine Hart n) (h : Hart) (q : Fin n) :
    m.Waits q ↔ ((m.slot q).proc.state = .runnable ∨ (m.cpu h).pc.unsettled = some q) ∨
      m.Elsewhere h q := by
  constructor
  · rintro (runnable | ⟨other, unsettled⟩)
    · exact .inl (.inl runnable)
    · by_cases same : other = h
      · subst same
        exact .inl (.inr unsettled)
      · exact .inr ⟨other, same, unsettled⟩
  · rintro ((runnable | unsettled) | ⟨other, -, unsettled⟩)
    · exact .inl runnable
    · exact .inr ⟨h, unsettled⟩
    · exact .inr ⟨other, unsettled⟩

theorem not_elsewhere {m : Machine Hart n} {h : Hart} (inv : Inv m)
    (held : (m.cpu h).pc.held = some q) : ¬m.Elsewhere h q := by
  rintro ⟨other, apart, unsettled⟩
  exact apart (inv.held_unique (held_of_unsettled unsettled) held)

end Machine

section Step

variable {m m' : Machine Hart n} {h : Hart} {p : Fin n} {cpu : Cpu n} {slot : Slot Hart n}

theorem elsewhere_of_update [DecidableEq Hart] (cpus : m'.cpu = update m.cpu h cpu)
    (q : Fin n) : m'.Elsewhere h q ↔ m.Elsewhere h q := by
  have same : ∀ other, other ≠ h → m'.cpu other = m.cpu other := by
    intro other apart
    rw [cpus, update_of_ne apart]
  constructor
  · rintro ⟨other, apart, unsettled⟩
    exact ⟨other, apart, by rw [← same other apart]; exact unsettled⟩
  · rintro ⟨other, apart, unsettled⟩
    exact ⟨other, apart, by rw [same other apart]; exact unsettled⟩

section Move

variable [DecidableEq Hart] (cpus : m'.cpu = update m.cpu h cpu)
  (slots : m'.slot = update m.slot p slot)

include cpus slots

theorem waits_of_move_ne (before : ∀ q, (m.cpu h).pc.unsettled = some q → q = p)
    (after : ∀ q, cpu.pc.unsettled = some q → q = p) (apart : q ≠ p) :
    m'.Waits q ↔ m.Waits q := by
  rw [m'.waits_iff h, m.waits_iff h, elsewhere_of_update cpus, cpus, slots,
    update_self, update_of_ne apart]
  refine or_congr_left (or_congr_right ⟨fun unsettled => ?_, fun unsettled => ?_⟩)
  · exact absurd (after q unsettled) apart
  · exact absurd (before q unsettled) apart

theorem waits_of_move_self : m'.Waits p ↔
    (slot.proc.state = .runnable ∨ cpu.pc.unsettled = some p) ∨ m.Elsewhere h p := by
  rw [m'.waits_iff h, elsewhere_of_update cpus, cpus, slots, update_self, update_self]

theorem waits_of_move (before : ∀ q, (m.cpu h).pc.unsettled = some q → q = p)
    (after : ∀ q, cpu.pc.unsettled = some q → q = p)
    (here : (slot.proc.state = .runnable ∨ cpu.pc.unsettled = some p) ↔
      ((m.slot p).proc.state = .runnable ∨ (m.cpu h).pc.unsettled = some p)) (q : Fin n) :
    m'.Waits q ↔ m.Waits q := by
  by_cases same : q = p
  · subst same
    rw [waits_of_move_self cpus slots, m.waits_iff h]
    exact or_congr_left here
  · exact waits_of_move_ne cpus slots before after same

end Move

/-- The places after the steps that open a wait, close one, or begin a history. -/
def Pc.Recorded : Pc n → Prop
  | .markState _ _ | .dispatchAccounted _ | .allocated _ => True
  | _ => False

/-- A step that is none of these, and not one of the clock. -/
structure Silent (m m' : Machine Hart n) : Prop where
  ticks : m'.ticks = m.ticks
  stays : ∀ h, (m'.cpu h).pc.Recorded → (m'.cpu h).pc = (m.cpu h).pc

theorem Silent.not_go [DecidableEq Hart] (silent : Silent m (m.go h pc p slot))
    (recorded : pc.Recorded) (moved : pc ≠ (m.cpu h).pc) : False := by
  have self : (m.go h pc p slot).cpu h = { m.cpu h with pc := pc } := update_self h _ m.cpu
  have stays := silent.stays h
  rw [self] at stays
  exact moved (stays recorded)

variable [DecidableEq Hart]

theorem waits_silent (inv : Inv m) (step : Step m m') (silent : Silent m m') (q : Fin n) :
    m'.Waits q ↔ m.Waits q := by
  cases step
  case clockintr => exact Iff.rfl
  case markTick h p caller at_ | dispatchAccount h p at_ | allocReset h p at_ =>
    exact (silent.not_go trivial (by rw [at_]; nofun)).elim
  -- the state of the slot stays as it is
  case dispatchAcquire h p at_ _ | dispatchSkip h p at_ _ | dispatchCount h p at_
  | markSeq h p _ at_ | markCounter h p _ at_ | yieldAcquire h p at_ _ | sleepAcquire h p _ at_ _
  | sleepChan h p _ at_ | exitAcquire h p at_ _ | wakeupAcquire h p _ at_ _ _
  | wakeupMark h p _ at_ _ | wakeupSkip h p _ at_ _ | killAcquire h p _ at_ _
  | killMark h p _ at_ _ _ | killFlag h p _ at_ _ _ | killSkip h p _ at_ _ | waitAcquire h p at_ _
  | waitSkip h p at_ | allocAcquire h p at_ _ | allocSkip h p at_ _ | forkRelease h _ p at_
  | forkAcquire h _ p at_ _ _ | release h p at_ | setpriority h p _ at_ | dispatchSwtch h p at_
  | leave h p at_ =>
    exact waits_of_move rfl rfl (by simp [at_, Pc.unsettled, eq_comm])
      (by simp [Pc.unsettled, eq_comm]) (by simp [at_, Pc.unsettled]) q
  case resume h p at_ =>
    refine waits_of_move rfl rfl (by simp [at_, Pc.unsettled]) (by simp [Pc.unsettled]) ?_ q
    simp only [Slot.release_proc, Slot.setProc_proc, at_, Pc.unsettled]
    split <;> rfl
  case dispatchStore h p at_ runnable =>
    exact waits_of_move rfl rfl (by simp [at_, Pc.unsettled]) (by simp [Pc.unsettled, eq_comm])
      (by simp [at_, Pc.unsettled, runnable]) q
  case markState h p caller at_ =>
    refine waits_of_move rfl rfl (by simp [at_, Pc.unsettled, eq_comm]) ?_ ?_ q
    · cases caller <;> simp [Caller.next, Pc.unsettled]
    · simp [at_, Pc.unsettled]
  case sleepState h p at_ | exitState h p at_ =>
    have running := running_of_runs inv (inv.at_place at_ rfl) (by simp [at_])
    exact waits_of_move rfl rfl (by simp [at_, Pc.unsettled]) (by simp [Pc.unsettled])
      (by simp [at_, Pc.unsettled, running]) q
  case waitReap h p at_ state | allocUse h p at_ state =>
    exact waits_of_move rfl rfl (by simp [at_, Pc.unsettled]) (by simp [Pc.unsettled])
      (by simp [at_, Pc.unsettled, state, freeproc]) q
  case allocFail h p at_ =>
    have used := used_of_allocating inv at_
    have settled : (m.cpu h).pc.unsettled = none := by
      rcases at_ with at_ | at_ <;> (rw [at_]; rfl)
    exact waits_of_move rfl rfl (by simp [settled]) (by simp [Pc.unsettled])
      (by simp only [settled, used]; simp [Pc.unsettled, freeproc]) q

theorem fields_of_silent (step : Step m m') (silent : Silent m m') (q : Fin n) :
    (m'.slot q).proc.waitTicksTotal = (m.slot q).proc.waitTicksTotal ∧
      (m'.slot q).proc.waitTicksMax = (m.slot q).proc.waitTicksMax ∧
      (m'.slot q).proc.schedReadyTick = (m.slot q).proc.schedReadyTick := by
  cases effect_of_step step q with
  | quiet same => exact ⟨same.total, same.max, same.ready⟩
  | account h at_ next proc | stamp h caller at_ next proc | reset h at_ next proc =>
    have stays := silent.stays h (by rw [next]; trivial)
    rw [next, at_] at stays
    cases stays
  | dispatch h at_ before proc | reap h at_ before proc | use h at_ before proc
  | mark h caller at_ proc
  | sleep h at_ proc | exit h at_ proc | fail h at_ proc | setpriority h level current proc =>
    rw [proc]
    exact ⟨rfl, rfl, rfl⟩

omit [DecidableEq Hart] in
theorem not_waits_of_markTick (inv : Inv m) {caller : Caller}
    (at_ : (m.cpu h).pc = .markTick p caller) : ¬m.Waits p := by
  have held : (m.cpu h).pc.held = some p := by rw [at_]; rfl
  have inside : CallerOn (m.cpu h) p (m.slot p) caller :=
    CallerOn.congr (inv.at_place at_ rfl) rfl rfl rfl
  rw [m.waits_iff h, at_]
  rintro ((runnable | unsettled) | elsewhere)
  · exact state_ne_runnable_of_callerOn inv inside (by simp [at_]) runnable
  · cases unsettled
  · exact Machine.not_elsewhere inv held elsewhere

theorem not_waits_dispatchAccount (inv : Inv m) (at_ : (m.cpu h).pc = .dispatchCounted p)
    (state : slot.proc.state = (m.slot p).proc.state) :
    ¬(m.go h (.dispatchAccounted p) p slot).Waits p := by
  have held : (m.cpu h).pc.held = some p := by rw [at_]; rfl
  obtain ⟨-, running, -⟩ := inv.at_place at_ rfl
  rw [waits_of_move_self rfl rfl, state, running]
  rintro ((runnable | unsettled) | elsewhere)
  · cases runnable
  · cases unsettled
  · exact Machine.not_elsewhere inv held elsewhere

theorem not_waits_allocReset (inv : Inv m) (at_ : (m.cpu h).pc = .allocUsed p)
    (state : slot.proc.state = (m.slot p).proc.state) :
    ¬(m.go h (.allocated p) p slot).Waits p := by
  have held : (m.cpu h).pc.held = some p := by rw [at_]; rfl
  rw [waits_of_move_self rfl rfl, state, used_of_allocating inv (.inl at_)]
  rintro ((runnable | unsettled) | elsewhere)
  · cases runnable
  · cases unsettled
  · exact Machine.not_elsewhere inv held elsewhere

end Step

/-! ## Histories -/

/-- A stamp of `mark_runnable` or a closing of `dispatch`, with the number of ticks. -/
inductive Event where
  | ready (time : Nat)
  | dispatched (time : Nat)
  deriving DecidableEq, Repr

/-- Stamps and closings alternate, the latest first; the lengths of the closed waits, and the
stamp of the open one. -/
inductive History : List Event → List Nat → Option Nat → Prop
  | start : History [] [] none
  | ready {events : List Event} {waits : List Nat} (time : Nat)
      (before : History events waits none) :
      History (.ready time :: events) waits (some time)
  | dispatched {events : List Event} {waits : List Nat} {since : Nat} (time : Nat)
      (before : History events waits (some since)) (later : since ≤ time) :
      History (.dispatched time :: events) ((time - since) :: waits) none

/-- The machine, the number of ticks since boot, and the history of each slot since its
`allocproc`. -/
structure Clocked (Hart : Type) (n : Nat) where
  machine : Machine Hart n
  time : Nat
  log : Fin n → List Event

namespace Clocked

def record (c : Clocked Hart n) (p : Fin n) (event : Event) (m' : Machine Hart n) :
    Clocked Hart n :=
  { c with machine := m', log := update c.log p (event :: c.log p) }

/-- `userinit` has made the first process RUNNABLE. -/
def boot (p : Fin n) : Clocked Hart n where
  machine := Machine.boot p
  time := 0
  log := update (fun _ => []) p [.ready 0]

variable [DecidableEq Hart]

inductive ClockedStep (c : Clocked Hart n) : Clocked Hart n → Prop
  | clockintr :
      ClockedStep c
        { c with
          machine := { c.machine with ticks := c.machine.ticks + 1 }
          time := c.time + 1 }
  | markTick (h : Hart) (p : Fin n) (caller : Caller)
      (at_ : (c.machine.cpu h).pc = .markTick p caller) :
      ClockedStep c (c.record p (.ready c.time) (c.machine.go h (.markState p caller) p
          ((c.machine.slot p).setProc ({ · with schedReadyTick := c.machine.ticks.setWidth 64 }))))
  | dispatchAccount (h : Hart) (next : Fin n)
      (at_ : (c.machine.cpu h).pc = .dispatchCounted next) :
      ClockedStep c (c.record next (.dispatched c.time)
        (c.machine.go h (.dispatchAccounted next) next
          ((c.machine.slot next).setProc (closeWait c.machine.ticks))))
  | allocReset (h : Hart) (p : Fin n)
      (at_ : (c.machine.cpu h).pc = .allocUsed p) :
      ClockedStep c
        { c with
          machine := c.machine.go h (.allocated p) p
            { (c.machine.slot p).setProc
                ({ · with priority := .normal, waitTicksTotal := 0, waitTicksMax := 0 }) with
              resume := .forkret }
          log := update c.log p [] }
  | other {m' : Machine Hart n} (step : Step c.machine m') (silent : Silent c.machine m') :
      ClockedStep c { c with machine := m' }

theorem ClockedStep.base {c c' : Clocked Hart n} (step : ClockedStep c c') :
    Step c.machine c'.machine := by
  cases step with
  | clockintr => exact .clockintr
  | markTick h p caller at_ => exact .markTick h p caller at_
  | dispatchAccount h next at_ => exact .dispatchAccount h next at_
  | allocReset h p at_ => exact .allocReset h p at_
  | other step silent => exact step

/-! ## Exactness -/

structure Accounts (c : Clocked Hart n) (q : Fin n) (waits : List Nat) (since : Option Nat) :
    Prop where
  history : History (c.log q) waits since
  total : (c.machine.slot q).proc.waitTicksTotal = BitVec.ofNat 64 waits.sum
  longest : (c.machine.slot q).proc.waitTicksMax = BitVec.ofNat 64 (waits.foldr max 0)
  brief : ∀ wait ∈ waits, wait < 2 ^ 32
  open_iff : since ≠ none ↔ c.machine.Waits q
  stamp : ∀ time, since = some time → time ≤ c.time ∧
    (c.machine.slot q).proc.schedReadyTick = (BitVec.ofNat 32 time).setWidth 64

def Brief (c : Clocked Hart n) : Prop :=
  ∀ q waits since, History (c.log q) waits (some since) → c.time - since < 2 ^ 32

structure Accounted (c : Clocked Hart n) : Prop where
  ticks : c.machine.ticks = BitVec.ofNat 32 c.time
  slots : ∀ q, ∃ waits since, c.Accounts q waits since

omit [DecidableEq Hart] in
theorem Accounts.congr {c c' : Clocked Hart n} (accounts : c.Accounts q waits since)
    (log : c'.log q = c.log q) (time : c.time ≤ c'.time)
    (total : (c'.machine.slot q).proc.waitTicksTotal = (c.machine.slot q).proc.waitTicksTotal)
    (longest : (c'.machine.slot q).proc.waitTicksMax = (c.machine.slot q).proc.waitTicksMax)
    (ready : (c'.machine.slot q).proc.schedReadyTick = (c.machine.slot q).proc.schedReadyTick)
    (waits_iff : c'.machine.Waits q ↔ c.machine.Waits q) : c'.Accounts q waits since where
  history := by rw [log]; exact accounts.history
  total := total.trans accounts.total
  longest := longest.trans accounts.longest
  brief := accounts.brief
  open_iff := accounts.open_iff.trans waits_iff.symm
  stamp := fun stamped same =>
    ⟨(accounts.stamp stamped same).1.trans time, ready.trans (accounts.stamp stamped same).2⟩

theorem wait_eq {since time : Nat} (later : since ≤ time) (brief : time - since < 2 ^ 32) :
    (BitVec.ofNat 32 time - ((BitVec.ofNat 32 since).setWidth 64).setWidth 32).setWidth 64 =
      BitVec.ofNat 64 (time - since) := by
  apply BitVec.eq_of_toNat_eq
  simp only [BitVec.toNat_setWidth, BitVec.toNat_sub, BitVec.toNat_ofNat]
  omega

theorem max_eq {wait longest : Nat} (brief : wait < 2 ^ 32) (brief' : longest < 2 ^ 32) :
    (if BitVec.ofNat 64 wait > BitVec.ofNat 64 longest then BitVec.ofNat 64 wait
      else BitVec.ofNat 64 longest) = BitVec.ofNat 64 (max wait longest) := by
  have less : BitVec.ofNat 64 wait > BitVec.ofNat 64 longest ↔ longest < wait := by
    rw [gt_iff_lt, BitVec.lt_def, BitVec.toNat_ofNat, BitVec.toNat_ofNat]
    omega
  by_cases longer : longest < wait
  · rw [if_pos (less.mpr longer), max_eq_left longer.le]
  · rw [if_neg fun gt => longer (less.mp gt), max_eq_right (by omega)]

theorem foldr_max_lt (brief : ∀ wait ∈ waits, wait < 2 ^ 32) : waits.foldr max 0 < 2 ^ 32 := by
  induction waits with
  | nil => decide
  | cons wait rest ih =>
    exact max_lt (brief wait List.mem_cons_self)
      (ih fun w mem => brief w (List.mem_cons_of_mem _ mem))

omit [DecidableEq Hart] in
theorem Accounts.close {c : Clocked Hart n} {since : Nat}
    (accounts : c.Accounts q waits (some since)) (ticks : c.machine.ticks = BitVec.ofNat 32 c.time)
    (brief : c.time - since < 2 ^ 32) :
    let closed := closeWait c.machine.ticks (c.machine.slot q).proc
    History (.dispatched c.time :: c.log q) ((c.time - since) :: waits) none ∧
      closed.waitTicksTotal = BitVec.ofNat 64 ((c.time - since) :: waits).sum ∧
      closed.waitTicksMax = BitVec.ofNat 64 (((c.time - since) :: waits).foldr max 0) := by
  obtain ⟨later, ready⟩ := accounts.stamp since rfl
  have wait := wait_eq later brief
  refine ⟨.dispatched c.time accounts.history later, ?_, ?_⟩
  · simp only [closeWait, ticks, ready, wait, accounts.total, List.sum_cons]
    rw [← BitVec.ofNat_add, Nat.add_comm]
  · simp only [closeWait, ticks, ready, wait, accounts.longest, List.foldr_cons]
    exact max_eq brief (foldr_max_lt accounts.brief)

variable {c c' : Clocked Hart n}

omit [DecidableEq Hart] in
theorem record_log_self (c : Clocked Hart n) (p : Fin n) (event : Event) (m' : Machine Hart n) :
    (c.record p event m').log p = event :: c.log p := by
  simp only [record, update_self]

omit [DecidableEq Hart] in
theorem record_log_of_ne (c : Clocked Hart n) {p : Fin n} (apart : q ≠ p) (event : Event)
    (m' : Machine Hart n) : (c.record p event m').log q = c.log q := by
  simp only [record, update_of_ne apart]

theorem Accounts.elsewhere {q p : Fin n} {waits : List Nat} {since : Option Nat}
    (accounts : c.Accounts q waits since) (apart : q ≠ p) {h : Hart} {pc : Pc n}
    {slot : Slot Hart n} (machine : c'.machine = c.machine.go h pc p slot)
    (log : c'.log q = c.log q) (time : c'.time = c.time)
    (before : ∀ r, (c.machine.cpu h).pc.unsettled = some r → r = p)
    (after : ∀ r, pc.unsettled = some r → r = p) : c'.Accounts q waits since := by
  have same : c'.machine.slot q = c.machine.slot q := by
    rw [machine]
    exact update_of_ne apart slot c.machine.slot
  refine accounts.congr log time.ge (by rw [same]) (by rw [same]) (by rw [same]) ?_
  rw [machine]
  exact waits_of_move_ne rfl rfl before after apart

theorem Accounts.here {p : Fin n} {h : Hart}
    {slot : Slot Hart n} (machine : c'.machine = c.machine.go h pc p slot)
    (history : History (c'.log p) waits since)
    (total : slot.proc.waitTicksTotal = BitVec.ofNat 64 waits.sum)
    (longest : slot.proc.waitTicksMax = BitVec.ofNat 64 (waits.foldr max 0))
    (brief : ∀ wait ∈ waits, wait < 2 ^ 32)
    (open_iff : since ≠ none ↔ (c.machine.go h pc p slot).Waits p)
    (stamp : ∀ time, since = some time → time ≤ c'.time ∧
      slot.proc.schedReadyTick = (BitVec.ofNat 32 time).setWidth 64) :
    c'.Accounts p waits since := by
  have same : c'.machine.slot p = slot := by
    rw [machine]
    exact update_self p slot c.machine.slot
  refine ⟨history, ?_, ?_, brief, ?_, ?_⟩
  · rw [same, total]
  · rw [same, longest]
  · rw [machine]
    exact open_iff
  · rw [same]
    exact stamp

theorem accounted_step (inv : Inv c.machine) (brief : c.Brief) (accounted : c.Accounted)
    (step : ClockedStep c c') : c'.Accounted := by
  cases step with
  | clockintr =>
    refine ⟨?_, fun q => ?_⟩
    · rw [accounted.ticks, BitVec.ofNat_add]
      rfl
    · obtain ⟨waits, since, accounts⟩ := accounted.slots q
      exact ⟨waits, since, accounts.congr rfl (Nat.le_succ _) rfl rfl rfl Iff.rfl⟩
  | markTick h p caller at_ =>
    refine ⟨accounted.ticks, fun q => ?_⟩
    obtain ⟨waits, since, accounts⟩ := accounted.slots q
    by_cases same : q = p
    · subst same
      have closed : since = none := by
        by_contra opened
        exact not_waits_of_markTick inv at_ (accounts.open_iff.mp opened)
      subst closed
      refine ⟨waits, some c.time, .here rfl ?_ accounts.total accounts.longest accounts.brief ?_ ?_⟩
      · rw [record_log_self]
        exact .ready c.time accounts.history
      · rw [waits_of_move_self rfl rfl]
        exact iff_of_true nofun (.inl (.inr rfl))
      · rintro time ⟨⟩
        exact ⟨le_rfl, congrArg (BitVec.setWidth 64) accounted.ticks⟩
    · exact ⟨waits, since, accounts.elsewhere same rfl (record_log_of_ne c same _ _) rfl
        (by simp [at_, Pc.unsettled]) (by simp [Pc.unsettled, eq_comm])⟩
  | dispatchAccount h p at_ =>
    refine ⟨accounted.ticks, fun q => ?_⟩
    obtain ⟨waits, since, accounts⟩ := accounted.slots q
    by_cases same : q = p
    · subst same
      have waiting : c.machine.Waits q := .inr ⟨h, by rw [at_]; rfl⟩
      obtain ⟨start, rfl⟩ := Option.ne_none_iff_exists'.mp (accounts.open_iff.mpr waiting)
      have short := brief q waits start accounts.history
      obtain ⟨history, total, longest⟩ := accounts.close accounted.ticks short
      refine ⟨_, none, .here rfl ?_ total longest ?_ ?_ nofun⟩
      · rw [record_log_self]
        exact history
      · intro wait mem
        rcases List.mem_cons.mp mem with rfl | earlier
        · exact short
        · exact accounts.brief wait earlier
      · exact iff_of_false (fun some => some rfl) (not_waits_dispatchAccount inv at_ rfl)
    · exact ⟨waits, since, accounts.elsewhere same rfl (record_log_of_ne c same _ _) rfl
        (by simp [at_, Pc.unsettled, eq_comm]) (by simp [Pc.unsettled])⟩
  | allocReset h p at_ =>
    refine ⟨accounted.ticks, fun q => ?_⟩
    obtain ⟨waits, since, accounts⟩ := accounted.slots q
    by_cases same : q = p
    · subst same
      refine ⟨[], none, .here rfl ?_ rfl rfl nofun ?_ nofun⟩
      · simp only [update_self]
        exact .start
      · exact iff_of_false (fun some => some rfl) (not_waits_allocReset inv at_ rfl)
    · exact ⟨waits, since, accounts.elsewhere same rfl (update_of_ne same _ c.log) rfl
        (by simp [at_, Pc.unsettled]) (by simp [Pc.unsettled])⟩
  | other step silent =>
    refine ⟨silent.ticks.trans accounted.ticks, fun q => ?_⟩
    obtain ⟨waits, since, accounts⟩ := accounted.slots q
    obtain ⟨total, longest, ready⟩ := fields_of_silent step silent q
    exact ⟨waits, since, accounts.congr rfl le_rfl total longest ready
      (waits_silent inv step silent q)⟩

omit [DecidableEq Hart] in
theorem accounted_boot (p : Fin n) : (boot p : Clocked Hart n).Accounted where
  ticks := rfl
  slots := by
    intro q
    by_cases same : q = p
    · subst same
      refine ⟨[], some 0, ?_, ?_, ?_, by simp, ?_, ?_⟩
      · simp only [boot, update_self]
        exact .ready 0 .start
      · simp [boot, Machine.boot]
      · simp [boot, Machine.boot]
      · refine iff_of_true (by simp) (.inl ?_)
        simp [boot, Machine.boot]
      · rintro time ⟨⟩
        simp [boot, Machine.boot]
    · refine ⟨[], none, ?_, ?_, ?_, by simp, ?_, by simp⟩
      · simp only [boot, update_of_ne same]
        exact .start
      · simp [boot, Machine.boot, same]
      · simp [boot, Machine.boot, same]
      · refine iff_of_false (fun some => some rfl) ?_
        rintro (runnable | ⟨h, unsettled⟩)
        · simp [boot, Machine.boot, same] at runnable
        · cases unsettled

def Reachable (c : Clocked Hart n) : Prop :=
  ∃ p, Relation.ReflTransGen (fun c c' => c.Brief ∧ ClockedStep c c') (boot p) c

theorem Reachable.machine (reach : c.Reachable) : Sched.Reachable c.machine := by
  obtain ⟨p, run⟩ := reach
  refine ⟨p, ?_⟩
  induction run with
  | refl => exact .refl
  | tail _ step ih => exact ih.tail step.2.base

theorem accounted_of_reachable (reach : c.Reachable) : c.Accounted := by
  obtain ⟨p, run⟩ := reach
  induction run with
  | refl => exact accounted_boot p
  | tail before step ih =>
    have inv := inv_of_reachable (Reachable.machine ⟨p, before⟩)
    exact accounted_step inv step.1 ih step.2

end Clocked

/-! ## `sys_sched_stats` -/

/-- `out[1]`, `out[2]` and `out[3]` of `sys_sched_stats`. -/
structure SchedStats where
  waitTicksTotal : BitVec 64
  waitTicksMax : BitVec 64
  openWaitTicks : BitVec 64
  deriving DecidableEq, Repr

/-- One round of the loop of `sys_sched_stats`, with the lock of the slot. -/
def schedStats (m : Machine Hart n) (pid : Int) (q : Fin n) : Option SchedStats :=
  let p := (m.slot q).proc
  if p.pid = pid ∧ p.state ≠ .unused then
    some
      { waitTicksTotal := p.waitTicksTotal
        waitTicksMax := p.waitTicksMax
        openWaitTicks :=
          if p.state = .runnable then
            (m.ticks - p.schedReadyTick.setWidth 32).setWidth 64
          else 0 }
  else none

namespace Clocked

variable [DecidableEq Hart] {c : Clocked Hart n}

theorem waits_iff_of_unlocked (reach : c.Reachable)
    (unlocked : (c.machine.slot q).lock = none) :
    c.machine.Waits q ↔ (c.machine.slot q).proc.state = .runnable := by
  refine ⟨fun waits => waits.resolve_right ?_, .inl⟩
  rintro ⟨h, unsettled⟩
  have locked := ((inv_of_reachable reach.machine).lock_iff h q).mpr
    (held_of_unsettled unsettled)
  rw [unlocked] at locked
  cases locked

/-- Stamps and closings of a process alternate, its totals are the sum and the maximum of the
closed waits, with the sum in 64 bits, and `sys_sched_stats` adds the length of the open one. -/
theorem wait_ticks_exact (c : Clocked Hart n) (reachable : c.Reachable) (q : Fin n) :
    ∃ waits since, History (c.log q) waits since ∧
      (c.machine.slot q).proc.waitTicksTotal.toNat = waits.sum % 2 ^ 64 ∧
      (c.machine.slot q).proc.waitTicksMax.toNat = waits.foldr max 0 ∧
      ∀ pid stats, c.Brief → (c.machine.slot q).lock = none →
        schedStats c.machine pid q = some stats →
        stats.waitTicksTotal = (c.machine.slot q).proc.waitTicksTotal ∧
        stats.waitTicksMax = (c.machine.slot q).proc.waitTicksMax ∧
        ((c.machine.slot q).proc.state = .runnable → ∃ start, since = some start ∧ start ≤ c.time ∧
            stats.openWaitTicks.toNat = c.time - start) ∧
        ((c.machine.slot q).proc.state ≠ .runnable → since = none ∧ stats.openWaitTicks = 0) := by
  have accounted := accounted_of_reachable reachable
  obtain ⟨waits, since, accounts⟩ := accounted.slots q
  refine ⟨waits, since, accounts.history, ?_, ?_, ?_⟩
  · rw [accounts.total, BitVec.toNat_ofNat]
  · rw [accounts.longest, BitVec.toNat_ofNat]
    have short := foldr_max_lt accounts.brief
    exact Nat.mod_eq_of_lt (by omega)
  · intro pid stats brief unlocked read
    have opened := accounts.open_iff.trans (waits_iff_of_unlocked reachable unlocked)
    rw [schedStats] at read
    split at read
    · cases read
      refine ⟨rfl, rfl, fun runnable => ?_, fun other => ?_⟩
      · obtain ⟨start, rfl⟩ := Option.ne_none_iff_exists'.mp (opened.mpr runnable)
        obtain ⟨later, ready⟩ := accounts.stamp start rfl
        have short := brief q waits start accounts.history
        refine ⟨start, rfl, later, ?_⟩
        simp only [runnable, if_true, accounted.ticks, ready, wait_eq later short]
        exact Nat.mod_eq_of_lt (by omega)
      · refine ⟨?_, if_neg other⟩
        by_contra some
        exact other (opened.mp some)
    · cases read

/-! ## A sum that does not fit in 64 bits -/

section Overflow

variable {c : Clocked Unit 1} {events : List Event} {start : Nat}

theorem brief_of_ready (log : c.log 0 = .ready start :: events)
    (short : c.time - start < 2 ^ 32) : c.Brief := by
  intro q waits since history
  rw [Subsingleton.elim q 0, log] at history
  cases history
  exact short

theorem brief_of_dispatched (log : c.log 0 = .dispatched start :: events) : c.Brief := by
  intro q waits since history
  rw [Subsingleton.elim q 0, log] at history
  cases history

theorem ClockedStep.locked {m' : Machine Unit 1} (step : Step c.machine m')
    (ticks : m'.ticks = c.machine.ticks := by rfl)
    (plain : ¬(m'.cpu ()).pc.Recorded := by exact id) :
    ClockedStep c { c with machine := m' } :=
  .other step ⟨ticks, fun _ recorded => absurd recorded plain⟩

structure Waiting (c : Clocked Unit 1) (waits : List Nat) : Prop where
  idle : c.machine.cpu () = {}
  unlocked : (c.machine.slot 0).lock = none
  runnable : (c.machine.slot 0).proc.state = .runnable
  log : ∃ events, c.log 0 = .ready c.time :: events ∧ History events waits none

theorem pass (log : c.log 0 = .ready start :: events) (count : Nat)
    (short : c.time + count - start < 2 ^ 32) :
    ∃ c' : Clocked Unit 1, Relation.ReflTransGen (fun c c' => c.Brief ∧ ClockedStep c c') c c' ∧
      c'.time = c.time + count ∧ c'.log = c.log ∧ c'.machine.slot = c.machine.slot ∧
      c'.machine.cpu = c.machine.cpu := by
  induction count with
  | zero => exact ⟨c, .refl, rfl, rfl, rfl, rfl⟩
  | succ count ih =>
    obtain ⟨c', run, time, logs, slots, cpus⟩ := ih (by omega)
    have brief : c'.Brief := brief_of_ready (by rw [logs]; exact log) (by omega)
    exact ⟨_, run.tail ⟨brief, .clockintr⟩, congrArg (· + 1) time, logs, slots, cpus⟩

theorem Waiting.round (waiting : c.Waiting waits) : ∃ c' : Clocked Unit 1,
      Relation.ReflTransGen (fun c c' => c.Brief ∧ ClockedStep c c') c c' ∧
      c'.Waiting ((2 ^ 32 - 1) :: waits) := by
  obtain ⟨events, log, history⟩ := waiting.log
  obtain ⟨d, run, time, logs, slots, cpus⟩ := pass log (2 ^ 32 - 1) (by omega)
  have idle : d.machine.cpu () = {} := by rw [cpus]; exact waiting.idle
  have unlocked : (d.machine.slot 0).lock = none := by rw [slots]; exact waiting.unlocked
  have runnable : (d.machine.slot 0).proc.state = .runnable := by
    rw [slots]
    exact waiting.runnable
  have logD : d.log 0 = .ready c.time :: events := by rw [logs]; exact log
  have brief : d.Brief := brief_of_ready logD (by omega)
  have dispatched := run.tail ⟨brief, .locked (.dispatchAcquire () 0 idle unlocked)⟩
      |>.tail ⟨brief, .locked (.dispatchStore () 0 rfl runnable)⟩
      |>.tail ⟨brief, .locked (.dispatchCount () 0 rfl)⟩
      |>.tail ⟨brief, .dispatchAccount () 0 rfl⟩
  have closed : Brief _ := brief_of_dispatched (record_log_self d 0 (.dispatched d.time) d.machine)
  have yielded := dispatched.tail ⟨closed, .locked (.dispatchSwtch () 0 rfl)⟩
      |>.tail ⟨closed, .locked (.resume () 0 rfl)⟩
      |>.tail ⟨closed, .locked (.yieldAcquire () 0 rfl rfl)⟩
      |>.tail ⟨closed, .locked (.markSeq () 0 .yield rfl)⟩
      |>.tail ⟨closed, .locked (.markCounter () 0 .yield rfl)⟩
      |>.tail ⟨closed, .markTick () 0 .yield rfl⟩
  have opened : Brief _ := brief_of_ready (record_log_self
    (d.record 0 (.dispatched d.time) d.machine) 0 (.ready d.time) d.machine)
    ((Nat.sub_self d.time).trans_lt (by decide))
  refine ⟨_, yielded.tail ⟨opened, .locked (.markState () 0 .yield rfl)⟩
    |>.tail ⟨opened, .locked (.leave () 0 rfl)⟩, rfl, rfl, rfl, ?_⟩
  refine ⟨.dispatched d.time :: d.log 0, rfl, ?_⟩
  rw [logD]
  have wait : d.time - c.time = 2 ^ 32 - 1 := by omega
  rw [← wait]
  exact .dispatched d.time (.ready c.time history) (by omega)

theorem rounds (count : Nat) :
    ∃ (c : Clocked Unit 1) (waits : List Nat), c.Reachable ∧ c.Waiting waits ∧
      waits.sum = count * (2 ^ 32 - 1) := by
  induction count with
  | zero =>
    exact ⟨boot 0, [], ⟨0, .refl⟩, ⟨rfl, rfl, rfl, [], rfl, .start⟩, rfl⟩
  | succ count ih =>
    obtain ⟨c, waits, ⟨p, run⟩, waiting, sum⟩ := ih
    obtain ⟨c', run', waiting'⟩ := waiting.round
    refine ⟨c', _, ⟨p, run.trans run'⟩, waiting', ?_⟩
    rw [List.sum_cons, sum]
    omega

/-- A process that has waited for more than `2 ^ 64` ticks in all. -/
theorem wait_ticks_total_wraps :
    ∃ (c : Clocked Unit 1) (waits : List Nat) (since : Option Nat), c.Reachable ∧ c.Brief ∧
      History (c.log 0) waits since ∧
      (c.machine.slot 0).proc.waitTicksTotal.toNat ≠ waits.sum := by
  obtain ⟨c, waits, reachable, waiting, sum⟩ := rounds (2 ^ 32 + 2)
  obtain ⟨events, log, history⟩ := waiting.log
  refine ⟨c, waits, some c.time, reachable, brief_of_ready log (by omega), ?_, ?_⟩
  · rw [log]
    exact .ready c.time history
  · omega

/-- The only process, after its first wait. -/
theorem wait_ticks_exact_first_wait : ∃ c : Clocked Unit 1, c.Reachable ∧
      ∃ waits since, History (c.log 0) waits since ∧
        (c.machine.slot 0).proc.waitTicksTotal.toNat = waits.sum % 2 ^ 64 := by
  obtain ⟨c, -, reachable, -⟩ := rounds 1
  obtain ⟨waits, since, history, total, -⟩ := wait_ticks_exact c reachable 0
  exact ⟨c, reachable, waits, since, history, total⟩

end Overflow

end Clocked

end Xv6.Sched
