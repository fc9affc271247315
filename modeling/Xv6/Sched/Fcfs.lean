import Xv6.Sched.CounterAgreement
import Xv6.Sched.Effects

/-!
# First come, first served

A run is recorded as the list of its calls of `mark_runnable`; as long as the sequence does not
wrap, the stamp of a slot is the number of its last call. `dispatch` asks the policy without a
lock, and until it has the lock of the slot, the other harts go on.
-/

namespace Xv6.Sched.Arrivals

open Function

variable {Hart : Type} {n : Nat} {p q : Fin n} {log : List (Fin n)} {m' : Machine Hart n}

theorem pickNext_eq_argmin (procs : Nat → Proc) (n : Nat) : FCFS.pickNext procs n =
      ((List.range n).filter fun i => (procs i).isRunnable).argmin
        fun i => (procs i).arrivalSeq.toNat := by
  rw [FCFS.pickNext, List.argmin, List.foldl_filter]
  congr 1
  funext candidate i
  cases candidate <;> simp [FCFS.consider, List.argAux, Proc.isRunnable, BitVec.lt_def]

/-! ## Calls of `mark_runnable` -/

/-- The number of the last call for a slot, or `0`. The latest call comes first in the
list. -/
def lastMark (q : Fin n) : List (Fin n) → Nat
  | [] => 0
  | p :: older => if p = q then older.length + 1 else lastMark q older

theorem lastMark_le (q : Fin n) (log : List (Fin n)) : lastMark q log ≤ log.length := by
  induction log with
  | nil => exact le_rfl
  | cons p older ih =>
    rw [lastMark, List.length_cons]
    split <;> omega

theorem lastMark_inj (marked : 0 < lastMark p log)
    (same : lastMark p log = lastMark q log) : p = q := by
  induction log with
  | nil => exact absurd marked (Nat.lt_irrefl 0)
  | cons r older ih =>
    have behindP := lastMark_le p older
    have behindQ := lastMark_le q older
    rw [lastMark] at marked same
    rw [lastMark] at same
    split at same <;> split at same
    · next first second => exact first.symm.trans second
    · omega
    · omega
    · next other _ =>
        rw [if_neg other] at marked
        exact ih marked same

/-- The slot that is being marked, once the stamp has been taken. -/
def marking : Pc n → Option (Fin n)
  | .markCounter p _ | .markTick p _ | .markState p _ => some p
  | _ => none

def Waits (m : Machine Hart n) (q : Fin n) : Prop := (m.slot q).proc.state = .runnable

instance (m : Machine Hart n) (q : Fin n) : Decidable (Waits m q) :=
  inferInstanceAs (Decidable (_ = _))

def arrivals (m : Machine Hart n) (q : Fin n) : BitVec 64 := (m.slot q).proc.arrivalSeq

/-! ## Steps that take no stamp -/

structure Quiet (m m' : Machine Hart n) : Prop where
  stamps : arrivals m' = arrivals m
  places : ∀ h q, marking (m'.cpu h).pc = some q → marking (m.cpu h).pc = some q
  waits : ∀ q, Waits m' q → Waits m q ∨ ∃ h, marking (m.cpu h).pc = some q

section Steps

variable {m : Machine Hart n} {h : Hart} {cpu : Cpu n} {slot : Slot Hart n}

theorem arrivals_update (slots : m'.slot = update m.slot p slot) :
    arrivals m' = update (arrivals m) p slot.proc.arrivalSeq := by
  funext q
  simp only [arrivals, slots, update_apply]
  split <;> rfl

theorem waits_update (slots : m'.slot = update m.slot p slot) (waits : Waits m' q) :
    (q = p ∧ slot.proc.state = .runnable) ∨ Waits m q := by
  rw [Waits, slots, update_apply] at waits
  split at waits
  · next same => exact .inl ⟨same, waits⟩
  · exact .inr waits

variable [DecidableEq Hart]

theorem quiet_of_update (slots : m'.slot = update m.slot p slot)
    (cpus : m'.cpu = update m.cpu h cpu)
    (stamp : slot.proc.arrivalSeq = (m.slot p).proc.arrivalSeq)
    (pc : marking cpu.pc = none ∨ marking cpu.pc = marking (m.cpu h).pc)
    (state : slot.proc.state = .runnable → Waits m p ∨ marking (m.cpu h).pc = some p) :
    Quiet m m' where
  stamps := by
    rw [arrivals_update slots, stamp]
    exact update_eq_self p (arrivals m)
  places := by
    intro h' q after
    rw [cpus, update_apply] at after
    split at after
    · next same =>
        subst same
        rcases pc with none | kept
        · cases none.symm.trans after
        · exact kept.symm.trans after
    · exact after
  waits := by
    intro q waits
    rcases waits_update slots waits with ⟨rfl, runnable⟩ | before
    · exact (state runnable).imp_right fun place => ⟨h, place⟩
    · exact .inl before

theorem quiet_of_step (step : Step m m') (seq : m'.nextSeq = m.nextSeq) : Quiet m m' := by
  cases step
  case clockintr => exact ⟨rfl, fun _ _ same => same, fun _ => .inl⟩
  case markSeq => simp at seq
  case dispatchAcquire | dispatchSkip | dispatchCount | dispatchAccount | dispatchSwtch
  | yieldAcquire | sleepAcquire | sleepChan | exitAcquire | leave | wakeupAcquire | wakeupMark
  | wakeupSkip | killAcquire | killMark | killFlag | killSkip | waitAcquire | waitSkip
  | allocAcquire | allocSkip | allocReset | forkRelease | forkAcquire | release | setpriority =>
    exact quiet_of_update rfl rfl rfl (.inl rfl) .inl
  case dispatchStore | sleepState | exitState | waitReap | allocUse | allocFail =>
    exact quiet_of_update rfl rfl rfl (.inl rfl) nofun
  case markCounter h p caller at_ | markTick h p caller at_ =>
    exact quiet_of_update rfl rfl rfl (.inr (by rw [at_]; rfl)) .inl
  case markState h p caller at_ =>
    exact quiet_of_update rfl rfl rfl (.inl (by cases caller <;> rfl))
      fun _ => .inr (by rw [at_]; rfl)
  case resume h p at_ =>
    refine quiet_of_update rfl rfl ?_ (.inl rfl) fun runnable => .inl ?_
    · split <;> rfl
    · split at runnable <;> exact runnable

end Steps

/-! ## `dispatch` under the policy -/

/-- The harts with the local variable `next` of `dispatch`, from the answer of the policy to
the `acquire`. -/
structure Harts (Hart : Type) (n : Nat) where
  machine : Machine Hart n
  next : Hart → Option (Fin n)

namespace Harts

def boot (p : Fin n) : Harts Hart n where
  machine := Machine.boot p
  next := fun _ => none

variable [DecidableEq Hart]

inductive Next (w : Harts Hart n) : Harts Hart n → Prop
  /-- Everything that `dispatch` does not begin. Interrupts are off on a hart that has an
  answer. -/
  | code {m' : Machine Hart n} (step : Step w.machine m')
      (off : ∀ h, w.next h ≠ none → m'.cpu h = w.machine.cpu h)
      (inside : ∀ h p, (m'.cpu h).pc = .dispatchLocked p →
        (w.machine.cpu h).pc = .dispatchLocked p) :
      Next w { w with machine := m' }
  | pickNext (h : Hart) (next : Fin n) (scheduler : w.machine.cpu h = {})
      (asks : w.next h = none)
      (picked : FCFS.pickNext w.machine.call.procs n = some next.val) :
      Next w { w with next := update w.next h (some next) }
  | acquire (h : Hart) (next : Fin n) (picked : w.next h = some next)
      (scheduler : w.machine.cpu h = {}) (unlocked : (w.machine.slot next).lock = none) :
      Next w
        { machine :=
            w.machine.go h (.dispatchLocked next) next ((w.machine.slot next).acquire h)
          next := update w.next h none }

/-- A call of `mark_runnable` has taken its stamp. -/
def stamp (w : Harts Hart n) (h : Hart) (p : Fin n) (caller : Caller) : Harts Hart n :=
  { w with
    machine :=
      { w.machine.go h (.markCounter p caller) p
          ((w.machine.slot p).setProc ({ · with arrivalSeq := w.machine.nextSeq })) with
        nextSeq := w.machine.nextSeq + 1 } }

/-- The runs from boot with their calls of `mark_runnable`, the first of which is the one of
`userinit`. -/
inductive Trace : List (Fin n) → Harts Hart n → Prop
  | boot (p : Fin n) : Trace [p] (boot p)
  | marks {log : List (Fin n)} {w : Harts Hart n} {h : Hart} {p : Fin n} {caller : Caller}
      (before : Trace log w) (at_ : (w.machine.cpu h).pc = .markSeq p caller)
      (step : Next w (w.stamp h p caller)) : Trace (p :: log) (w.stamp h p caller)
  | other {log : List (Fin n)} {w w' : Harts Hart n} (before : Trace log w) (step : Next w w')
      (seq : w'.machine.nextSeq = w.machine.nextSeq) : Trace log w'

variable {w w' : Harts Hart n}

theorem Next.base (step : Next w w') : w'.machine = w.machine ∨ Step w.machine w'.machine := by
  cases step with
  | code step _ _ => exact .inr step
  | pickNext => exact .inl rfl
  | acquire h next _ scheduler unlocked => exact .inr (.dispatchAcquire h next scheduler unlocked)

theorem Next.quiet (step : Next w w') (seq : w'.machine.nextSeq = w.machine.nextSeq) :
    Quiet w.machine w'.machine := by
  rcases step.base with same | step
  · rw [same]
    exact ⟨rfl, fun _ _ same => same, fun _ => .inl⟩
  · exact quiet_of_step step seq

theorem exists_trace (run : Relation.ReflTransGen Next (boot p) w) : ∃ log, Trace log w := by
  induction run with
  | refl => exact ⟨_, .boot p⟩
  | tail _ step ih =>
    obtain ⟨log, trace⟩ := ih
    cases step with
    | pickNext h next scheduler asks picked =>
      exact ⟨log, trace.other (.pickNext h next scheduler asks picked) rfl⟩
    | acquire h next picked scheduler unlocked =>
      exact ⟨log, trace.other (.acquire h next picked scheduler unlocked) rfl⟩
    | code step off inside =>
      have next := Next.code step off inside
      cases step
      case markSeq h p caller at_ => exact ⟨p :: log, trace.marks at_ next⟩
      all_goals exact ⟨log, trace.other next rfl⟩

end Harts

/-! ## Stamps -/

/-- The stamps are the numbers of the calls, and a RUNNABLE slot has one. -/
structure Stamped (log : List (Fin n)) (m : Machine Hart n) : Prop where
  seq : m.nextSeq = BitVec.ofNat 64 (log.length + 1)
  stamps : ∀ q, arrivals m q = BitVec.ofNat 64 (lastMark q log)
  waits : ∀ q, Waits m q → 0 < lastMark q log
  marks : ∀ h q, marking (m.cpu h).pc = some q → 0 < lastMark q log

section Stamps

variable {m : Machine Hart n}

theorem stamped_boot (p : Fin n) : Stamped [p] (Machine.boot p : Machine Hart n) where
  seq := rfl
  stamps := by
    intro q
    simp only [arrivals, Machine.boot, update_apply, lastMark, eq_comm]
    split <;> rfl
  waits := by
    intro q waits
    simp only [Waits, Machine.boot, update_apply] at waits
    split at waits
    · next same => simp [lastMark, same]
    · cases waits
  marks := nofun

theorem Stamped.quiet (stamped : Stamped log m) (seq : m'.nextSeq = m.nextSeq)
    (quiet : Quiet m m') : Stamped log m' where
  seq := seq.trans stamped.seq
  stamps := fun q => by rw [quiet.stamps, stamped.stamps]
  waits := by
    intro q waits
    rcases quiet.waits q waits with before | ⟨h, place⟩
    · exact stamped.waits q before
    · exact stamped.marks h q place
  marks := fun h q after => stamped.marks h q (quiet.places h q after)

theorem Stamped.stamp [DecidableEq Hart] {w : Harts Hart n} (stamped : Stamped log w.machine)
    (h : Hart) (p : Fin n) (caller : Caller) :
    Stamped (p :: log) (w.stamp h p caller).machine := by
  have later {q : Fin n} (marked : 0 < lastMark q log) : 0 < lastMark q (p :: log) := by
    rw [lastMark]
    split <;> omega
  refine ⟨?_, fun q => ?_, fun q waits => ?_, fun h' q place => ?_⟩
  · simp only [Harts.stamp, stamped.seq, List.length_cons, BitVec.ofNat_add]
    rfl
  · rw [arrivals_update rfl, update_apply, lastMark]
    by_cases here : q = p
    · rw [if_pos here, if_pos here.symm]
      exact stamped.seq
    · rw [if_neg here, if_neg (Ne.symm here), stamped.stamps]
  · rcases waits_update rfl waits with ⟨rfl, _⟩ | before
    · simp [lastMark]
    · exact later (stamped.waits q before)
  · simp only [Harts.stamp, Machine.go, Machine.put, update_apply] at place
    split at place
    · cases place
      simp [lastMark]
    · exact later (stamped.marks h' q place)

theorem Stamped.toNat (stamped : Stamped log m) (few : log.length < 2 ^ 64 - 1) (q : Fin n) :
    (m.slot q).proc.arrivalSeq.toNat = lastMark q log := by
  have stamp : (m.slot q).proc.arrivalSeq = _ := stamped.stamps q
  have small := lastMark_le q log
  rw [stamp, BitVec.toNat_ofNat]
  exact Nat.mod_eq_of_lt (by omega)

/-- The slot whose last call came before those of all other RUNNABLE slots. -/
def First (log : List (Fin n)) (m : Machine Hart n) (q : Fin n) : Prop :=
  Waits m q ∧ ∀ r, Waits m r → r ≠ q → lastMark q log < lastMark r log

theorem First.unique {r : Fin n} (first : First log m q) (other : First log m r) : q = r := by
  by_contra apart
  have before := first.2 r other.1 (Ne.symm apart)
  have after := other.2 q first.1 apart
  omega

theorem Stamped.pickNext_spec (stamped : Stamped log m) (few : log.length < 2 ^ 64 - 1) :
    (∀ q : Fin n, FCFS.pickNext m.call.procs n = some q.val ↔ First log m q) ∧
      (FCFS.pickNext m.call.procs n = none ↔ ∀ q, ¬Waits m q) := by
  have procs (r : Fin n) : m.call.procs r = (m.slot r).proc := dif_pos r.isLt
  have mem (r : Fin n) :
      r.val ∈ (List.range n).filter (fun i => (m.call.procs i).isRunnable) ↔ Waits m r := by
    simp [procs, Proc.isRunnable, Waits]
  cases answer : FCFS.pickNext m.call.procs n with
  | none =>
    rw [pickNext_eq_argmin, List.argmin_eq_none] at answer
    have idle (q : Fin n) : ¬Waits m q := by simp [← mem, answer]
    exact ⟨fun q => ⟨by simp, fun first => absurd first.1 (idle q)⟩, fun _ => idle, fun _ => rfl⟩
  | some best =>
    rw [pickNext_eq_argmin] at answer
    have found := List.argmin_mem answer
    obtain ⟨best, rfl⟩ : ∃ r : Fin n, r.val = best :=
      ⟨⟨best, List.mem_range.mp (List.mem_filter.mp found).1⟩, rfl⟩
    rw [mem] at found
    have first : First log m best := by
      refine ⟨found, fun r waits apart => ?_⟩
      have behind := List.le_of_mem_argmin ((mem r).mpr waits) answer
      simp only [procs, stamped.toNat few] at behind
      refine lt_of_le_of_ne behind fun same => apart ?_
      exact (lastMark_inj (stamped.waits best found) same).symm
    refine ⟨fun q => ⟨fun same => ?_, fun other => ?_⟩, by simp,
      fun idle => absurd found (idle best)⟩
    · obtain rfl : best = q := Fin.ext (Option.some.inj same)
      exact first
    · rw [first.unique other]

end Stamps

/-! ## A single hart -/

section Runs

variable [DecidableEq Hart] {w w' : Harts Hart n}

theorem stamped_of_trace (trace : Harts.Trace log w) : Stamped log w.machine := by
  induction trace with
  | boot p => exact stamped_boot p
  | marks _ _ _ ih => exact ih.stamp _ _ _
  | other _ step seq ih => exact ih.quiet seq (step.quiet seq)

/-- The hart of an answer does nothing else, and the answer stays right until the dispatch. -/
structure Chosen (log : List (Fin n)) (w : Harts Hart n) : Prop where
  off : ∀ h, w.next h ≠ none → w.machine.cpu h = {}
  first : ∀ h p, w.next h = some p ∨ (w.machine.cpu h).pc = .dispatchLocked p →
    ∀ q, Waits w.machine q → q ≠ p → lastMark p log < lastMark q log

variable [Subsingleton Hart]

omit [DecidableEq Hart] in
theorem Quiet.waits_before {m : Machine Hart n} (quiet : Quiet m m') {h : Hart}
    (place : marking (m.cpu h).pc = none) (waits : Waits m' q) : Waits m q := by
  rcases quiet.waits q waits with before | ⟨h', marks⟩
  · exact before
  · rw [Subsingleton.elim h' h, place] at marks
    cases marks

theorem Chosen.other (chosen : Chosen log w) (stamped : Stamped log w.machine)
    (few : log.length < 2 ^ 64 - 1) (step : w.Next w')
    (seq : w'.machine.nextSeq = w.machine.nextSeq) : Chosen log w' := by
  have quiet := step.quiet seq
  cases step with
  | code step off inside =>
    refine ⟨fun h busy => (off h busy).trans (chosen.off h busy), ?_⟩
    intro h p holds q waits apart
    have before : w.next h = some p ∨ (w.machine.cpu h).pc = .dispatchLocked p :=
      holds.imp_right (inside h p)
    have place : marking (w.machine.cpu h).pc = none := by
      rcases before with picked | at_
      · rw [chosen.off h (by simp [picked])]
        rfl
      · rw [at_]
        rfl
    exact chosen.first h p before q (quiet.waits_before place waits) apart
  | pickNext h next scheduler asks picked =>
    refine ⟨fun h' _ => Subsingleton.elim h h' ▸ scheduler, ?_⟩
    intro h' p holds q waits apart
    obtain rfl := Subsingleton.elim h h'
    simp only [update_self, scheduler, Option.some.injEq, reduceCtorEq, or_false] at holds
    subst holds
    exact (((stamped.pickNext_spec few).1 next).mp picked).2 q waits apart
  | acquire h next picked scheduler unlocked =>
    refine ⟨fun h' busy => ?_, ?_⟩
    · rw [Subsingleton.elim h' h] at busy
      exact absurd (update_self h none w.next) busy
    · intro h' p holds q waits apart
      obtain rfl := Subsingleton.elim h h'
      simp only [update_self, Machine.go, Machine.put, reduceCtorEq, Pc.dispatchLocked.injEq,
        false_or] at holds
      subst holds
      have place : marking (w.machine.cpu h).pc = none := by
        rw [scheduler]
        rfl
      exact chosen.first h next (.inl picked) q (quiet.waits_before place waits) apart

theorem Chosen.stamp (chosen : Chosen log w) {h : Hart} {caller : Caller}
    (at_ : (w.machine.cpu h).pc = .markSeq p caller) : Chosen (p :: log) (w.stamp h p caller) := by
  have free (h' : Hart) : w.next h' = none := by
    by_contra busy
    have idle := chosen.off h' busy
    rw [Subsingleton.elim h' h] at idle
    rw [idle] at at_
    cases at_
  refine ⟨fun h' busy => absurd (free h') busy, ?_⟩
  rintro h' q (picked | place)
  · cases (free h').symm.trans picked
  · rw [Subsingleton.elim h' h, Harts.stamp] at place
    simp [Machine.go, Machine.put] at place

theorem chosen_of_trace (trace : Harts.Trace log w) (few : log.length < 2 ^ 64 - 1) :
    Chosen log w := by
  induction trace with
  | boot p => exact ⟨fun _ busy => absurd rfl busy, nofun⟩
  | marks _ at_ _ ih =>
    rw [List.length_cons] at few
    exact (ih (by omega)).stamp at_
  | other before step seq ih =>
    exact (ih few).other (stamped_of_trace before) few step seq

theorem dispatched_first (trace : Harts.Trace log w) (few : log.length < 2 ^ 64 - 1)
    (step : w.Next w') (before : Waits w.machine p)
    (after : (w'.machine.slot p).proc.state = .running) (waits : Waits w.machine q)
    (apart : q ≠ p) : lastMark p log < lastMark q log := by
  rcases step.base with same | step
  · rw [same, before] at after
    cases after
  · cases effect_of_step step p with
    | dispatch h at_ => exact (chosen_of_trace trace few).first h p (.inr at_) q waits apart
    | quiet same => cases before.symm.trans (same.state.symm.trans after)
    | account h at_ next proc | stamp h caller at_ next proc | reset h at_ next proc
    | setpriority h level current proc =>
      rw [proc] at after
      cases before.symm.trans after
    | mark h caller at_ proc | sleep h at_ proc | exit h at_ proc | reap h at_ _ proc
    | use h at_ _ proc | fail h at_ proc =>
      rw [proc] at after
      cases after

end Runs

theorem Harts.Trace.code [DecidableEq Hart] {w : Harts Hart n} (trace : Harts.Trace log w)
    (step : Step w.machine m') (silent : (∀ h, w.next h ≠ none → m'.cpu h = w.machine.cpu h) ∧
      (∀ h p, (m'.cpu h).pc = .dispatchLocked p →
        (w.machine.cpu h).pc = .dispatchLocked p) ∧
      m'.nextSeq = w.machine.nextSeq := by decide +kernel) :
    Harts.Trace log { w with machine := m' } :=
  trace.other (.code step silent.1 silent.2.1) silent.2.2

/-- The waiting processes carry distinct sequence numbers, `pickNext` returns the one marked
RUNNABLE longest ago, and on one hart the process that starts to run was marked before every other
that waits, as long as fewer than `2 ^ 64 - 1` marks were made. -/
theorem fcfs_in_order_of_arrival [DecidableEq Hart] {w : Harts Hart n} {log : List (Fin n)}
    (trace : Harts.Trace log w) (few : log.length < 2 ^ 64 - 1) :
    (∀ p q, Waits w.machine p → Waits w.machine q →
      (w.machine.slot p).proc.arrivalSeq = (w.machine.slot q).proc.arrivalSeq → p = q) ∧
    (∀ q : Fin n, FCFS.pickNext w.machine.call.procs n = some q.val ↔
      Waits w.machine q ∧ ∀ r, Waits w.machine r → r ≠ q → lastMark q log < lastMark r log) ∧
    (FCFS.pickNext w.machine.call.procs n = none ↔ ∀ q, ¬Waits w.machine q) ∧
    (Subsingleton Hart → ∀ w' p q, w.Next w' → Waits w.machine p →
      (w'.machine.slot p).proc.state = .running → Waits w.machine q → q ≠ p →
      lastMark p log < lastMark q log) := by
  have stamped := stamped_of_trace trace
  obtain ⟨answers, null⟩ := stamped.pickNext_spec few
  refine ⟨fun p q waits _ same => ?_, answers, null, ?_⟩
  · refine lastMark_inj (stamped.waits p waits) ?_
    rw [← stamped.toNat few p, ← stamped.toNat few q, same]
  · intro _ w' p q step before after waits different
    exact dispatched_first trace few step before after waits different

/-- The child forked by the first process is dispatched while the first process, which yielded after
the fork, waits behind it. -/
theorem fcfs_child_before_parent :
    ∃ w w' : Harts Unit 2, ∃ log, Harts.Trace log w ∧ w.Next w' ∧ Waits w.machine 1 ∧
      (w'.machine.slot 1).proc.state = .running ∧ Waits w.machine 0 ∧
        lastMark 1 log < lastMark 0 log := by
  have running := (Harts.Trace.boot (0 : Fin 2) : Harts.Trace _ (Harts.boot 0 : Harts Unit 2))
    |>.other (.pickNext () 0 rfl rfl rfl) rfl
    |>.other (.acquire () 0 rfl rfl rfl) rfl
    |>.code (.dispatchStore () 0 rfl rfl)
    |>.code (.dispatchCount () 0 rfl)
    |>.code (.dispatchAccount () 0 rfl)
    |>.code (.dispatchSwtch () 0 rfl)
    |>.code (.resume () 0 rfl)
  have forked := running
    |>.code (.allocAcquire () 1 rfl rfl)
    |>.code (.allocUse () 1 rfl rfl)
    |>.code (.allocReset () 1 rfl)
    |>.code (.forkRelease () 0 1 rfl)
    |>.code (.forkAcquire () 0 1 rfl rfl rfl)
    |>.marks rfl (.code (.markSeq () 1 .kfork rfl) (by decide +kernel) (by decide +kernel))
    |>.code (.markCounter () 1 .kfork rfl)
    |>.code (.markTick () 1 .kfork rfl)
    |>.code (.markState () 1 .kfork rfl)
    |>.code (.release () 1 rfl)
  have yielded := forked
    |>.code (.yieldAcquire () 0 (by decide +kernel) (by decide +kernel))
    |>.marks (by decide +kernel) (.code (.markSeq () 0 .yield (by decide +kernel))
      (by decide +kernel) (by decide +kernel))
    |>.code (.markCounter () 0 .yield (by decide +kernel))
    |>.code (.markTick () 0 .yield (by decide +kernel))
    |>.code (.markState () 0 .yield (by decide +kernel))
    |>.code (.leave () 0 (by decide +kernel))
    |>.other (.pickNext () 1 (by decide +kernel) (by decide +kernel) (by decide +kernel))
      (by decide +kernel)
    |>.other (.acquire () 1 (by decide +kernel) (by decide +kernel) (by decide +kernel))
      (by decide +kernel)
  refine ⟨_, _, _, yielded, .code (.dispatchStore () 1 (by decide +kernel) (by decide +kernel))
    (by decide +kernel) (by decide +kernel), by decide +kernel, by decide +kernel,
    by decide +kernel, ?_⟩
  exact (fcfs_in_order_of_arrival yielded (by decide)).2.2.2 inferInstance _ 1 0
    (.code (.dispatchStore () 1 (by decide +kernel) (by decide +kernel)) (by decide +kernel)
      (by decide +kernel)) (by decide +kernel) (by decide +kernel) (by decide +kernel) (by decide)

theorem fcfs_overtaken_on_two_harts :
    ∃ w w' : Harts Bool 2, ∃ log, Harts.Trace log w ∧ log.length < 2 ^ 64 - 1 ∧ w.Next w' ∧
      Waits w.machine 0 ∧ (w'.machine.slot 0).proc.state = .running ∧ Waits w.machine 1 ∧
        lastMark 1 log < lastMark 0 log := by
  have running := (Harts.Trace.boot (0 : Fin 2) : Harts.Trace _ (Harts.boot 0 : Harts Bool 2))
    |>.other (.pickNext false 0 rfl rfl rfl) rfl
    |>.other (.pickNext true 0 rfl rfl rfl) rfl
    |>.other (.acquire true 0 rfl rfl rfl) rfl
    |>.code (.dispatchStore true 0 rfl rfl)
    |>.code (.dispatchCount true 0 rfl)
    |>.code (.dispatchAccount true 0 rfl)
    |>.code (.dispatchSwtch true 0 rfl)
    |>.code (.resume true 0 rfl)
  have forked := running
    |>.code (.allocAcquire true 1 rfl rfl)
    |>.code (.allocUse true 1 rfl rfl)
    |>.code (.allocReset true 1 rfl)
    |>.code (.forkRelease true 0 1 rfl)
    |>.code (.forkAcquire true 0 1 rfl rfl rfl)
    |>.marks rfl (.code (.markSeq true 1 .kfork rfl) (by decide +kernel) (by decide +kernel))
    |>.code (.markCounter true 1 .kfork rfl)
    |>.code (.markTick true 1 .kfork rfl)
    |>.code (.markState true 1 .kfork rfl)
    |>.code (.release true 1 rfl)
  have yielded := forked
    |>.code (.yieldAcquire true 0 (by decide +kernel) (by decide +kernel))
    |>.marks (by decide +kernel) (.code (.markSeq true 0 .yield (by decide +kernel))
      (by decide +kernel) (by decide +kernel))
    |>.code (.markCounter true 0 .yield (by decide +kernel))
    |>.code (.markTick true 0 .yield (by decide +kernel))
    |>.code (.markState true 0 .yield (by decide +kernel))
    |>.code (.leave true 0 (by decide +kernel))
    |>.other (.acquire false 0 (by decide +kernel) (by decide +kernel) (by decide +kernel))
      (by decide +kernel)
  exact ⟨_, _, _, yielded, by decide, .code (.dispatchStore false 0 (by decide +kernel)
    (by decide +kernel)) (by decide +kernel) (by decide +kernel), by decide +kernel,
    by decide +kernel, by decide +kernel, by decide⟩

end Xv6.Sched.Arrivals
