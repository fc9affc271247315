import Xv6.Sched.Machine

/-!
# What a step does to a slot

Selection and accounting read five fields of a process. Every step leaves them alone in all
slots but one.
-/

namespace Xv6.Sched

open Function

variable {Hart : Type} {n : Nat}

/-- The fields that selection and accounting read are the same. -/
structure SameSched (p p' : Proc) : Prop where
  state : p'.state = p.state
  priority : p'.priority = p.priority
  ready : p'.schedReadyTick = p.schedReadyTick
  total : p'.waitTicksTotal = p.waitTicksTotal
  max : p'.waitTicksMax = p.waitTicksMax

theorem SameSched.refl (p : Proc) : SameSched p p := ⟨rfl, rfl, rfl, rfl, rfl⟩

/-- The ways in which a step can change a slot, with the place of the hart. -/
inductive Effect (m m' : Machine Hart n) (q : Fin n) : Prop
  | quiet (same : SameSched (m.slot q).proc (m'.slot q).proc)
  | dispatch (h : Hart) (at_ : (m.cpu h).pc = .dispatchLocked q)
      (runnable : (m.slot q).proc.state = .runnable)
      (proc : (m'.slot q).proc = { (m.slot q).proc with state := .running })
  | account (h : Hart) (at_ : (m.cpu h).pc = .dispatchCounted q)
      (next : (m'.cpu h).pc = .dispatchAccounted q)
      (proc : (m'.slot q).proc = closeWait m.ticks (m.slot q).proc)
  | stamp (h : Hart) (caller : Caller) (at_ : (m.cpu h).pc = .markTick q caller)
      (next : (m'.cpu h).pc = .markState q caller)
      (proc : (m'.slot q).proc = { (m.slot q).proc with schedReadyTick := m.ticks.setWidth 64 })
  | mark (h : Hart) (caller : Caller) (at_ : (m.cpu h).pc = .markState q caller)
      (proc : (m'.slot q).proc = { (m.slot q).proc with state := .runnable })
  | sleep (h : Hart) (at_ : (m.cpu h).pc = .sleepState q)
      (proc : (m'.slot q).proc = { (m.slot q).proc with state := .sleeping })
  | exit (h : Hart) (at_ : (m.cpu h).pc = .exitLocked q)
      (proc : (m'.slot q).proc = { (m.slot q).proc with state := .zombie })
  | reap (h : Hart) (at_ : (m.cpu h).pc = .waitLocked q)
      (zombie : (m.slot q).proc.state = .zombie)
      (proc : (m'.slot q).proc = freeproc (m.slot q).proc)
  | use (h : Hart) (at_ : (m.cpu h).pc = .allocLocked q)
      (unused : (m.slot q).proc.state = .unused)
      (proc : (m'.slot q).proc = { (m.slot q).proc with pid := m.nextPid, state := .used })
  | reset (h : Hart) (at_ : (m.cpu h).pc = .allocUsed q)
      (next : (m'.cpu h).pc = .allocated q)
      (proc : (m'.slot q).proc =
        { (m.slot q).proc with priority := .normal, waitTicksTotal := 0, waitTicksMax := 0 })
  | fail (h : Hart) (at_ : (m.cpu h).pc = .allocUsed q ∨ (m.cpu h).pc = .allocated q)
      (proc : (m'.slot q).proc = freeproc (m.slot q).proc)
  | setpriority (h : Hart) (level : Priority) (current : m.cpu h = { proc := some q })
      (proc : (m'.slot q).proc = { (m.slot q).proc with priority := level })

section

variable {m m' : Machine Hart n} {p : Fin n} {slot : Slot Hart n}

theorem effect_of_update (slots : m'.slot = update m.slot p slot)
    (here : (m'.slot p).proc = slot.proc → Effect m m' p) (q : Fin n) : Effect m m' q := by
  by_cases same : q = p
  · subst same
    exact here (by rw [slots, update_self])
  · have kept : m'.slot q = m.slot q := by rw [slots, update_of_ne same]
    exact .quiet (by rw [kept]; exact .refl _)

theorem effect_of_same (slots : m'.slot = update m.slot p slot)
    (same : SameSched (m.slot p).proc slot.proc) (q : Fin n) : Effect m m' q :=
  effect_of_update slots (fun proc => .quiet (by rw [proc]; exact same)) q

variable [DecidableEq Hart]

theorem Machine.go_pc (m : Machine Hart n) (h : Hart) (pc : Pc n) (q : Fin n)
    (slot : Slot Hart n) : ((m.go h pc q slot).cpu h).pc = pc := by
  simp only [Machine.go, Machine.put, update_self]

theorem effect_of_step (step : Step m m') (q : Fin n) : Effect m m' q := by
  cases step
  case clockintr => exact .quiet (.refl _)
  case dispatchAcquire | dispatchSkip | dispatchCount | dispatchSwtch | markSeq | markCounter
  | yieldAcquire | sleepAcquire | sleepChan | exitAcquire | leave | wakeupAcquire | wakeupMark
  | wakeupSkip | killAcquire | killMark | killFlag | killSkip | waitAcquire | waitSkip
  | allocAcquire | allocSkip | forkRelease | forkAcquire | release =>
    refine effect_of_same rfl ?_ q
    exact ⟨rfl, rfl, rfl, rfl, rfl⟩
  case resume h p at_ =>
    refine effect_of_same rfl ?_ q
    split
    · exact ⟨rfl, rfl, rfl, rfl, rfl⟩
    · exact .refl _
  case dispatchStore h p at_ runnable => exact effect_of_update rfl (.dispatch h at_ runnable) q
  case dispatchAccount h p at_ => exact effect_of_update rfl (.account h at_ (m.go_pc ..)) q
  case markTick h p caller at_ => exact effect_of_update rfl (.stamp h caller at_ (m.go_pc ..)) q
  case markState h p caller at_ => exact effect_of_update rfl (.mark h caller at_) q
  case sleepState h p at_ => exact effect_of_update rfl (.sleep h at_) q
  case exitState h p at_ => exact effect_of_update rfl (.exit h at_) q
  case waitReap h p at_ zombie => exact effect_of_update rfl (.reap h at_ zombie) q
  case allocUse h p at_ unused => exact effect_of_update rfl (.use h at_ unused) q
  case allocReset h p at_ => exact effect_of_update rfl (.reset h at_ (m.go_pc ..)) q
  case allocFail h p at_ => exact effect_of_update rfl (.fail h at_) q
  case setpriority h p level current => exact effect_of_update rfl (.setpriority h level current) q

end

end Xv6.Sched
