import Xv6.Sched.Sleep

/-!
# Processes on their way to sleep

A process that has released the lock of its condition in `sleep` holds its own lock until it is
SLEEPING on its channel.
-/

namespace Xv6.Sched

open Function

variable {Hart L : Type} {n : Nat} {q p : Fin n} {slot : Slot Hart n} {h : Hart} {c seen : Nat}

/-! ## Steps of the process table -/

/-- The places from which it matters where a hart goes. -/
def Pc.Watched : Pc n → Prop
  | .free | .sleepLocked _ _ | .sleepState _ | .wakeupLocked _ _ | .markSeq _ _
  | .markCounter _ _ | .markTick _ _ | .markState _ _ | .left _ | .releasing _ => True
  | _ => False

/-- The places of a visit that wakes its process up. -/
def Pc.Wakes (q : Fin n) : Pc n → Prop
  | .markSeq p .wakeup | .markCounter p .wakeup | .markTick p .wakeup | .markState p .wakeup =>
    p = q
  | _ => False

theorem Pc.Wakes.held {pc : Pc n} (wakes : pc.Wakes q) : pc.held = some q := by
  unfold Pc.Wakes at wakes
  split at wakes
  all_goals first | exact congrArg some wakes | exact wakes.elim

inductive HartMove (m m' : Machine Hart n) (h : Hart) : Prop
  | stays (same : m'.cpu h = m.cpu h)
  | start (at_ : (m.cpu h).pc = .free)
  | sleepState (p : Fin n) (at_ : (m.cpu h).pc = .sleepState p)
      (state : (m'.slot p).proc.state = .sleeping)
      (chan : (m'.slot p).proc.chan = (m.slot p).proc.chan)
  | wakeupMark (q : Fin n) (c : Nat) (at_ : (m.cpu h).pc = .wakeupLocked q c)
      (next : (m'.cpu h).pc = .markSeq q .wakeup)
      (found : (m.slot q).proc.state = .sleeping ∧ (m.slot q).proc.chan = c)
  | wakeupSkip (q : Fin n) (c : Nat) (at_ : (m.cpu h).pc = .wakeupLocked q c)
      (next : (m'.cpu h).pc = .releasing q)
      (differs : ¬((m.slot q).proc.state = .sleeping ∧ (m.slot q).proc.chan = c))
  | markSeq (q : Fin n) (caller : Caller) (at_ : (m.cpu h).pc = .markSeq q caller)
      (next : (m'.cpu h).pc = .markCounter q caller)
  | markCounter (q : Fin n) (caller : Caller) (at_ : (m.cpu h).pc = .markCounter q caller)
      (next : (m'.cpu h).pc = .markTick q caller)
  | markTick (q : Fin n) (caller : Caller) (at_ : (m.cpu h).pc = .markTick q caller)
      (next : (m'.cpu h).pc = .markState q caller)
  | release (q : Fin n) (at_ : (m.cpu h).pc = .releasing q) (next : (m'.cpu h).pc = .free)
  | other (plain : ¬(m.cpu h).pc.Watched)

inductive SlotMove (m m' : Machine Hart n) (q : Fin n) : Prop
  | same (state : (m'.slot q).proc.state = (m.slot q).proc.state)
      (chan : (m'.slot q).proc.chan = (m.slot q).proc.chan)
  | sleeps (h : Hart) (at_ : (m.cpu h).pc = .sleepState q)
      (state : (m'.slot q).proc.state = .sleeping)
      (chan : (m'.slot q).proc.chan = (m.slot q).proc.chan)
  | other (h : Hart) (held : (m.cpu h).pc.held = some q)
      (place : (m.cpu h).pc ≠ .sleepState q ∧ ∀ c, (m.cpu h).pc ≠ .sleepLocked q c)
      (before : (m.slot q).proc.state ≠ .sleeping) (after : (m'.slot q).proc.state ≠ .sleeping)

section Step

variable {m m' : Machine Hart n} [DecidableEq Hart]

theorem hartMove_of_update {h₀ : Hart} {cpu : Cpu n} (cpus : m'.cpu = update m.cpu h₀ cpu)
    (here : m'.cpu h₀ = cpu → HartMove m m' h₀) (h : Hart) : HartMove m m' h := by
  by_cases same : h = h₀
  · subst same
    exact here (by rw [cpus, update_self])
  · exact .stays (by rw [cpus, update_of_ne same])

theorem hartMove_of_step (step : Step m m') (uncoupled : Uncoupled m m') (h : Hart) :
    HartMove m m' h := by
  cases step
  case clockintr => exact .stays rfl
  case sleepAcquire h₀ p _ _ _ | sleepChan h₀ p _ _ | wakeupAcquire h₀ p _ _ _ _ =>
    refine hartMove_of_update rfl (fun self => .stays (uncoupled.begins h₀ ?_)) h
    rw [self]
    trivial
  case markState h₀ p _ at_ | leave h₀ p at_ =>
    exact hartMove_of_update rfl (fun _ => .stays (uncoupled.ends h₀ (by rw [at_]; trivial))) h
  case sleepState h₀ p at_ =>
    refine hartMove_of_update rfl (fun _ => .sleepState p at_ ?_ ?_) h
    · simp [Machine.go, Machine.put]
    · simp [Machine.go, Machine.put]
  case wakeupMark h₀ p c at_ found =>
    exact hartMove_of_update rfl (fun self => .wakeupMark p c at_ (by rw [self]) found) h
  case wakeupSkip h₀ p c at_ differs =>
    exact hartMove_of_update rfl (fun self => .wakeupSkip p c at_ (by rw [self]) differs) h
  case markSeq h₀ p caller at_ =>
    exact hartMove_of_update rfl (fun self => .markSeq p caller at_ (by rw [self])) h
  case markCounter h₀ p caller at_ =>
    exact hartMove_of_update rfl (fun self => .markCounter p caller at_ (by rw [self])) h
  case markTick h₀ p caller at_ =>
    exact hartMove_of_update rfl (fun self => .markTick p caller at_ (by rw [self])) h
  case release h₀ p at_ =>
    exact hartMove_of_update rfl (fun self => .release p at_ (by rw [self])) h
  case dispatchAcquire h₀ p place _ | yieldAcquire h₀ p place _ | exitAcquire h₀ p place _
  | forkAcquire h₀ _ p place _ _ | setpriority h₀ p _ place =>
    exact hartMove_of_update rfl (fun _ => .start (by rw [place])) h
  case killAcquire h₀ p _ place _ | waitAcquire h₀ p place _ | allocAcquire h₀ p place _ =>
    exact hartMove_of_update rfl (fun _ => .start place) h
  case allocFail h₀ p at_ =>
    refine hartMove_of_update rfl (fun _ => .other ?_) h
    rcases at_ with at_ | at_ <;> (rw [at_]; exact id)
  case dispatchSkip h₀ p at_ _ | dispatchStore h₀ p at_ _ | dispatchCount h₀ p at_
  | dispatchAccount h₀ p at_ | dispatchSwtch h₀ p at_ | resume h₀ p at_ | exitState h₀ p at_
  | killMark h₀ p _ at_ _ _ | killFlag h₀ p _ at_ _ _ | killSkip h₀ p _ at_ _
  | waitReap h₀ p at_ _ | waitSkip h₀ p at_ | allocUse h₀ p at_ _ | allocSkip h₀ p at_ _
  | allocReset h₀ p at_ | forkRelease h₀ _ p at_ =>
    exact hartMove_of_update rfl (fun _ => .other (by rw [at_]; exact id)) h

omit [DecidableEq Hart] in
theorem slotMove_of_update {q₀ : Fin n} (slots : m'.slot = update m.slot q₀ slot)
    (here : m'.slot q₀ = slot → SlotMove m m' q₀) (q : Fin n) : SlotMove m m' q := by
  by_cases same : q = q₀
  · subst same
    exact here (by rw [slots, update_self])
  · have kept : m'.slot q = m.slot q := by rw [slots, update_of_ne same]
    exact .same (by rw [kept]) (by rw [kept])

omit [DecidableEq Hart] in
theorem slotMove_of_same {q₀ : Fin n} (slots : m'.slot = update m.slot q₀ slot)
    (state : slot.proc.state = (m.slot q₀).proc.state)
    (chan : slot.proc.chan = (m.slot q₀).proc.chan) (q : Fin n) : SlotMove m m' q :=
  slotMove_of_update slots (fun self => .same (by rw [self, state]) (by rw [self, chan])) q

theorem slotMove_of_step (inv : Inv m) (step : Step m m') (uncoupled : Uncoupled m m')
    (q : Fin n) : SlotMove m m' q := by
  cases step
  case clockintr => exact .same rfl rfl
  case sleepChan h p c at_ =>
    -- the hart would have begun its sleep
    have self := uncoupled.begins h
    simp only [Machine.go, Machine.put, update_self] at self
    have same := congrArg Cpu.pc (self trivial)
    rw [at_] at same
    cases same
  case markState h p caller at_ =>
    have self := uncoupled.ends h (by rw [at_]; trivial)
    simp only [Machine.go, Machine.put, update_self] at self
    have same := congrArg Cpu.pc self
    rw [at_] at same
    cases caller <;> cases same
  case dispatchAcquire | dispatchSkip | dispatchCount | dispatchAccount | dispatchSwtch | markSeq
  | markCounter | markTick | yieldAcquire | sleepAcquire | exitAcquire | leave | wakeupAcquire
  | wakeupMark | wakeupSkip | killAcquire | killMark | killFlag | killSkip | waitAcquire
  | waitSkip | allocAcquire | allocSkip | allocReset | forkRelease | forkAcquire | release
  | setpriority =>
    refine slotMove_of_same rfl ?_ ?_ q
    · rfl
    · rfl
  case sleepState h p at_ =>
    exact slotMove_of_update rfl (fun self => .sleeps h at_ (by rw [self]; rfl)
      (by rw [self]; rfl)) q
  case resume h p at_ | exitState h p at_ =>
    have running := running_of_runs inv (inv.at_place at_ rfl) (by simp [at_])
    refine slotMove_of_update rfl (fun self => .other h (by rw [at_]; rfl) (by simp [at_])
      (by simp [running]) ?_) q
    simp [self, running, apply_ite]
  case dispatchStore h p at_ state | waitReap h p at_ state | allocUse h p at_ state =>
    refine slotMove_of_update rfl (fun self => .other h (by rw [at_]; rfl) (by simp [at_])
      (by simp [state]) ?_) q
    rw [self]
    rintro ⟨⟩
  case allocFail h p at_ =>
    have used := used_of_allocating inv at_
    refine slotMove_of_update rfl (fun self => .other h ?_ ?_ (by simp [used]) ?_) q
    · rcases at_ with at_ | at_ <;> (rw [at_]; rfl)
    · rcases at_ with at_ | at_ <;> simp [at_]
    · rw [self]
      rintro ⟨⟩

theorem Machine.go_proc (m : Machine Hart n) (h : Hart) (pc : Pc n) (q : Fin n)
    (slot : Slot Hart n) (h' : Hart) : ((m.go h pc q slot).cpu h').proc = (m.cpu h').proc := by
  simp only [Machine.go, Machine.put, update_apply]
  split
  · rename_i same
    rw [same]
  · rfl

theorem proc_kept (inv : Inv m) (step : Step m m') (uncoupled : Uncoupled m m')
    (current : (m.cpu h).proc = some p) : (m'.cpu h).proc = some p := by
  cases step
  case clockintr => exact current
  case dispatchSwtch h₀ next at_ =>
    by_cases same : h = h₀
    · subst same
      obtain ⟨idle, -⟩ := inv.at_place at_ rfl
      cases idle.symm.trans current
    · simpa only [Machine.put, update_of_ne same] using current
  case leave h₀ q at_ =>
    by_cases same : h = h₀
    · subst same
      rw [uncoupled.ends h (by rw [at_]; trivial)]
      exact current
    · simpa only [Machine.put, update_of_ne same] using current
  all_goals
    simp only [Machine.go_proc]
    exact current

end Step

/-! ## Sleepers in the process table -/

/-- A process that is asleep has its own lock, or is SLEEPING on its channel. -/
structure Beds (m : Machine Hart n) (phase : Fin n → Phase) : Prop where
  locked : ∀ h p c, (m.cpu h).pc = .sleepLocked p c →
    ∃ seen, phase p = .tested c seen ∨ phase p = .asleep c seen
  stored : ∀ h p, (m.cpu h).pc = .sleepState p → ∃ seen, phase p = .asleep (m.slot p).proc.chan seen
  sleeping : ∀ p, (m.slot p).proc.state = .sleeping →
    ∃ seen, phase p = .asleep (m.slot p).proc.chan seen
  asleep : ∀ p c seen, phase p = .asleep c seen → (∃ h, (m.cpu h).pc = .sleepLocked p c) ∨
    (∃ h, (m.cpu h).pc = .sleepState p ∧ (m.slot p).proc.chan = c) ∨
    ((m.slot p).proc.state = .sleeping ∧ (m.slot p).proc.chan = c)

section Beds

variable {m m' : Machine Hart n} {phase phase' : Fin n → Phase}

theorem chan_kept (inv : Inv m) (at_ : (m.cpu h).pc = .sleepState p)
    (move : SlotMove m m' p) : (m'.slot p).proc.chan = (m.slot p).proc.chan := by
  cases move with
  | same state chan | sleeps h' at' state chan => exact chan
  | other h' held place before after =>
    have same := inv.held_unique held (by rw [at_]; rfl)
    subst same
    exact absurd at_ place.1

theorem Beds.code [DecidableEq Hart] (inv : Inv m) (step : Step m m') (uncoupled : Uncoupled m m')
    (beds : Beds m phase) : Beds m' phase := by
  have slots := slotMove_of_step inv step uncoupled
  refine ⟨?_, ?_, ?_, ?_⟩
  · intro h p c at'
    rw [uncoupled.begins h (by rw [at']; trivial)] at at'
    exact beds.locked h p c at'
  · intro h p at'
    rw [uncoupled.begins h (by rw [at']; trivial)] at at'
    rw [chan_kept inv at' (slots p)]
    exact beds.stored h p at'
  · intro p state'
    cases slots p with
    | same state chan =>
      rw [chan]
      exact beds.sleeping p (state.symm.trans state')
    | sleeps h at_ state chan =>
      rw [chan]
      exact beds.stored h p at_
    | other h held place before after => exact absurd state' after
  · intro p c seen asleep
    rcases beds.asleep p c seen asleep with ⟨h, at_⟩ | ⟨h, at_, chan⟩ | ⟨state, chan⟩
    · left
      refine ⟨h, ?_⟩
      cases hartMove_of_step step uncoupled h with
      | stays same => rw [same, at_]
      | other plain =>
        rw [at_] at plain
        exact absurd trivial plain
      | start place | sleepState q place | wakeupMark q c' place | wakeupSkip q c' place
      | markSeq q caller place | markCounter q caller place | markTick q caller place
      | release q place =>
        rw [at_] at place
        cases place
    · have kept := chan_kept inv at_ (slots p)
      right
      cases hartMove_of_step step uncoupled h with
      | stays same => exact .inl ⟨h, by rw [same, at_], kept.trans chan⟩
      | sleepState q place state' chan' =>
        rw [at_] at place
        cases place
        exact .inr ⟨state', kept.trans chan⟩
      | other plain =>
        rw [at_] at plain
        exact absurd trivial plain
      | start place | wakeupMark q c' place | wakeupSkip q c' place
      | markSeq q caller place | markCounter q caller place | markTick q caller place
      | release q place =>
        rw [at_] at place
        cases place
    · right
      right
      cases slots p with
      | same state' chan' => exact ⟨state'.trans state, chan'.trans chan⟩
      | sleeps h at_ state' chan' => exact ⟨state', chan'.trans chan⟩
      | other h held place before after => exact absurd state before

/-- A hart moves on the slot whose lock it has or takes. -/
theorem Beds.move [DecidableEq Hart] (beds : Beds m phase) {cpu : Cpu n}
    (cpus : m'.cpu = update m.cpu h cpu)
    (slots : m'.slot = update m.slot p slot)
    (elsewhere : ∀ r, r ≠ p → phase' r = phase r)
    (alone : ∀ h', h' ≠ h → (m.cpu h').pc.held ≠ some p)
    (before : ∀ r, (m.cpu h).pc.held = some r → r = p)
    (after : ∀ r, cpu.pc.held = some r → r = p)
    (locked : ∀ c, cpu.pc = .sleepLocked p c →
      ∃ seen, phase' p = .tested c seen ∨ phase' p = .asleep c seen)
    (stored : cpu.pc = .sleepState p → ∃ seen, phase' p = .asleep slot.proc.chan seen)
    (sleeping : slot.proc.state = .sleeping → ∃ seen, phase' p = .asleep slot.proc.chan seen)
    (asleep : ∀ c seen, phase' p = .asleep c seen → cpu.pc = .sleepLocked p c ∨
      (cpu.pc = .sleepState p ∧ slot.proc.chan = c) ∨
      (slot.proc.state = .sleeping ∧ slot.proc.chan = c)) : Beds m' phase' := by
  have cpuSelf : m'.cpu h = cpu := by rw [cpus, update_self]
  have cpuOther : ∀ h', h' ≠ h → m'.cpu h' = m.cpu h' := by
    intro h' apart
    rw [cpus, update_of_ne apart]
  have slotSelf : m'.slot p = slot := by rw [slots, update_self]
  have slotOther : ∀ r, r ≠ p → m'.slot r = m.slot r := by
    intro r apart
    rw [slots, update_of_ne apart]
  refine ⟨?_, ?_, ?_, ?_⟩
  · intro h' r c at'
    by_cases same : h' = h
    · subst same
      rw [cpuSelf] at at'
      obtain rfl := after r (by rw [at']; rfl)
      exact locked c at'
    · rw [cpuOther h' same] at at'
      have apart : r ≠ p := by
        rintro rfl
        exact alone h' same (by rw [at']; rfl)
      rw [elsewhere r apart]
      exact beds.locked h' r c at'
  · intro h' r at'
    by_cases same : h' = h
    · subst same
      rw [cpuSelf] at at'
      obtain rfl := after r (by rw [at']; rfl)
      rw [slotSelf]
      exact stored at'
    · rw [cpuOther h' same] at at'
      have apart : r ≠ p := by
        rintro rfl
        exact alone h' same (by rw [at']; rfl)
      rw [elsewhere r apart, slotOther r apart]
      exact beds.stored h' r at'
  · intro r state
    by_cases same : r = p
    · subst same
      rw [slotSelf] at state ⊢
      exact sleeping state
    · rw [slotOther r same] at state ⊢
      rw [elsewhere r same]
      exact beds.sleeping r state
  · intro r c seen asleep'
    by_cases same : r = p
    · subst same
      rw [slotSelf]
      rcases asleep c seen asleep' with at' | ⟨at', chan⟩ | found
      · exact .inl ⟨h, by rw [cpuSelf, at']⟩
      · exact .inr (.inl ⟨h, by rw [cpuSelf, at'], chan⟩)
      · exact .inr (.inr found)
    · rw [elsewhere r same] at asleep'
      rw [slotOther r same]
      have moved : ∀ h', (m.cpu h').pc.held = some r → m'.cpu h' = m.cpu h' := by
        intro h' held
        refine cpuOther h' ?_
        rintro rfl
        exact same (before r held)
      rcases beds.asleep r c seen asleep' with ⟨h', at_⟩ | ⟨h', at_, chan⟩ | found
      · exact .inl ⟨h', by rw [moved h' (by rw [at_]; rfl), at_]⟩
      · exact .inr (.inl ⟨h', by rw [moved h' (by rw [at_]; rfl), at_], chan⟩)
      · exact .inr (.inr found)

theorem Beds.rephase (beds : Beds m phase) (locked : ∀ h p c, (m.cpu h).pc = .sleepLocked p c →
      ∃ seen, phase' p = .tested c seen ∨ phase' p = .asleep c seen)
    (asleep : ∀ p c seen, phase' p = .asleep c seen →
      phase p = .asleep c seen ∨ ∃ h, (m.cpu h).pc = .sleepLocked p c)
    (kept : ∀ p c seen, phase p = .asleep c seen → phase' p = .asleep c seen) :
    Beds m phase' where
  locked := locked
  stored := by
    intro h p at_
    obtain ⟨seen, before⟩ := beds.stored h p at_
    exact ⟨seen, kept p _ seen before⟩
  sleeping := by
    intro p state
    obtain ⟨seen, before⟩ := beds.sleeping p state
    exact ⟨seen, kept p _ seen before⟩
  asleep := by
    intro p c seen asleep'
    rcases asleep p c seen asleep' with before | at_
    · exact beds.asleep p c seen before
    · exact .inl at_

theorem current_of_sleepLocked (inv : Inv m)
    (at_ : (m.cpu h).pc = .sleepLocked p c) : (m.cpu h).proc = some p :=
  inv.at_place at_ rfl

theorem current_of_sleepState (inv : Inv m)
    (at_ : (m.cpu h).pc = .sleepState p) : (m.cpu h).proc = some p :=
  inv.at_place at_ rfl

section

variable (beds : Beds m phase) (inv : Inv m)
include beds inv

theorem Beds.not_asleep (current : (m.cpu h).proc = some p) (free : (m.cpu h).pc = .free)
    (c seen : Nat) :
    phase p ≠ .asleep c seen := by
  intro asleep
  rcases beds.asleep p c seen asleep with ⟨h', at_⟩ | ⟨h', at_, -⟩ | ⟨state, -⟩
  · obtain rfl := inv.runner_unique h' h p (current_of_sleepLocked inv at_) current
    rw [free] at at_
    cases at_
  · obtain rfl := inv.runner_unique h' h p (current_of_sleepState inv at_) current
    rw [free] at at_
    cases at_
  · have running := running_of_runs inv current (by rw [free]; nofun)
    rw [running] at state
    cases state

theorem Beds.sleeping_of_held (held : (m.cpu h).pc.held = some q)
    (place : (m.cpu h).pc ≠ .sleepState q ∧ ∀ c, (m.cpu h).pc ≠ .sleepLocked q c)
    (asleep : phase q = .asleep c seen) :
    (m.slot q).proc.state = .sleeping ∧ (m.slot q).proc.chan = c := by
  rcases beds.asleep q c seen asleep with ⟨h', at_⟩ | ⟨h', at_, -⟩ | found
  · obtain rfl := inv.held_unique held (show (m.cpu h').pc.held = some q by rw [at_]; rfl)
    exact absurd at_ (place.2 c)
  · obtain rfl := inv.held_unique held (show (m.cpu h').pc.held = some q by rw [at_]; rfl)
    exact absurd at_ place.1
  · exact found

theorem Beds.test (current : m.cpu h = { proc := some p }) (c seen : Nat) :
    Beds m (update phase p (.tested c seen)) := by
  have runs : (m.cpu h).proc = some p := by rw [current]
  have awake := beds.not_asleep inv runs (by rw [current])
  refine beds.rephase ?_ ?_ ?_
  · intro h' q c' at_
    have apart : q ≠ p := by
      rintro rfl
      obtain rfl := inv.runner_unique h' h q (current_of_sleepLocked inv at_) runs
      rw [current] at at_
      cases at_
    rw [update_of_ne apart]
    exact beds.locked h' q c' at_
  · intro q c' seen' asleep
    by_cases same : q = p
    · subst same
      rw [update_self] at asleep
      cases asleep
    · rw [update_of_ne same] at asleep
      exact .inl asleep
  · intro q c' seen' asleep
    have apart : q ≠ p := by
      rintro rfl
      exact awake c' seen' asleep
    rw [update_of_ne apart]
    exact asleep

theorem Beds.fallAsleep (at_ : (m.cpu h).pc = .sleepLocked p c)
    (tested : phase p = .tested c seen) :
    Beds m (update phase p (.asleep c seen)) := by
  refine beds.rephase ?_ ?_ ?_
  · intro h' q c' at'
    by_cases same : q = p
    · subst same
      obtain rfl := inv.held_unique (show (m.cpu h').pc.held = some q by rw [at']; rfl)
        (show (m.cpu h).pc.held = some q by rw [at_]; rfl)
      rw [at_] at at'
      cases at'
      exact ⟨seen, .inr (update_self ..)⟩
    · rw [update_of_ne same]
      exact beds.locked h' q c' at'
  · intro q c' seen' asleep
    by_cases same : q = p
    · subst same
      rw [update_self] at asleep
      cases asleep
      exact .inr ⟨h, at_⟩
    · rw [update_of_ne same] at asleep
      exact .inl asleep
  · intro q c' seen' asleep
    have apart : q ≠ p := by
      rintro rfl
      rw [tested] at asleep
      cases asleep
    rw [update_of_ne apart]
    exact asleep

end

theorem alone_of_held (inv : Inv m) (held : (m.cpu h).pc.held = some p) :
    ∀ h', h' ≠ h → (m.cpu h').pc.held ≠ some p :=
  fun _ apart held' => apart (inv.held_unique held' held)

theorem alone_of_unlocked (inv : Inv m) (unlocked : (m.slot p).lock = none)
    (h : Hart) : (m.cpu h).pc.held ≠ some p := by
  intro held
  have locked := (inv.lock_iff h p).mpr held
  rw [unlocked] at locked
  cases locked

end Beds

/-! ## Phases -/

namespace World

variable [DecidableEq Hart] [DecidableEq L] {lk : Nat → L} {w w' : World Hart L n}

omit [DecidableEq Hart] [DecidableEq L] in
theorem forget_asleep_iff (h : Hart) (drop : Nat → Bool) (p : Fin n) (c seen : Nat) :
    w.forget h drop p = .asleep c seen ↔ w.phase p = .asleep c seen := by
  unfold forget
  split
  · cases w.phase p with
    | tested c' seen' =>
      simp only [Phase.forget]
      split <;> simp
    | awake | asleep c' seen' => exact Iff.rfl
  · exact Iff.rfl

omit [DecidableEq Hart] [DecidableEq L] in
theorem forget_tested_iff (h : Hart) (drop : Nat → Bool) (p : Fin n) (c seen : Nat) :
    w.forget h drop p = .tested c seen ↔
      w.phase p = .tested c seen ∧ ((w.machine.cpu h).proc = some p → drop c = false) := by
  unfold forget
  split
  · rename_i current
    cases phase : w.phase p with
    | tested c' seen' =>
      by_cases dropped : drop c' = true
      · simp only [Phase.forget, if_pos dropped, reduceCtorEq, Phase.tested.injEq, false_iff]
        rintro ⟨⟨rfl, -⟩, kept⟩
        rw [kept current] at dropped
        cases dropped
      · simp only [Phase.forget, if_neg dropped, Phase.tested.injEq, iff_self_and]
        rintro ⟨rfl, -⟩ -
        simpa using dropped
    | awake | asleep c' seen' => simp [Phase.forget]
  · rename_i other
    simp [other]

omit [DecidableEq Hart] [DecidableEq L] in
theorem beds_forget (inv : Inv w.machine) (beds : Beds w.machine w.phase) {drop : Nat → Bool}
    (apart : ∀ p c, (w.machine.cpu h).pc = .sleepLocked p c → drop c = false) :
    Beds w.machine (w.forget h drop) := by
  refine beds.rephase ?_ ?_ ?_
  · intro h' p c at_
    obtain ⟨seen, tested | asleep⟩ := beds.locked h' p c at_
    · refine ⟨seen, .inl ((forget_tested_iff h drop p c seen).mpr ⟨tested, fun current => ?_⟩)⟩
      obtain rfl := inv.runner_unique h' h p (current_of_sleepLocked inv at_) current
      exact apart p c at_
    · exact ⟨seen, .inr ((forget_asleep_iff h drop p c seen).mpr asleep)⟩
  · exact fun p c seen asleep => .inl ((forget_asleep_iff h drop p c seen).mp asleep)
  · exact fun p c seen asleep => (forget_asleep_iff h drop p c seen).mpr asleep

theorem beds_step (inv : Inv w.machine) (beds : Beds w.machine w.phase)
    (step : WorldStep lk w w') : Beds w'.machine w'.phase := by
  cases step with
  | code step uncoupled busy => exact beds.code inv step uncoupled
  | acquire | wakeup | visited | skip | finish => exact beds
  | release h l held outside other served =>
    exact beds_forget inv beds fun p c at_ => decide_eq_false (other p c at_)
  | makeTrue h c place held =>
    refine beds_forget inv beds fun p c' at_ => ?_
    rw [place] at at_
    cases at_
  | test h p c current held => exact beds.test inv current c _
  | sleepAcquire h p c seen current outside tested unlocked =>
    have running := running_of_runs inv (h := h) (q := p) (by rw [current]) (by rw [current]; simp)
    refine beds.move rfl rfl (fun _ _ => rfl) (fun h' _ => alone_of_unlocked inv unlocked h')
      (by simp [current, Pc.held]) (by simp [Pc.held, eq_comm]) ?_ (by simp) ?_ ?_
    · rintro c' ⟨⟩
      exact ⟨seen, .inl tested⟩
    · intro sleeping
      rw [Slot.acquire_proc, running] at sleeping
      cases sleeping
    · intro c' seen' asleep
      rw [tested] at asleep
      cases asleep
  | sleepRelease h p c seen at_ tested held served => exact beds.fallAsleep inv at_ tested
  | sleepChan h p c seen at_ asleep =>
    have held : (w.machine.cpu h).pc.held = some p := by rw [at_]; rfl
    have running := running_of_runs inv (current_of_sleepLocked inv at_) (by rw [at_]; simp)
    refine beds.move rfl rfl (fun _ _ => rfl) (alone_of_held inv held)
      (by simp [at_, Pc.held, eq_comm]) (by simp [Pc.held, eq_comm]) (by simp)
      (fun _ => ⟨seen, asleep⟩) ?_ ?_
    · intro sleeping
      have still : (w.machine.slot p).proc.state = .sleeping := sleeping
      rw [running] at still
      cases still
    · intro c' seen' asleep'
      rw [asleep] at asleep'
      cases asleep'
      exact .inr (.inl ⟨rfl, rfl⟩)
  | sched h p at_ only =>
    have held : (w.machine.cpu h).pc.held = some p := by rw [at_]; rfl
    refine beds.move rfl rfl (fun _ _ => rfl) (alone_of_held inv held)
      (by simp [at_, Pc.held, eq_comm]) (by simp [Pc.held]) (by simp) (by simp) (beds.sleeping p) ?_
    intro c seen asleep
    exact .inr (.inr (beds.sleeping_of_held inv held (by simp [at_]) asleep))
  | markState h p caller at_ =>
    have held : (w.machine.cpu h).pc.held = some p := by rw [at_]; rfl
    refine beds.move rfl rfl (fun r apart => update_of_ne apart _ _)
      (alone_of_held inv held) (by simp [at_, Pc.held, eq_comm]) ?_ ?_ ?_ (by simp) ?_
    · cases caller <;> simp [Caller.next, Pc.held, eq_comm]
    · cases caller <;> rintro _ ⟨⟩
    · cases caller <;> rintro ⟨⟩
    · intro c seen asleep
      have awake : update w.phase p Phase.awake p = .asleep c seen := asleep
      rw [update_self] at awake
      cases awake
  | visit h s q scan before next place other unlocked =>
    refine beds.move rfl rfl (fun _ _ => rfl) (fun h' _ => alone_of_unlocked inv unlocked h')
      (by simp [place, Pc.held]) (by simp [Pc.held, eq_comm]) (by simp) (by simp)
      (beds.sleeping q) ?_
    intro c seen asleep
    refine .inr (.inr ?_)
    rcases beds.asleep q c seen asleep with ⟨h', at_⟩ | ⟨h', at_, -⟩ | found
    · exact absurd (by rw [at_]; rfl) (alone_of_unlocked inv unlocked h')
    · exact absurd (by rw [at_]; rfl) (alone_of_unlocked inv unlocked h')
    · exact found

/-! ## Tests -/

/-- Whoever has tested a condition has its lock, and the condition has not been made true. -/
def Tests (lk : Nat → L) (w : World Hart L n) : Prop := ∀ p c seen, w.phase p = .tested c seen →
    ∃ h, (w.machine.cpu h).proc = some p ∧ w.holder (lk c) = some h ∧ seen = w.changes c

omit [DecidableEq Hart] [DecidableEq L] in
theorem tests_of_phase {phase : Fin n → Phase} (new : Phase)
    (phases : phase = update w.phase p new) (plain : ∀ c seen, new ≠ .tested c seen)
    (tested : phase q = .tested c seen) :
    q ≠ p ∧ w.phase q = .tested c seen := by
  by_cases same : q = p
  · subst same
    rw [phases, update_self] at tested
    exact absurd tested (plain c seen)
  · rw [phases, update_of_ne same] at tested
    exact ⟨same, tested⟩

theorem tests_step (inv : Inv w.machine) (tests : w.Tests lk) (step : WorldStep lk w w') :
    w'.Tests lk := by
  intro p c seen tested
  cases step with
  | code step uncoupled busy =>
    obtain ⟨h, current, held, same⟩ := tests p c seen tested
    exact ⟨h, proc_kept inv step uncoupled current, held, same⟩
  | wakeup | visited | skip | finish => exact tests p c seen tested
  | acquire h l place outside free =>
    obtain ⟨h', current, held, same⟩ := tests p c seen tested
    refine ⟨h', current, ?_, same⟩
    have apart : lk c ≠ l := by
      rintro rfl
      rw [free] at held
      cases held
    simpa only [update_of_ne apart] using held
  | release h l held outside other served =>
    obtain ⟨before, kept⟩ := (forget_tested_iff h _ p c seen).mp tested
    obtain ⟨h', current, held', same⟩ := tests p c seen before
    have apart : lk c ≠ l := by
      intro equal
      rw [equal, held] at held'
      cases held'
      exact of_decide_eq_false (kept current) equal
    refine ⟨h', current, ?_, same⟩
    simpa only [unlock, update_of_ne apart] using held'
  | test h p' c' current held =>
    by_cases same : p = p'
    · subst same
      simp only [update_self] at tested
      cases tested
      exact ⟨h, by rw [current], held, rfl⟩
    · simp only [update_of_ne same] at tested
      exact tests p c seen tested
  | makeTrue h c' place held =>
    obtain ⟨before, kept⟩ := (forget_tested_iff h _ p c seen).mp tested
    obtain ⟨h', current, held', same⟩ := tests p c seen before
    have apart : c ≠ c' := by
      rintro rfl
      rw [held] at held'
      cases held'
      exact of_decide_eq_false (kept current) rfl
    refine ⟨h', current, held', ?_⟩
    simpa only [update_of_ne apart] using same
  | sleepAcquire h p' c' seen' current outside tested' unlocked =>
    obtain ⟨h', current', held, same⟩ := tests p c seen tested
    exact ⟨h', (Machine.go_proc ..).trans current', held, same⟩
  | sleepRelease h p' c' seen' at_ tested' held served =>
    obtain ⟨other, before⟩ := tests_of_phase (.asleep c' seen') rfl (by simp) tested
    obtain ⟨h', current, held', same⟩ := tests p c seen before
    have apart : lk c ≠ lk c' := by
      intro equal
      rw [equal, held] at held'
      cases held'
      rw [current_of_sleepLocked inv at_] at current
      cases current
      exact other rfl
    refine ⟨h', current, ?_, same⟩
    simpa only [unlock, update_of_ne apart] using held'
  | sleepChan h p' c' seen' at_ asleep | visit h s q scan before next place other unlocked =>
    obtain ⟨h', current, held, same⟩ := tests p c seen tested
    exact ⟨h', (Machine.go_proc ..).trans current, held, same⟩
  | sched h p' at_ only =>
    obtain ⟨h', current, held, same⟩ := tests p c seen tested
    have apart : h' ≠ h := by
      rintro rfl
      exact only _ held
    refine ⟨h', ?_, held, same⟩
    simpa only [Machine.put, update_of_ne apart] using current
  | markState h p' caller at_ =>
    obtain ⟨-, before⟩ := tests_of_phase .awake rfl (by simp) tested
    obtain ⟨h', current, held, same⟩ := tests p c seen before
    exact ⟨h', (Machine.go_proc ..).trans current, held, same⟩

end World

end Xv6.Sched
