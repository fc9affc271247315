import Xv6.Sched.Sleepers

/-!
# No lost wakeup

While a critical section of the lock is open nobody can test, so a slot that has been visited in
that section holds no sleeper of the channel. When the section ends, every condition that was
made true in it has been visited in full.
-/

namespace Xv6.Sched

open Function

variable {Hart L : Type} {n : Nat} {p : Fin n} {l : L} {s : Scan}
variable {c : Nat} {h : Hart} {caller : Caller} {slot : Slot Hart n}

namespace World

variable [DecidableEq Hart] [DecidableEq L] {lk : Nat → L} {w w' : World Hart L n}

/-! ## Visits and critical sections -/

/-- A visit of `wakeup`: it has not looked at the slot, it has found a process to wake up, or
there is no sleeper of the channel in the slot. -/
def Visiting (m : Machine Hart n) (phase : Fin n → Phase) (h : Hart) (c : Nat) (q : Fin n) :
    Prop :=
  (m.cpu h).pc = .wakeupLocked q c ∨
  ((m.cpu h).pc.Wakes q ∧ (m.slot q).proc.state = .sleeping ∧ (m.slot q).proc.chan = c) ∨
  (((m.cpu h).pc = .releasing q ∨ (m.cpu h).pc = .free) ∧ ∀ seen, phase q ≠ .asleep c seen)

structure Scans (lk : Nat → L) (w : World Hart L n) : Prop where
  held : ∀ h s, w.scan h = some s → w.holder (lk s.chan) = some h
  reached : ∀ h s, w.scan h = some s → s.next ≤ w.progress s.chan
  outside : ∀ h s, w.scan h = some s → s.inside = false → (w.machine.cpu h).pc = .free
  inside : ∀ h s, w.scan h = some s → s.inside = true →
    ∃ q : Fin n, q.val = s.next ∧ Visiting w.machine w.phase h s.chan q

structure Sections (lk : Nat → L) (w : World Hart L n) : Prop where
  fresh : ∀ p c seen, w.phase p = .asleep c seen → seen = w.settled c
  ahead : ∀ (p : Fin n) c seen, w.phase p = .asleep c seen → w.holder (lk c) ≠ none →
    w.progress c ≤ p
  closed : ∀ c, w.holder (lk c) = none → w.changes c = w.settled c

omit [DecidableEq Hart] in
theorem Sections.fresh_unlock (sections : w.Sections lk) (open_ : w.holder l ≠ none)
    (served : w.Served lk l) {seen : Nat} (asleep : w.phase p = .asleep c seen) :
    seen = (w.unlock lk l).settled c := by
  have fresh := sections.fresh p c seen asleep
  by_cases here : lk c = l
  · subst here
    have settled : (w.unlock lk (lk c)).settled c = w.changes c := if_pos rfl
    rw [settled, fresh]
    rcases served c rfl with same | full
    · exact same.symm
    · have ahead := sections.ahead p c seen asleep open_
      omega
  · have settled : (w.unlock lk l).settled c = w.settled c := if_neg here
    rw [settled, fresh]

omit [DecidableEq Hart] in
theorem Sections.closed_unlock (sections : w.Sections lk)
    (free : (w.unlock lk l).holder (lk c) = none) : w.changes c = (w.unlock lk l).settled c := by
  by_cases here : lk c = l
  · exact (if_pos here).symm
  · have settled : (w.unlock lk l).settled c = w.settled c := if_neg here
    rw [settled]
    refine sections.closed c ?_
    simpa only [World.unlock, update_of_ne here] using free

omit [DecidableEq Hart] in
theorem held_of_unlock (open_ : (w.unlock lk l).holder (lk c) ≠ none) :
    lk c ≠ l ∧ w.holder (lk c) ≠ none := by
  by_cases here : lk c = l
  · simp [World.unlock, here] at open_
  · exact ⟨here, by simpa only [World.unlock, update_of_ne here] using open_⟩

omit [DecidableEq L] in
theorem Sections.advance (sections : w.Sections lk) {q : Fin n}
    (reached : s.next ≤ w.progress s.chan) (next : q.val = s.next)
    (awake : ∀ seen, w.phase q ≠ .asleep s.chan seen) : (w.advance h s).Sections lk where
  fresh := sections.fresh
  ahead := by
    intro p c seen asleep open_
    have ahead := sections.ahead p c seen asleep open_
    by_cases same : c = s.chan
    · subst same
      have apart : p ≠ q := by
        rintro rfl
        exact awake seen asleep
      simp only [World.advance, update_self]
      omega
    · simpa only [World.advance, update_of_ne same] using ahead
  closed := sections.closed

omit [DecidableEq Hart] [DecidableEq L] in
theorem Scans.awake_of_visited (scans : w.Scans lk)
    (scan : w.scan h = some s) (inside : s.inside = true)
    (place : (w.machine.cpu h).pc = .free) :
    ∃ q : Fin n, q.val = s.next ∧ ∀ seen, w.phase q ≠ .asleep s.chan seen := by
  obtain ⟨q, next, visiting⟩ := scans.inside h s scan inside
  refine ⟨q, next, ?_⟩
  rcases visiting with at_ | ⟨wakes, -⟩ | ⟨-, awake⟩
  · rw [place] at at_
    cases at_
  · rw [place] at wakes
    exact wakes.elim
  · exact awake

omit [DecidableEq Hart] [DecidableEq L] in
theorem asleep_of_update {phase : Fin n → Phase} {q : Fin n} {new : Phase} {seen : Nat}
    (asleep : update phase p new q = .asleep c seen)
    (plain : ∀ c seen, new ≠ .asleep c seen) : phase q = .asleep c seen := by
  by_cases same : q = p
  · subst same
    rw [update_self] at asleep
    exact absurd asleep (plain c seen)
  · rwa [update_of_ne same] at asleep

theorem sections_step (inv : Inv w.machine) (beds : Beds w.machine w.phase)
    (tests : w.Tests lk) (scans : w.Scans lk) (sections : w.Sections lk)
    (step : WorldStep lk w w') : w'.Sections lk := by
  cases step with
  | code | sleepAcquire | sleepChan | sched | wakeup | visit | finish =>
    exact ⟨sections.fresh, sections.ahead, sections.closed⟩
  | acquire h l place outside free =>
    refine ⟨sections.fresh, ?_, ?_⟩
    · intro p c seen asleep open_
      by_cases here : lk c = l
      · simp [here]
      · simp only [if_neg here]
        refine sections.ahead p c seen asleep ?_
        simpa only [update_of_ne here] using open_
    · intro c free'
      by_cases here : lk c = l
      · simp [here] at free'
      · simp only [update_of_ne here] at free'
        exact sections.closed c free'
  | release h l held outside other served =>
    have open_ : w.holder l ≠ none := by rw [held]; nofun
    refine ⟨?_, ?_, fun c free => sections.closed_unlock free⟩
    · intro p c seen asleep
      exact sections.fresh_unlock open_ served ((forget_asleep_iff h _ p c seen).mp asleep)
    · intro p c seen asleep open'
      exact sections.ahead p c seen ((forget_asleep_iff h _ p c seen).mp asleep)
        (held_of_unlock open').2
  | test h p c current held | markState h p caller at_ =>
    exact ⟨fun q c' seen asleep => sections.fresh q c' seen (asleep_of_update asleep nofun),
      fun q c' seen asleep => sections.ahead q c' seen (asleep_of_update asleep nofun),
      sections.closed⟩
  | makeTrue h c place held =>
    refine ⟨fun p c' seen asleep => ?_, fun p c' seen asleep => ?_, fun c' free => ?_⟩
    · exact sections.fresh p c' seen ((forget_asleep_iff h _ p c' seen).mp asleep)
    · exact sections.ahead p c' seen ((forget_asleep_iff h _ p c' seen).mp asleep)
    · have apart : c' ≠ c := by
        rintro rfl
        rw [held] at free
        cases free
      simp only [update_of_ne apart]
      exact sections.closed c' free
  | sleepRelease h p c seen at_ tested held served =>
    have open_ : w.holder (lk c) ≠ none := by rw [held]; nofun
    have now : seen = w.changes c := by
      obtain ⟨-, -, -, same⟩ := tests p c seen tested
      exact same
    refine ⟨fun q c' seen' asleep => ?_, fun q c' seen' asleep open' => ?_,
      fun c' free => sections.closed_unlock free⟩
    · by_cases same : q = p
      · subst same
        simp only [update_self] at asleep
        cases asleep
        exact now.trans (if_pos rfl).symm
      · simp only [update_of_ne same] at asleep
        exact sections.fresh_unlock open_ served asleep
    · obtain ⟨other, before⟩ := held_of_unlock open'
      by_cases same : q = p
      · subst same
        simp only [update_self] at asleep
        cases asleep
        exact absurd rfl other
      · simp only [update_of_ne same] at asleep
        exact sections.ahead q c' seen' asleep before
  | visited h s scan inside place =>
    obtain ⟨q, next, awake⟩ := scans.awake_of_visited scan inside place
    exact sections.advance (scans.reached h s scan) next awake
  | skip h s q scan before next self =>
    exact sections.advance (scans.reached h s scan) next
      (beds.not_asleep inv self (scans.outside h s scan before) s.chan)

section Visits

variable {m m' : Machine Hart n} {phase phase' : Fin n → Phase} {q : Fin n}

omit [DecidableEq Hart] in
theorem Visiting.congr (visiting : Visiting m phase h c q) (cpu : m'.cpu h = m.cpu h)
    (slot : (m.cpu h).pc.held = some q → (m'.slot q).proc.state = (m.slot q).proc.state ∧
      (m'.slot q).proc.chan = (m.slot q).proc.chan)
    (kept : ∀ seen, phase' q = .asleep c seen → phase q = .asleep c seen) :
    Visiting m' phase' h c q := by
  rw [Visiting, cpu]
  rcases visiting with at_ | ⟨wakes, state, chan⟩ | ⟨place, awake⟩
  · exact .inl at_
  · obtain ⟨state', chan'⟩ := slot wakes.held
    exact .inr (.inl ⟨wakes, state'.trans state, chan'.trans chan⟩)
  · exact .inr (.inr ⟨place, fun seen asleep => awake seen (kept seen asleep)⟩)

theorem slot_kept (inv : Inv m) (step : Step m m') (uncoupled : Uncoupled m m')
    (state : (m.slot q).proc.state = .sleeping) :
    (m'.slot q).proc.state = .sleeping ∧ (m'.slot q).proc.chan = (m.slot q).proc.chan := by
  cases slotMove_of_step inv step uncoupled q with
  | same state' chan' => exact ⟨state'.trans state, chan'⟩
  | sleeps h' at_ state' chan' => exact ⟨state', chan'⟩
  | other h' held' place' before after => exact absurd state before

section

variable (visiting : Visiting m phase h c q)
include visiting

theorem Visiting.code (inv : Inv m) (beds : Beds m phase)
    (step : Step m m') (uncoupled : Uncoupled m m')
    (busy : (m.cpu h).pc = .free → m'.cpu h = m.cpu h) : Visiting m' phase h c q := by
  rcases visiting with at_ | ⟨wakes, state, chan⟩ | ⟨releasing | free, awake⟩
  · have held : (m.cpu h).pc.held = some q := by rw [at_]; rfl
    cases hartMove_of_step step uncoupled h with
    | stays same => exact .inl (by rw [same, at_])
    | wakeupMark q' c' at' next found =>
      rw [at_] at at'
      cases at'
      obtain ⟨state', chan'⟩ := slot_kept inv step uncoupled found.1
      exact .inr (.inl ⟨by rw [next]; rfl, state', chan'.trans found.2⟩)
    | wakeupSkip q' c' at' next differs =>
      rw [at_] at at'
      cases at'
      refine .inr (.inr ⟨.inl next, fun seen asleep => differs ?_⟩)
      exact beds.sleeping_of_held inv held (by simp [at_]) asleep
    | other plain =>
      rw [at_] at plain
      exact absurd trivial plain
    | start place | sleepState q place | markSeq q caller place | markCounter q caller place
    | markTick q caller place | release q place =>
      rw [at_] at place
      cases place
  · obtain ⟨state', chan'⟩ := slot_kept inv step uncoupled state
    refine .inr (.inl ⟨?_, state', chan'.trans chan⟩)
    cases hartMove_of_step step uncoupled h with
    | stays same =>
      rw [same]
      exact wakes
    | markSeq q' caller place next | markCounter q' caller place next
    | markTick q' caller place next =>
      rw [place] at wakes
      rw [next]
      cases caller
      · exact wakes
      · exact wakes
      · exact wakes
    | other plain =>
      refine absurd ?_ plain
      revert wakes
      cases (m.cpu h).pc <;> simp [Pc.Wakes, Pc.Watched]
    | start place | sleepState q place | wakeupMark q c' place | wakeupSkip q c' place
    | release q place =>
      rw [place] at wakes
      exact wakes.elim
  · refine .inr (.inr ⟨?_, awake⟩)
    cases hartMove_of_step step uncoupled h with
    | stays same => exact .inl (by rw [same, releasing])
    | release q' place next => exact .inr next
    | other plain =>
      rw [releasing] at plain
      exact absurd trivial plain
    | start place | sleepState q place | wakeupMark q c' place | wakeupSkip q c' place
    | markSeq q caller place | markCounter q caller place | markTick q caller place =>
      rw [releasing] at place
      cases place
  · exact .inr (.inr ⟨.inr (by rw [busy free, free]), awake⟩)

theorem Visiting.elsewhere {h₀ : Hart} {cpu : Cpu n}
    {p : Fin n} {slot : Slot Hart n} (apart : h ≠ h₀) (cpus : m'.cpu = update m.cpu h₀ cpu)
    (slots : m'.slot = update m.slot p slot)
    (same : (m.cpu h).pc.held = some p → slot.proc.state = (m.slot p).proc.state ∧
      slot.proc.chan = (m.slot p).proc.chan)
    (kept : ∀ seen, phase' q = .asleep c seen → phase q = .asleep c seen) :
    Visiting m' phase' h c q := by
  refine visiting.congr (by rw [cpus, update_of_ne apart]) (fun held => ?_) kept
  rw [slots]
  by_cases equal : q = p
  · subst equal
    rw [update_self]
    exact same held
  · rw [update_of_ne equal]
    exact ⟨rfl, rfl⟩

theorem Visiting.marked (at_ : (m.cpu h).pc = .markState p caller) :
    Visiting (m.go h (caller.next p) p slot) (update phase p .awake) h c q := by
  rcases visiting with locked | ⟨wakes, -, -⟩ | ⟨releasing | free, -⟩
  · rw [at_] at locked
    cases locked
  · rw [at_] at wakes
    cases caller with
    | wakeup =>
      obtain rfl : p = q := wakes
      refine .inr (.inr ⟨.inl ?_, fun seen asleep => ?_⟩)
      · simp only [Machine.go, Machine.put, update_self, Caller.next]
      · rw [update_self] at asleep
        cases asleep
    | _ => exact wakes.elim
  · rw [at_] at releasing
    cases releasing
  · rw [at_] at free
    cases free

omit [DecidableEq Hart] in
theorem Visiting.sleeping_of_markState (at_ : (m.cpu h).pc = .markState p caller) :
    (m.slot p).proc.state = .sleeping ∧ (m.slot p).proc.chan = c := by
  rcases visiting with locked | ⟨wakes, asleep⟩ | ⟨releasing | free, -⟩
  · rw [at_] at locked
    cases locked
  · rw [at_] at wakes
    cases caller with
    | wakeup =>
      obtain rfl : p = q := wakes
      exact asleep
    | _ => exact wakes.elim
  · rw [at_] at releasing
    cases releasing
  · rw [at_] at free
    cases free

end

end Visits

section

variable (scans : w.Scans lk)
include scans

omit [DecidableEq Hart] [DecidableEq L] in
theorem Scans.place (scan : w.scan h = some s) :
    (w.machine.cpu h).pc = .free ∨ (∃ q, (w.machine.cpu h).pc.Wakes q) ∨
      (∃ q c, (w.machine.cpu h).pc = .wakeupLocked q c) ∨
      ∃ q, (w.machine.cpu h).pc = .releasing q := by
  cases inside : s.inside with
  | false => exact .inl (scans.outside h s scan inside)
  | true =>
    obtain ⟨q, -, at_ | ⟨wakes, -⟩ | ⟨at_ | at_, -⟩⟩ := scans.inside h s scan inside
    · exact .inr (.inr (.inl ⟨q, _, at_⟩))
    · exact .inr (.inl ⟨q, wakes⟩)
    · exact .inr (.inr (.inr ⟨q, at_⟩))
    · exact .inl at_

omit [DecidableEq Hart] [DecidableEq L] in
theorem Scans.congr (scan : w'.scan = w.scan)
    (held : ∀ h s, w.scan h = some s → w'.holder (lk s.chan) = w.holder (lk s.chan))
    (progress : ∀ h s, w.scan h = some s → w.progress s.chan ≤ w'.progress s.chan)
    (outside : ∀ h s, w.scan h = some s → (w.machine.cpu h).pc = .free →
      s.inside = false → (w'.machine.cpu h).pc = .free)
    (inside : ∀ h s q, w.scan h = some s → Visiting w.machine w.phase h s.chan q →
      Visiting w'.machine w'.phase h s.chan q) : w'.Scans lk where
  held := by
    intro h s now
    rw [scan] at now
    rw [held h s now]
    exact scans.held h s now
  reached := by
    intro h s now
    rw [scan] at now
    exact (scans.reached h s now).trans (progress h s now)
  outside := by
    intro h s now before
    rw [scan] at now
    exact outside h s now (scans.outside h s now before) before
  inside := by
    intro h s now in_
    rw [scan] at now
    obtain ⟨q, next, visiting⟩ := scans.inside h s now in_
    exact ⟨q, next, inside h s q now visiting⟩

omit [DecidableEq L] in
theorem Scans.move {h₀ : Hart} {cpu : Cpu n} (idle : ∀ s, w.scan h₀ ≠ some s)
    (cpus : w'.machine.cpu = update w.machine.cpu h₀ cpu)
    (slots : w'.machine.slot = update w.machine.slot p slot)
    (scan : w'.scan = w.scan) (holder : w'.holder = w.holder) (progress : w'.progress = w.progress)
    (same : ∀ h, h ≠ h₀ → (w.machine.cpu h).pc.held = some p →
      slot.proc.state = (w.machine.slot p).proc.state ∧
        slot.proc.chan = (w.machine.slot p).proc.chan)
    (kept : ∀ q c seen, w'.phase q = .asleep c seen → w.phase q = .asleep c seen) :
    w'.Scans lk := by
  have apart : ∀ h s, w.scan h = some s → h ≠ h₀ := by
    rintro h s now rfl
    exact idle s now
  refine scans.congr scan (fun _ _ _ => by rw [holder]) (fun _ _ _ => by rw [progress]) ?_ ?_
  · intro h s now free _
    rw [cpus, update_of_ne (apart h s now)]
    exact free
  · intro h s q now visiting
    exact visiting.elsewhere (apart h s now) cpus slots (same h (apart h s now))
      (kept q s.chan)

omit [DecidableEq L] in
theorem Scans.rescan {h₀ : Hart} {new : Option Scan}
    (scan : w'.scan = update w.scan h₀ new) (holder : w'.holder = w.holder)
    (progress : ∀ c, w.progress c ≤ w'.progress c)
    (cpus : ∀ h, h ≠ h₀ → w'.machine.cpu h = w.machine.cpu h)
    (elsewhere : ∀ h c q, h ≠ h₀ → Visiting w.machine w.phase h c q →
      Visiting w'.machine w'.phase h c q)
    (here : ∀ s, new = some s → w.holder (lk s.chan) = some h₀ ∧ s.next ≤ w'.progress s.chan ∧
      (s.inside = false → (w'.machine.cpu h₀).pc = .free) ∧
      (s.inside = true → ∃ q : Fin n, q.val = s.next ∧
        Visiting w'.machine w'.phase h₀ s.chan q)) : w'.Scans lk := by
  refine ⟨?_, ?_, ?_, ?_⟩
  all_goals
    intro h s now
    rw [scan] at now
    by_cases same : h = h₀
    · subst same
      rw [update_self] at now
      obtain ⟨held, reached, outside, inside⟩ := here s now
      first
      | exact holder ▸ held
      | exact reached
      | exact outside
      | exact inside
    · rw [update_of_ne same] at now
      first
      | exact holder ▸ scans.held h s now
      | exact (scans.reached h s now).trans (progress s.chan)
      | exact fun before => (cpus h same) ▸ scans.outside h s now before
      | intro inside
        obtain ⟨q, next, visiting⟩ := scans.inside h s now inside
        exact ⟨q, next, elsewhere h s.chan q same visiting⟩

omit [DecidableEq L] in
theorem Scans.advance (scan : w.scan h = some s)
    (place : (w.machine.cpu h).pc = .free) : (w.advance h s).Scans lk := by
  refine scans.rescan rfl rfl ?_ (fun _ _ => rfl) (fun _ _ _ _ visiting => visiting) ?_
  · intro c
    by_cases same : c = s.chan
    · subst same
      simp [World.advance]
    · simp [World.advance, same]
  · rintro _ ⟨⟩
    refine ⟨scans.held h s scan, ?_, fun _ => place, nofun⟩
    simp [World.advance]

omit [DecidableEq Hart] [DecidableEq L] in
theorem Scans.idle_of_place
    (place : (∃ c, (w.machine.cpu h).pc = .sleepLocked p c) ∨ (w.machine.cpu h).pc = .left p)
    (s : Scan) : w.scan h ≠ some s := by
  intro scan
  have scanning := scans.place scan
  rcases place with ⟨c, at_⟩ | at_ <;> rw [at_] at scanning
  all_goals
    rcases scanning with free | ⟨q, wakes⟩ | ⟨q, c, locked⟩ | ⟨q, releasing⟩
    · cases free
    · exact wakes
    · cases locked
    · cases releasing

end

theorem scans_step (inv : Inv w.machine) (beds : Beds w.machine w.phase) (scans : w.Scans lk)
    (step : WorldStep lk w w') : w'.Scans lk := by
  cases step with
  | code step uncoupled busy =>
    refine scans.congr rfl (fun _ _ _ => rfl) (fun _ _ _ => le_rfl) ?_ ?_
    · intro h s scan free _
      rw [busy h (by rw [scan]; simp) free]
      exact free
    · intro h s q scan visiting
      exact visiting.code inv beds step uncoupled (busy h (by rw [scan]; simp))
  | acquire h l place outside free =>
    have other : ∀ h' s, w.scan h' = some s → lk s.chan ≠ l := by
      intro h' s scan equal
      have held := scans.held h' s scan
      rw [equal, free] at held
      cases held
    refine scans.congr rfl ?_ ?_ (fun _ _ _ free _ => free) (fun _ _ _ _ visiting => visiting)
    · intro h' s scan
      exact update_of_ne (other h' s scan) _ _
    · intro h' s scan
      simp only [if_neg (other h' s scan)]
      exact le_rfl
  | release h l held outside other served =>
    refine scans.congr rfl ?_ (fun _ _ _ => le_rfl) (fun _ _ _ free _ => free) ?_
    · intro h' s scan
      refine update_of_ne ?_ _ _
      intro equal
      have held' := scans.held h' s scan
      rw [equal, held] at held'
      cases held'
      rw [outside] at scan
      cases scan
    · intro h' s q scan visiting
      exact visiting.congr rfl (fun _ => ⟨rfl, rfl⟩)
        fun seen => (forget_asleep_iff h _ q s.chan seen).mp
  | test h p c current held =>
    refine scans.congr rfl (fun _ _ _ => rfl) (fun _ _ _ => le_rfl)
      (fun _ _ _ free _ => free) fun h' s q scan visiting => ?_
    exact visiting.congr rfl (fun _ => ⟨rfl, rfl⟩)
      fun seen asleep => asleep_of_update asleep (by simp)
  | makeTrue h c place held =>
    refine scans.congr rfl (fun _ _ _ => rfl) (fun _ _ _ => le_rfl)
      (fun _ _ _ free _ => free) fun h' s q scan visiting => ?_
    exact visiting.congr rfl (fun _ => ⟨rfl, rfl⟩)
      fun seen => (forget_asleep_iff h _ q s.chan seen).mp
  | sleepAcquire h p c seen current outside tested unlocked =>
    exact scans.move (fun s scan => by rw [outside] at scan; cases scan) rfl rfl rfl rfl rfl
      (fun _ _ _ => ⟨rfl, rfl⟩) fun _ _ _ asleep => asleep
  | sleepRelease h p c seen at_ tested held served =>
    have idle := scans.idle_of_place (.inl ⟨c, at_⟩)
    have other : ∀ h' s, w.scan h' = some s → lk s.chan ≠ lk c := by
      intro h' s scan equal
      have held' := scans.held h' s scan
      rw [equal, held] at held'
      cases held'
      exact idle s scan
    refine scans.congr rfl ?_ (fun _ _ _ => le_rfl) (fun _ _ _ free _ => free) ?_
    · intro h' s scan
      exact update_of_ne (other h' s scan) _ _
    · intro h' s q scan visiting
      refine visiting.congr rfl (fun _ => ⟨rfl, rfl⟩) fun seen' asleep => ?_
      by_cases same : q = p
      · subst same
        simp only [update_self] at asleep
        cases asleep
        exact absurd rfl (other h' s scan)
      · simpa only [update_of_ne same] using asleep
  | sleepChan h p c seen at_ asleep =>
    have held : (w.machine.cpu h).pc.held = some p := by rw [at_]; rfl
    exact scans.move (scans.idle_of_place (.inl ⟨c, at_⟩)) rfl rfl rfl rfl rfl
      (fun h' apart held' => absurd (inv.held_unique held' held) apart)
      fun _ _ _ asleep => asleep
  | sched h p at_ only =>
    exact scans.move (scans.idle_of_place (.inr at_)) rfl rfl rfl rfl rfl
      (fun _ _ _ => ⟨rfl, rfl⟩) fun _ _ _ asleep => asleep
  | markState h p caller at_ =>
    have held : (w.machine.cpu h).pc.held = some p := by rw [at_]; rfl
    refine scans.congr rfl (fun _ _ _ => rfl) (fun _ _ _ => le_rfl) ?_ ?_
    · intro h' s scan free _
      have apart : h' ≠ h := by
        rintro rfl
        rw [at_] at free
        cases free
      simpa only [Machine.go, Machine.put, update_of_ne apart] using free
    · intro h' s q scan visiting
      by_cases same : h' = h
      · subst same
        exact visiting.marked at_
      · exact visiting.elsewhere same rfl rfl
          (fun held' => absurd (inv.held_unique held' held) same)
          fun seen asleep => asleep_of_update asleep (by simp)
  | wakeup h c place outside held =>
    refine scans.rescan rfl rfl (fun _ => le_rfl) (fun _ _ => rfl)
      (fun _ _ _ _ visiting => visiting) ?_
    rintro _ ⟨⟩
    exact ⟨held, Nat.zero_le _, fun _ => place, by simp⟩
  | visit h s q scan before next place other unlocked =>
    refine scans.rescan rfl rfl (fun _ => le_rfl)
      (fun h' apart => update_of_ne apart _ _) ?_ ?_
    · intro h' c q' apart visiting
      exact visiting.elsewhere apart rfl rfl (fun _ => ⟨rfl, rfl⟩) fun _ asleep => asleep
    · rintro _ ⟨⟩
      refine ⟨scans.held h s scan, scans.reached h s scan, by simp, fun _ => ⟨q, next, .inl ?_⟩⟩
      simp only [Machine.go, Machine.put, update_self]
  | visited h s scan inside place => exact scans.advance scan place
  | skip h s q scan before next self =>
    exact scans.advance scan (scans.outside h s scan before)
  | finish h s scan before last =>
    exact scans.rescan rfl rfl (fun _ => le_rfl) (fun _ _ => rfl)
      (fun _ _ _ _ visiting => visiting) (by simp)

structure Coherent (lk : Nat → L) (w : World Hart L n) : Prop where
  machine : Inv w.machine
  beds : Beds w.machine w.phase
  tests : w.Tests lk
  scans : w.Scans lk
  sections : w.Sections lk

omit [DecidableEq L] in
theorem coherent_boot (lk : Nat → L) (p : Fin n) : (boot p : World Hart L n).Coherent lk where
  machine := inv_of_reachable ⟨p, .refl⟩
  beds := by
    refine ⟨nofun, nofun, fun q asleep => ?_, nofun⟩
    by_cases same : q = p
    · subst same
      simp [boot, Machine.boot] at asleep
    · simp [boot, Machine.boot, same] at asleep
  tests := nofun
  scans := ⟨nofun, nofun, nofun, nofun⟩
  sections := ⟨nofun, nofun, fun _ _ => rfl⟩

theorem coherent_of_reachable (reach : w.Reachable lk) : w.Coherent lk := by
  obtain ⟨p, run⟩ := reach
  induction run with
  | refl => exact coherent_boot lk p
  | tail run step before =>
    exact {
      machine := inv_of_reachable (Reachable.machine ⟨p, run.tail step⟩)
      beds := beds_step before.machine before.beds step
      tests := tests_step before.machine before.tests step
      scans := scans_step before.machine before.beds before.scans step
      sections := sections_step before.machine before.beds before.tests before.scans
        before.sections step }

/-- A `wakeup` for the change has been through the whole table: the critical section of the
change is over, or a `wakeup` of the present one has visited every slot. -/
def Completed (w : World Hart L n) (c change : Nat) : Prop :=
  change ≤ w.settled c ∨ w.progress c = n

/-- A process sleeps on its channel only as long as no change of the condition since it looked has
been followed by a complete `wakeup`, and `wakeup` wakes only sleepers on its channel. -/
theorem no_lost_wakeup (lk : Nat → L) (w : World Hart L n) (reachable : w.Reachable lk) :
    (∀ p, (w.machine.slot p).proc.state = .sleeping →
      ∃ seen, w.phase p = .asleep (w.machine.slot p).proc.chan seen ∧
        ∀ change, seen < change → change ≤ w.changes (w.machine.slot p).proc.chan →
          ¬ w.Completed (w.machine.slot p).proc.chan change) ∧
    ∀ h s p caller, w.scan h = some s → (w.machine.cpu h).pc = .markState p caller →
      (w.machine.slot p).proc.state = .sleeping ∧ (w.machine.slot p).proc.chan = s.chan := by
  have coherent := coherent_of_reachable reachable
  refine ⟨fun p sleeping => ?_, fun h s p caller scan at_ => ?_⟩
  · obtain ⟨seen, asleep⟩ := coherent.beds.sleeping p sleeping
    refine ⟨seen, asleep, fun change after made completed => ?_⟩
    have fresh := coherent.sections.fresh p _ seen asleep
    rcases completed with before | full
    · omega
    · by_cases open_ : w.holder (lk (w.machine.slot p).proc.chan) = none
      · have closed := coherent.sections.closed _ open_
        omega
      · have ahead := coherent.sections.ahead p _ seen asleep open_
        omega
  · cases inside : s.inside with
    | false =>
      have free := coherent.scans.outside h s scan inside
      rw [at_] at free
      cases free
    | true =>
      obtain ⟨q, -, visiting⟩ := coherent.scans.inside h s scan inside
      exact visiting.sleeping_of_markState at_

section Run

theorem Reachable.tail (reach : w.Reachable lk) (step : WorldStep lk w w') :
    w'.Reachable lk := by
  obtain ⟨p, run⟩ := reach
  exact ⟨p, run.tail step⟩

theorem Reachable.code {w : World Unit Unit 1} {m' : Machine Unit 1} {lk : Nat → Unit}
    (reach : w.Reachable lk) (step : Step w.machine m')
    (begins : ¬ (m'.cpu ()).pc.Begins := by nofun)
    (ends : ¬ (w.machine.cpu ()).pc.Ends := by nofun) (idle : w.scan () = none := by rfl) :
    ({ w with machine := m' } : World Unit Unit 1).Reachable lk :=
  reach.tail (.code step ⟨fun _ begun => (begins begun).elim, fun _ ended => (ends ended).elim⟩
    fun _ scans => absurd idle scans)

theorem exists_sleeper_of_change : ∃ w : World Unit Unit 1, w.Reachable (fun _ => ()) ∧
      (w.machine.slot 0).proc.state = .sleeping ∧ (w.machine.slot 0).proc.chan = 7 ∧
      w.changes 7 = 1 := by
  have start : (boot 0 : World Unit Unit 1).Reachable (fun _ => ()) := ⟨0, .refl⟩
  have runs := start.code (.dispatchAcquire () 0 rfl rfl)
    |>.code (.dispatchStore () 0 rfl rfl)
    |>.code (.dispatchCount () 0 rfl)
    |>.code (.dispatchAccount () 0 rfl)
    |>.code (.dispatchSwtch () 0 rfl)
    |>.code (.resume () 0 rfl)
  have sleeps := runs.tail (.acquire () () rfl rfl rfl)
    |>.tail (.test () 0 7 rfl rfl)
    |>.tail (.sleepAcquire () 0 7 0 rfl rfl rfl rfl)
    |>.tail (.sleepRelease () 0 7 0 rfl rfl rfl fun _ _ => .inl rfl)
    |>.tail (.sleepChan () 0 7 0 rfl rfl)
    |>.code (.sleepState () 0 rfl)
    |>.tail (.sched () 0 rfl nofun)
  exact ⟨_, sleeps.tail (.acquire () () rfl rfl rfl) |>.tail (.makeTrue () 7 rfl rfl),
    rfl, rfl, rfl⟩

theorem no_lost_wakeup_of_handler : ∃ w : World Unit Unit 1, w.Reachable (fun _ => ()) ∧
      (w.machine.slot 0).proc.state = .sleeping ∧ (w.machine.slot 0).proc.chan = 7 ∧
      w.changes 7 = 1 ∧ ¬ (∃ seen, w.phase 0 = .asleep 7 seen ∧ seen < 1 ∧ w.Completed 7 1) := by
  obtain ⟨w, reachable, sleeping, chan, changes⟩ := exists_sleeper_of_change
  refine ⟨w, reachable, sleeping, chan, changes, ?_⟩
  rintro ⟨seen, asleep, before, completed⟩
  obtain ⟨seen', asleep', open_⟩ := (no_lost_wakeup _ w reachable).1 0 sleeping
  rw [chan] at asleep' open_
  rw [asleep] at asleep'
  cases asleep'
  exact open_ 1 before (by omega) completed

end Run

end World

end Xv6.Sched
