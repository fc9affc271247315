import Xv6.ProcTable.Family

/-!
# Every exit is waited for once

`kwait` scans the table under `wait_lock`, so no child becomes a zombie and none is adopted
behind its back. `kexit` wakes the parent before the child becomes a zombie, but holds
`wait_lock` over both, so the parent cannot go to sleep in between.
-/

namespace Xv6.ProcTable

open Sched (ProcState)
open Function

variable {Mem : Type} {p i : Slot} {kin : Kin} {place : Pc} {k' k : Kernel Mem} {q : Proc Mem}
variable {pc : Slot → Pc} {nextPid : Int} {table : Mem}

/-- What the scan of `kwait` has found so far. -/
def ScanOk (kin : Kin) (p : Slot) : Pc → Prop
  | .scan next havekids =>
    (∀ i, i.val < next → (kin.slot i).parent = some p →
      havekids = true ∧ (kin.slot i).kind ≠ .zombie) ∧
    (havekids = true → ∃ i, (kin.slot i).parent = some p)
  | .passed .kwait => ∀ i, (kin.slot i).parent = some p → (kin.slot i).kind ≠ .zombie
  | _ => True

theorem scanOk_of_unlocked (free : place.holds ≠ some .waitLock) : ScanOk kin p place := by
  cases place with
  | scan next havekids => exact absurd rfl free
  | passed loop =>
    cases loop with
    | kwait => exact absurd rfl free
    | piperead | pipewrite | consoleread | sysPause => trivial
  | outside | forked | parented | closed | waking | test | asleep => trivial

theorem ScanOk.congr {kin' : Kin} (ok : ScanOk kin p place)
    (parent : ∀ i, (kin'.slot i).parent = some p ↔ (kin.slot i).parent = some p)
    (zombie : ∀ i, (kin'.slot i).kind = .zombie → (kin.slot i).kind = .zombie) :
    ScanOk kin' p place := by
  cases place with
  | scan next havekids =>
    refine ⟨fun i before child => ?_, fun some => ?_⟩
    · obtain ⟨found, living⟩ := ok.1 i before ((parent i).mp child)
      exact ⟨found, fun exited => living (zombie i exited)⟩
    · obtain ⟨i, child⟩ := ok.2 some
      exact ⟨i, (parent i).mpr child⟩
  | passed loop =>
    cases loop with
    | kwait => exact fun i child exited => ok i ((parent i).mp child) (zombie i exited)
    | piperead | pipewrite | consoleread | sysPause => trivial
  | outside | forked | parented | closed | waking | test | asleep => trivial

def Machine.Waits (m : Machine Mem) (p : Slot) : Prop :=
  m.pc p = .asleep .kwait ∧ (m.kernel.proc p).state = .sleeping

/-- The visit that wakes `p` from `kwait`. -/
def wakes (p : Slot) : Slot × Nat := (p, Chan.address (.proc p))

/-- What makes sure that a waiting parent is woken. -/
structure Machine.WakeOk (m : Machine Mem) : Prop where
  chan : ∀ p, m.Waits p → (m.kernel.proc p).chan = Chan.address (.proc p)
  told : ∀ p i, m.Waits p → (m.kernel.proc i).parent = some p →
    (m.kernel.proc i).state = .zombie → ∃ q visits, m.pc q = .waking visits ∧ wakes p ∈ visits
  tells : ∀ q visits p, m.pc q = .waking visits → (m.kernel.proc q).parent = some p →
    m.Waits p → wakes p ∈ visits

structure Machine.KinshipOk (m : Machine Mem) : Prop where
  seated : m.Seated
  family : FamilyOk m.kernel.kin m.pc m.forker
  record : RecordOk m.kernel.kin m.exits m.reaps
  scan : ∀ p, ScanOk m.kernel.kin p (m.pc p)
  wake : m.WakeOk

namespace Machine

variable {m m' : Machine Mem} {action : Action Mem}

/-! ## Parents and the record -/

theorem kin_kforkRunnable {child : Slot}
    (state : q.state = .runnable) (family : SameFamily (k.proc child) q)
    (writes : Kernel.Writes k k' child q .normal k.nextPid) :
    k'.kin = { k.kin with
      slot := update k.kin.slot child
        { k.kin.slot child with kind := .alive, position := .normal } } := by
  rw [writes.kin]
  simp only [relative, state, family.pid, family.parent, family.xstate, kind, Kernel.kin]

theorem kin_kexitClose (state : q.state = (k.proc p).state) (family : SameFamily (k.proc p) q)
    (writes : Kernel.Writes k k' p q .closed k.nextPid) :
    k'.kin = { k.kin with
      slot := update k.kin.slot p { k.kin.slot p with position := .closed } } := by
  rw [writes.kin]
  simp only [relative, state, family.pid, family.parent, family.xstate, Kernel.kin]

theorem kin_reparent (k : Kernel Mem) (p : Slot) :
    ((k.reparent p).moveTo p .reparented).kin = k.kin.reparent p := by
  have slots : ((k.reparent p).moveTo p .reparented).kin.slot = (k.kin.reparent p).slot := by
    funext i
    by_cases same : i = p
    · subst same
      by_cases own : (k.proc i).parent = some i <;>
        simp [Kernel.kin, Kin.reparent, Kernel.moveTo, Kernel.reparent, relative, own]
    · by_cases child : (k.proc i).parent = some p <;>
        simp [Kernel.kin, Kin.reparent, Kernel.moveTo, Kernel.reparent, relative, same, child]
  rw [show k.kin.reparent p = { k.kin with slot := (k.kin.reparent p).slot } from rfl, ← slots]
  rfl

theorem scan_goTo (ok : ∀ q, ScanOk kin q (pc q)) (here : ScanOk kin p place) (q : Slot) :
    ScanOk kin q (update pc p place q) := by
  by_cases same : q = p
  · subst same
    rwa [update_self]
  · rw [update_of_ne same]
    exact ok q

theorem scan_leave (unlocked : ∀ q, q ≠ p → (m.pc q).holds ≠ some .waitLock)
    (after : place.holds ≠ some .waitLock) (q : Slot) :
    ScanOk kin q (update m.pc p place q) := by
  by_cases same : q = p
  · subst same
    rw [update_self]
    exact scanOk_of_unlocked after
  · rw [update_of_ne same]
    exact scanOk_of_unlocked (unlocked q same)

theorem scanOk_start (loop : Loop) : ScanOk kin p (Pc.start loop) := by
  cases loop with
  | kwait => exact ⟨fun _ before => absurd before (Nat.not_lt_zero _), nofun⟩
  | piperead | pipewrite | consoleread | sysPause => trivial

theorem scan_update {r : Relative}
    (ok : ∀ q, ScanOk kin q (pc q)) (parent : r.parent = (kin.slot i).parent)
    (living : r.kind ≠ .zombie) (q : Slot) :
    ScanOk { kin with slot := update kin.slot i r, nextPid := nextPid } q (pc q) := by
  refine (ok q).congr (fun j => ?_) fun j => ?_
  · by_cases same : j = i
    · subst same
      simp [parent]
    · simp [same]
  · by_cases same : j = i
    · subst same
      simp [living]
    · simp [same]

/-- The families, the record and the scans after a turn. -/
theorem turn_kin (inv : Seated m) (ok : FamilyOk m.kernel.kin m.pc m.forker)
    (record : RecordOk m.kernel.kin m.exits m.reaps) (scan : ∀ p, ScanOk m.kernel.kin p (m.pc p))
    (turn : Turn m action m') : FamilyOk m'.kernel.kin m'.pc m'.forker ∧
      RecordOk m'.kernel.kin m'.exits m'.reaps ∧ ∀ p, ScanOk m'.kernel.kin p (m'.pc p) := by
  have goes : ∀ {p : Slot} {before after : Pc}, m.pc p = before → before ≠ .outside →
      Plain before → Plain after → FamilyOk m.kernel.kin (update m.pc p after) m.forker := by
    intro p before after place inside plain ordinary
    exact ok.goTo (by rwa [place]) ordinary fun _ => ok.inside p (by rwa [place])
  cases turn with
  | elsewhere allowed quiet =>
    rw [quiet.kin]
    exact ⟨ok, record, scan⟩
  | @forkFailed p child _ _ _ q k' unused place state parent writes =>
    have free := kind_eq_unused.mpr unused
    have kind := kind_eq_unused.mpr state
    rw [writes.kin]
    refine ⟨ok.forkFailed (r := relative q _) free kind parent rfl _,
      record.forkFailed free kind, scan_update scan (parent.trans (ok.blank child free).1.symm) ?_⟩
    simp [relative, kind]
  | @forked p child _ _ _ q k' unused place running state pid parent writes =>
    have free := kind_eq_unused.mpr unused
    have kind := kind_eq_used.mpr state
    change FamilyOk k'.kin _ _ ∧ RecordOk k'.kin _ _ ∧ ∀ p, ScanOk k'.kin p _
    rw [writes.kin]
    refine ⟨ok.fork free place (kind_eq_alive.mpr running.alive) kind parent rfl _,
      record.fork free kind pid, scan_goTo (scan_update scan parent ?_) trivial⟩
    simp [relative, kind]
  | @kforkParent p child k' place free running newborn writes =>
    change FamilyOk k'.kin _ _ ∧ RecordOk k'.kin _ _ ∧ ∀ p, ScanOk k'.kin p _
    rw [writes.kin]
    exact ⟨ok.setParent place, record.update Iff.rfl Iff.rfl rfl rfl,
      scan_leave (fun q _ => inv.not_holding free) (by rintro ⟨⟩)⟩
  | @kforkRunnable p child q k' place running unborn parent state family writes =>
    have used := kind_eq_used.mpr (inv.unborn child (by rw [unborn]; trivial))
    change FamilyOk k'.kin _ _ ∧ RecordOk k'.kin _ _ ∧ ∀ p, ScanOk k'.kin p _
    rw [kin_kforkRunnable state family writes]
    refine ⟨ok.release place, record.update ?_ ?_ rfl rfl,
      scan_goTo (scan_update scan ?_ ?_) trivial⟩
    · exact iff_of_false (by simp) fun unused => by cases used.symm.trans unused
    · exact iff_of_false (by simp) fun zombie => by cases used.symm.trans zombie
    · rfl
    · simp
  | @kexitClose p q k' place running other state family writes =>
    have alive := kind_eq_alive.mpr running.alive
    change FamilyOk k'.kin _ _ ∧ RecordOk k'.kin _ _ ∧ ∀ p, ScanOk k'.kin p _
    rw [kin_kexitClose state family writes]
    refine ⟨ok.close place alive other running.2, record.update Iff.rfl Iff.rfl rfl rfl,
      scan_goTo (scan_update scan ?_ ?_) trivial⟩
    · rfl
    · exact fun zombie => by cases alive.symm.trans zombie
  | @kexitReparent p place free running =>
    change FamilyOk ((m.kernel.reparent p).moveTo p .reparented).kin _ _ ∧
      RecordOk ((m.kernel.reparent p).moveTo p .reparented).kin _ _ ∧ _
    rw [kin_reparent]
    exact ⟨ok.reparent place _,
      record.congr (fun _ => Iff.rfl) (fun _ => Iff.rfl) (fun _ => rfl) (fun _ => rfl) rfl,
      scan_goTo (fun q => scanOk_of_unlocked (inv.not_holding free)) trivial⟩
  | @kexitWakeup p i chan visits place =>
    change FamilyOk (m.kernel.wakeup i chan).kin _ _ ∧ RecordOk (m.kernel.wakeup i chan).kin _ _ ∧
      ∀ p, ScanOk (m.kernel.wakeup i chan).kin p _
    rw [(Kernel.quiet_wakeup (e := .wakeup i chan) i chan).kin]
    exact ⟨ok.wakeup place visits, record, scan_goTo scan trivial⟩
  | @kexitZombie p status k' place writes =>
    change FamilyOk k'.kin _ _ ∧ RecordOk k'.kin _ _ ∧ _
    rw [writes.kin]
    exact ⟨ok.exit place status, record.exit (ok.inside p (by simp [place])) status .normal,
      scan_leave (fun q other held => other (inv.exclusive held (by rw [place]; rfl)))
        (by rintro ⟨⟩)⟩
  | @reaped p i copied havekids place child zombie =>
    have exited := kind_eq_zombie.mpr zombie
    change FamilyOk (m.kernel.set i (m.kernel.proc i).freeproc).kin _ _ ∧
      RecordOk (m.kernel.set i (m.kernel.proc i).freeproc).kin _ _ ∧ _
    rw [(inv.writes_freeproc zombie).kin]
    have freed := ok.free (r := relative (m.kernel.proc i).freeproc .normal) exited rfl rfl rfl
    refine ⟨freed.goTo (by rw [place]; trivial) trivial fun inside => absurd rfl inside,
      record.reap exited rfl ?_,
      scan_leave (fun q other held => other (inv.exclusive held (by rw [place]; rfl)))
        (by rintro ⟨⟩)⟩
    rcases (ok.parent i p child).2.2 with forker | first
    · exact Or.inl forker
    · subst first
      exact Or.inr ok.init.2.1
  | @enter p loop place running free =>
    exact ⟨ok.goTo (by rw [place]; trivial) (plain_start loop)
      fun _ => kind_eq_alive.mpr running.alive, record, scan_goTo scan (scanOk_start loop)⟩
  | @reacquire p loop place running free =>
    exact ⟨goes place (by simp) trivial (plain_start loop), record,
      scan_goTo scan (scanOk_start loop)⟩
  | @copyFailed p _ _ _ place | @kwaitLeave p _ _ place | @loopLeave p _ _ place
  | @again p _ place =>
    exact ⟨goes place (by simp) trivial trivial, record, scan_goTo scan trivial⟩
  | @visitChild p i copied havekids place child goesOn =>
    refine ⟨goes place (by simp) trivial trivial, record,
      scan_goTo scan ⟨fun j before found => ⟨rfl, ?_⟩, fun _ => ⟨i, child⟩⟩⟩
    have sofar := scan p
    rw [place] at sofar
    rcases Nat.lt_succ_iff_lt_or_eq.mp before with earlier | here
    · exact (sofar.1 j earlier found).2
    · rw [Fin.ext here]
      exact fun exited => goesOn (kind_eq_zombie.mp exited)
  | @visitOther p i copied havekids place other =>
    have sofar := scan p
    rw [place] at sofar
    refine ⟨goes place (by simp) trivial trivial, record,
      scan_goTo scan ⟨fun j before found => ?_, sofar.2⟩⟩
    rcases Nat.lt_succ_iff_lt_or_eq.mp before with earlier | here
    · exact sofar.1 j earlier found
    · rw [Fin.ext here] at found
      exact absurd found other
  | @kwaitPassed p next place all spared =>
    have scanned := scan p
    rw [place] at scanned
    exact ⟨goes place (by simp) trivial trivial, record,
      scan_goTo scan fun i child => (scanned.1 i (i.isLt.trans_le all) child).2⟩
  | @loopPassed p loop wait place spared =>
    refine ⟨goes place (by simp) trivial trivial, record, scan_goTo scan ?_⟩
    cases loop with
    | kwait => exact absurd place (inv.scans p)
    | piperead | pipewrite | consoleread | sysPause => trivial
  | @sleep p loop k' place quiet =>
    change FamilyOk k'.kin _ _ ∧ RecordOk k'.kin _ _ ∧ ∀ p, ScanOk k'.kin p _
    rw [quiet.kin]
    exact ⟨goes place (by simp) trivial trivial, record, scan_goTo scan trivial⟩

/-! ## Nobody sleeps through an exit -/

theorem WakeOk.frame (ok : WakeOk m)
    (waits : ∀ p, m'.Waits p → m.Waits p ∧ (m'.kernel.proc p).chan = (m.kernel.proc p).chan)
    (parent : ∀ i p, (m'.kernel.proc i).parent = some p → m'.Waits p →
      (m.kernel.proc i).parent = some p)
    (zombie : ∀ i, (m'.kernel.proc i).state = .zombie → (m.kernel.proc i).state = .zombie)
    (waking : ∀ q visits, m'.pc q = .waking visits ↔ m.pc q = .waking visits) : WakeOk m' where
  chan := by
    intro p waiting
    obtain ⟨waited, chan⟩ := waits p waiting
    exact chan.trans (ok.chan p waited)
  told := by
    intro p i waiting child exited
    obtain ⟨q, visits, place, pending⟩ :=
      ok.told p i (waits p waiting).1 (parent i p child waiting) (zombie i exited)
    exact ⟨q, visits, (waking q visits).mpr place, pending⟩
  tells := by
    intro q visits p place child waiting
    exact ok.tells q visits p ((waking q visits).mp place) (parent q p child waiting)
      (waits p waiting).1

theorem WakeOk.congr (ok : WakeOk m) (kernel : m'.kernel = m.kernel) (pc : m'.pc = m.pc) :
    WakeOk m' :=
  ok.frame (fun p waiting => by rw [kernel]; exact ⟨by rwa [Waits, pc, kernel] at waiting, rfl⟩)
    (fun i p child _ => by rwa [kernel] at child) (fun i exited => by rwa [kernel] at exited)
    fun q visits => by rw [pc]

theorem Waits.of_goTo {q : Slot} (waiting : (m.goTo p place).Waits q)
    (awake : place ≠ .asleep .kwait) : q ≠ p ∧ m.Waits q := by
  obtain ⟨asleep, sleeping⟩ := waiting
  have other : q ≠ p := by
    rintro rfl
    rw [goTo_pc, update_self] at asleep
    exact awake asleep
  rw [goTo_pc, update_of_ne other] at asleep
  exact ⟨other, asleep, sleeping⟩

theorem WakeOk.goTo (ok : WakeOk m) (p : Slot) (place : Pc)
    (before : ∀ visits, m.pc p ≠ .waking visits) (after : ∀ visits, place ≠ .waking visits)
    (awake : place ≠ .asleep .kwait) : WakeOk (m.goTo p place) := by
  refine ok.frame (fun q waiting => ⟨(waiting.of_goTo awake).2, rfl⟩) (fun _ _ child _ => child)
    (fun _ => id) fun q visits => ?_
  rw [goTo_pc]
  by_cases same : q = p
  · subst same
    rw [update_self]
    exact iff_of_false (after visits) (before visits)
  · rw [update_of_ne same]

theorem WakeOk.writes (ok : WakeOk m) {position : Position}
    (writes : Kernel.Writes m.kernel k' i q position nextPid) (awake : q.state ≠ .sleeping)
    (goesOn : q.state ≠ .zombie)
    (parent : ∀ p, q.parent = some p → m.Waits p → (m.kernel.proc i).parent = some p) :
    WakeOk { m with kernel := k' } := by
  have waits : ∀ p, Waits { m with kernel := k' } p → p ≠ i ∧ m.Waits p := by
    rintro p ⟨place, sleeping⟩
    rw [writes.proc] at sleeping
    have other : p ≠ i := by
      rintro rfl
      rw [update_self] at sleeping
      exact awake sleeping
    rw [update_of_ne other] at sleeping
    exact ⟨other, place, sleeping⟩
  refine ok.frame (fun p waiting => ⟨(waits p waiting).2, ?_⟩) ?_ ?_ fun _ _ => Iff.rfl
  · rw [writes.proc, update_of_ne (waits p waiting).1]
  · intro j p child waiting
    rw [writes.proc] at child
    by_cases same : j = i
    · subst same
      rw [update_self] at child
      exact parent p child (waits p waiting).2
    · rwa [update_of_ne same] at child
  · intro j exited
    rw [writes.proc] at exited
    by_cases same : j = i
    · subst same
      rw [update_self] at exited
      exact absurd exited goesOn
    · rwa [update_of_ne same] at exited

theorem WakeOk.quiet (ok : WakeOk m) {e : Event Mem} (quiet : Kernel.Quiet e m.kernel k')
    (awake : ∀ p, m.pc p = .asleep .kwait → ∀ chan, e ≠ .sleep p chan) :
    WakeOk { m with kernel := k' } := by
  refine ok.frame (fun p waiting => ?_) ?_ ?_ fun _ _ => Iff.rfl
  · obtain ⟨place, sleeping⟩ := waiting
    cases quiet.moved p with
    | same state chan _ => exact ⟨⟨place, state.symm.trans sleeping⟩, chan⟩
    | killed _ stays state => exact absurd (state.symm.trans sleeping) stays
    | selfKilled _ before state =>
      rw [state, before] at sleeping
      cases sleeping
    | woken _ after | killedAsleep _ _ after | dispatched _ after | yielded _ _ after =>
      rw [after] at sleeping
      cases sleeping
    | slept chan event => exact absurd event (awake p place chan)
  · intro i p child _
    rwa [(quiet.family i).parent] at child
  · intro i exited
    exact (quiet.moved i).zombie_iff.mp exited

theorem not_waking_of_plain (plain : Plain place) (visits : List (Slot × Nat)) :
    place ≠ .waking visits := by
  rintro rfl
  exact plain

theorem start_ne_asleep (loop : Loop) : Pc.start loop ≠ .asleep .kwait := by
  cases loop <;> nofun

theorem mem_wakeupVisits {q : Slot} (other : q ≠ p) :
    wakes q ∈ wakeupVisits p (Chan.address (.proc q)) := by
  refine List.mem_map.mpr ⟨q, List.mem_filter.mpr ⟨List.mem_finRange q, ?_⟩, rfl⟩
  simpa using other

theorem wakes_mem_exitVisits {q : Slot} (other : q ≠ p)
    (calls : (k.proc p).parent = some q ∨ q = k.initproc ∧ ∃ i, (k.proc i).parent = some p) :
    wakes q ∈ exitVisits k p := by
  unfold exitVisits
  rw [List.mem_append]
  rcases calls with parent | ⟨rfl, i, child⟩
  · right
    rw [parent]
    exact mem_wakeupVisits other
  · left
    rw [List.mem_flatMap]
    refine ⟨i, List.mem_filter.mpr ⟨List.mem_finRange i, ?_⟩, mem_wakeupVisits other⟩
    simpa using child

theorem WakeOk.reparent (ok : WakeOk m) (inv : Seated m)
    (family : FamilyOk m.kernel.kin m.pc m.forker) (place : m.pc p = .closed)
    (free : m.holder .waitLock = none) :
    WakeOk (Machine.goTo { m with kernel := (m.kernel.reparent p).moveTo p .reparented } p
      (.waking (exitVisits m.kernel p))) := by
  have states : ∀ i, ((m.kernel.reparent p).proc i).toProc = (m.kernel.proc i).toProc := by
    intro i
    unfold Kernel.reparent
    dsimp only
    split <;> rfl
  -- nobody else is waking, since `wait_lock` was free
  have alone : ∀ q visits, m.pc q ≠ .waking visits := by
    intro q visits waking
    exact inv.not_holding (p := q) free (by rw [waking]; rfl)
  have waits : ∀ q, Waits (Machine.goTo
      { m with kernel := (m.kernel.reparent p).moveTo p .reparented } p
      (.waking (exitVisits m.kernel p))) q → q ≠ p ∧ m.Waits q := by
    intro q waiting
    obtain ⟨other, asleep, sleeping⟩ := waiting.of_goTo nofun
    change ((m.kernel.reparent p).proc q).toProc.state = _ at sleeping
    rw [states] at sleeping
    exact ⟨other, asleep, sleeping⟩
  have here : update m.pc p (.waking (exitVisits m.kernel p)) p =
      .waking (exitVisits m.kernel p) := update_self ..
  refine ⟨?_, ?_, ?_⟩
  · intro q waiting
    change ((m.kernel.reparent p).proc q).toProc.chan = _
    rw [states]
    exact ok.chan q (waits q waiting).2
  · intro q i waiting child exited
    obtain ⟨other, waited⟩ := waits q waiting
    change ((m.kernel.reparent p).proc i).toProc.state = _ at exited
    rw [states] at exited
    refine ⟨p, _, here, wakes_mem_exitVisits other ?_⟩
    change ((m.kernel.reparent p).proc i).parent = some q at child
    unfold Kernel.reparent at child
    dsimp only at child
    split at child
    · next adopted => exact Or.inr ⟨(Option.some.inj child).symm, i, adopted⟩
    · obtain ⟨_, visits, waking, -⟩ := ok.told q i waited child exited
      exact absurd waking (alone _ visits)
  · intro q visits r waking child waiting
    obtain ⟨other, waited⟩ := waits r waiting
    by_cases same : q = p
    · subst same
      rw [goTo_pc, here] at waking
      cases waking
      refine wakes_mem_exitVisits other (Or.inl ?_)
      change ((m.kernel.reparent q).proc q).parent = some r at child
      unfold Kernel.reparent at child
      dsimp only at child
      split at child
      · next own => exact absurd rfl (family.parent q q own).1
      · exact child
    · rw [goTo_pc, update_of_ne same] at waking
      exact absurd waking (alone q visits)

theorem WakeOk.wakeup (ok : WakeOk m) {chan : Nat} {visits : List (Slot × Nat)}
    (place : m.pc p = .waking ((i, chan) :: visits)) :
    WakeOk (Machine.goTo { m with kernel := m.kernel.wakeup i chan } p (.waking visits)) := by
  have visited := ok.quiet (Kernel.quiet_wakeup (e := .wakeup i chan) i chan) fun _ _ => by simp
  -- the process just visited does not wait any more if the visit was for it
  have rest : ∀ q, Waits { m with kernel := m.kernel.wakeup i chan } q →
      wakes q ∈ (i, chan) :: visits → wakes q ∈ visits := by
    intro q waiting pending
    rcases List.mem_cons.mp pending with now | later
    · obtain ⟨rfl, rfl⟩ := Prod.mk.inj now
      obtain ⟨asleep, sleeping⟩ := waiting
      have before : m.Waits q := by
        refine ⟨asleep, ?_⟩
        unfold Kernel.wakeup at sleeping
        split at sleeping
        · next found => exact found.1
        · exact sleeping
      have found : (m.kernel.proc q).state = .sleeping ∧
          (m.kernel.proc q).chan = Chan.address (.proc q) := ⟨before.2, ok.chan q before⟩
      rw [Kernel.wakeup, if_pos found] at sleeping
      simp [Kernel.markRunnable, Kernel.set, Proc.markRunnable] at sleeping
    · exact later
  have waits : ∀ q, Waits (Machine.goTo { m with kernel := m.kernel.wakeup i chan } p
      (.waking visits)) q → Waits { m with kernel := m.kernel.wakeup i chan } q :=
    fun q waiting => (waiting.of_goTo (by simp)).2
  refine ⟨fun q waiting => visited.chan q (waits q waiting), ?_, ?_⟩
  · intro q j waiting child exited
    obtain ⟨r, pending, waking, mem⟩ := visited.told q j (waits q waiting) child exited
    by_cases same : r = p
    · subst same
      rw [show m.pc r = .waking pending from waking] at place
      cases place
      exact ⟨r, visits, update_self .., rest q (waits q waiting) mem⟩
    · exact ⟨r, pending, by rw [goTo_pc, update_of_ne same]; exact waking, mem⟩
  · intro r pending q waking child waiting
    by_cases same : r = p
    · subst same
      rw [goTo_pc, update_self] at waking
      cases waking
      exact rest q (waits q waiting) (visited.tells r _ q place child (waits q waiting))
    · rw [goTo_pc, update_of_ne same] at waking
      exact visited.tells r pending q waking child (waits q waiting)

theorem WakeOk.exit (ok : WakeOk m) {status : BitVec 32} (place : m.pc p = .waking [])
    (writes : Kernel.Writes m.kernel k' p
      { m.kernel.proc p with xstate := status, state := .zombie } .normal m.kernel.nextPid) :
    WakeOk (Machine.goTo { m with kernel := k' } p .outside) := by
  have waits : ∀ q, Waits (Machine.goTo { m with kernel := k' } p .outside) q →
      q ≠ p ∧ m.Waits q ∧ k'.proc q = m.kernel.proc q := by
    intro q waiting
    obtain ⟨other, asleep, sleeping⟩ := waiting.of_goTo nofun
    have same : k'.proc q = m.kernel.proc q := by rw [writes.proc, update_of_ne other]
    rw [same] at sleeping
    exact ⟨other, ⟨asleep, sleeping⟩, same⟩
  have parents : ∀ i, (k'.proc i).parent = (m.kernel.proc i).parent := by
    intro i
    by_cases same : i = p
    · rw [same, writes.proc, update_self]
    · rw [writes.proc, update_of_ne same]
  refine ⟨?_, ?_, ?_⟩
  · intro q waiting
    change (k'.proc q).chan = _
    rw [(waits q waiting).2.2]
    exact ok.chan q (waits q waiting).2.1
  · intro q i waiting child exited
    change (k'.proc i).parent = some q at child
    rw [parents] at child
    by_cases same : i = p
    · subst same
      -- the exiting process has visited its parent, which therefore is not asleep
      exact absurd (ok.tells i [] q place child (waits q waiting).2.1) (List.not_mem_nil)
    · change (k'.proc i).state = .zombie at exited
      rw [writes.proc, update_of_ne same] at exited
      obtain ⟨r, visits, waking, mem⟩ := ok.told q i (waits q waiting).2.1 child exited
      have other : r ≠ p := by
        rintro rfl
        rw [waking] at place
        cases place
        cases mem
      exact ⟨r, visits, by rw [goTo_pc, update_of_ne other]; exact waking, mem⟩
  · intro q visits r waking child waiting
    have other : q ≠ p := by
      rintro rfl
      rw [goTo_pc, update_self] at waking
      cases waking
    rw [goTo_pc, update_of_ne other] at waking
    change (k'.proc q).parent = some r at child
    rw [parents] at child
    exact ok.tells q visits r waking child (waits r waiting).2.1

/-- The caller of `kwait` goes to sleep: its scan has found no exited child, and under
`wait_lock` nobody is in the middle of an exit. -/
theorem WakeOk.sleep (ok : WakeOk m) (inv : Seated m) (scan : ∀ p, ScanOk m.kernel.kin p (m.pc p))
    {p : Slot} {loop : Loop} {k' : Kernel Mem} (place : m.pc p = .passed loop)
    (quiet : Kernel.Quiet (.sleep p (loop.chan p).address) m.kernel k') :
    WakeOk (Machine.goTo { m with kernel := k' } p (.asleep loop)) := by
  have slept := ok.quiet quiet fun q asleep chan event => by
    cases event
    rw [place] at asleep
    cases asleep
  by_cases waits : loop = .kwait
  · subst waits
    have others : ∀ q, q ≠ p → Waits (Machine.goTo { m with kernel := k' } p (.asleep .kwait)) q →
        Waits { m with kernel := k' } q := by
      rintro q other ⟨asleep, sleeping⟩
      rw [goTo_pc, update_of_ne other] at asleep
      exact ⟨asleep, sleeping⟩
    have idle : ∀ q visits, m.pc q ≠ .waking visits := by
      intro q visits waking
      have held : (m.pc q).holds = some .waitLock := by
        rw [waking]
        rfl
      have same := inv.exclusive held (q := p) (by rw [place]; rfl)
      rw [same, place] at waking
      cases waking
    have childless := scan p
    rw [place] at childless
    refine ⟨?_, ?_, ?_⟩
    · intro q waiting
      by_cases same : q = p
      · subst same
        have sleeping : (k'.proc q).state = .sleeping := waiting.2
        have running := inv.running q (by simp [place, Pc.holds])
        cases quiet.moved q with
        | slept chan event _ _ here =>
          cases event
          exact here
        | same state | selfKilled _ _ state | killed _ _ state =>
          rw [state, running] at sleeping
          cases sleeping
        | woken before | killedAsleep _ before | dispatched before =>
          rw [before] at running
          cases running
        | yielded event => cases event
      · exact slept.chan q (others q same waiting)
    · intro q i waiting child exited
      change (k'.proc i).parent = some q at child
      rw [(quiet.family i).parent] at child
      have zombie := (quiet.moved i).zombie_iff.mp exited
      by_cases same : q = p
      · subst same
        exact absurd (kind_eq_zombie.mpr zombie) (childless i child)
      · obtain ⟨r, visits, waking, -⟩ := ok.told q i ⟨(others q same waiting).1, by
            have sleeping : (k'.proc q).state = .sleeping := waiting.2
            cases quiet.moved q with
            | same state => exact state.symm.trans sleeping
            | slept chan event =>
              cases event
              exact absurd rfl same
            | killed event | killedAsleep event | selfKilled event | yielded event => cases event
            | woken _ after | dispatched _ after =>
              rw [after] at sleeping
              cases sleeping⟩ child zombie
        exact absurd waking (idle r visits)
    · intro q visits r waking
      rw [goTo_pc] at waking
      by_cases same : q = p
      · subst same
        rw [update_self] at waking
        cases waking
      · rw [update_of_ne same] at waking
        exact absurd waking (idle q visits)
  · refine slept.goTo p _ (fun visits waking => ?_) (fun _ => by simp) ?_
    · rw [show m.pc p = _ from waking] at place
      cases place
    · intro same
      cases same
      exact waits rfl

theorem turn_wake (inv : Seated m) (family : FamilyOk m.kernel.kin m.pc m.forker)
    (scan : ∀ p, ScanOk m.kernel.kin p (m.pc p)) (ok : WakeOk m) (turn : Turn m action m') :
    WakeOk m' := by
  have plain : ∀ {p : Slot} {place : Pc}, m.pc p = place → Plain place → ∀ visits,
      m.pc p ≠ .waking visits := by
    intro p place here ordinary visits
    rw [here]
    exact not_waking_of_plain ordinary visits
  cases turn with
  | @elsewhere e k' allowed quiet =>
    refine ok.quiet quiet fun p asleep chan event => ?_
    subst event
    rw [show m.pc p = .outside from allowed] at asleep
    cases asleep
  | @forkFailed p child _ _ _ q k' unused place state parent writes =>
    exact ok.writes writes (by simp [state]) (by simp [state]) (by simp [parent])
  | @forked p child _ _ _ q k' unused place running state pid parent writes =>
    have written := ok.writes writes (by simp [state]) (by simp [state])
      fun r child _ => parent.symm.trans child
    exact
      (written.goTo p (.forked child) (plain place trivial) (fun _ => nofun) nofun).congr rfl rfl
  | @kforkParent p child k' place free running newborn writes =>
    have used := inv.unborn child (by rw [newborn]; trivial)
    have moved := ok.goTo p (.parented child)
      (fun visits waking => by rw [place] at waking; cases waking) (fun _ => nofun) nofun
    refine moved.writes writes (by simp [used]) (by simp [used]) fun r own waiting => ?_
    exact absurd (Option.some.inj own).symm (waiting.of_goTo nofun).1
  | @kforkRunnable p child q k' place running unborn parent state family' writes =>
    have written := ok.writes writes (by simp [state]) (by simp [state])
      fun r child _ => family'.parent.symm.trans child
    exact written.goTo p _
      (fun visits waking => by rw [show m.pc p = _ from waking] at place; cases place)
      (fun _ => nofun) nofun
  | @kexitClose p q k' place running other state family' writes =>
    have written := ok.writes writes (by simp [state, running.1]) (by simp [state, running.1])
      fun r child _ => family'.parent.symm.trans child
    exact written.goTo p _ (plain place trivial) (fun _ => nofun) nofun
  | kexitReparent place free => exact (ok.reparent inv family place free).congr rfl rfl
  | kexitWakeup place => exact ok.wakeup place
  | kexitZombie place writes => exact (ok.exit place writes).congr rfl rfl
  | @reaped p i copied havekids place child zombie =>
    have moved := ok.goTo p .outside (plain place trivial) (fun _ => nofun) nofun
    have writes := inv.writes_freeproc zombie
    exact (moved.writes writes nofun nofun nofun).congr rfl rfl
  | @enter p loop place | @reacquire p loop place =>
    exact (ok.goTo p _ (plain place trivial) (not_waking_of_plain (plain_start loop))
      (start_ne_asleep loop)).congr rfl rfl
  | copyFailed place | kwaitLeave place | loopLeave place =>
    exact (ok.goTo _ .outside (plain place trivial) (fun _ => nofun) nofun).congr rfl rfl
  | visitChild place | visitOther place | kwaitPassed place | loopPassed place | again place =>
    exact ok.goTo _ _ (plain place trivial) (fun _ => nofun) nofun
  | sleep place quiet => exact (ok.sleep inv scan place quiet).congr rfl rfl

theorem KinshipOk.turn (ok : KinshipOk m) (turn : Turn m action m') : KinshipOk m' := by
  obtain ⟨family, record, scan⟩ := turn_kin ok.seated ok.family ok.record ok.scan turn
  exact ⟨ok.seated.turn turn, family, record, scan,
    turn_wake ok.seated ok.family ok.scan ok.wake turn⟩

theorem boot_slot {frame : Trapframe} {root : Nat} (other : i ≠ 0) :
    (Kernel.boot frame table root).kin.slot i = relative ({} : Proc Mem) .normal := by
  simp [Kernel.kin, Kernel.boot, other]

theorem boot_first (frame : Trapframe) (table : Mem) (root : Nat) :
    (Kernel.boot frame table root).kin.slot 0 = ⟨.alive, 1, none, 0, .normal⟩ := by
  simp [Kernel.kin, Kernel.boot, relative, kind]

theorem boot_occupied {frame : Trapframe} {root : Nat}
    (occupied : ((Kernel.boot frame table root).kin.slot i).kind ≠ .unused) : i = 0 := by
  by_contra other
  rw [boot_slot other] at occupied
  exact occupied rfl

theorem KinshipOk.boot (frame : Trapframe) (table : Mem) (root : Nat) :
    KinshipOk (Machine.boot frame table root) where
  seated := .boot frame table root
  family := by
    have slots : ∀ i, ((Kernel.boot frame table root).kin.slot i).parent = none ∧
        ((Kernel.boot frame table root).kin.slot i).position = .normal := by
      intro i
      by_cases first : i = 0
      · subst first
        exact ⟨rfl, rfl⟩
      · rw [boot_slot first]
        exact ⟨rfl, rfl⟩
    exact
      { inside := fun p inside => absurd rfl inside
        blank := fun i _ => slots i
        unborn := fun i unborn => by
          exact unborn.elim
        newborn := fun i p newborn => nomatch (slots i).2.symm.trans newborn
        forked := nofun
        parented := nofun
        closed := nofun
        waking := nofun
        init := by
          exact ⟨rfl, rfl, rfl⟩
        parent := fun i p child => nomatch (slots i).1.symm.trans child
        owned := fun i occupied _ other => absurd (boot_occupied occupied) other
        settled := fun i _ => Or.inl (slots i).2 }
  record :=
    { pids := fun i here => by
        change ((Kernel.boot frame table root).kin.slot i).pid < 2
        rw [boot_occupied here, boot_first]
        decide
      distinct := fun i j here there _ => (boot_occupied here).trans (boot_occupied there).symm
      past := nofun
      exitsOnce := List.nodup_nil
      zombie := fun i zombie => by
        change ((Kernel.boot frame table root).kin.slot i).kind = .zombie at zombie
        rw [boot_occupied (i := i) (by rw [zombie]; nofun), boot_first] at zombie
        cases zombie
      running := nofun
      kept := nofun
      reaped := nofun
      reapsOnce := List.nodup_nil }
  scan := fun _ => trivial
  wake :=
    { chan := fun _ waits => nomatch waits.1
      told := fun _ _ waits => nomatch waits.1
      tells := nofun }

theorem Reachable.kinshipOk {condition : Machine Mem → Action Mem → Prop}
    (reached : Reachable condition m) : KinshipOk m := by
  induction reached with
  | boot frame table root => exact .boot frame table root
  | step reached _ _ stepped ih =>
    exact ih.turn (reached.turn stepped)

/-! ## Exactly once -/

theorem accounted {exits : List Exit} {reaps : List Reap}
    (ok : RecordOk kin exits reaps) {e : Exit} (exited : e ∈ exits) :
    ((reaps.map Reap.child).count e = 1 ∧
      ∀ i, (kin.slot i).kind ≠ .unused → (kin.slot i).pid ≠ e.pid) ∨
    ((reaps.map Reap.child).count e = 0 ∧
      ∃ i, (kin.slot i).kind = .zombie ∧ (kin.slot i).pid = e.pid ∧
        (kin.slot i).xstate = e.xstate) := by
  have once : (reaps.map Reap.child).Nodup := by
    refine List.Nodup.of_map Exit.pid ?_
    rw [List.map_map]
    exact ok.reapsOnce
  by_cases returned : e ∈ reaps.map Reap.child
  · left
    obtain ⟨r, mem, rfl⟩ := List.mem_map.mp returned
    exact ⟨List.count_eq_one_of_mem once returned, (ok.reaped r mem).2.2⟩
  · right
    refine ⟨List.count_eq_zero_of_not_mem returned, ?_⟩
    rcases ok.kept e exited with ⟨r, mem, rfl⟩ | zombie
    · exact absurd (List.mem_map_of_mem mem) returned
    · exact zombie

theorem step_kwaitVisit {havekids : Bool} (inv : Seated m)
    (ok : FamilyOk m.kernel.kin m.pc m.forker) (place : m.pc p = .scan i havekids)
    (copied : Bool) :
    m.step (.kwaitVisit p copied) = some (m.visited p i i havekids ((m.kernel.kwait p i copied).1,
        { m with kernel := (m.kernel.kwait p i copied).2 })) := by
  have running : m.kernel.Running p := by
    refine ⟨inv.running p (by simp [place, Pc.holds]), ?_⟩
    rcases ok.settled p (ok.inside p (by simp [place])) with normal | closed | ⟨visits, waking⟩
    · exact normal
    · rw [place] at closed
      cases closed
    · rw [place] at waking
      cases waking
  simp only [Machine.step, place, i.isLt, dif_pos, perform, Kernel.step, if_pos running,
    Option.map_some, Fin.eta]

theorem parent_of_writes {position : Position} {j : Slot}
    (writes : Kernel.Writes k k' j q position nextPid)
    (own : ∀ p, q.parent = some p → (k.proc j).parent = some p)
    (child : (k'.proc i).parent = some p) : (k.proc i).parent = some p := by
  rw [writes.proc] at child
  by_cases same : i = j
  · subst same
    rw [update_self] at child
    exact own p child
  · rwa [update_of_ne same] at child

/-- A parent is recorded by the process that forked the child, and changes only in `reparent`. -/
theorem parent_of_turn (seated : Seated m) (turn : Turn m action m')
    (child : (m'.kernel.proc i).parent = some p) :
    (m.kernel.proc i).parent = some p ∨ (action = .kforkParent p ∧ m.pc p = .forked i) ∨
      ∃ exiting, action = .kexitReparent exiting ∧
        (m.kernel.proc i).parent = some exiting ∧ p = m.kernel.initproc := by
  cases turn with
  | elsewhere _ quiet | sleep _ quiet => exact .inl ((quiet.family i).parent ▸ child)
  | @kexitWakeup _ j chan =>
    exact .inl (((Kernel.quiet_wakeup (e := .pickNext) j chan).family i).parent ▸ child)
  | forkFailed _ _ _ parent writes =>
    exact .inl (parent_of_writes writes (fun _ own => nomatch parent.symm.trans own) child)
  | forked _ _ _ _ _ parent writes =>
    exact .inl (parent_of_writes writes (fun _ own => parent ▸ own) child)
  | kforkRunnable _ _ _ _ _ family writes | kexitClose _ _ _ _ family writes =>
    exact .inl (parent_of_writes writes (fun _ own => family.parent ▸ own) child)
  | kexitZombie _ writes => exact .inl (parent_of_writes writes (fun _ own => own) child)
  | reaped _ _ zombie =>
    exact .inl (parent_of_writes (seated.writes_freeproc zombie) nofun child)
  | @kforkParent forker born _ place _ _ _ writes =>
    dsimp only [goTo] at child
    rw [writes.proc] at child
    by_cases same : i = born
    · subst same
      rw [update_self] at child
      obtain rfl : forker = p := Option.some.inj child
      exact .inr (.inl ⟨rfl, place⟩)
    · exact .inl (by rwa [update_of_ne same] at child)
  | @kexitReparent exiting =>
    dsimp only [goTo, acquire, Kernel.moveTo, Kernel.reparent] at child
    split at child
    · next own => exact .inr (.inr ⟨exiting, rfl, own, (Option.some.inj child).symm⟩)
    · exact .inl child
  | _ => exact .inl child

/-- In every interleaving: a parent is a live process, the forker or the first process, and the
first process only from `reparent` on; a process that exits is returned by one `kwait`, of its
parent at that time, with its pid and status, or is a zombie with a live parent; `kwait` returns
an exited child, or leaves it as it is if the copy fails, and finds no child only if there is none;
and a parent asleep in `kwait` with an exited child is about to be woken. -/
theorem exit_wait_exactly_once (reached : Reachable Free m) :
    (∀ i p, (m.kernel.proc i).state ≠ .unused → (m.kernel.proc i).parent = some p →
      (m.kernel.proc p).state ≠ .unused ∧ (m.kernel.proc p).state ≠ .zombie ∧
        ((m.kernel.proc p).pid = m.forker i ∨ p = m.kernel.initproc)) ∧
    (m.exits.map Exit.pid).Nodup ∧
    (∀ e ∈ m.exits, ((m.reaps.map Reap.child).count e = 1 ∧
        ∀ i, (m.kernel.proc i).state ≠ .unused → (m.kernel.proc i).pid ≠ e.pid) ∨
      ((m.reaps.map Reap.child).count e = 0 ∧
        ∃ i p, (m.kernel.proc i).state = .zombie ∧ (m.kernel.proc i).parent = some p ∧
          (m.kernel.proc i).pid = e.pid ∧ (m.kernel.proc i).xstate = e.xstate)) ∧
    (∀ r ∈ m.reaps, r.child ∈ m.exits ∧
      (r.caller = r.forker ∨ r.caller = (m.kernel.proc m.kernel.initproc).pid)) ∧
    (∀ action m', m.step action = some m' →
      (∀ i p, (m'.kernel.proc i).parent = some p → (m.kernel.proc i).parent = some p ∨
        (action = .kforkParent p ∧ m.pc p = .forked i) ∨ ∃ exiting,
          action = .kexitReparent exiting ∧ (m.kernel.proc i).parent = some exiting ∧
            p = m.kernel.initproc) ∧
      (m'.reaps = m.reaps ∨ ∃ p i havekids copied, action = .kwaitVisit p copied ∧
        m.pc p = .scan i.val havekids ∧ (m.kernel.proc i).parent = some p ∧
        (m.kernel.proc i).state = .zombie ∧
        m'.reaps = m.reaps ++ [⟨(m.kernel.proc p).pid, m.forker i,
          ⟨(m.kernel.proc i).pid, (m.kernel.proc i).xstate⟩⟩])) ∧
    (∀ p i havekids, m.pc p = .scan i.val havekids → (m.kernel.proc i).parent = some p →
      (m.kernel.proc i).state = .zombie →
      (∃ m', m.step (.kwaitVisit p true) = some m' ∧
        m'.reaps = m.reaps ++ [⟨(m.kernel.proc p).pid, m.forker i,
          ⟨(m.kernel.proc i).pid, (m.kernel.proc i).xstate⟩⟩]) ∧
      ∃ m', m.step (.kwaitVisit p false) = some m' ∧ m'.kernel = m.kernel ∧ m'.reaps = m.reaps) ∧
    (∀ p next, m.pc p = .scan next false → NPROC ≤ next →
      ∀ i, (m.kernel.proc i).parent ≠ some p ∧ m.kernel.position i ≠ .newborn p) ∧
    (∀ p i, m.Waits p → (m.kernel.proc i).parent = some p → (m.kernel.proc i).state = .zombie →
      ∃ q visits, m.pc q = .waking visits ∧ wakes p ∈ visits) := by
  obtain ⟨seated, family, record, scan, wake⟩ := reached.kinshipOk
  refine ⟨?_, record.exitsOnce, ?_, ?_, ?_, ?_, ?_, wake.told⟩
  · intro i p _ child
    obtain ⟨-, alive, forker⟩ := family.parent i p child
    have living := alive_iff.mp (kind_eq_alive.mp alive)
    exact ⟨living.1, living.2.2, forker⟩
  · intro e exited
    rcases accounted record exited with ⟨once, gone⟩ | ⟨none, i, zombie, pid, xstate⟩
    · exact Or.inl ⟨once, fun i occupied => gone i fun unused =>
        occupied (kind_eq_unused.mp unused)⟩
    · have notInit : i ≠ m.kernel.initproc := by
        rintro rfl
        exact absurd (zombie.symm.trans family.init.1) nofun
      have normal : ∀ p, (m.kernel.kin.slot i).position ≠ .newborn p := by
        intro p newborn
        exact absurd (zombie.symm.trans (family.unborn i (by rw [newborn]; trivial))) nofun
      obtain ⟨p, child⟩ := family.owned i (by rw [zombie]; nofun) normal notInit
      exact Or.inr ⟨none, i, p, kind_eq_zombie.mp zombie, child, pid, xstate⟩
  · intro r member
    obtain ⟨exited, caller, -⟩ := record.reaped r member
    exact ⟨exited, caller.imp_right fun first => first.trans family.init.2.1.symm⟩
  · intro action m' stepped
    have turn := reached.turn stepped
    refine ⟨fun i p => parent_of_turn seated turn, ?_⟩
    cases turn with
    | @reaped p i copied havekids place child zombie =>
      exact .inr ⟨p, i, havekids, copied, rfl, place, child, zombie, rfl⟩
    | _ => exact .inl rfl
  · intro p i havekids place child zombie
    constructor
    · refine ⟨_, step_kwaitVisit seated family place true, ?_⟩
      simp only [Kernel.kwait, if_pos child, if_pos zombie, if_true]
      rfl
    · refine ⟨_, step_kwaitVisit seated family place false, ?_⟩
      simp only [Kernel.kwait, if_pos child, if_pos zombie, Bool.false_eq_true, if_false]
      exact ⟨rfl, rfl⟩
  · intro p next place all i
    have scanned := scan p
    rw [place] at scanned
    refine ⟨fun child => ?_, fun newborn => ?_⟩
    · exact absurd (scanned.1 i (i.isLt.trans_le all) child).1 nofun
    · rw [(family.newborn i p newborn).1] at place
      cases place

/-- `kkill` reaches one process at most, and with the pid of a process that has exited none but
that process itself. -/
theorem kkill_reaches_one_process (reached : Reachable Free m) :
    (∀ i j pid, (m.kernel.proc i).state ≠ .unused → (m.kernel.proc j).state ≠ .unused →
      (m.kernel.kkill i pid).1 = .ret 0 → (m.kernel.kkill j pid).1 = .ret 0 → i = j) ∧
    ∀ e ∈ m.exits, e.pid < m.kernel.nextPid ∧ ∀ i, (m.kernel.proc i).state ≠ .unused →
      (m.kernel.proc i).state ≠ .zombie → m.kernel.kkill i e.pid = (.silent, m.kernel) := by
  obtain ⟨-, -, record, -⟩ := reached.kinshipOk
  have found : ∀ {i pid}, (m.kernel.kkill i pid).1 = .ret 0 → (m.kernel.proc i).pid = pid := by
    intro i pid marked
    by_contra other
    simp [Kernel.kkill, other] at marked
  refine ⟨fun i j pid here there marked marked' => ?_, fun e exited =>
    ⟨record.past e exited, fun i occupied alive => if_neg fun same => ?_⟩⟩
  · exact record.distinct i j (mt kind_eq_unused.mp here) (mt kind_eq_unused.mp there)
      ((found marked).trans (found marked').symm)
  · exact record.running i (mt kind_eq_unused.mp occupied) (mt kind_eq_zombie.mp alive) e exited
      same.symm

/-- The first process forks a child; the child exits with status 7, makes the visits of
`wakeup`, and is found by the first process's `kwait` in slot 1. -/
def firstChild : List (Action Unit) :=
  [.elsewhere (.dispatch 0), .kfork 0 1 (some fun _ => 0) (some ()) (some ()), .kforkParent 0,
    .kforkRunnable 0, .elsewhere (.dispatch 1), .kexitClose 1, .kexitReparent 1] ++
  List.replicate 63 (.kexitWakeup 1) ++
  [.kexitZombie 1 7, .enter 0 .kwait, .kwaitVisit 0 true, .kwaitVisit 0 true]

set_option maxRecDepth 4000 in
theorem exit_wait_of_first_child :
    ∃ m : Machine Unit, Reachable Free m ∧ m.exits = [⟨2, 7⟩] ∧ m.reaps = [⟨1, 1, ⟨2, 7⟩⟩] ∧
      (((m.reaps.map Reap.child).count ⟨2, 7⟩ = 1 ∧
          ∀ i, (m.kernel.proc i).state ≠ .unused → (m.kernel.proc i).pid ≠ 2) ∨
        ((m.reaps.map Reap.child).count ⟨2, 7⟩ = 0 ∧
          ∃ i p, (m.kernel.proc i).state = .zombie ∧ (m.kernel.proc i).parent = some p ∧
            (m.kernel.proc i).pid = 2 ∧ (m.kernel.proc i).xstate = 7)) := by
  have ran : ∃ m, (Machine.boot (fun _ => 0) () 0).run firstChild = some m ∧
      m.exits = [⟨2, 7⟩] ∧ m.reaps = [⟨1, 1, ⟨2, 7⟩⟩] := ⟨_, rfl, rfl, rfl⟩
  obtain ⟨m, run, exits, reaps⟩ := ran
  have reached := (Reachable.boot (fun _ => 0) () 0).run firstChild run
  refine ⟨m, reached, exits, reaps, ?_⟩
  exact (exit_wait_exactly_once reached).2.2.1 ⟨2, 7⟩
    (by rw [exits]; exact List.mem_singleton_self _)

set_option maxRecDepth 4000 in
/-- The slot of the child is used again: a signal to the new child reaches nobody else, and one to
the old child leaves the new one alone. -/
theorem kkill_reaches_second_child : ∃ m : Machine Unit, (m.kernel.kkill 1 3).1 = .ret 0 ∧
    (∀ j, (m.kernel.proc j).state ≠ .unused → (m.kernel.kkill j 3).1 = .ret 0 → 1 = j) ∧
    m.kernel.kkill 1 2 = (.silent, m.kernel) := by
  have ran : ∃ m, (Machine.boot (fun _ => 0) () 0).run
        (firstChild ++ [.kfork 0 1 (some fun _ => 0) (some ()) (some ())]) = some m ∧
      m.exits = [⟨2, 7⟩] ∧ (m.kernel.kkill 1 3).1 = .ret 0 ∧ (m.kernel.proc 1).state = .used :=
    ⟨_, rfl, rfl, rfl, rfl⟩
  obtain ⟨m, run, exits, marked, used⟩ := ran
  obtain ⟨one, past⟩ := kkill_reaches_one_process
    ((Reachable.boot (fun _ => 0) () 0).run _ run)
  have occupied : (m.kernel.proc 1).state ≠ .unused := by simp [used]
  refine ⟨m, marked, fun j there => one 1 j 3 occupied there marked, ?_⟩
  exact (past ⟨2, 7⟩ (by simp [exits])).2 1 occupied (by simp [used])

end Machine

end Xv6.ProcTable
