import Xv6.Log.Model

/-!
# Crash atomicity of the log

The disk stands for its `view`: the home blocks, with those the header names read from their
copies. Only the first `write_head` of a commit changes the view, and it adds the whole
transaction at once.
-/

namespace Xv6.Log

open RedoLog
open Function

variable {b : BlockNo} {lh : List BlockNo} {disk : Disk} {tail : Nat} {recovering : Bool}
variable {g : Geometry}

/-- What the disk stands for. -/
def Geometry.view (g : Geometry) (disk : Disk) : Disk :=
  logical g.copy (readHead (disk g.start)) disk

/-- The initial disk with the transactions whose header was written. -/
def LogState.durable (s : LogState) (initial : Disk) : Disk :=
  applyAll (s.started.take s.reached) initial

/-- A block list that fits the log and names home blocks, each once. -/
structure ValidHead (g : Geometry) (lh : List BlockNo) : Prop where
  distinct : lh.Nodup
  home : ∀ b ∈ lh, g.Home b
  small : lh.length ≤ LOGBLOCKS

/-- The cache holds the disk with `txn` on top, and differs from it only in the
blocks of the log. -/
structure Pending (g : Geometry) (s : LogState) (txn : Txn BlockNo Block) :
    Prop where
  latest : ∀ b, g.Home b → s.buf b = txn.apply s.disk b
  clean : ∀ b, b ∉ s.lh → s.buf b = s.disk b

structure WritingLog (g : Geometry) (s : LogState) (tail : Nat) : Prop where
  quiet : s.outstanding = 0
  fresh : s.current = []
  empty : readHead (s.disk g.start) = []
  inside : tail ≤ s.lh.length
  copied : ∀ i (more : i < s.lh.length), i < tail → s.disk (g.copy i) = s.buf s.lh[i]
  pending : ∃ txn, s.started = s.started.take s.reached ++ [txn] ∧ Pending g s txn

structure Installing (g : Geometry) (s : LogState) (recovering : Bool)
    (tail : Nat) : Prop where
  quiet : s.outstanding = 0
  fresh : s.current = []
  named : readHead (s.disk g.start) = s.lh
  inside : tail ≤ s.lh.length
  installed : ∀ i (more : i < s.lh.length), i < tail → s.disk s.lh[i] = s.disk (g.copy i)
  clean : ∀ b, recovering = true ∨ b ∉ s.lh.drop tail → s.buf b = s.disk b

structure Idle (g : Geometry) (s : LogState) : Prop where
  empty : readHead (s.disk g.start) = []
  settled : s.started.length = s.reached
  pending : Pending g s s.current
  committed : s.committing = true → s.outstanding = 0

structure Crashed (s : LogState) : Prop where
  quiet : s.outstanding = 0
  fresh : s.current = []
  dropped : s.lh = []
  cold : s.buf = s.disk

def AtPhase (g : Geometry) (s : LogState) : Prop :=
  match s.phase with
  | .idle => Idle g s
  | .writeLog tail => WritingLog g s tail
  | .installTrans recovering tail => Installing g s recovering tail
  | .recoverFromLog => Crashed s

structure Inv (g : Geometry) (initial : Disk) (s : LogState) : Prop where
  memory : ValidHead g s.lh
  header : ValidHead g (readHead (s.disk g.start))
  counted : s.reached ≤ s.started.length
  view : ∀ b, g.Home b → g.view s.disk b = s.durable initial b
  phase : AtPhase g s

/-! ## The writes and the view -/

theorem ValidHead.nil (g : Geometry) : ValidHead g [] where
  distinct := List.nodup_nil
  home := by simp
  small := Nat.zero_le _

theorem ValidHead.absorb (valid : ValidHead g lh) (home : g.Home b)
    (small : lh.length < LOGBLOCKS) : ValidHead g (absorb lh b) where
  distinct := absorb_nodup valid.distinct b
  home := by
    intro c mem
    rcases mem_absorb.mp mem with old | rfl
    · exact valid.home c old
    · exact home
  small := (length_absorb_le lh b).trans small

theorem view_of_empty (empty : readHead (disk g.start) = []) : g.view disk = disk := by
  rw [Geometry.view, empty, logical_nil]

theorem readHead_update_of_ne (disk : Disk) (other : b ≠ g.start) (contents : Block) :
    readHead (update disk b contents g.start) = readHead (disk g.start) := by
  rw [update_of_ne other.symm]

theorem view_update_copy (small : tail < LOGBLOCKS) (empty : readHead (disk g.start) = [])
    (contents : Block) (home : g.Home b) :
    g.view (update disk (g.copy tail) contents) b = g.view disk b := by
  have kept := readHead_update_of_ne disk (g.copy_ne_start small) contents
  rw [view_of_empty empty, view_of_empty (kept.trans empty), update_of_ne (home.ne_copy small)]

theorem view_install (valid : ValidHead g lh) (named : readHead (disk g.start) = lh)
    (more : tail < lh.length) (b : BlockNo) :
    g.view (update disk lh[tail] (disk (g.copy tail))) b = g.view disk b := by
  have home := valid.home _ (List.getElem_mem more)
  have small := valid.small
  unfold Geometry.view
  rw [readHead_update_of_ne disk home.ne_start, named]
  apply logical_install valid.distinct more
  intro j inside
  exact (home.ne_copy (by omega)).symm

theorem view_update_start (small : lh.length ≤ LOGBLOCKS) (old : Block) (home : g.Home b) :
    g.view (update disk g.start (writeHead old lh)) b = logical g.copy lh disk b := by
  unfold Geometry.view
  rw [update_self, readHead_writeHead old lh small]
  apply logical_update_of_ne _ home.ne_start
  intro i inside
  exact g.copy_ne_start (by omega)

theorem logical_of_copied {s : LogState} {txn : Txn BlockNo Block} (valid : ValidHead g s.lh)
    (pending : Pending g s txn)
    (copied : ∀ i (more : i < s.lh.length), s.disk (g.copy i) = s.buf s.lh[i])
    (home : g.Home b) : logical g.copy s.lh s.disk b = txn.apply s.disk b := by
  by_cases mem : b ∈ s.lh
  · obtain ⟨i, inside, rfl⟩ := List.getElem_of_mem mem
    rw [logical_target valid.distinct inside, copied i inside, pending.latest _ home]
  · rw [logical_of_notMem mem, ← pending.latest b home, pending.clean b mem]

/-! ## What each step preserves -/

section Steps

variable {initial : Disk} {s : LogState}

section

variable (inv : Inv g initial s)
include inv

theorem Inv.idle (here : s.phase = .idle) : Idle g s := by
  have := inv.phase
  rwa [AtPhase, here] at this

theorem Inv.writingLog (here : s.phase = .writeLog tail) : WritingLog g s tail := by
  have := inv.phase
  rwa [AtPhase, here] at this

theorem Inv.installing (here : s.phase = .installTrans recovering tail) :
    Installing g s recovering tail := by
  have := inv.phase
  rwa [AtPhase, here] at this

theorem Inv.crashed (here : s.phase = .recoverFromLog) : Crashed s := by
  have := inv.phase
  rwa [AtPhase, here] at this

theorem Inv.idle_of_outstanding (busy : s.outstanding ≠ 0) : s.phase = .idle := by
  cases here : s.phase with
  | idle => rfl
  | writeLog tail => exact absurd (inv.writingLog here).quiet busy
  | installTrans recovering tail => exact absurd (inv.installing here).quiet busy
  | recoverFromLog => exact absurd (inv.crashed here).quiet busy

end

theorem inv_boot (empty : readHead (initial g.start) = []) : Inv g initial (.boot initial) where
  memory := .nil g
  header := empty ▸ .nil g
  counted := Nat.le_refl 0
  view := fun b _ => congrFun (view_of_empty empty) b
  phase :=
    { empty := empty
      settled := rfl
      pending := ⟨fun _ _ => rfl, fun _ _ => rfl⟩
      committed := fun _ => rfl }

section

variable (inv : Inv g initial s)
include inv

theorem inv_counters (here : s.phase = .idle) (outstanding : Nat) (committing : Bool)
    (quiet : committing = true → outstanding = 0) :
    Inv g initial { s with outstanding := outstanding, committing := committing } := by
  have idle := inv.idle here
  have pending := idle.pending
  refine ⟨inv.memory, inv.header, inv.counted, inv.view, ?_⟩
  simp only [AtPhase, here]
  exact ⟨idle.empty, idle.settled, ⟨pending.latest, pending.clean⟩, quiet⟩

theorem inv_logWrite (contents : Block) (small : s.lh.length < LOGBLOCKS) (busy : 1 ≤ s.outstanding)
    (home : g.Home b) :
    Inv g initial
      { s with
        buf := update s.buf b contents
        lh := absorb s.lh b
        current := s.current ++ [(b, contents)] } := by
  have here := inv.idle_of_outstanding (by omega)
  have idle := inv.idle here
  refine ⟨inv.memory.absorb home small, inv.header, inv.counted, inv.view, ?_⟩
  simp only [AtPhase, here]
  refine ⟨idle.empty, idle.settled, ⟨?_, ?_⟩, idle.committed⟩
  · intro c homeC
    rw [Txn.apply_concat]
    by_cases same : c = b
    · subst same
      simp
    · simp only [update_of_ne same, idle.pending.latest c homeC]
  · intro c absent
    rw [mem_absorb, not_or] at absent
    simp only [update_of_ne absent.2, idle.pending.clean c absent.1]

theorem inv_endLastOpCommit (last : s.outstanding = 1) : Inv g initial
      { s with
        outstanding := 0
        committing := true
        phase := .writeLog 0
        current := []
        started := s.started ++ [s.current] } := by
  have idle := inv.idle (inv.idle_of_outstanding (by omega))
  have settled : (s.started ++ [s.current]).take s.reached = s.started := by
    simp [← idle.settled]
  refine ⟨inv.memory, inv.header, ?_, ?_, ?_⟩
  · simp [← idle.settled]
  · intro b home
    have view := inv.view b home
    rwa [LogState.durable, ← idle.settled, List.take_length, ← settled] at view
  · exact
      { quiet := rfl
        fresh := rfl
        empty := idle.empty
        inside := Nat.zero_le _
        copied := fun i _ none => absurd none (Nat.not_lt_zero i)
        pending := ⟨s.current, by rw [settled],
          ⟨idle.pending.latest, idle.pending.clean⟩⟩ }

theorem inv_writeLog (here : s.phase = .writeLog tail) (more : tail < s.lh.length) : Inv g initial
      { s.bwrite (g.copy tail) (s.buf s.lh[tail]) with
        phase := .writeLog (tail + 1) } := by
  have writing := inv.writingLog here
  have small : tail < LOGBLOCKS := more.trans_le inv.memory.small
  have header := readHead_update_of_ne s.disk (g.copy_ne_start small) (s.buf s.lh[tail])
  have apart : ∀ b ∈ s.lh, b ≠ g.copy tail := fun b mem =>
    (inv.memory.home b mem).ne_copy small
  refine ⟨inv.memory, header.symm ▸ inv.header, inv.counted, ?_, ?_⟩
  · intro b home
    exact (view_update_copy small writing.empty _ home).trans (inv.view b home)
  · obtain ⟨txn, split, pending⟩ := writing.pending
    exact
      { quiet := writing.quiet
        fresh := writing.fresh
        empty := header.trans writing.empty
        inside := more
        copied := by
          intro i (inside : i < s.lh.length) before
          change update s.disk _ _ (g.copy i) = update s.buf _ _ s.lh[i]
          rw [update_of_ne (apart _ (List.getElem_mem inside))]
          by_cases same : i = tail
          · subst same
            simp
          · have other : g.copy i ≠ g.copy tail := fun equal =>
              same (g.copy_injective (inside.trans_le inv.memory.small) small equal)
            rw [update_of_ne other]
            exact writing.copied i inside (by omega)
        pending := by
          refine ⟨txn, split, ?_, ?_⟩
          · intro b home
            have other := home.ne_copy small
            have same : update s.disk (g.copy tail) (s.buf s.lh[tail]) b =
                s.disk b := update_of_ne other _ _
            simp only [LogState.bwrite, update_of_ne other]
            rw [txn.apply_congr same]
            exact pending.latest b home
          · intro b absent
            by_cases same : b = g.copy tail
            · subst same
              simp [LogState.bwrite]
            · simp only [LogState.bwrite, update_of_ne same]
              exact pending.clean b absent }

theorem inv_writeHead (here : s.phase = .writeLog s.lh.length) : Inv g initial
      { s.bwrite g.start (writeHead (s.buf g.start) s.lh) with
        phase := .installTrans false 0
        reached := s.reached + 1 } := by
  have writing := inv.writingLog here
  obtain ⟨txn, split, pending⟩ := writing.pending
  have header : readHead (update s.disk g.start
      (writeHead (s.buf g.start) s.lh) g.start) = s.lh := by
    rw [update_self, readHead_writeHead _ _ inv.memory.small]
  have counted : s.started.length = s.reached + 1 := by
    have length := congrArg List.length split
    simp only [List.length_append, List.length_take, List.length_singleton] at length
    omega
  refine ⟨inv.memory, header.symm ▸ inv.memory, counted.ge, ?_, ?_⟩
  · intro b home
    have before := inv.view b home
    rw [view_of_empty writing.empty] at before
    calc g.view (update s.disk g.start
            (writeHead (s.buf g.start) s.lh)) b
        = logical g.copy s.lh s.disk b := view_update_start inv.memory.small _ home
      _ = txn.apply s.disk b := logical_of_copied inv.memory pending
            (fun i more => writing.copied i more more) home
      _ = txn.apply (applyAll (s.started.take s.reached) initial) b := txn.apply_congr before
      _ = applyAll (s.started.take (s.reached + 1)) initial b := by
          rw [← applyAll_concat, ← split, ← counted, List.take_length]
  · refine ⟨writing.quiet, writing.fresh, header, Nat.zero_le _, ?_, ?_⟩
    · intro i _ none
      exact absurd none (Nat.not_lt_zero i)
    · intro b absent
      by_cases same : b = g.start
      · subst same
        simp [LogState.bwrite]
      · simp only [LogState.bwrite, update_of_ne same]
        apply pending.clean
        rcases absent with never | absent
        · cases never
        · exact absent

theorem inv_installTrans (here : s.phase = .installTrans recovering tail)
    (more : tail < s.lh.length) :
    Inv g initial
      { s.bwrite s.lh[tail] (s.buf (g.copy tail)) with
        phase := .installTrans recovering (tail + 1) } := by
  have installing := inv.installing here
  have valid := inv.memory
  have home := valid.home _ (List.getElem_mem more)
  have apart : ∀ i < s.lh.length, g.copy i ≠ s.lh[tail] := fun i inside =>
    (home.ne_copy (inside.trans_le valid.small)).symm
  have source : s.buf (g.copy tail) = s.disk (g.copy tail) := by
    apply installing.clean
    right
    intro mem
    have copyHome := valid.home _ (List.mem_of_mem_drop mem)
    exact copyHome.ne_copy (more.trans_le valid.small) rfl
  have header := readHead_update_of_ne s.disk home.ne_start (s.buf (g.copy tail))
  refine ⟨valid, header.symm ▸ inv.header, inv.counted, ?_, ?_⟩
  · intro b homeB
    change g.view (update s.disk s.lh[tail] (s.buf (g.copy tail))) b = s.durable initial b
    rw [source, view_install valid installing.named more b, inv.view b homeB]
  · refine ⟨installing.quiet, installing.fresh, header.trans installing.named, more, ?_, ?_⟩
    · intro i (inside : i < s.lh.length) before
      change update s.disk _ _ s.lh[i] = update s.disk _ _ (g.copy i)
      rw [update_of_ne (apart i inside)]
      by_cases same : i = tail
      · subst same
        rw [update_self, source]
      · have other : s.lh[i] ≠ s.lh[tail] := fun equal =>
          same ((valid.distinct.getElem_inj_iff).mp equal)
        rw [update_of_ne other]
        exact installing.installed i inside (by omega)
    · intro b absent
      by_cases same : b = s.lh[tail]
      · subst same
        simp [LogState.bwrite]
      · simp only [LogState.bwrite, update_of_ne same]
        apply installing.clean
        refine absent.imp_right fun later => ?_
        rw [List.drop_eq_getElem_cons more, List.mem_cons, not_or]
        exact ⟨same, later⟩

theorem disk_eq_durable_of_installed (here : s.phase = .installTrans recovering s.lh.length)
    (home : g.Home b) : s.disk b = s.durable initial b := by
  have installing := inv.installing here
  have view := inv.view b home
  rw [Geometry.view, installing.named, logical_eq_store_of_installed
    inv.memory.distinct (fun i more => installing.installed i more more)] at view
  exact view

end

theorem readHead_clear (disk buf : Disk) :
    readHead (update disk g.start (writeHead (buf g.start) []) g.start) = [] := by
  rw [update_self]
  exact readHead_writeHead _ [] (Nat.zero_le _)

section

variable (inv : Inv g initial s)
include inv

theorem inv_clearHead (here : s.phase = .installTrans recovering s.lh.length) :
    Inv g initial
      { s.bwrite g.start (writeHead (s.buf g.start) []) with
        lh := []
        phase := .idle
        started := s.started.take s.reached } := by
  have installing := inv.installing here
  have header := readHead_clear (g := g) s.disk s.buf
  have settled : (s.started.take s.reached).length = s.reached := List.length_take_of_le inv.counted
  refine ⟨.nil g, header.symm ▸ .nil g, settled.ge, ?_, ?_⟩
  · intro b home
    change g.view (update s.disk g.start _) b =
      applyAll ((s.started.take s.reached).take s.reached) initial b
    rw [view_of_empty header, update_of_ne home.ne_start, List.take_take, Nat.min_self]
    exact disk_eq_durable_of_installed inv here home
  · have clean : update s.buf g.start (writeHead (s.buf g.start) []) =
        update s.disk g.start (writeHead (s.buf g.start) []) := by
      congr 1
      funext b
      exact installing.clean b (Or.inr (by simp))
    refine ⟨header, settled, ⟨?_, ?_⟩, fun _ => installing.quiet⟩
    · intro b _
      simp only [LogState.bwrite, installing.fresh]
      exact congrFun clean b
    · intro b _
      exact congrFun clean b

theorem inv_recoverFromLog (here : s.phase = .recoverFromLog) :
    Inv g initial
      { s with
        lh := readHead (s.buf g.start)
        phase := .installTrans true 0 } := by
  have crashed := inv.crashed here
  have named : readHead (s.disk g.start) = readHead (s.buf g.start) := by
    rw [crashed.cold]
  refine ⟨named ▸ inv.header, inv.header, inv.counted, inv.view, ?_⟩
  refine ⟨crashed.quiet, crashed.fresh, named, Nat.zero_le _, ?_, ?_⟩
  · intro i _ none
    exact absurd none (Nat.not_lt_zero i)
  · intro b _
    exact congrFun crashed.cold b

theorem inv_evict (unpinned : b ∉ s.pinned) :
    Inv g initial { s with buf := update s.buf b (s.disk b) } := by
  have unchanged : update s.buf b (s.disk b) = s.buf := by
    suffices clean : s.buf b = s.disk b by
      rw [← clean, update_eq_self]
    unfold LogState.pinned at unpinned
    cases here : s.phase with
    | idle =>
      rw [here] at unpinned
      exact (inv.idle here).pending.clean b unpinned
    | writeLog tail =>
      rw [here] at unpinned
      obtain ⟨_, _, pending⟩ := (inv.writingLog here).pending
      exact pending.clean b unpinned
    | installTrans recovering tail =>
      rw [here] at unpinned
      apply (inv.installing here).clean
      cases recovering with
      | false => exact Or.inr unpinned
      | true => exact Or.inl rfl
    | recoverFromLog => exact congrFun (inv.crashed here).cold b
  rw [unchanged]
  exact inv

theorem inv_step {s' : LogState} (step : Step g s s') :
    Inv g initial s' := by
  cases step with
  | beginOp idle free room => exact inv_counters inv idle _ _ (by simp [free])
  | logWrite b contents small inside home =>
    exact inv_logWrite inv contents small inside home
  | endOp busy free =>
    exact inv_counters inv (inv.idle_of_outstanding (by omega)) _ _ (by simp [free])
  | endLastOp last free empty =>
    exact inv_counters inv (inv.idle_of_outstanding (by omega)) _ _ (fun _ => rfl)
  | endLastOpCommit last free pending => exact inv_endLastOpCommit inv last
  | endCommit idle busy => exact inv_counters inv idle _ _ (by simp)
  | writeLog tail here more => exact inv_writeLog inv here more
  | writeHead here => exact inv_writeHead inv here
  | installTrans recovering tail here more => exact inv_installTrans inv here more
  | clearHead recovering here => exact inv_clearHead inv here
  | recoverFromLog here => exact inv_recoverFromLog inv here
  | evict b unpinned => exact inv_evict inv unpinned
  | crash => exact ⟨.nil g, inv.header, inv.counted, inv.view, rfl, rfl, rfl, rfl⟩

end

theorem inv_of_reachable (reach : Reachable g initial s) : Inv g initial s := by
  induction reach with
  | boot empty => exact inv_boot empty
  | step before step ih => exact inv_step ih step

end Steps

/-! ## Atomicity -/

/-- When a recovery completes, the home blocks hold the initial contents with a
prefix of the transactions `commit` was entered for, all those among them whose
header was written, and the header on the disk is empty. -/
theorem recover_from_log_atomic (g : Geometry) (initial : Disk)
    (s s' : LogState) (reachable : Reachable g initial s) (step : Step g s s')
    (recovering : ∃ tail, s.phase = .installTrans true tail)
    (complete : s'.phase = .idle) :
    (∃ count, s.reached ≤ count ∧ count ≤ s.started.length ∧ ∀ b, g.Home b →
        s'.disk b = applyAll (s.started.take count) initial b) ∧
    readHead (s'.disk g.start) = [] := by
  have after := inv_step (inv_of_reachable reachable) step
  have counted := (inv_of_reachable reachable).counted
  have idle := after.idle complete
  obtain ⟨tail, here⟩ := recovering
  have history : s'.durable initial = s.durable initial := by
    cases step <;> simp_all [LogState.durable, LogState.bwrite, List.take_take]
  refine ⟨⟨s.reached, Nat.le_refl _, counted, ?_⟩, idle.empty⟩
  intro b home
  have view := after.view b home
  rwa [view_of_empty idle.empty, history] at view

/-- One transaction, a crash before its block is installed, a second crash
inside the recovery, and the recovery that completes. -/
theorem recover_from_log_atomic_two_crashes :
    ∃ s s' : LogState, Reachable mkfsGeometry (fun _ _ => 0) s ∧
      Step mkfsGeometry s s' ∧ s.reached = 1 ∧
      ((∃ count, s.reached ≤ count ∧ count ≤ s.started.length ∧ ∀ b, mkfsGeometry.Home b →
          s'.disk b = applyAll (s.started.take count) (fun _ _ => 0) b) ∧
      readHead (s'.disk mkfsGeometry.start) = []) := by
  have booted : Reachable mkfsGeometry (fun _ _ => 0) (.boot fun _ _ => 0) := .boot rfl
  have opened := booted.step (.beginOp _ rfl rfl (by decide))
  have logged := opened.step
    (.logWrite _ 50 (fun _ => 7) (by decide) (by decide) (Or.inr (by decide)))
  have committing := logged.step (.endLastOpCommit _ rfl rfl (by decide))
  have copied := committing.step (.writeLog _ 0 rfl (by decide))
  have reached := (copied.step (.writeHead _ rfl)).step (.crash _)
  have again := (reached.step (.recoverFromLog _ rfl)).step (.crash _)
  have recovering := again.step (.recoverFromLog _ rfl)
  have installed := recovering.step (.installTrans _ true 0 rfl (by decide))
  exact ⟨_, _, installed, .clearHead _ true rfl, rfl,
    recover_from_log_atomic _ _ _ _ installed (.clearHead _ true rfl) ⟨1, rfl⟩ rfl⟩

end Xv6.Log
