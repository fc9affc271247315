import Xv6.Library.RefCount
import Xv6.Log.CrashAtomicity

/-!
# Log space reserved by operations

The unused part of the reservations of the operations under way, together with the blocks in
the log, never exceeds `LOGBLOCKS`. A block that the operation has logged before needs no room,
but `log_write` tests for a full log before it looks for the block.
-/

namespace Xv6.Log

open Function

variable {used : Finset BlockNo} {b : BlockNo} {lh : List BlockNo}

inductive Panic where
  | tooBigATransaction
  | logWriteOutsideOfTrans
  | logCommitting
  deriving DecidableEq, Repr

namespace LogState

/-- One round of the loop of `begin_op`; `none` is `sleep`. -/
def beginOp (s : LogState) : Option LogState :=
  if s.committing then none
  else if LOGBLOCKS < s.lh.length + (s.outstanding + 1) * MAXOPBLOCKS then none
  else some { s with outstanding := s.outstanding + 1 }

/-- `log_write` of a block that now holds `contents`. -/
def logWrite (s : LogState) (b : BlockNo) (contents : Block) : Except Panic LogState :=
  if LOGBLOCKS ≤ s.lh.length then .error .tooBigATransaction
  else if s.outstanding < 1 then .error .logWriteOutsideOfTrans
  else .ok
    { s with
      buf := update s.buf b contents
      lh := absorb s.lh b
      current := s.current ++ [(b, contents)] }

/-- The first locked section of `end_op`, called by an operation under way. The last
operation goes on to `commit`, which has nothing to do if no block is logged. -/
def endOp (s : LogState) : Except Panic LogState :=
  if s.committing then .error .logCommitting
  else if 1 < s.outstanding then .ok { s with outstanding := s.outstanding - 1 }
  else if s.lh = [] then .ok { s with outstanding := 0, committing := true }
  else .ok
    { s with
      outstanding := 0
      committing := true
      phase := .writeLog 0
      current := []
      started := s.started ++ [s.current] }

/-- The next block write of `commit`, or the second locked section of `end_op` when
`commit` is done. -/
def commitStep (g : Geometry) (s : LogState) : Option LogState :=
  match s.phase with
  | .idle => if s.committing then some { s with committing := false } else none
  | .writeLog tail =>
    if inside : tail < s.lh.length then
      some { s.bwrite (g.copy tail) (s.buf s.lh[tail]) with phase := .writeLog (tail + 1) }
    else if tail = s.lh.length then
      some
        { s.bwrite g.start (writeHead (s.buf g.start) s.lh) with
          phase := .installTrans false 0
          reached := s.reached + 1 }
    else none
  | .installTrans false tail =>
    if inside : tail < s.lh.length then
      some
        { s.bwrite s.lh[tail] (s.buf (g.copy tail)) with
          phase := .installTrans false (tail + 1) }
    else if tail = s.lh.length then
      some
        { s.bwrite g.start (writeHead (s.buf g.start) []) with
          lh := []
          phase := .idle
          started := s.started.take s.reached }
    else none
  | _ => none

end LogState

/-- The log, and for each process the blocks logged by the operation it is in. -/
structure OpState (P : Type) where
  log : LogState
  ops : P → Option (Finset BlockNo)

variable {P : Type} [DecidableEq P] {log log' : LogState} {contents : Block}

/-- One call by a process that logs at most `MAXOPBLOCKS` distinct blocks in each
operation, or a step of `commit`. -/
inductive OpStep (g : Geometry) : OpState P → OpState P → Prop
  | beginOp (s : OpState P) (p : P) (log : LogState) (outside : s.ops p = none)
      (admitted : s.log.beginOp = some log) :
      OpStep g s { log := log, ops := update s.ops p (some ∅) }
  | logWrite (s : OpState P) (p : P) (used : Finset BlockNo) (b : BlockNo)
      (contents : Block) (log : LogState) (inside : s.ops p = some used)
      (behaved : (insert b used).card ≤ MAXOPBLOCKS) (home : g.Home b)
      (returned : s.log.logWrite b contents = .ok log) :
      OpStep g s { log := log, ops := update s.ops p (some (insert b used)) }
  | endOp (s : OpState P) (p : P) (used : Finset BlockNo) (log : LogState)
      (inside : s.ops p = some used) (returned : s.log.endOp = .ok log) :
      OpStep g s { log := log, ops := update s.ops p none }
  | commit (s : OpState P) (log : LogState) (next : s.log.commitStep g = some log) :
      OpStep g s { s with log := log }

/-- The states of the runs that start with an empty log and no operation. -/
inductive OpReachable (g : Geometry) (disk : Disk) : OpState P → Prop
  | boot (empty : readHead (disk g.start) = []) :
      OpReachable g disk { log := .boot disk, ops := fun _ => none }
  | step {s s' : OpState P} (before : OpReachable g disk s) (step : OpStep g s s') :
      OpReachable g disk s'

/-- The part of a reservation that its operation has not used. -/
def unused : Option (Finset BlockNo) → Nat
  | none => 0
  | some used => MAXOPBLOCKS - used.card

def running [Fintype P] (ops : P → Option (Finset BlockNo)) : Finset P := {p | (ops p).isSome}

/-- The space that the operations under way may still use. -/
def reserved [Fintype P] (ops : P → Option (Finset BlockNo)) : Nat := ∑ p, unused (ops p)

/-! ## The invariant -/

def InCommit (log : LogState) : Prop :=
  match log.phase with
  | .idle => log.lh = []
  | .writeLog _ =>
    ∃ txn, log.started.getLast? = some txn ∧ ∀ entry ∈ txn, entry.1 ∈ log.lh
  | .installTrans recovering _ => recovering = false
  | .recoverFromLog => False

/-- An operation has kept to its reservation, and its blocks are in the log. -/
def Behaved (lh : List BlockNo) : Option (Finset BlockNo) → Prop
  | none => True
  | some used => used.card ≤ MAXOPBLOCKS ∧ ∀ b ∈ used, b ∈ lh

structure OpInv [Fintype P] (log : LogState) (ops : P → Option (Finset BlockNo)) :
    Prop where
  counted : log.outstanding = (running ops).card
  room : log.lh.length + reserved ops ≤ LOGBLOCKS
  exclusive : log.committing = true → log.outstanding = 0
  distinct : log.lh.Nodup
  behaved : ∀ p, Behaved log.lh (ops p)
  covered : ∀ entry ∈ log.current, entry.1 ∈ log.lh
  atRest : log.committing = false → log.phase = .idle ∧ (log.outstanding = 0 → log.lh = [])
  inCommit : log.committing = true → log.current = [] ∧ InCommit log

section Sums

variable [Fintype P] (ops : P → Option (Finset BlockNo)) (p : P)
  (value : Option (Finset BlockNo))

omit [DecidableEq P] in
theorem card_running : (running ops).card = ∑ p, if (ops p).isSome then 1 else 0 := by
  rw [running, Finset.card_filter]

theorem reserved_update : reserved (update ops p value) + unused (ops p) =
      reserved ops + unused value :=
  RefCount.sum_update unused ops p value

theorem card_running_update :
    (running (update ops p value)).card + (if (ops p).isSome then 1 else 0) =
      (running ops).card + if value.isSome then 1 else 0 := by
  rw [card_running, card_running]
  exact RefCount.sum_update (fun op => if op.isSome then 1 else 0) ops p value

omit [DecidableEq P] in
theorem reserved_le : reserved ops ≤ (running ops).card * MAXOPBLOCKS := by
  rw [card_running, Finset.sum_mul, reserved]
  apply Finset.sum_le_sum
  intro p _
  rcases ops p with _ | used
  · exact Nat.zero_le _
  · simp [unused]

omit [DecidableEq P] in
theorem unused_le_reserved : unused (ops p) ≤ reserved ops :=
  Finset.single_le_sum (fun q _ => Nat.zero_le (unused (ops q))) (Finset.mem_univ p)

variable {ops p}

omit [DecidableEq P] in
theorem running_pos (inside : ops p = some used) : 0 < (running ops).card := by
  apply Finset.card_pos.mpr
  exact ⟨p, by simp [running, inside]⟩

end Sums

/-! ## The calls -/

theorem beginOp_eq_some (admitted : log.beginOp = some log') :
    log.committing = false ∧ log.lh.length + (log.outstanding + 1) * MAXOPBLOCKS ≤ LOGBLOCKS ∧
      log' = { log with outstanding := log.outstanding + 1 } := by
  unfold LogState.beginOp at admitted
  split at admitted
  · cases admitted
  · next free =>
    split at admitted
    · cases admitted
    · next room =>
      cases admitted
      exact ⟨Bool.eq_false_iff.mpr free, Nat.le_of_not_lt room, rfl⟩

theorem logWrite_eq_ok (returned : log.logWrite b contents = .ok log') :
    log.lh.length < LOGBLOCKS ∧ 1 ≤ log.outstanding ∧ log' =
        { log with
          buf := update log.buf b contents
          lh := absorb log.lh b
          current := log.current ++ [(b, contents)] } := by
  unfold LogState.logWrite at returned
  split at returned
  · cases returned
  · next room =>
    split at returned
    · cases returned
    · next inside =>
      cases returned
      exact ⟨Nat.lt_of_not_le room, Nat.le_of_not_lt inside, rfl⟩

theorem endOp_eq_ok (returned : log.endOp = .ok log') :
    log.committing = false ∧
    ((1 < log.outstanding ∧ log' = { log with outstanding := log.outstanding - 1 }) ∨
    (log.outstanding ≤ 1 ∧ log.lh = [] ∧ log' = { log with outstanding := 0, committing := true }) ∨
    (log.outstanding ≤ 1 ∧ log.lh ≠ [] ∧ log' =
        { log with
          outstanding := 0
          committing := true
          phase := .writeLog 0
          current := []
          started := log.started ++ [log.current] })) := by
  unfold LogState.endOp at returned
  split at returned
  · cases returned
  · next free =>
    refine ⟨Bool.eq_false_iff.mpr free, ?_⟩
    split at returned
    · next others =>
      cases returned
      exact Or.inl ⟨others, rfl⟩
    · next last =>
      split at returned
      · next empty =>
        cases returned
        exact Or.inr (Or.inl ⟨Nat.le_of_not_lt last, empty, rfl⟩)
      · next pending =>
        cases returned
        exact Or.inr (Or.inr ⟨Nat.le_of_not_lt last, pending, rfl⟩)

theorem commitStep_eq_some {g : Geometry} (next : log.commitStep g = some log') :
    log'.outstanding = log.outstanding ∧ log'.current = log.current ∧
    ((log.phase = .idle ∧ log'.phase = .idle ∧ log.committing = true ∧
        log'.committing = false ∧ log'.lh = log.lh) ∨
    (log'.committing = log.committing ∧ log'.lh = log.lh ∧
      log'.started = log.started ∧ (∃ tail tail', log.phase = .writeLog tail ∧
        log'.phase = .writeLog tail')) ∨
    (log'.committing = log.committing ∧ log'.lh = log.lh ∧ log.phase ≠ .idle ∧
      ∃ tail, log'.phase = .installTrans false tail) ∨
    (log'.committing = log.committing ∧ log'.lh = [] ∧ log.phase ≠ .idle ∧
      log'.phase = .idle)) := by
  unfold LogState.commitStep at next
  split at next
  · next here =>
    split at next
    · next busy =>
      cases next
      exact ⟨rfl, rfl, Or.inl ⟨here, here, busy, rfl, rfl⟩⟩
    · cases next
  · next tail here =>
    split at next
    · cases next
      exact ⟨rfl, rfl, Or.inr (Or.inl ⟨rfl, rfl, rfl, tail, _, here, rfl⟩)⟩
    · split at next
      · cases next
        exact ⟨rfl, rfl, Or.inr (Or.inr (Or.inl ⟨rfl, rfl, by simp [here], _, rfl⟩))⟩
      · cases next
  · next tail here =>
    split at next
    · cases next
      exact ⟨rfl, rfl, Or.inr (Or.inr (Or.inl ⟨rfl, rfl, by simp [here], _, rfl⟩))⟩
    · split at next
      · cases next
        exact ⟨rfl, rfl, Or.inr (Or.inr (Or.inr ⟨rfl, rfl, by simp [here], rfl⟩))⟩
      · cases next
  · cases next

theorem length_absorb_of_mem (present : b ∈ lh) : (absorb lh b).length = lh.length := by
  rw [absorb, if_pos present]

theorem length_absorb_add_unused (logged : ∀ c ∈ used, c ∈ lh)
    (behaved : (insert b used).card ≤ MAXOPBLOCKS) :
    (absorb lh b).length + unused (some (insert b used)) ≤ lh.length + unused (some used) := by
  by_cases again : b ∈ used
  · rw [Finset.insert_eq_of_mem again, length_absorb_of_mem (logged b again)]
  · have longer := length_absorb_le lh b
    rw [Finset.card_insert_of_notMem again] at behaved
    simp only [unused, Finset.card_insert_of_notMem again]
    omega

/-! ## Whole runs -/

section Runs

variable [Fintype P] {ops : P → Option (Finset BlockNo)} {p : P}

omit [Fintype P] in
theorem behaved_update {lh' : List BlockNo} (behaved : ∀ q, Behaved lh (ops q))
    (kept : ∀ b ∈ lh, b ∈ lh') {value : Option (Finset BlockNo)}
    (new : Behaved lh' value) (q : P) : Behaved lh' (update ops p value q) := by
  by_cases same : q = p
  · subst same
    rwa [update_self]
  · rw [update_of_ne same]
    have old := behaved q
    rcases here : ops q with _ | used
    · trivial
    · rw [here] at old
      exact ⟨old.1, fun b mem => kept b (old.2 b mem)⟩

omit [DecidableEq P] in
theorem OpInv.boot (disk : Disk) : OpInv (.boot disk) (fun _ : P => none) where
  counted := by simp [running, LogState.boot]
  room := by simp [reserved, unused, LogState.boot]
  exclusive := nofun
  distinct := List.nodup_nil
  behaved := fun _ => trivial
  covered := nofun
  atRest := fun _ => ⟨rfl, fun _ => rfl⟩
  inCommit := nofun

section

variable (inv : OpInv log ops)
include inv

theorem OpInv.beginOp (outside : ops p = none)
    (admitted : log.beginOp = some log') : OpInv log' (update ops p (some ∅)) := by
  obtain ⟨free, room, rfl⟩ := beginOp_eq_some admitted
  have counted := inv.counted
  have reserve := reserved_update ops p (some ∅)
  have count := card_running_update ops p (some ∅)
  have worst := reserved_le ops
  rw [outside] at reserve count
  rw [← counted] at worst
  have one : unused (some ∅) = MAXOPBLOCKS := rfl
  simp only [Option.isSome_none, Option.isSome_some, if_true, Bool.false_eq_true, if_false] at count
  rw [Nat.add_mul, Nat.one_mul] at room
  have busy : ¬ log.committing = true := by simp [free]
  exact
    { counted := by dsimp only; omega
      room := by dsimp only; omega
      exclusive := fun h => absurd h busy
      distinct := inv.distinct
      behaved := behaved_update inv.behaved (fun _ mem => mem) ⟨Nat.zero_le _, by simp⟩
      covered := inv.covered
      atRest := fun _ => ⟨(inv.atRest free).1, nofun⟩
      inCommit := fun h => absurd h busy }

theorem OpInv.logWrite (inside : ops p = some used) (behaved : (insert b used).card ≤ MAXOPBLOCKS)
    (returned : log.logWrite b contents = .ok log') :
    OpInv log' (update ops p (some (insert b used))) := by
  obtain ⟨_, outstanding, rfl⟩ := logWrite_eq_ok returned
  have busy : ¬ log.committing = true := by
    intro busy
    have := inv.exclusive busy
    omega
  have free := Bool.eq_false_iff.mpr busy
  have mine := inv.behaved p
  rw [inside] at mine
  have counted := inv.counted
  have room := inv.room
  have reserve := reserved_update ops p (some (insert b used))
  have count := card_running_update ops p (some (insert b used))
  have spent := length_absorb_add_unused mine.2 behaved
  rw [inside] at reserve count
  simp only [Option.isSome_some, if_true] at count
  exact
    { counted := by dsimp only; omega
      room := by dsimp only; omega
      exclusive := fun h => absurd h busy
      distinct := absorb_nodup inv.distinct b
      behaved := by
        apply behaved_update inv.behaved (fun c mem => mem_absorb.mpr (Or.inl mem))
        refine ⟨behaved, fun c mem => mem_absorb.mpr ?_⟩
        rcases Finset.mem_insert.mp mem with here | old
        · exact Or.inr here
        · exact Or.inl (mine.2 c old)
      covered := by
        intro entry mem
        apply mem_absorb.mpr
        rcases List.mem_append.mp mem with old | new
        · exact Or.inl (inv.covered entry old)
        · rw [List.mem_singleton] at new
          exact Or.inr (congrArg Prod.fst new)
      atRest := fun _ => ⟨(inv.atRest free).1, fun none => by dsimp only at none; omega⟩
      inCommit := fun h => absurd h busy }

theorem OpInv.endOp (inside : ops p = some used) (returned : log.endOp = .ok log') :
    OpInv log' (update ops p none) := by
  obtain ⟨free, cases⟩ := endOp_eq_ok returned
  have busy : ¬ log.committing = true := by simp [free]
  have counted := inv.counted
  have room := inv.room
  have reserve := reserved_update ops p none
  have count := card_running_update ops p none
  have zero : unused none = 0 := rfl
  rw [inside] at reserve count
  simp only [Option.isSome_none, Option.isSome_some, if_true, Bool.false_eq_true, if_false] at count
  have behaved : ∀ q, Behaved log.lh (update ops p none q) :=
    behaved_update inv.behaved (fun _ mem => mem) trivial
  rcases cases with ⟨more, rfl⟩ | ⟨last, empty, rfl⟩ | ⟨last, pending, rfl⟩
  · exact
      { counted := by dsimp only; omega
        room := by dsimp only; omega
        exclusive := fun h => absurd h busy
        distinct := inv.distinct
        behaved := behaved
        covered := inv.covered
        atRest := fun _ => ⟨(inv.atRest free).1, fun none => by dsimp only at none; omega⟩
        inCommit := fun h => absurd h busy }
  · -- an empty log covers nothing, so nothing was logged
    have nothing : log.current = [] := by
      apply List.eq_nil_iff_forall_not_mem.mpr
      intro entry mem
      have := inv.covered entry mem
      rw [empty] at this
      cases this
    exact
      { counted := by dsimp only; omega
        room := by dsimp only; omega
        exclusive := fun _ => rfl
        distinct := inv.distinct
        behaved := behaved
        covered := inv.covered
        atRest := nofun
        inCommit := fun _ => ⟨nothing, by
          simp only [InCommit, (inv.atRest free).1]
          exact empty⟩ }
  · exact
      { counted := by dsimp only; omega
        room := by dsimp only; omega
        exclusive := fun _ => rfl
        distinct := inv.distinct
        behaved := behaved
        covered := nofun
        atRest := nofun
        inCommit := fun _ => ⟨rfl, log.current, by simp, inv.covered⟩ }

omit [DecidableEq P] in
theorem OpInv.commit {g : Geometry} (next : log.commitStep g = some log') : OpInv log' ops := by
  obtain ⟨outstanding, current, cases⟩ := commitStep_eq_some next
  have counted := inv.counted
  have room := inv.room
  -- outside of `commit` there is no step of it
  have busy : log.committing = true := by
    by_contra free
    have rest := (inv.atRest (Bool.eq_false_iff.mpr free)).1
    rcases cases with ⟨_, _, busy, _⟩ | ⟨_, _, _, _, _, here, _⟩ | ⟨_, _, there, _⟩ |
      ⟨_, _, there, _⟩
    · exact free busy
    · rw [rest] at here
      cases here
    · exact there rest
    · exact there rest
  have alone := inv.exclusive busy
  obtain ⟨empty, inside⟩ := inv.inCommit busy
  have nobody : ∀ p, ops p = none := by
    intro p
    rcases here : ops p with _ | used
    · rfl
    · have := running_pos here
      omega
  have behaved : ∀ p, Behaved log'.lh (ops p) := by
    intro p
    rw [nobody p]
    trivial
  have covered : ∀ entry ∈ log'.current, entry.1 ∈ log'.lh := by
    rw [current, empty]
    exact nofun
  have fewer : log'.lh = log.lh ∨ log'.lh = [] := by
    rcases cases with ⟨_, _, _, _, same⟩ | ⟨_, same, _⟩ | ⟨_, same, _⟩ | ⟨_, cleared, _⟩
    · exact Or.inl same
    · exact Or.inl same
    · exact Or.inl same
    · exact Or.inr cleared
  refine
    { counted := by omega
      room := ?_
      exclusive := fun _ => by omega
      distinct := ?_
      behaved := behaved
      covered := covered
      atRest := fun free => ?_
      inCommit := fun still => ⟨current.trans empty, ?_⟩ }
  · rcases fewer with same | cleared
    · rw [same]
      exact room
    · rw [cleared, List.length_nil]
      omega
  · rcases fewer with same | cleared
    · rw [same]
      exact inv.distinct
    · rw [cleared]
      exact List.nodup_nil
  · rcases cases with ⟨here, there, _, _, same⟩ | ⟨still, _⟩ | ⟨still, _⟩ | ⟨still, _⟩
    · refine ⟨there, fun _ => ?_⟩
      rw [same]
      simpa only [InCommit, here] using inside
    all_goals
      rw [still, busy] at free
      cases free
  · rcases cases with ⟨_, _, _, done, _⟩ | ⟨_, same, started, tail, tail', here, there⟩ |
      ⟨_, _, _, tail, there⟩ | ⟨_, cleared, _, there⟩
    · rw [done] at still
      cases still
    · simp only [InCommit, here] at inside
      simp only [InCommit, there]
      rw [started, same]
      exact inside
    · simp only [InCommit, there]
    · simp only [InCommit, there]
      exact cleared

end

variable {g : Geometry} {disk : Disk} {s : OpState P}

theorem OpInv.step {s' : OpState P} (inv : OpInv s.log s.ops) (step : OpStep g s s') :
    OpInv s'.log s'.ops := by
  cases step with
  | beginOp p log outside admitted => exact inv.beginOp outside admitted
  | logWrite p used b contents log inside behaved home returned =>
    exact inv.logWrite inside behaved returned
  | endOp p used log inside returned => exact inv.endOp inside returned
  | commit log next => exact inv.commit next

theorem opInv_of_reachable (reach : OpReachable g disk s) : OpInv s.log s.ops := by
  induction reach with
  | boot empty => exact OpInv.boot disk
  | step _ step ih => exact ih.step step

/-! ## The machine of single-block writes -/

theorem commitStep_step (next : log.commitStep g = some log') : Step g log log' := by
  unfold LogState.commitStep at next
  split at next
  · next here =>
    split at next
    · next busy =>
      cases next
      exact .endCommit log here busy
    · cases next
  · next tail here =>
    split at next
    · next more =>
      cases next
      exact .writeLog log tail here more
    · split at next
      · next done =>
        cases next
        exact .writeHead log (done ▸ here)
      · cases next
  · next tail here =>
    split at next
    · next more =>
      cases next
      exact .installTrans log false tail here more
    · split at next
      · next done =>
        cases next
        exact .clearHead log false (done ▸ here)
      · cases next
  · cases next

theorem OpStep.step {s' : OpState P} (inv : OpInv s.log s.ops) (step : OpStep g s s') :
    Step g s.log s'.log := by
  cases step with
  | beginOp p log outside admitted =>
    obtain ⟨free, room, rfl⟩ := beginOp_eq_some admitted
    exact .beginOp s.log (inv.atRest free).1 free room
  | logWrite p used b contents log inside behaved home returned =>
    obtain ⟨small, outstanding, rfl⟩ := logWrite_eq_ok returned
    exact .logWrite s.log b contents small outstanding home
  | endOp p used log inside returned =>
    have counted := inv.counted
    have present := running_pos inside
    obtain ⟨free, ⟨more, rfl⟩ | ⟨last, empty, rfl⟩ | ⟨last, pending, rfl⟩⟩ := endOp_eq_ok returned
    · exact .endOp s.log more free
    · exact .endLastOp s.log (by omega) free empty
    · exact .endLastOpCommit s.log (by omega) free pending
  | commit log next => exact commitStep_step next

theorem OpReachable.reachable (reach : OpReachable g disk s) : Reachable g disk s.log := by
  induction reach with
  | boot empty => exact .boot empty
  | step before step ih =>
    exact .step ih (step.step (opInv_of_reachable before))

/-! ## Operations are atomic -/

theorem OpStep.kept_inside {s' : OpState P} (inv : OpInv s.log s.ops) (step : OpStep g s s')
    (inside : p ∈ running s.ops) (still : p ∈ running s'.ops) : s'.log.disk = s.log.disk ∧
      s'.log.started = s.log.started ∧ s.log.current <+: s'.log.current := by
  have later : s'.log.outstanding ≠ 0 :=
    (inv.step step).counted ▸ Finset.card_ne_zero_of_mem still
  cases step with
  | beginOp q log outside admitted =>
    obtain ⟨-, -, rfl⟩ := beginOp_eq_some admitted
    exact ⟨rfl, rfl, List.prefix_rfl⟩
  | logWrite q used b contents log mine behaved home returned =>
    obtain ⟨-, -, rfl⟩ := logWrite_eq_ok returned
    exact ⟨rfl, rfl, List.prefix_append ..⟩
  | endOp q used log mine returned =>
    obtain ⟨-, ⟨-, rfl⟩ | ⟨-, -, rfl⟩ | ⟨-, -, rfl⟩⟩ := endOp_eq_ok returned
    · exact ⟨rfl, rfl, List.prefix_rfl⟩
    · exact absurd rfl later
    · exact absurd rfl later
  | commit log next =>
    -- A commit begins only when no operation is under way.
    cases busy : s.log.committing with
    | true => exact absurd (inv.exclusive busy) (inv.counted ▸ Finset.card_ne_zero_of_mem inside)
    | false => simp [LogState.commitStep, (inv.atRest busy).1, busy] at next

/-- While an operation is under way nothing is written to the disk, and a recovery would restore
the transactions committed before it. Its updates stay together with those of the other
operations. The last of these starts one transaction with all of them, if there are any. -/
theorem operation_atomic {s t : OpState P} (reachable : OpReachable g disk s)
    (inside : p ∈ running s.ops)
    (run : Relation.ReflTransGen (fun a b => OpStep g a b ∧ p ∈ running b.ops) s t) :
    t.log.disk = s.log.disk ∧ (∀ b, g.Home b → g.view t.log.disk b = s.log.durable disk b) ∧
    s.log.current <+: t.log.current ∧ ∀ log, t.log.endOp = .ok log →
      (1 < t.log.outstanding ∧ log.started = s.log.started ∧ log.current = t.log.current) ∨
      (t.log.outstanding = 1 ∧ log.started = s.log.started ∧ t.log.current = []) ∨
      (t.log.outstanding = 1 ∧ log.started = s.log.started ++ [t.log.current] ∧
        log.current = []) := by
  have kept : OpReachable g disk t ∧ p ∈ running t.ops ∧ t.log.disk = s.log.disk ∧
      t.log.started = s.log.started ∧ s.log.current <+: t.log.current := by
    induction run with
    | refl => exact ⟨reachable, inside, rfl, rfl, List.prefix_rfl⟩
    | tail _ step ih =>
      obtain ⟨before, here, disk, started, current⟩ := ih
      obtain ⟨disk', started', current'⟩ :=
        step.1.kept_inside (opInv_of_reachable before) here step.2
      exact ⟨before.step step.1, step.2, disk'.trans disk, started'.trans started,
        current.trans current'⟩
  obtain ⟨reached, here, same, started, current⟩ := kept
  have inv := opInv_of_reachable reached
  have some_ : 0 < t.log.outstanding := inv.counted ▸ Finset.card_pos.mpr ⟨p, here⟩
  refine ⟨same, fun b home => ?_, current, fun log returned => ?_⟩
  · rw [same]
    exact (inv_of_reachable reachable.reachable).view b home
  · rw [← started]
    obtain ⟨-, ⟨others, rfl⟩ | ⟨last, empty, rfl⟩ | ⟨last, -, rfl⟩⟩ := endOp_eq_ok returned
    · exact .inl ⟨others, rfl, rfl⟩
    · refine .inr (.inl ⟨by omega, rfl, List.eq_nil_iff_forall_not_mem.mpr fun entry member => ?_⟩)
      have listed := inv.covered entry member
      rw [empty] at listed
      cases listed
    · exact .inr (.inr ⟨by omega, rfl, rfl⟩)

/-- An operation that logs one block, and is the last to end. -/
theorem operation_atomic_one_block : ∃ s t : OpState (Fin 2), 0 ∈ running s.ops ∧
    t.log.disk = s.log.disk ∧ t.log.current = [(100, fun _ => 7)] ∧
    ∃ log, t.log.endOp = .ok log ∧ log.started = s.log.started ++ [t.log.current] := by
  have begun := (@OpReachable.boot (Fin 2) _ mkfsGeometry (fun _ _ => 0) rfl).step
    (.beginOp _ 0 _ rfl rfl)
  have inside : 0 ∈ running (Function.update (fun _ : Fin 2 => none) 0 (some ∅)) := by decide
  obtain ⟨disk, -, -, ends⟩ := operation_atomic begun inside
    (.single ⟨.logWrite _ 0 ∅ 100 (fun _ => 7) _ rfl (by decide)
      (Or.inr (by decide)) rfl, by decide⟩)
  refine ⟨_, _, inside, disk, rfl, _, rfl, ?_⟩
  rcases ends _ rfl with ⟨more, -⟩ | ⟨-, -, none⟩ | ⟨-, started, -⟩
  · exact absurd more (by decide)
  · cases none
  · exact started

/-! ## Room for the operations -/

omit [DecidableEq P] in
theorem OpInv.lt_of_new (inv : OpInv s.log s.ops)
    (inside : s.ops p = some used) (behaved : (insert b used).card ≤ MAXOPBLOCKS)
    (new : b ∉ used) : s.log.lh.length < LOGBLOCKS := by
  have share := unused_le_reserved s.ops p
  have room := inv.room
  rw [inside, unused] at share
  rw [Finset.card_insert_of_notMem new] at behaved
  omega

omit [DecidableEq P] in
theorem OpInv.logWrite_eq (inv : OpInv s.log s.ops) (b : BlockNo)
    (contents : Block) (inside : s.ops p = some used) :
    s.log.logWrite b contents =
      if LOGBLOCKS ≤ s.log.lh.length then .error .tooBigATransaction
      else .ok
        { s.log with
          buf := update s.log.buf b contents
          lh := absorb s.log.lh b
          current := s.log.current ++ [(b, contents)] } := by
  have counted := inv.counted
  have present := running_pos inside
  unfold LogState.logWrite
  split
  · rfl
  · rw [if_neg (by omega)]

/-- In every run of well-behaved operations `outstanding` counts those under way, the log and the
unused reservations fit into `LOGBLOCKS`, no operation runs during a commit, no block is logged
twice, a commit has every block of the operations it covers, and an idle log is empty and admits an
operation. -/
theorem log_reservation (reachable : OpReachable g disk s) :
    s.log.outstanding = (running s.ops).card ∧
    s.log.lh.length + reserved s.ops ≤ LOGBLOCKS ∧
    ¬ (s.log.committing = true ∧ 0 < s.log.outstanding) ∧
    s.log.lh.Nodup ∧
    (∀ entry ∈ s.log.current, entry.1 ∈ s.log.lh) ∧
    (∀ tail, s.log.phase = .writeLog tail →
      ∃ txn, s.log.started.getLast? = some txn ∧ ∀ entry ∈ txn, entry.1 ∈ s.log.lh) ∧
    (s.log.outstanding = 0 → s.log.committing = false →
      s.log.lh = [] ∧ ∃ log, s.log.beginOp = some log) := by
  have inv := opInv_of_reachable reachable
  refine ⟨inv.counted, inv.room, ?_, inv.distinct, inv.covered, fun tail here => ?_,
    fun none free => ?_⟩
  · rintro ⟨busy, some⟩
    have := inv.exclusive busy
    omega
  · have busy : s.log.committing = true := by
      by_contra free
      rw [(inv.atRest (Bool.eq_false_iff.mpr free)).1] at here
      cases here
    have inside := (inv.inCommit busy).2
    simpa only [InCommit, here] using inside
  · have empty := (inv.atRest free).2 none
    refine ⟨empty, { s.log with outstanding := s.log.outstanding + 1 }, ?_⟩
    have room : ¬ LOGBLOCKS < s.log.lh.length + (s.log.outstanding + 1) * MAXOPBLOCKS := by
      rw [empty, none]
      decide
    rw [LogState.beginOp, if_neg (by simp [free]), if_neg room]

/-- A `log_write` of a well-behaved operation returns exactly if the block is new to
the operation or the log is not full, and it never finds itself outside of a
transaction. -/
theorem logWrite_returns_iff_new_or_room (reachable : OpReachable g disk s)
    {used : Finset BlockNo} {b : BlockNo} (contents : Block)
    (inside : s.ops p = some used) (behaved : (insert b used).card ≤ MAXOPBLOCKS) :
    ((∃ log, s.log.logWrite b contents = .ok log) ↔ b ∉ used ∨ s.log.lh.length < LOGBLOCKS) ∧
    s.log.logWrite b contents ≠ .error .logWriteOutsideOfTrans := by
  have inv := opInv_of_reachable reachable
  rw [inv.logWrite_eq b contents inside]
  by_cases full : LOGBLOCKS ≤ s.log.lh.length
  · rw [if_pos full]
    refine ⟨⟨nofun, fun room => ?_⟩, nofun⟩
    have := room.elim (inv.lt_of_new inside behaved) id
    omega
  · rw [if_neg full]
    exact ⟨⟨fun _ => Or.inr (Nat.lt_of_not_le full), fun _ => ⟨_, rfl⟩⟩, nofun⟩

theorem OpReachable.logWrites (reach : OpReachable g disk s) {used : Finset BlockNo}
    (inside : s.ops p = some used) {blocks : List BlockNo} (contents : Block)
    (distinct : blocks.Nodup) (home : ∀ b ∈ blocks, g.Home b)
    (new : ∀ b ∈ blocks, b ∉ s.log.lh)
    (few : used.card + blocks.length ≤ MAXOPBLOCKS) :
    ∃ s' : OpState P, OpReachable g disk s' ∧ s'.log.lh = s.log.lh ++ blocks ∧
      s'.log.outstanding = s.log.outstanding ∧ s'.log.committing = s.log.committing ∧
      s'.ops = update s.ops p (some (used ∪ blocks.toFinset)) := by
  induction blocks generalizing s used with
  | nil =>
    refine ⟨s, reach, by simp, rfl, rfl, ?_⟩
    simp [← inside]
  | cons b rest ih =>
    have inv := opInv_of_reachable reach
    have mine := inv.behaved p
    rw [inside] at mine
    have absent := new b List.mem_cons_self
    have fresh : b ∉ used := fun mem => absent (mine.2 b mem)
    have count := Finset.card_insert_of_notMem fresh
    rw [List.length_cons] at few
    have behaved : (insert b used).card ≤ MAXOPBLOCKS := by omega
    have room := inv.lt_of_new inside behaved fresh
    have returned := inv.logWrite_eq b contents inside
    rw [if_neg (by omega)] at returned
    have next := reach.step
      (.logWrite s p used b contents _ inside behaved (home b List.mem_cons_self) returned)
    obtain ⟨s', reached, lh, outstanding, committing, ops⟩ :=
      ih next (update_self ..) (List.nodup_cons.mp distinct).2
        (fun c mem => home c (List.mem_cons_of_mem _ mem))
        (by
          intro c mem
          rw [mem_absorb]
          rintro (old | rfl)
          · exact new c (List.mem_cons_of_mem _ mem) old
          · exact (List.nodup_cons.mp distinct).1 mem)
        (by omega)
    refine ⟨s', reached, ?_, outstanding, committing, ?_⟩
    · rw [lh]
      simp [absorb, absent]
    · rw [ops, update_idem]
      congr 2
      ext c
      simp

end Runs

/-! ## A run that fills the log -/

def lowLog : Geometry := mkfsGeometry

def zeroDisk : Disk := fun _ _ => 0

/-- Ten blocks for each of three processes. -/
def tenBlocks (p : Fin 3) : List BlockNo :=
  (List.range 10).map fun i => BitVec.ofNat 32 (100 + 10 * p.val + i)

theorem toNat_of_mem_tenBlocks {p : Fin 3} (mem : b ∈ tenBlocks p) :
    100 + 10 * p.val ≤ b.toNat ∧ b.toNat < 110 + 10 * p.val := by
  obtain ⟨i, inside, rfl⟩ := List.mem_map.mp mem
  have := List.mem_range.mp inside
  rw [BitVec.toNat_ofNat]
  omega

theorem tenBlocks_home (p : Fin 3) (b : BlockNo) (mem : b ∈ tenBlocks p) : lowLog.Home b := by
  right
  have := toNat_of_mem_tenBlocks mem
  change 32 < b.toNat
  omega

theorem tenBlocks_apart {p q : Fin 3} (apart : p ≠ q) (b : BlockNo)
    (mem : b ∈ tenBlocks p) : b ∉ tenBlocks q := by
  intro mem'
  have := toNat_of_mem_tenBlocks mem
  have := toNat_of_mem_tenBlocks mem'
  omega

theorem exists_full_log : ∃ s : OpState (Fin 3), OpReachable lowLog zeroDisk s ∧
      s.log.lh.length = LOGBLOCKS ∧ s.ops 0 = some (tenBlocks 0).toFinset := by
  have third := (@OpReachable.boot (Fin 3) _ lowLog zeroDisk rfl)
    |>.step (.beginOp _ 0 _ rfl rfl)
    |>.step (.beginOp _ 1 _ rfl rfl)
    |>.step (.beginOp _ 2 _ rfl rfl)
  obtain ⟨s₀, reached₀, lh₀, _, _, ops₀⟩ := @OpReachable.logWrites _ _ _ 0 _ _ _ third ∅ rfl
    (tenBlocks 0) (fun _ => 0) (by decide) (tenBlocks_home 0) (by simp [LogState.boot]) (by decide)
  obtain ⟨s₁, reached₁, lh₁, _, _, ops₁⟩ := @OpReachable.logWrites _ _ _ 1 _ _ _ reached₀ ∅
    (by rw [ops₀]; rfl) (tenBlocks 1) (fun _ => 0) (by decide) (tenBlocks_home 1)
    (by rw [lh₀]; exact tenBlocks_apart (by decide)) (by decide)
  rw [lh₀] at lh₁
  obtain ⟨s₂, reached₂, lh₂, _, _, ops₂⟩ := @OpReachable.logWrites _ _ _ 2 _ _ _ reached₁ ∅
    (by rw [ops₁, ops₀]; rfl) (tenBlocks 2) (fun _ => 0) (by decide) (tenBlocks_home 2)
    (by
      intro b mem
      rw [lh₁, List.mem_append, not_or]
      exact ⟨tenBlocks_apart (by decide) b mem,
        tenBlocks_apart (by decide) b mem⟩) (by decide)
  refine ⟨s₂, reached₂, ?_, ?_⟩
  · rw [lh₂, lh₁]
    rfl
  · rw [ops₂, ops₁, ops₀]
    simp

theorem log_reservation_full : ∃ s : OpState (Fin 3), OpReachable lowLog zeroDisk s ∧
      s.log.lh.length = LOGBLOCKS ∧ reserved s.ops = 0 ∧ s.log.lh.Nodup := by
  obtain ⟨s, reached, full, _⟩ := exists_full_log
  have reservation := log_reservation reached
  exact ⟨s, reached, full, by omega, reservation.2.2.2.1⟩

theorem logWrite_returns_for_new_block : ∃ s : OpState (Fin 3), OpReachable lowLog zeroDisk s ∧
      ∃ log, s.log.logWrite 100 (fun _ => 0) = .ok log := by
  have first := (@OpReachable.boot (Fin 3) _ lowLog zeroDisk rfl).step (.beginOp _ 0 _ rfl rfl)
  have returns := @logWrite_returns_iff_new_or_room _ _ _ 0 _ _ _ first ∅ 100 (fun _ => 0)
    rfl (by decide)
  exact ⟨_, first, returns.1.mpr (Or.inl (by simp))⟩

/-- With the log full, an operation that logs one of its ten blocks again panics. -/
theorem logWrite_again_panics : ∃ s : OpState (Fin 3), OpReachable lowLog zeroDisk s ∧
      s.ops 0 = some (tenBlocks 0).toFinset ∧ (100 : BlockNo) ∈ s.log.lh ∧
      (insert (100 : BlockNo) (tenBlocks 0).toFinset).card ≤ MAXOPBLOCKS ∧
      s.log.logWrite 100 (fun _ => 0) = .error .tooBigATransaction := by
  obtain ⟨s, reached, full, inside⟩ := exists_full_log
  have inv := opInv_of_reachable reached
  have mine := inv.behaved 0
  rw [inside] at mine
  refine ⟨s, reached, inside, mine.2 100 (by decide), by decide, ?_⟩
  rw [inv.logWrite_eq 100 (fun _ => 0) inside, if_pos full.ge]

end Xv6.Log
