import Xv6.Fs.DirectoryCalls

/-!
# Runs of calls on directories

The states that follow from a well-formed image when every call meets a discipline.
-/

namespace Xv6.Directory

open Blocks (FileType)
open Outcome (Leads)

variable {P F : Type} [Fintype P] [Fintype F] [DecidableEq P] [DecidableEq F] {i : Nat}

/-- The condition of the discipline on a call, in the state before it. -/
def MayStep (G : Discipline) (s : Fs P F) : Op P F → Prop
  | .open p path omode _ _ =>
    omode.getLsbD O_CREATE = true → ∀ cwd, s.cwd p = some cwd → MayCreate G s cwd path .file
  | .mkdir p path _ => ∀ cwd, s.cwd p = some cwd → MayCreate G s cwd path .dir
  | .mknod p path _ _ => ∀ cwd, s.cwd p = some cwd → MayCreate G s cwd path .device
  | .link p old new _ => ∀ cwd, s.cwd p = some cwd → MayLink G s cwd old new
  | .unlink p path => ∀ cwd, s.cwd p = some cwd → MayUnlink G s cwd path
  | .chdir _ _ | .close _ | .exit _ | .fork _ _ => True

/-- A well-formed image after booting: link counts are exact, no directory is unlinked, no
file is open, and the processes are in the root directory. -/
structure Booted (s : Fs P F) : Prop where
  tree : DiskOk nothing s.ninodes s.inodes s.linked
  entered : ∀ d, (s.inodes d).type = .dir → s.linked d = true
  named : ∀ i, (s.inodes i).type ≠ .free → (s.inodes i).nlink ≠ 0#16
  cwd : ∀ p i, s.cwd p = some i → i = ROOTINO
  file : ∀ f, s.file f = none
  ref : ∀ i, s.ref i = holders s.cwd s.file i
  valid : ∀ i, s.valid i = true → i = ROOTINO

/-- The states of runs whose calls all meet the condition `may`. -/
inductive Reachable (may : Fs P F → Op P F → Prop) : Fs P F → Prop
  | boot {s : Fs P F} : Booted s → Reachable may s
  | step {s s' : Fs P F} {op : Op P F} :
      Reachable may s → may s op → s.step op = .ok s' → Reachable may s'

variable {G : Discipline} {s : Fs P F}

/-- A call has kept the invariant, or has come to a panic that the discipline allows. -/
def Settled (G : Discipline) : Except Panic (Fs P F) → Prop
  | .ok s => Holding G nothing s
  | .error e => G.mayPanic e

omit [DecidableEq P] [DecidableEq F] in
theorem settled_exec {α : Type} {call : FsM P F α}
    (leads : Leads (call s) (fun _ s' => Holding G nothing s') G.mayPanic) :
    Settled G (s.exec call) := by
  unfold Fs.exec
  rcases outcome : call s with e | ⟨a, s'⟩
  · exact leads.of_error outcome
  · exact leads.of_ok outcome

omit [DecidableEq P] [DecidableEq F] in
theorem holders_of_cwd {p : P} {cwd : Nat} (current : s.cwd p = some cwd) :
    0 < holders s.cwd s.file cwd := by
  have counted : 0 < ∑ q, if s.cwd q = some cwd then 1 else 0 :=
    Finset.sum_pos_iff.mpr ⟨p, Finset.mem_univ p, by rw [if_pos current]; omega⟩
  unfold holders
  omega

omit [DecidableEq P] [DecidableEq F] in
theorem settled_withCwd (holding : Holding G nothing s) {p : P} {call : Nat → Except Panic (Fs P F)}
    (settled : ∀ cwd, s.cwd p = some cwd → 0 < holders s.cwd s.file cwd →
      Settled G (call cwd)) : Settled G (s.withCwd p call) := by
  unfold Fs.withCwd
  split
  · exact holding
  · next cwd current =>
    exact settled cwd current (holders_of_cwd current)

theorem Holding.step (holding : Holding G nothing s) {op : Op P F} (may : MayStep G s op) :
    Settled G (s.step op) := by
  obtain ⟨slack, lose, ok⟩ := id holding
  cases op with
  | «open» p path omode slot full =>
    refine settled_withCwd holding fun cwd current held =>
      settled_exec (ok.sysOpen_leads lose held (fun creating => may creating cwd current) ?_ full)
    intro f free
    obtain ⟨-, closed⟩ := Option.filter_eq_some_iff.mp free
    exact Option.isNone_iff_eq_none.mp closed
  | mkdir p path full =>
    exact settled_withCwd holding fun cwd current held =>
      settled_exec (ok.sysCreate_leads lose held FileType.noConfusion (may cwd current) 0 full)
  | mknod p path major full =>
    exact settled_withCwd holding fun cwd current held => settled_exec
      (ok.sysCreate_leads lose held FileType.noConfusion (may cwd current) major full)
  | link p old new full =>
    exact settled_withCwd holding fun cwd current held =>
      settled_exec (ok.sysLink_leads lose held (may cwd current) full)
  | unlink p path =>
    exact settled_withCwd holding fun cwd current held =>
      settled_exec (ok.sysUnlink_leads lose held (may cwd current))
  | chdir p path =>
    exact settled_withCwd holding fun cwd current held =>
      settled_exec (ok.sysChdir_leads lose current held path)
  | close f =>
    unfold Fs.step
    dsimp only
    split
    · exact holding
    · next ip opened => exact settled_exec (ok.fileclose_leads lose opened)
  | exit p =>
    exact settled_withCwd holding fun cwd current _ =>
      settled_exec (ok.exitCwd_leads lose current)
  | fork p q =>
    unfold Fs.step
    dsimp only
    split
    · exact holding
    · next fresh =>
      exact settled_withCwd holding fun cwd _ held =>
        settled_exec (ok.forkCwd_leads lose fresh held)

omit [DecidableEq P] [DecidableEq F] in
theorem holders_pos {cwd : P → Option Nat} {file : F → Option Nat}
    (held : 0 < holders cwd file i) : (∃ p, cwd p = some i) ∨ ∃ f, file f = some i := by
  unfold holders at held
  by_contra nobody
  rw [not_or, not_exists, not_exists] at nobody
  rw [Finset.sum_eq_zero fun p _ => if_neg (nobody.1 p),
    Finset.sum_eq_zero fun f _ => if_neg (nobody.2 f)] at held
  omega

omit [DecidableEq P] [DecidableEq F] in
theorem Booted.holding (booted : Booted s)
    (kept : G.keeps s.ninodes s.inodes s.linked) : Holding G nothing s := by
  have root : (s.inodes ROOTINO).type ≠ .free := booted.tree.root.trans_ne FileType.noConfusion
  refine ⟨nothing, G.lose_zero, booted.tree, ⟨booted.ref, ?_, ?_, ?_⟩, kept⟩
  · intro i held
    rcases holders_pos held with ⟨p, current⟩ | ⟨f, opened⟩
    · rw [booted.cwd p i current]
      exact root
    · rw [booted.file f] at opened
      cases opened
  · intro i _ current
    rw [booted.valid i current]
    exact root
  · intro i allocated unlinked
    exact absurd unlinked (booted.named i allocated)

theorem Reachable.holding (boot : ∀ s : Fs P F, Booted s → G.keeps s.ninodes s.inodes s.linked)
    (reach : Reachable (MayStep G) s) : Holding G nothing s := by
  induction reach with
  | boot booted => exact booted.holding (boot _ booted)
  | step _ may stepped ih =>
    have settled := ih.step may
    rw [stepped] at settled
    exact settled

def Fs.run (s : Fs P F) : List (Op P F) → Except Panic (Fs P F)
  | [] => .ok s
  | op :: ops => do (← s.step op).run ops

theorem Reachable.run {ops : List (Op P F)} {s' : Fs P F}
    (reach : Reachable (fun _ _ => True) s) (ran : s.run ops = .ok s') :
    Reachable (fun _ _ => True) s' := by
  induction ops generalizing s with
  | nil =>
    cases ran
    exact reach
  | cons op ops ih =>
    change (s.step op).bind _ = _ at ran
    cases stepped : s.step op with
    | error e =>
      rw [stepped] at ran
      cases ran
    | ok s₁ =>
      rw [stepped] at ran
      exact ih (reach.step trivial stepped) ran

/-- The calls succeed and end in a state that passes the check. -/
def Fs.ends (s : Fs P F) (ops : List (Op P F)) (check : Fs P F → Bool) : Bool :=
  match s.run ops with
  | .ok s' => check s'
  | .error _ => false

theorem Reachable.ends (reach : Reachable (fun _ _ => True) s) (ops : List (Op P F))
    (check : Fs P F → Bool) (ended : s.ends ops check = true) :
    ∃ s', Reachable (fun _ _ => True) s' ∧ check s' = true := by
  unfold Fs.ends at ended
  split at ended
  · next s' ran => exact ⟨s', reach.run ran, ended⟩
  · cases ended

/-! ## An image with nothing but the root directory -/

def emptyFs : Fs Unit Unit where
  ninodes := 5
  inodes i :=
    if i = ROOTINO then
      { type := .dir, nlink := 1#16, entries := [⟨1#16, dot⟩, ⟨1#16, dotdot⟩] }
    else {}
  ref i := if ROOTINO = i then 1 else 0
  valid _ := false
  cwd _ := some ROOTINO
  file _ := none
  linked i := i == ROOTINO

theorem emptyFs_inodes (other : i ≠ ROOTINO) : emptyFs.inodes i = {} := if_neg other

theorem emptyFs_root (allocated : (emptyFs.inodes i).type ≠ .free) : i = ROOTINO := by
  by_contra other
  rw [emptyFs_inodes other] at allocated
  exact allocated rfl

theorem emptyFs_dir (dir : (emptyFs.inodes i).type = .dir) : i = ROOTINO :=
  emptyFs_root (dir.trans_ne FileType.noConfusion)

theorem emptyFs_links (other : i ≠ ROOTINO) :
    links emptyFs.ninodes emptyFs.inodes emptyFs.linked i = 0 := by
  refine Finset.sum_eq_zero fun d _ => ?_
  by_cases root : d = ROOTINO
  · subst root
    simp [emptyFs, Inode.linksTo, Dirent.counts, Ne.symm other]
  · rw [emptyFs_inodes root]
    rfl

theorem emptyFs_tree : DiskOk nothing emptyFs.ninodes emptyFs.inodes emptyFs.linked where
  small := by decide
  rootInside := by decide
  zero := rfl
  outside i beyond := by
    rw [emptyFs_inodes]
    rintro rfl
    exact absurd beyond (by decide)
  root := rfl
  rootLinked := rfl
  rootParent := rfl
  shape d dir := by
    rw [emptyFs_dir dir]
    exact ⟨rfl, by decide, by decide, nofun⟩
  child d e dir mem := by
    rw [emptyFs_dir dir] at mem
    cases mem
  once i dir := by
    rw [emptyFs_dir dir]
    decide
  parents d dir _ := by
    rw [emptyFs_dir dir]
    rfl
  proper d dir other := absurd (emptyFs_dir dir) other
  count i := by
    by_cases root : i = ROOTINO
    · rw [root]
      decide
    · rw [emptyFs_links root, emptyFs_inodes root]
      rfl
  freed i free := by
    rw [emptyFs_inodes]
    rintro rfl
    cases free

theorem emptyFs_booted : Booted emptyFs where
  tree := emptyFs_tree
  entered d dir := by
    rw [emptyFs_dir dir]
    rfl
  named i allocated := by
    rw [emptyFs_root allocated]
    decide
  cwd _ i current := by
    cases current
    rfl
  file _ := rfl
  ref i := by
    simp [emptyFs, holders]
  valid := nofun

theorem emptyFs_mkdir (may : G.mayEnter true true) :
    ∃ s : Fs Unit Unit, Reachable (MayStep G) s ∧ (s.inodes 2).type = .dir ∧
      s.cwd () = some ROOTINO := by
  have allowed : MayStep G emptyFs (.mkdir () [100#8] {}) := by
    intro cwd current dp name found _
    cases current
    cases found
    exact ⟨may, fun _ => by decide⟩
  have ended : emptyFs.ends [.mkdir () [100#8] {}]
      (fun s => (s.inodes 2).type = .dir ∧ s.cwd () = some ROOTINO) = true := by
    decide +kernel
  cases made : emptyFs.step (.mkdir () [100#8] {}) with
  | error e =>
    simp [Fs.ends, Fs.run, made, bind, Except.bind] at ended
  | ok s =>
    refine ⟨s, (Reachable.boot emptyFs_booted).step allowed made, ?_⟩
    simpa [Fs.ends, Fs.run, made, bind, Except.bind] using ended

end Xv6.Directory
