import Xv6.Fs.DirectoryCreate

/-!
# The system calls on directories

The conditions of the discipline are conditions on what the paths of a call lead to.
-/

namespace Xv6.Directory

open Blocks (FileType)
open Outcome (Leads)
open Function

variable {P F : Type} [Fintype P] [Fintype F] {G : Discipline} {extra slack : Nat → Nat}
  {s : Fs P F}
variable {ip dp cwd : Nat} {path : Path} {p : P}

/-! ## Link counts -/

theorem FsOk.raiseNlink (ok : FsOk G extra slack s) {i : Nat}
    (allocated : (s.inodes i).type ≠ .free) (room : (s.inodes i).nlink ≠ 32767#16)
    (present : 0 < s.ref i ∧ s.valid i = true) :
    FsOk G extra (update slack i (slack i + 1))
      { s with
        inodes := update s.inodes i
          { s.inodes i with nlink := (s.inodes i).nlink + 1#16 } } := by
  refine ok.setNlink allocated ?_ fun _ => present
  rw [toInt_add_one room, ok.disk.count i]
  push_cast
  omega

theorem FsOk.lowerNlink (ok : FsOk G extra slack s) {i k : Nat} (ahead : slack i = k + 1)
    (allocated : (s.inodes i).type ≠ .free) (present : 0 < s.ref i ∧ s.valid i = true) :
    FsOk G extra (update slack i k)
      { s with
        inodes := update s.inodes i
          { s.inodes i with nlink := (s.inodes i).nlink - 1#16 } } := by
  have counted := ok.disk.count i
  refine ok.setNlink allocated ?_ fun _ => present
  rw [toInt_sub_one (by omega), counted]
  omega

/-! ## `link` -/

theorem walkTo_congr {inodes inodes' : Nat → Inode} (type : ∀ i, (inodes' i).type = (inodes i).type)
    (entries : ∀ i, (inodes' i).entries = (inodes i).entries) (np : Bool) (names : List Name)
    (ip : Nat) : walkTo inodes' np names ip = walkTo inodes np names ip := by
  induction names generalizing ip with
  | nil => rfl
  | cons name rest ih =>
    unfold walkTo
    rw [type ip, entries ip]
    simp only [ih]

theorem update_nlink (inodes : Nat → Inode) (i : Nat) (v : BitVec 16) (j : Nat) :
    (update inodes i { inodes i with nlink := v } j).type = (inodes j).type ∧
      (update inodes i { inodes i with nlink := v } j).entries = (inodes j).entries := by
  by_cases same : j = i
  · rw [same, update_self]
    exact ⟨rfl, rfl⟩
  · rw [update_of_ne same]
    exact ⟨rfl, rfl⟩

theorem FsOk.dirlink_leads (ok : FsOk G extra slack s) {d : Nat}
    (dir : (s.inodes d).type = .dir) (name : Name) (inum : Nat) (full : Bool) :
    Leads (dirlink d name inum full s) (fun entered s' =>
      if entered then
        ∃ entries, findEntry (s.inodes d).entries name = none ∧
          addEntry (s.inodes d).entries ⟨BitVec.ofNat 16 inum, name⟩ full = some entries ∧
          s' = { s with
            inodes := update s.inodes d { s.inodes d with entries := entries } }
      else SameTree s s' ∧ FsOk G extra slack s' ∧ s'.ref = s.ref) G.mayPanic := by
  cases looked : findEntry (s.inodes d).entries name with
  | none =>
    rw [dirlink_absent dir looked]
    cases added : addEntry (s.inodes d).entries ⟨BitVec.ofNat 16 inum, name⟩ full with
    | none => exact Leads.ok ⟨SameTree.refl s, ok, rfl⟩
    | some entries => exact Leads.ok ⟨entries, rfl, rfl, rfl⟩
  | some entry =>
    obtain ⟨off, ip⟩ := entry
    refine Leads.bind (ok.dirlookup_leads dir name) ?_
    rintro found s₁ ⟨rfl, same, after⟩
    rw [looked] at after ⊢
    obtain ⟨ok₁, taken, -, -⟩ := after
    have safe : Safe s₁ ip := ok.safe_of_ref same (by rw [taken, update_self])
    refine Leads.bind (ok₁.iput_safe safe) ?_
    rintro _ s₂ ⟨same₂, ok₂, dropped, -⟩
    refine Leads.pure ⟨same.trans same₂, ok₂, ?_⟩
    rw [dropped, taken, update_self, Nat.add_sub_cancel, update_idem, update_eq_self]

/-- What the target of `sys_link` is while its link count runs ahead. -/
structure Raised (G : Discipline) (slack : Nat → Nat) (ip : Nat) (s : Fs P F) : Prop where
  ok : FsOk G (bump nothing ip) (update slack ip (slack ip + 1)) s
  allocated : (s.inodes ip).type ≠ .free
  plain : (s.inodes ip).type ≠ .dir

theorem Raised.same (raised : Raised G slack ip s) {s' : Fs P F}
    (same : SameTree s s') (ok : FsOk G (bump nothing ip)
      (update slack ip (slack ip + 1)) s') : Raised G slack ip s' := by
  refine ⟨ok, ?_, ?_⟩
  · rw [same.inodes]
    exact raised.allocated
  · rw [same.inodes]
    exact raised.plain

theorem Raised.undo (raised : Raised G slack ip s) (lose : G.mayLose slack) : Leads ((do
        ilock ip
        modifyInode ip fun node => { node with nlink := node.nlink - 1#16 }
        iput ip
        return false : FsM P F Bool) s)
      (fun _ s' => Holding G nothing s') G.mayPanic := by
  refine Leads.bind (raised.ok.ilock_leads raised.ok.ref_pos (Or.inl raised.allocated)) ?_
  rintro _ s₁ ⟨same, ok₁, -, allocated, locked, -⟩
  refine Leads.step rfl ?_
  rw [← same.inodes] at allocated
  have lowered := ok₁.lowerNlink (update_self ..) allocated ⟨ok₁.ref_pos, locked⟩
  rw [update_idem, update_eq_self] at lowered
  exact lowered.iput_return lose _

/-- The condition of the discipline on a call of `link`. -/
def MayLink (G : Discipline) (s : Fs P F) (cwd : Nat) (old new : Path) : Prop :=
  (∀ ip name, lookup s.inodes cwd old false = some (ip, name) → (s.inodes ip).type ≠ .dir →
    (s.inodes ip).nlink ≠ 32767#16) ∧
  ∀ dp name, lookup s.inodes cwd new true = some (dp, name) →
    findEntry (s.inodes dp).entries name = none → G.mayEnter (s.linked dp) false

theorem Raised.link {name : Name} {s₀ : Fs P F} (raised : Raised G slack ip s₀)
    (same₀ : SameTree s₀ s) (lose : G.mayLose slack)
    (found : Found G (bump nothing ip) (update slack ip (slack ip + 1)) true dp s)
    (may : findEntry (s.inodes dp).entries name = none → G.mayEnter (s.linked dp) false)
    (full : Bool) :
    Leads ((do
        ilock dp
        let entered ← dirlink dp name ip full
        iput dp
        pure entered : FsM P F Bool) s)
      (fun entered s' => if entered then Holding G (bump nothing ip) s' else Raised G slack ip s')
      G.mayPanic := by
  have dir := found.directory rfl
  have other : ip ≠ dp := by
    rintro rfl
    rw [same₀.inodes] at dir
    exact raised.plain dir
  refine Leads.bind (found.ok.ilock_leads found.ok.ref_pos found.typed) ?_
  rintro _ s₁ ⟨same, ok₁, refs, -, locked, -⟩
  have directory₁ : (s₁.inodes dp).type = .dir := by
    rw [same.inodes]
    exact dir
  refine Leads.bind (ok₁.dirlink_leads directory₁ name ip full) ?_
  intro entered s₂ after
  cases entered with
  | false =>
    obtain ⟨same₂, ok₂, refs₂⟩ := after
    have safe : Safe s₂ dp := found.safe.same (same.trans same₂) (by rw [refs₂, refs])
    refine Leads.bind (ok₂.iput_safe safe) ?_
    rintro _ s₃ ⟨same₃, ok₃, -, -⟩
    exact Leads.pure (raised.same (((same₀.trans same).trans same₂).trans same₃) ok₃)
  | true =>
    obtain ⟨entries, absent, added, rfl⟩ := after
    have notDir : (s₁.inodes ip).type ≠ .dir := by
      rw [same.inodes, same₀.inodes]
      exact raised.plain
    have enterable : G.mayEnter (s₁.linked dp) ((s₁.inodes ip).type == .dir) := by
      rw [beq_eq_false_iff_ne.mpr notDir, same.linked]
      refine may ?_
      rw [← same.inodes]
      exact absent
    have done := @FsOk.enter _ _ _ _ _ _ _ _ ok₁ dp ip name full (s₁.linked ip) entries
      (s₁.inodes dp).nlink directory₁ other
      (by rw [same.inodes, same₀.inodes]; exact raised.allocated) absent added enterable
      (fun child => absurd child notDir) (by rw [if_neg notDir, Int.add_zero])
      ⟨ok₁.ref_pos, locked⟩ (by rw [update_self]; omega)
    rw [update_eq_self, update_self, Nat.add_sub_cancel, update_idem, update_eq_self] at done
    refine Leads.bind (Holding.iput ⟨slack, lose, done⟩) ?_
    rintro _ s₃ ⟨-, -, holding⟩
    exact Leads.pure holding

theorem FsOk.sysLink_leads (ok : FsOk G nothing slack s) (lose : G.mayLose slack)
    (held : 0 < holders s.cwd s.file cwd) {old new : Path} (may : MayLink G s cwd old new)
    (full : Bool) :
    Leads (sysLink cwd old new full s) (fun _ s' => Holding G nothing s') G.mayPanic := by
  refine Leads.bind (ok.namei_leads held old) ?_
  rintro r s₁ ⟨same, after⟩
  cases r with
  | none => exact Leads.pure ⟨slack, lose, after⟩
  | some ip =>
    obtain ⟨found, name, result⟩ := after
    refine Leads.bind (found.ok.ilock_leads found.ok.ref_pos found.typed) ?_
    rintro _ s₂ ⟨same₂, ok₂, -, allocated, locked, -⟩
    have tree := same.trans same₂
    rw [← same₂.inodes] at allocated
    refine Leads.read ?_
    split
    · exact ok₂.iput_return lose _
    · next plain =>
      refine Leads.step rfl ?_
      have room : (s₂.inodes ip).nlink ≠ 32767#16 := by
        rw [tree.inodes] at plain ⊢
        exact may.1 ip name result plain
      have counts := update_nlink s₂.inodes ip ((s₂.inodes ip).nlink + 1#16)
      have raised : Raised G slack ip { s₂ with
          inodes := update s₂.inodes ip
            { s₂.inodes ip with nlink := (s₂.inodes ip).nlink + 1#16 } } := by
        refine ⟨ok₂.raiseNlink allocated room ⟨ok₂.ref_pos, locked⟩, ?_, ?_⟩
        · rw [(counts ip).1]
          exact allocated
        · rw [(counts ip).1]
          exact plain
      have lookups : ∀ path, lookup (update s₂.inodes ip
          { s₂.inodes ip with nlink := (s₂.inodes ip).nlink + 1#16 }) cwd path true =
            lookup s.inodes cwd path true := by
        intro path
        rw [← tree.inodes]
        exact walkTo_congr (fun j => (counts j).1) (fun j => (counts j).2) ..
      have entering : Leads (linkEntry cwd new ip full { s₂ with
          inodes := update s₂.inodes ip
            { s₂.inodes ip with nlink := (s₂.inodes ip).nlink + 1#16 } })
          (fun entered s' =>
            if entered then Holding G (bump nothing ip) s' else Raised G slack ip s')
          G.mayPanic := by
        refine Leads.bind (raised.ok.namex_leads
          (by rw [tree.cwd, tree.file]; exact held) new true) ?_
        rintro r s₃ ⟨same₃, result₃, after₃⟩
        cases r with
        | none => exact Leads.pure (raised.same same₃ after₃)
        | some parent =>
          obtain ⟨dp, name'⟩ := parent
          rw [lookups] at result₃
          refine raised.link same₃ lose after₃ ?_ full
          intro absent
          rw [same₃.linked, tree.linked]
          refine may.2 dp name' result₃.symm ?_
          rw [same₃.inodes, (counts dp).2, tree.inodes] at absent
          exact absent
      refine Leads.bind entering ?_
      intro entered s₃ after₃
      cases entered with
      | true =>
        refine Leads.bind (Holding.iput after₃) ?_
        rintro _ s₄ ⟨-, -, holding⟩
        exact Leads.pure holding
      | false => exact Raised.undo after₃ lose

/-! ## `unlink` -/

/-- The condition of the discipline on a call of `unlink`. -/
def MayUnlink (G : Discipline) (s : Fs P F) (cwd : Nat) (path : Path) : Prop :=
  ∀ dp name off ip, lookup s.inodes cwd path true = some (dp, name) →
    findEntry (s.inodes dp).entries name = some (off, ip) → (s.inodes ip).type = .dir →
    G.mayRemove s.inodes ip

theorem FsOk.dropEntry (other : ip ≠ dp)
    (ok : FsOk G (bump (bump nothing dp) ip) (update slack ip (slack ip + 1)) s)
    (lose : G.mayLose slack) (allocated : (s.inodes ip).type ≠ .free)
    (locked : s.valid ip = true) :
    Leads ((do
        iput dp
        modifyInode ip fun node => { node with nlink := node.nlink - 1#16 }
        iput ip : FsM P F Unit) s)
      (fun _ s' => Holding G nothing s') G.mayPanic := by
  have referenced := ok.ref_pos
  rw [bump_comm] at ok
  refine Leads.bind ok.iput_leads ?_
  rintro _ s₁ ⟨elsewhere, -, lost, loses, ok₁⟩
  refine Leads.step rfl ?_
  have lowered := ok₁.lowerNlink (i := ip) (k := slack ip + lost ip)
    (by rw [update_self]; omega) (by rw [elsewhere.inodes ip other]; exact allocated)
    ⟨by rw [elsewhere.ref ip other]; exact referenced,
      by rw [elsewhere.valid ip other]; exact locked⟩
  have left : update (fun j => update slack ip (slack ip + 1) j + lost j) ip
      (slack ip + lost ip) = fun j => slack j + lost j := by
    funext j
    by_cases same : j = ip
    · rw [same, update_self]
    · rw [update_of_ne same, update_of_ne same]
  rw [left] at lowered
  have holding : Holding G (bump nothing ip) _ := ⟨_, G.lose_add lose loses, lowered⟩
  refine holding.iput.mono ?_ fun _ => id
  rintro _ s₂ ⟨-, -, holding'⟩
  exact holding'

theorem FsOk.removeEntry_leads {off : Nat} {name : Name}
    (ok : FsOk G (bump (bump nothing dp) ip) slack s) (lose : G.mayLose slack)
    (dir : (s.inodes dp).type = .dir) (plain : name ≠ dot ∧ name ≠ dotdot)
    (found : findEntry (s.inodes dp).entries name = some (off, ip))
    (locked : s.valid dp = true ∧ s.valid ip = true)
    (removed : (s.inodes ip).type = .dir → G.mayRemove s.inodes ip ∧
      ∀ e ∈ (s.inodes ip).rest, e.inum = 0#16) :
    Leads (removeEntry dp off ip s) (fun _ s' => Holding G nothing s') G.mayPanic := by
  have present : 0 < s.ref dp ∧ s.valid dp = true := by
    refine ⟨?_, locked.1⟩
    rw [bump_comm] at ok
    exact ok.ref_pos
  refine Leads.read (Leads.step rfl ?_)
  by_cases child : (s.inodes ip).type = .dir
  · rw [if_pos child]
    refine Leads.step rfl (Leads.step rfl ?_)
    have linkedAbove : 1 ≤ (s.inodes dp).nlink.toInt := by
      obtain ⟨k, -, inside, nonempty, value⟩ := ok.disk.entry_rest dir plain found
      have mem := List.getElem_mem inside
      rw [← value] at child
      have entered := (ok.disk.entered dir mem nonempty child).1
      have pos := ok.disk.links_pos_of_parent child entered
      rw [ok.disk.child dp _ dir mem nonempty child] at pos
      have := ok.disk.count dp
      omega
    obtain ⟨other, allocated, erased⟩ := @FsOk.erase _ _ _ _ _ _ _ _ ok dp off ip name false
      ((s.inodes dp).nlink - 1#16) dir plain found
      (fun child => ⟨rfl, removed child⟩)
      (by rw [if_pos child]; exact toInt_sub_one linkedAbove) present
    dsimp only
    rw [update_self, update_idem]
    refine erased.dropEntry other lose ?_ locked.2
    dsimp only
    rw [update_of_ne other]
    exact allocated
  · rw [if_neg child]
    obtain ⟨other, allocated, erased⟩ := @FsOk.erase _ _ _ _ _ _ _ _ ok dp off ip name
      (s.linked ip) (s.inodes dp).nlink dir plain found
      (fun child' => absurd child' child) (by rw [if_neg child, Int.sub_zero]) present
    rw [update_eq_self] at erased
    refine erased.dropEntry other lose ?_ locked.2
    dsimp only
    rw [update_of_ne other]
    exact allocated

theorem FsOk.sysUnlink_leads (ok : FsOk G nothing slack s) (lose : G.mayLose slack)
    (held : 0 < holders s.cwd s.file cwd) (may : MayUnlink G s cwd path) :
    Leads (sysUnlink cwd path s) (fun _ s' => Holding G nothing s') G.mayPanic := by
  refine Leads.bind (ok.namex_leads held path true) ?_
  rintro r s₁ ⟨same, result, after⟩
  cases r with
  | none => exact Leads.pure ⟨slack, lose, after⟩
  | some parent =>
    obtain ⟨dp, name⟩ := parent
    refine Leads.bind (after.ok.ilock_leads after.ok.ref_pos after.typed) ?_
    rintro _ s₂ ⟨same₂, ok₂, -, -, locked, -⟩
    have tree := same.trans same₂
    have dir : (s₂.inodes dp).type = .dir := by
      rw [same₂.inodes]
      exact after.directory rfl
    split
    · exact ok₂.iput_return lose _
    · next plain =>
      rw [not_or] at plain
      refine Leads.bind (ok₂.dirlookup_leads dir name) ?_
      rintro found s₃ ⟨looked, same₃, after₃⟩
      cases found with
      | none =>
        rw [after₃]
        exact ok₂.iput_return lose _
      | some entry =>
        obtain ⟨off, ip⟩ := entry
        obtain ⟨ok₃, -, valid₃, typed⟩ := after₃
        rw [← same₃.inodes] at typed
        refine Leads.bind (ok₃.ilock_leads ok₃.ref_pos typed) ?_
        rintro _ s₄ ⟨same₄, ok₄, -, -, locked₄, valid₄⟩
        have later := same₃.trans same₄
        refine Leads.read ?_
        split
        · exact Leads.error (G.panics Panic.noConfusion)
        · split
          · refine Leads.bind (Holding.iput ⟨slack, lose, ok₄⟩) ?_
            rintro _ s₅ ⟨-, -, slack₅, lose₅, ok₅⟩
            exact ok₅.iput_return lose₅ _
          · next removable =>
            have locked₃ : s₃.valid dp = true := by
              rw [valid₃ dp ok₂.ref_pos]
              exact locked
            have removed := ok₄.removeEntry_leads lose (by rw [later.inodes]; exact dir) plain
              (by rw [later.inodes]; exact looked.symm) ⟨valid₄ dp locked₃, locked₄⟩
              (fun child => by
                refine ⟨?_, ?_⟩
                · rw [later.inodes, tree.inodes] at child ⊢
                  exact may dp name off ip result.symm
                    (by rw [← tree.inodes]; exact looked.symm) child
                · have empty : isdirempty (s₄.inodes ip) = true := by
                    by_contra full
                    exact removable ⟨child, full⟩
                  unfold isdirempty at empty
                  rw [List.all_eq_true] at empty
                  intro e mem
                  exact beq_iff_eq.mp (empty e mem))
            refine Leads.bind removed ?_
            intro _ s₅ holding
            exact Leads.pure holding

/-! ## Current directories and open files -/

/-- The reference of one current directory or open file. -/
def own (v : Option Nat) (i : Nat) : Nat :=
  if v = some i then 1 else 0

theorem own_none : own none = nothing := by
  funext i
  exact if_neg nofun

theorem own_some (i : Nat) : own (some i) = bump nothing i := by
  funext j
  by_cases same : j = i
  · rw [own, if_pos (by rw [same]), same, bump_self]
  · rw [own, if_neg (fun equal => same (Option.some.inj equal).symm), bump_of_ne same]

theorem FsOk.rehold (ok : FsOk G extra slack s) {extra' : Nat → Nat} {cwd : P → Option Nat}
    {file : F → Option Nat}
    (balance : ∀ i, holders cwd file i + extra' i = holders s.cwd s.file i + extra i)
    (typed : ∀ i, 0 < extra i → (s.inodes i).type ≠ .free) :
    FsOk G extra' slack { s with cwd := cwd, file := file } := by
  refine ⟨ok.disk, ⟨fun i => (ok.refs.ref i).trans (balance i).symm, fun i held => ?_,
    ok.refs.valid, ok.refs.orphans⟩, ok.kept⟩
  have := balance i
  rcases Nat.eq_zero_or_pos (extra i) with zero | pos
  · exact ok.refs.held i (by dsimp only at held; omega)
  · exact typed i pos

theorem FsOk.setFile [DecidableEq F] {v : Option Nat} (ok : FsOk G (own v) slack s) (f : F)
    (typed : ∀ i, v = some i → (s.inodes i).type ≠ .free) :
    FsOk G (own (s.file f)) slack { s with file := update s.file f v } := by
  refine @FsOk.rehold _ _ _ _ _ _ _ _ ok _ s.cwd _ (fun i => ?_) fun i pos => ?_
  · have change := RefCount.sum_update (fun v => if v = some i then 1 else 0) s.file f v
    unfold holders own
    omega
  · refine typed i ?_
    by_contra other
    rw [own, if_neg other] at pos
    omega

theorem FsOk.setCwd [DecidableEq P] {v : Option Nat} (ok : FsOk G (own v) slack s) (p : P)
    (typed : ∀ i, v = some i → (s.inodes i).type ≠ .free) :
    FsOk G (own (s.cwd p)) slack { s with cwd := update s.cwd p v } := by
  refine @FsOk.rehold _ _ _ _ _ _ _ _ ok _ _ s.file (fun i => ?_) fun i pos => ?_
  · have change := RefCount.sum_update (fun v => if v = some i then 1 else 0) s.cwd p v
    unfold holders own
    omega
  · refine typed i ?_
    by_contra other
    rw [own, if_neg other] at pos
    omega

theorem FsOk.replaceCwd_leads [DecidableEq P] {new : Option Nat} (ok : FsOk G (own new) slack s)
    (lose : G.mayLose slack) (current : s.cwd p = some cwd)
    (typed : ∀ i, new = some i → (s.inodes i).type ≠ .free) :
    Leads (replaceCwd p cwd new s) (fun _ s' => Holding G nothing s') G.mayPanic := by
  have moved := ok.setCwd p typed
  rw [current, own_some] at moved
  have holding : Holding G (bump nothing cwd) _ := ⟨slack, lose, moved⟩
  have leads := holding.iput
  refine Leads.bind (show Leads (iput cwd s) (fun _ s' => Holding G nothing
    { s' with cwd := update s'.cwd p new }) G.mayPanic from ?_) fun _ _ => id
  unfold iput at leads ⊢
  split
  · next last =>
    rw [if_pos last] at leads
    exact leads.2.2
  · next notLast =>
    rw [if_neg notLast] at leads
    exact leads.2.2

section

variable (ok : FsOk G nothing slack s)
include ok

section

variable (lose : G.mayLose slack)
include lose

section

variable (held : 0 < holders s.cwd s.file cwd) {omode : BitVec 32}
  (may : omode.getLsbD O_CREATE = true → MayCreate G s cwd path .file)
include held may

theorem FsOk.openLookup_leads (full : Full) :
    Leads (openLookup cwd path omode full s) (Created G nothing s) G.mayPanic := by
  unfold openLookup
  split
  · next creating => exact ok.create_leads lose held FileType.noConfusion (may creating) 0 full
  · refine Leads.bind (ok.namei_leads held path) ?_
    rintro r s₁ ⟨same, after⟩
    cases r with
    | none => exact Leads.pure ⟨same.cwd, same.file, slack, lose, after⟩
    | some ip =>
      obtain ⟨found, -⟩ := after
      refine Leads.bind (found.ok.ilock_leads found.ok.ref_pos found.typed) ?_
      rintro _ s₂ ⟨same₂, ok₂, -, allocated, -, -⟩
      have tree := same.trans same₂
      refine Leads.read ?_
      split
      · exact ok₂.iput_none lose tree.cwd tree.file
      · refine Leads.pure ⟨tree.cwd, tree.file, ⟨slack, lose, ok₂⟩, ?_⟩
        rw [same₂.inodes]
        exact allocated

theorem FsOk.sysOpen_leads [DecidableEq F] {slot : Option F}
    (closed : ∀ f, slot = some f → s.file f = none) (full : Full) :
    Leads (sysOpen cwd path omode slot full s) (fun _ s' => Holding G nothing s') G.mayPanic := by
  refine Leads.bind (ok.openLookup_leads lose held may full) ?_
  rintro r s₁ ⟨-, file, after⟩
  cases r with
  | none => exact Leads.pure after
  | some ip =>
    obtain ⟨⟨slack', lose', ok₁⟩, allocated⟩ := after
    refine Leads.read ?_
    split
    · exact ok₁.iput_return lose' _
    · cases slot with
      | none => exact ok₁.iput_return lose' _
      | some f =>
        refine Leads.step rfl (Leads.pure ?_)
        rw [← own_some] at ok₁
        have opened := ok₁.setFile f fun i same => by
          cases same
          exact allocated
        rw [file, closed f rfl, own_none, ← file] at opened
        exact ⟨slack', lose', opened⟩

end

theorem FsOk.sysCreate_leads (held : 0 < holders s.cwd s.file cwd) {type : FileType}
    (used : type ≠ .free) (may : MayCreate G s cwd path type) (major : BitVec 16) (full : Full) :
    Leads (sysCreate cwd path type major full s) (fun _ s' => Holding G nothing s') G.mayPanic := by
  refine Leads.bind (ok.create_leads lose held used may major full) ?_
  rintro r s₁ ⟨-, -, after⟩
  cases r with
  | none => exact Leads.pure after
  | some ip =>
    refine Leads.bind after.1.iput ?_
    rintro _ s₂ ⟨-, -, holding⟩
    exact Leads.pure holding

theorem FsOk.sysChdir_leads [DecidableEq P]
    (current : s.cwd p = some cwd) (held : 0 < holders s.cwd s.file cwd)
    (path : Path) :
    Leads (sysChdir p cwd path s) (fun _ s' => Holding G nothing s') G.mayPanic := by
  refine Leads.bind (ok.namei_leads held path) ?_
  rintro r s₁ ⟨same, after⟩
  cases r with
  | none => exact Leads.pure ⟨slack, lose, after⟩
  | some ip =>
    obtain ⟨found, -⟩ := after
    refine Leads.bind (found.ok.ilock_leads found.ok.ref_pos found.typed) ?_
    rintro _ s₂ ⟨same₂, ok₂, -, allocated, -, -⟩
    have tree := same.trans same₂
    refine Leads.read ?_
    split
    · exact ok₂.iput_return lose _
    · rw [← own_some] at ok₂
      refine Leads.bind (ok₂.replaceCwd_leads lose (by rw [tree.cwd]; exact current) ?_) ?_
      · intro i equal
        cases equal
        rw [same₂.inodes]
        exact allocated
      · intro _ s₃ holding
        exact Leads.pure holding

theorem FsOk.fileclose_leads [DecidableEq F] {f : F} (opened : s.file f = some ip) :
    Leads (fileclose f ip s) (fun _ s' => Holding G nothing s') G.mayPanic := by
  refine Leads.step rfl ?_
  rw [← own_none] at ok
  have closed := ok.setFile f nofun
  rw [opened, own_some] at closed
  have holding : Holding G (bump nothing ip) _ := ⟨slack, lose, closed⟩
  refine holding.iput.mono ?_ fun _ => id
  rintro _ s₁ ⟨-, -, holding'⟩
  exact holding'

theorem FsOk.exitCwd_leads [DecidableEq P] (current : s.cwd p = some cwd) :
    Leads (exitCwd p cwd s) (fun _ s' => Holding G nothing s') G.mayPanic := by
  exact ok.replaceCwd_leads lose current nofun

theorem FsOk.forkCwd_leads [DecidableEq P] {q : P}
    (fresh : s.cwd q = none) (held : 0 < holders s.cwd s.file cwd) :
    Leads (forkCwd q cwd s) (fun _ s' => Holding G nothing s') G.mayPanic := by
  have referenced : 0 < s.ref cwd := by
    rw [ok.refs.ref cwd]
    omega
  refine Leads.bind (ok.idup_leads referenced) ?_
  rintro _ s₁ ⟨same, ok₁, -⟩
  rw [← own_some] at ok₁
  have shared := ok₁.setCwd q fun i equal => by
    cases equal
    rw [same.inodes]
    exact ok.refs.held cwd held
  rw [same.cwd, fresh, own_none, ← same.cwd] at shared
  exact Leads.ok ⟨slack, lose, shared⟩

end

end

end Xv6.Directory
