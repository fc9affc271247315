import Xv6.Fs.BlockOwnership

/-!
# The bitmap through all calls

The copies of inodes in memory agree with the disk between calls, so the ledger that is exact
for the copies is exact for the disk.
-/

namespace Xv6.Blocks

open Ledger
open Function

variable {sb : Superblock} {s : FsState} {inum : Nat} {s' : FsState}

structure BlocksOk (sb : Superblock) (s : FsState) : Prop where
  bootBlock : 0 < sb.nmeta
  exact : Exact s.disk.bitmap (fun b => b < sb.nmeta) (holds s.disk.dinodes s.disk.blocks)
  sizes : ∀ i, (s.disk.dinodes i).type ≠ .free → (s.disk.dinodes i).size ≤ MAXFILE * BSIZE
  filled : ∀ i bn, (s.disk.dinodes i).type ≠ .free → BSIZE * bn < (s.disk.dinodes i).size →
    ∃ k b, dataSlot bn = some k ∧ holds s.disk.dinodes s.disk.blocks (i, k) = some b
  copies : ∀ i, 1 ≤ (s.itable i).ref → (s.itable i).valid = true →
    (s.itable i).copy = s.disk.dinodes i ∧ (s.disk.dinodes i).type ≠ .free

theorem WellFormed.blocksOk (image : WellFormed sb s) : BlocksOk sb s where
  bootBlock := image.bootBlock
  exact := image.exact
  sizes := image.sizes
  filled := image.filled
  copies := by
    intro i referenced
    have := (image.noneInMemory i).1
    omega

namespace BlocksOk

theorem locked (inv : BlocksOk sb s) (referenced : 1 ≤ (s.itable inum).ref)
    (valid : (s.itable inum).valid = true) :
    Working sb inum (s.itable inum).copy s.disk ∧ (s.itable inum).copy.size ≤ MAXFILE * BSIZE ∧
      FilledTo inum (s.itable inum).copy s.disk (s.itable inum).copy.size := by
  obtain ⟨same, allocated⟩ := inv.copies inum referenced valid
  rw [same]
  have current : working inum (s.disk.dinodes inum) s.disk =
      holds s.disk.dinodes s.disk.blocks := by
    rw [working, update_eq_self]
  refine ⟨⟨inv.bootBlock, allocated, current ▸ inv.exact⟩, inv.sizes inum allocated, ?_⟩
  intro bn below
  rw [current]
  exact inv.filled inum bn allocated below

theorem update (inv : BlocksOk sb s) (inum : Nat) (ip : Dinode)
    (dinodes : s'.disk.dinodes = Function.update s.disk.dinodes inum ip)
    (exact : Exact s'.disk.bitmap (fun b => b < sb.nmeta) (holds s'.disk.dinodes s'.disk.blocks))
    (others : ∀ slot : Slot, slot.1 ≠ inum →
      holds s'.disk.dinodes s'.disk.blocks slot = holds s.disk.dinodes s.disk.blocks slot)
    (short : ip.type ≠ .free → ip.size ≤ MAXFILE * BSIZE)
    (filled : ip.type ≠ .free → ∀ bn, BSIZE * bn < ip.size →
      ∃ k b, dataSlot bn = some k ∧ holds s'.disk.dinodes s'.disk.blocks (inum, k) = some b)
    (entries : ∀ i, i ≠ inum → s'.itable i = s.itable i)
    (entry : 1 ≤ (s'.itable inum).ref → (s'.itable inum).valid = true →
      (s'.itable inum).copy = ip ∧ ip.type ≠ .free) :
    BlocksOk sb s' := by
  refine ⟨inv.bootBlock, exact, ?_, ?_, ?_⟩
  · intro i allocated
    rw [dinodes] at allocated ⊢
    by_cases same : i = inum
    · subst same
      rw [update_self] at allocated ⊢
      exact short allocated
    · rw [update_of_ne same] at allocated ⊢
      exact inv.sizes i allocated
  · intro i bn allocated below
    by_cases same : i = inum
    · subst same
      rw [dinodes, update_self] at allocated below
      exact filled allocated bn below
    · rw [dinodes, update_of_ne same] at allocated below
      obtain ⟨k, b, slot, held⟩ := inv.filled i bn allocated below
      exact ⟨k, b, slot, (others (i, k) same).trans held⟩
  · intro i referenced valid
    by_cases same : i = inum
    · subst same
      rw [dinodes, update_self]
      exact entry referenced valid
    · rw [entries i same] at referenced valid ⊢
      rw [dinodes, update_of_ne same]
      exact inv.copies i referenced valid

theorem table (inv : BlocksOk sb s) (inum : Nat) (disk : s'.disk = s.disk)
    (entries : ∀ i, i ≠ inum → s'.itable i = s.itable i)
    (entry : 1 ≤ (s'.itable inum).ref → (s'.itable inum).valid = true →
      (s'.itable inum).copy = s.disk.dinodes inum ∧ (s.disk.dinodes inum).type ≠ .free) :
    BlocksOk sb s' := by
  refine inv.update inum (s.disk.dinodes inum) ?_ ?_ ?_ (inv.sizes inum) ?_ entries entry
  · rw [disk, update_eq_self]
  · rw [disk]
    exact inv.exact
  · intro slot _
    rw [disk]
  · rw [disk]
    exact fun allocated bn => inv.filled inum bn allocated

/-! ## The calls -/

theorem iget (inv : BlocksOk sb s) (inum : Nat) : BlocksOk sb (s.iget inum) := by
  refine inv.table inum rfl (fun i other => update_of_ne other ..) ?_
  intro _ valid
  simp only [FsState.iget, FsState.setInode, update_self] at valid ⊢
  split at valid
  · cases valid
  · next referenced =>
    rw [if_neg referenced]
    exact inv.copies inum (by omega) valid

theorem holds_new (free : (s.disk.dinodes inum).type = .free) (type : FileType) :
    holds (Function.update s.disk.dinodes inum { type := type }) s.disk.blocks =
      holds s.disk.dinodes s.disk.blocks := by
  funext slot
  rcases slot with ⟨i, k⟩
  by_cases same : i = inum
  · subst same
    rw [holds_self, holds]
    rcases k with k | j <;> simp [Dinode.slots, free]
  · rw [holds_of_ne same]

theorem ialloc (inv : BlocksOk sb s) (type : FileType) : BlocksOk sb (s.ialloc sb type) := by
  unfold FsState.ialloc
  split
  · exact inv
  · next inum found =>
    have free : (s.disk.dinodes inum).type = .free := by
      have accepted := List.find?_some found
      simp only [Bool.and_eq_true, beq_iff_eq] at accepted
      exact accepted.2
    have unchanged := @holds_new s inum free type
    refine iget ?_ inum
    refine inv.update inum { type := type } rfl (unchanged ▸ inv.exact)
      (fun slot _ => congrFun unchanged slot) ?_ ?_ (fun _ _ => rfl) ?_
    · exact fun _ => Nat.zero_le _
    · exact fun _ bn below => absurd below (Nat.not_lt_zero _)
    · intro referenced valid
      exact absurd free (inv.copies inum referenced valid).2

theorem ilock (inv : BlocksOk sb s) (locked : s.ilock inum = .ok s') : BlocksOk sb s' := by
  unfold FsState.ilock at locked
  split at locked
  · cases locked
    exact inv
  · split at locked
    · cases locked
    · next allocated =>
      cases locked
      refine inv.table inum rfl (fun i other => update_of_ne other ..) ?_
      intro _ _
      simp only [FsState.setInode, update_self]
      exact ⟨trivial, allocated⟩

theorem readi (inv : BlocksOk sb s) (ok : Nat → Bool) {off n : Nat}
    (allowed : s.Allowed sb (.readi inum ok off n)) :
    ∃ s', s.step sb (.readi inum ok off n) = .ok s' ∧ BlocksOk sb s' := by
  obtain ⟨referenced, valid, small, small'⟩ := allowed
  obtain ⟨work, -, filled⟩ := inv.locked referenced valid
  obtain ⟨result, returned⟩ := readi_ok ok small small' work filled
  refine ⟨s.replace inum (s.itable inum).copy s.disk, ?_, ?_⟩
  · simp only [FsState.step, returned, bind, Except.bind]
  · rw [FsState.replace, update_eq_self]
    exact inv

theorem holds_sizeless {ip : Dinode} {d : Disk} (size : Nat) :
    holds (Function.update d.dinodes inum { ip with size := size }) d.blocks =
      working inum ip d := by
  funext slot
  rcases slot with ⟨i, k⟩
  by_cases same : i = inum
  · subst same
    rw [working, holds_self, holds_self]
    rcases k with k | j <;> rfl
  · rw [working, holds_of_ne same, holds_of_ne same]

section

variable (inv : BlocksOk sb s)
include inv

theorem writei (copy : Copy) {off n : Nat} (allowed : s.Allowed sb (.writei inum copy off n)) :
    ∃ s', s.step sb (.writei inum copy off n) = .ok s' ∧ BlocksOk sb s' := by
  obtain ⟨referenced, valid, small, small'⟩ := allowed
  obtain ⟨work, short, filled⟩ := inv.locked referenced valid
  obtain ⟨same, allocated⟩ := inv.copies inum referenced valid
  obtain ⟨result, ip', d', returned, outcome⟩ := writei_ok copy small small' work short filled
  refine ⟨s.replace inum ip' d', by simp only [FsState.step, returned, bind, Except.bind], ?_⟩
  rcases outcome with ⟨rfl, rfl⟩ | ⟨ip₁, d₁, grown, rfl, written, short', filled'⟩
  · rw [FsState.replace, update_eq_self]
    exact inv
  · have ledger : holds (Function.update d₁.dinodes inum ip') d₁.blocks = working inum ip₁ d₁ := by
      rw [written]
      exact holds_sizeless ip'.size
    have kind : ip'.type ≠ .free := by
      rw [written]
      exact grown.working.allocated
    refine inv.update inum ip' ?_ ?_ ?_ (fun _ => short') ?_
      (fun i other => update_of_ne other ..) ?_
    · rw [FsState.replace, Disk.iupdate, grown.dinodes]
    · exact ledger ▸ grown.working.exact
    · intro slot other
      refine (congrFun ledger slot).trans ((grown.others slot other).trans ?_)
      rw [working, same, update_eq_self]
    · intro _ bn below
      obtain ⟨k, b, slot, held⟩ := filled' bn below
      exact ⟨k, b, slot, (congrFun ledger (inum, k)).trans held⟩
    · intro _ _
      simp only [FsState.replace, update_self]
      exact ⟨trivial, kind⟩

theorem itrunc (allowed : s.Allowed sb (.itrunc inum)) :
    ∃ s', s.step sb (.itrunc inum) = .ok s' ∧ BlocksOk sb s' := by
  obtain ⟨referenced, valid⟩ := allowed
  obtain ⟨work, -, -⟩ := inv.locked referenced valid
  obtain ⟨ip', d', returned, dinodes, blocks, type, -, size, -, exact⟩ := itrunc_ok work
  refine ⟨s.replace inum ip' d', by simp only [FsState.step, returned, bind, Except.bind], ?_⟩
  refine inv.update inum ip' dinodes exact ?_ ?_ ?_ (fun i other => update_of_ne other ..) ?_
  · intro slot other
    simp only [FsState.replace, dinodes, blocks, holds_of_ne other]
  · rw [size]
    exact fun _ => Nat.zero_le _
  · rw [size]
    exact fun _ bn below => absurd below (Nat.not_lt_zero _)
  · intro _ _
    simp only [FsState.replace, update_self]
    exact ⟨trivial, type ▸ work.allocated⟩

theorem iupdate (nlink : BitVec 16) (allowed : s.Allowed sb (.iupdate inum nlink)) :
    ∃ s', s.step sb (.iupdate inum nlink) = .ok s' ∧ BlocksOk sb s' := by
  obtain ⟨referenced, valid⟩ := allowed
  obtain ⟨same, allocated⟩ := inv.copies inum referenced valid
  have linkless : holds (Function.update s.disk.dinodes inum
      { (s.itable inum).copy with nlink := nlink }) s.disk.blocks =
        holds s.disk.dinodes s.disk.blocks := by
    funext slot
    rcases slot with ⟨i, k⟩
    by_cases here : i = inum
    · subst here
      rw [holds_self, holds, same]
      rcases k with k | j <;> rfl
    · rw [holds_of_ne here]
  refine ⟨_, rfl, ?_⟩
  refine inv.update inum { (s.itable inum).copy with nlink := nlink } rfl
    (linkless ▸ inv.exact) (fun slot _ => congrFun linkless slot) ?_ ?_
    (fun i other => update_of_ne other ..) ?_
  · rw [same]
    exact inv.sizes inum
  · intro kind bn below
    rw [same] at kind below
    obtain ⟨k, b, slot, held⟩ := inv.filled inum bn kind below
    exact ⟨k, b, slot, (congrFun linkless (inum, k)).trans held⟩
  · intro _ _
    simp only [FsState.replace, update_self]
    exact ⟨trivial, same ▸ allocated⟩

theorem iput_free (last : (s.itable inum).ref = 1)
    (valid : (s.itable inum).valid = true) (unlinked : (s.itable inum).copy.nlink = 0) :
    ∃ s', s.iput inum = .ok s' ∧ BlocksOk sb s' ∧ (s'.disk.dinodes inum).type = .free ∧
      ∀ slot : Slot, holds s'.disk.dinodes s'.disk.blocks slot =
        if slot.1 = inum then none else holds s.disk.dinodes s.disk.blocks slot := by
  obtain ⟨work, -, -⟩ := inv.locked (le_of_eq last.symm) valid
  obtain ⟨ip', d', returned, dinodes, blocks, -, -, -, cleared, exact⟩ := itrunc_ok work
  have ledger : ∀ slot : Slot,
      holds (Function.update d'.dinodes inum { ip' with type := .free }) d'.blocks slot =
        if slot.1 = inum then none else holds s.disk.dinodes s.disk.blocks slot := by
    rintro ⟨i, k⟩
    by_cases same : i = inum
    · subst same
      rw [holds_self, if_pos rfl]
      rcases k with k | j <;> simp [Dinode.slots]
    · rw [if_neg same, dinodes, update_idem, holds_of_ne same, blocks]
  have emptied : holds (Function.update d'.dinodes inum { ip' with type := .free }) d'.blocks =
      holds d'.dinodes d'.blocks := by
    funext slot
    rw [ledger]
    rcases slot with ⟨i, k⟩
    split
    · next same =>
      subst same
      rw [dinodes, holds_self]
      rcases k with k | j <;> simp [Dinode.slots, cleared]
    · next other => rw [dinodes, blocks, holds_of_ne other]
  refine ⟨{ disk := d'.iupdate inum { ip' with type := .free }
            itable := Function.update s.itable inum
              { ref := 0, valid := false, copy := { ip' with type := .free } } }, ?_, ?_, ?_,
    ledger⟩
  · simp only [FsState.iput, last, valid, unlinked, and_self, if_true, returned, bind, Except.bind]
  · refine inv.update inum { ip' with type := .free } ?_ (emptied ▸ exact) ?_
      (fun kind => absurd rfl kind) (fun kind => absurd rfl kind)
      (fun i other => update_of_ne other ..) ?_
    · rw [Disk.iupdate, dinodes, update_idem]
    · intro slot other
      exact (ledger slot).trans (if_neg other)
    · intro referenced
      simp only [update_self] at referenced
      omega
  · simp [Disk.iupdate]

theorem iput (referenced : 1 ≤ (s.itable inum).ref) :
    ∃ s', s.iput inum = .ok s' ∧ BlocksOk sb s' := by
  by_cases frees : (s.itable inum).ref = 1 ∧ (s.itable inum).valid = true ∧
      (s.itable inum).copy.nlink = 0
  · obtain ⟨s', returned, inv', -, -⟩ := inv.iput_free frees.1 frees.2.1 frees.2.2
    exact ⟨s', returned, inv'⟩
  · refine ⟨_, if_neg frees, ?_⟩
    refine inv.table inum rfl (fun i other => update_of_ne other ..) ?_
    intro _ valid
    simp only [FsState.setInode, update_self] at valid ⊢
    exact inv.copies inum referenced valid

theorem step {op : Op} (allowed : s.Allowed sb op) :
    (∃ s', s.step sb op = .ok s' ∧ BlocksOk sb s') ∨ s.step sb op = .error .ilockNoType := by
  cases op with
  | ialloc type => exact Or.inl ⟨_, rfl, inv.ialloc type⟩
  | iget inum => exact Or.inl ⟨_, rfl, inv.iget inum⟩
  | ilock inum =>
    rcases locked : s.ilock inum with e | s'
    · refine Or.inr (locked.trans ?_)
      unfold FsState.ilock at locked
      split at locked
      · cases locked
      · split at locked
        · cases locked
          rfl
        · cases locked
    · exact Or.inl ⟨s', locked, inv.ilock locked⟩
  | readi inum ok off n => exact Or.inl (inv.readi ok allowed)
  | writei inum copy off n => exact Or.inl (inv.writei copy allowed)
  | itrunc inum => exact Or.inl (inv.itrunc allowed)
  | iupdate inum nlink => exact Or.inl (inv.iupdate nlink allowed)
  | iput inum => exact Or.inl (inv.iput allowed)

end

end BlocksOk

theorem FsReachable.blocksOk (reach : FsReachable sb s) : BlocksOk sb s := by
  induction reach with
  | image wellFormed => exact wellFormed.blocksOk
  | step _ op allowed returned ih =>
    rcases ih.step allowed with ⟨s', ok, inv⟩ | panic
    · rw [ok] at returned
      cases returned
      exact inv
    · rw [panic] at returned
      cases returned

/-- In every reachable state a block is marked in the bitmap exactly if it is a metadata
block or exactly one slot refers to it, and no block is referred to twice. So no call
panics over a free block, and dropping the last reference to a deleted file frees its
blocks and no others. -/
theorem block_ownership_exact (reachable : FsReachable sb s) : (∀ b, s.disk.bitmap b = true ↔
      b < sb.nmeta ∨ ∃! slot, holds s.disk.dinodes s.disk.blocks slot = some b) ∧
    (∀ b slot slot', holds s.disk.dinodes s.disk.blocks slot = some b →
      holds s.disk.dinodes s.disk.blocks slot' = some b → slot = slot' ∧ ¬b < sb.nmeta) ∧
    (∀ i, 1 ≤ (s.itable i).ref → (s.itable i).valid = true → (s.itable i).copy = s.disk.dinodes i) ∧
    (∀ op, s.Allowed sb op → s.step sb op ≠ .error .freeingFreeBlock) ∧
    (∀ inum, (s.itable inum).ref = 1 → (s.itable inum).valid = true →
      (s.itable inum).copy.nlink = 0 →
      ∃ s', s.step sb (.iput inum) = .ok s' ∧ (s'.disk.dinodes inum).type = .free ∧
        ∀ b, s'.disk.bitmap b = true ↔ s.disk.bitmap b = true ∧
          ∀ k, holds s.disk.dinodes s.disk.blocks (inum, k) ≠ some b) ∧
    ((∀ i, (s.disk.dinodes i).type = .free) → ∀ b, s.disk.bitmap b = true ↔ b < sb.nmeta) := by
  have inv := reachable.blocksOk
  refine ⟨?_, ?_, fun i referenced valid => (inv.copies i referenced valid).1, ?_, ?_, ?_⟩
  · intro b
    rw [inv.exact.used_iff]
    apply or_congr_right
    constructor
    · rintro ⟨slot, held⟩
      exact ⟨slot, held, fun other held' => inv.exact.exclusive _ _ _ held' held⟩
    · rintro ⟨slot, held, -⟩
      exact ⟨slot, held⟩
  · intro b slot slot' held held'
    exact ⟨inv.exact.exclusive _ _ _ held held', inv.exact.unreserved _ _ held⟩
  · intro op allowed panic
    rcases inv.step allowed with ⟨s', ok, -⟩ | other
    · rw [ok] at panic
      cases panic
    · rw [other] at panic
      cases panic
  · intro inum last valid unlinked
    obtain ⟨s', returned, inv', free, ledger⟩ := inv.iput_free last valid unlinked
    refine ⟨s', returned, free, fun b => ?_⟩
    rw [inv'.exact.used_iff, inv.exact.used_iff]
    constructor
    · rintro (metadata | ⟨⟨i, k⟩, held⟩)
      · exact ⟨Or.inl metadata, fun k held => inv.exact.unreserved _ _ held metadata⟩
      · rw [ledger] at held
        split at held
        · cases held
        · next other =>
          refine ⟨Or.inr ⟨(i, k), held⟩, fun k' held' => other ?_⟩
          exact congrArg Prod.fst (inv.exact.exclusive _ _ _ held held')
    · rintro ⟨metadata | ⟨⟨i, k⟩, held⟩, apart⟩
      · exact Or.inl metadata
      · refine Or.inr ⟨(i, k), ?_⟩
        rw [ledger, if_neg, held]
        rintro rfl
        exact apart k held
  · intro deleted b
    rw [inv.exact.used_iff]
    refine or_iff_left ?_
    rintro ⟨⟨i, k⟩, held⟩
    rcases k with k | j <;> simp [holds, Dinode.slots, deleted i] at held

/-- A disk of four blocks, two of them metadata, with two inodes. -/
def fourBlocks : Superblock := { size := 4, ninodes := 2, nmeta := 2 }

def emptyImage : FsState where
  disk :=
    { bitmap := fun b => b < 2
      blocks := fun _ _ => 0
      dinodes := fun _ => {} }
  itable := fun _ => {}

theorem emptyImage_wellFormed : WellFormed fourBlocks emptyImage where
  bootBlock := by decide
  exact :=
    { exclusive := by
        rintro ⟨i, k | j⟩ t u held <;> cases held
      unreserved := by
        rintro ⟨i, k | j⟩ u held <;> cases held
      used_iff := by
        intro b
        simp only [emptyImage, decide_eq_true_eq]
        refine (or_iff_left ?_).symm
        rintro ⟨⟨i, k | j⟩, held⟩ <;> cases held }
  sizes := fun _ _ => Nat.zero_le _
  filled := fun _ _ allocated => absurd rfl allocated
  noneInMemory := fun _ => ⟨rfl, rfl⟩

/-- A new file has got the first free block with its only byte. -/
def sevenFile : FsState :=
  ([.ialloc .file, .ilock 1, .writei 1 { contents := fun _ _ => 7, ok := fun _ => true } 0 1].foldlM
    (FsState.step fourBlocks) emptyImage).toOption.getD emptyImage

theorem sevenFile_reachable : FsReachable fourBlocks sevenFile := by
  have created := (FsReachable.image emptyImage_wellFormed).step
    (.ialloc .file) FileType.noConfusion rfl
  have locked := created.step (.ilock 1) (le_refl 1) rfl
  exact locked.step (.writei 1 { contents := fun _ _ => 7, ok := fun _ => true } 0 1)
    ⟨le_refl 1, rfl, by decide, by decide⟩ rfl

theorem block_ownership_first_write : ∃ s, FsReachable fourBlocks s ∧
      holds s.disk.dinodes s.disk.blocks (1, .inl 0) = some 2 ∧
      ∀ slot, holds s.disk.dinodes s.disk.blocks slot = some 2 → slot = (1, .inl 0) := by
  refine ⟨sevenFile, sevenFile_reachable, rfl, fun slot held => ?_⟩
  exact ((block_ownership_exact sevenFile_reachable).2.1 2 slot (1, .inl 0) held rfl).1

/-! ## No holes -/

theorem BlocksOk.bmapOutside_ok (inv : BlocksOk sb s) {i bn : Nat}
    (allocated : (s.disk.dinodes i).type ≠ .free)
    (inside : bn < ((s.disk.dinodes i).size + BSIZE - 1) / BSIZE) :
    ∃ addr, bmapOutside (s.disk.dinodes i) bn s.disk = .ok addr ∧ addr ≠ 0 := by
  have current : working i (s.disk.dinodes i) s.disk = holds s.disk.dinodes s.disk.blocks := by
    rw [working, update_eq_self]
  have work : Working sb i (s.disk.dinodes i) s.disk :=
    ⟨inv.bootBlock, allocated, current ▸ inv.exact⟩
  have begins : BSIZE * bn < (s.disk.dinodes i).size := by
    rw [BSIZE_eq] at inside ⊢
    omega
  obtain ⟨k, b, slot, held⟩ := inv.filled i bn allocated begins
  have found := bmapOutside_eq_ok work slot (current ▸ held)
  exact ⟨b, found, (bmap_of_bmapOutside sb found).1⟩

/-- In every reachable state each block of a file that begins below its size is there, on
disk and for a copy in memory. So a read outside a transaction never gets to `balloc`, and
is the read that leaves the inode and the disk alone. -/
theorem files_without_holes (reachable : FsReachable sb s) :
    (∀ i bn, (s.disk.dinodes i).type ≠ .free → bn < ((s.disk.dinodes i).size + BSIZE - 1) / BSIZE →
      ∃ addr, bmapOutside (s.disk.dinodes i) bn s.disk = .ok addr ∧ addr ≠ 0) ∧
    (∀ i bn, 1 ≤ (s.itable i).ref → (s.itable i).valid = true →
      bn < ((s.itable i).copy.size + BSIZE - 1) / BSIZE →
      ∃ addr, bmapOutside (s.itable i).copy bn s.disk = .ok addr ∧ addr ≠ 0) ∧
    (∀ inum ok off n, s.Allowed sb (.readi inum ok off n) →
      ∃ result, readiOutside ok off n (s.itable inum).copy s.disk = .ok result ∧
        readi sb ok off n (s.itable inum).copy s.disk =
          .ok (result, (s.itable inum).copy, s.disk)) := by
  have inv := reachable.blocksOk
  refine ⟨fun i bn allocated inside => inv.bmapOutside_ok allocated inside, ?_, ?_⟩
  · intro i bn referenced valid inside
    obtain ⟨same, allocated⟩ := inv.copies i referenced valid
    rw [same] at inside ⊢
    exact inv.bmapOutside_ok allocated inside
  · rintro inum ok off n ⟨referenced, valid, small, small'⟩
    obtain ⟨work, -, filled⟩ := inv.locked referenced valid
    obtain ⟨result, returned⟩ := readiOutside_ok ok small small' work filled
    exact ⟨result, returned, readi_of_outside returned⟩

/-- A file of one byte is read outside a transaction. -/
theorem files_without_holes_first_write :
    ∃ s, FsReachable fourBlocks s ∧ (s.disk.dinodes 1).size = 1 ∧
      (∃ addr, bmapOutside (s.disk.dinodes 1) 0 s.disk = .ok addr ∧ addr ≠ 0) ∧
      ∃ result, readiOutside (fun _ => true) 0 1 (s.itable 1).copy s.disk = .ok result := by
  obtain ⟨onDisk, -, reads⟩ := files_without_holes sevenFile_reachable
  obtain ⟨result, returned, -⟩ := reads 1 (fun _ => true) 0 1 ⟨le_refl 1, rfl, by decide, by decide⟩
  exact ⟨_, sevenFile_reachable, rfl, onDisk 1 0 FileType.noConfusion (by decide), result, returned⟩

end Xv6.Blocks
