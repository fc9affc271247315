import Xv6.Fs.Blocks

/-!
# Every block has one owner

The bitmap is an exact ledger of the blocks that the inodes refer to; while a function works on
an inode, it is exact for the copy in memory.
-/

namespace Xv6.Blocks

open Ledger
open Function

variable {sb : Superblock} {inum : Nat} {ip ip' : Dinode} {d d' : Disk}
variable {b addr bn off n : Nat} {blocks : Nat → Contents}
    {k : Fin (NDIRECT + 1) ⊕ Fin NINDIRECT}

/-! ## Slots -/

@[simp]
theorem address_zero : address 0 = none := rfl

theorem address_of_ne (nonzero : b ≠ 0) : address b = some b := if_neg nonzero

theorem address_eq_some {a : Nat} : address a = some b ↔ a = b ∧ b ≠ 0 := by
  unfold address
  split
  · next zero =>
    subst zero
    simp only [reduceCtorEq, false_iff, not_and, not_not]
    exact fun same => same.symm
  · next nonzero =>
    simp only [Option.some.injEq]
    exact ⟨fun same => ⟨same, same ▸ nonzero⟩, fun both => both.1⟩

section

variable (allocated : ip.type ≠ .free)
include allocated

theorem slots_addrs (blocks : Nat → Contents)
    (k : Fin (NDIRECT + 1)) : ip.slots blocks (.inl k) = address (ip.addrs k) :=
  if_neg allocated

theorem slots_entry (present : ip.addrs indirect ≠ 0)
    (blocks : Nat → Contents) (j : Fin NINDIRECT) :
    ip.slots blocks (.inr j) = address (blocks (ip.addrs indirect) j) :=
  if_neg (not_or.mpr ⟨allocated, present⟩)

theorem slots_update_addrs {k : Fin (NDIRECT + 1)}
    (direct : k ≠ indirect) (blocks : Nat → Contents) (b : Nat) :
    ({ ip with addrs := update ip.addrs k b } : Dinode).slots blocks =
      update (ip.slots blocks) (.inl k) (address b) := by
  funext slot
  rcases slot with k' | j
  · by_cases same : k' = k
    · subst same
      simp [Dinode.slots, allocated]
    · simp [Dinode.slots, update_of_ne same]
  · simp [Dinode.slots, update_of_ne direct.symm]

theorem slots_new_indirect (vacant : ip.addrs indirect = 0)
    (nonzero : b ≠ 0) (zeroed : blocks b = fun _ => 0) :
    ({ ip with addrs := update ip.addrs indirect b } : Dinode).slots blocks =
      update (ip.slots blocks) (.inl indirect) (some b) := by
  funext slot
  rcases slot with k' | j
  · by_cases same : k' = indirect
    · subst same
      simp [Dinode.slots, allocated, address_of_ne nonzero]
    · simp [Dinode.slots, update_of_ne same]
  · simp [Dinode.slots, vacant, zeroed]

theorem slots_update_entry (present : ip.addrs indirect ≠ 0)
    (blocks : Nat → Contents) (j : Fin NINDIRECT) (b : Nat) :
    ip.slots (update blocks (ip.addrs indirect) (update (blocks (ip.addrs indirect)) j b)) =
      update (ip.slots blocks) (.inr j) (address b) := by
  funext slot
  rcases slot with k' | j'
  · rfl
  · by_cases same : j' = j
    · subst same
      simp [Dinode.slots, allocated, present]
    · simp [Dinode.slots, allocated, present, update_of_ne same]

end

theorem slots_update_blocks (blocks : Nat → Contents) (c : Contents)
    (other : ip.type = .free ∨ ip.addrs indirect = 0 ∨ ip.addrs indirect ≠ b) :
    ip.slots (update blocks b c) = ip.slots blocks := by
  funext slot
  rcases slot with k | j
  · rfl
  · rcases other with free | absent | apart
    · simp [Dinode.slots, free]
    · simp [Dinode.slots, absent]
    · simp [Dinode.slots, update_of_ne apart]

theorem holds_update_blocks {inodes : Nat → Dinode}
    (nonzero : b ≠ 0) (data : ∀ i, holds inodes blocks (i, .inl indirect) ≠ some b)
    (c : Contents) :
    holds inodes (update blocks b c) = holds inodes blocks := by
  funext slot
  refine congrFun (slots_update_blocks blocks c ?_) slot.2
  by_cases free : (inodes slot.1).type = .free
  · exact Or.inl free
  · refine Or.inr (Or.inr fun same => data slot.1 ?_)
    simp [holds, Dinode.slots, free, same, address_of_ne nonzero]

theorem holds_self (inodes : Nat → Dinode) (blocks : Nat → Contents)
    (k : Fin (NDIRECT + 1) ⊕ Fin NINDIRECT) :
    holds (update inodes inum ip) blocks (inum, k) = ip.slots blocks k := by
  simp [holds]

theorem holds_of_ne {inodes : Nat → Dinode} {slot : Slot} (other : slot.1 ≠ inum) :
    holds (update inodes inum ip) blocks slot = holds inodes blocks slot := by
  simp [holds, update_of_ne other]

theorem holds_update_slot {inodes : Nat → Dinode} {blocks : Nat → Contents}
    {k : Fin (NDIRECT + 1) ⊕ Fin NINDIRECT} {b : Option Nat}
    (changed : ip'.slots blocks = update (ip.slots blocks) k b) :
    holds (update inodes inum ip') blocks =
      update (holds (update inodes inum ip) blocks) (inum, k) b := by
  funext slot
  rcases slot with ⟨i, k'⟩
  by_cases same : i = inum
  · subst same
    rw [holds_self, changed]
    by_cases here : k' = k
    · subst here
      rw [update_self, update_self]
    · rw [update_of_ne here, update_of_ne (by simp [here]), holds_self]
  · rw [update_of_ne (by simp [same])]
    exact (holds_of_ne same).trans (holds_of_ne same).symm

/-! ## Working on an inode -/

/-- The blocks held while the copy `ip` of an inode is in memory. -/
def working (inum : Nat) (ip : Dinode) (d : Disk) : Slot → Option Nat :=
  holds (update d.dinodes inum ip) d.blocks

/-- The ledger is exact for the copy in memory. -/
structure Working (sb : Superblock) (inum : Nat) (ip : Dinode) (d : Disk) : Prop where
  bootBlock : 0 < sb.nmeta
  allocated : ip.type ≠ .free
  exact : Exact d.bitmap (fun b => b < sb.nmeta) (working inum ip d)

/-- The inode may have got more blocks; nothing else has changed. -/
structure Grown (sb : Superblock) (inum : Nat) (ip : Dinode) (d : Disk) (ip' : Dinode)
    (d' : Disk) : Prop where
  working : Working sb inum ip' d'
  dinodes : d'.dinodes = d.dinodes
  type : ip'.type = ip.type
  nlink : ip'.nlink = ip.nlink
  size : ip'.size = ip.size
  keeps : ∀ slot b, Blocks.working inum ip d slot = some b →
    Blocks.working inum ip' d' slot = some b
  others : ∀ slot : Slot, slot.1 ≠ inum →
    Blocks.working inum ip' d' slot = Blocks.working inum ip d slot

theorem Grown.refl (work : Working sb inum ip d) : Grown sb inum ip d ip d :=
  ⟨work, rfl, rfl, rfl, rfl, fun _ _ held => held, fun _ _ => rfl⟩

theorem Grown.trans {ip'' : Dinode} {d'' : Disk} (first : Grown sb inum ip d ip' d')
    (second : Grown sb inum ip' d' ip'' d'') : Grown sb inum ip d ip'' d'' where
  working := second.working
  dinodes := second.dinodes.trans first.dinodes
  type := second.type.trans first.type
  nlink := second.nlink.trans first.nlink
  size := second.size.trans first.size
  keeps := fun slot b held => second.keeps slot b (first.keeps slot b held)
  others := fun slot other => (second.others slot other).trans (first.others slot other)

theorem Grown.of_take (work : Working sb inum ip d) (dinodes : d'.dinodes = d.dinodes)
    (type : ip'.type = ip.type) (nlink : ip'.nlink = ip.nlink) (size : ip'.size = ip.size)
    (free : d.bitmap b = false) (bitmap : d'.bitmap = update d.bitmap b true)
    (vacant : Blocks.working inum ip d (inum, k) = none)
    (taken : Blocks.working inum ip' d' = update (Blocks.working inum ip d) (inum, k) (some b)) :
    Grown sb inum ip d ip' d' where
  working :=
    { bootBlock := work.bootBlock
      allocated := type ▸ work.allocated
      exact := by
        rw [bitmap, taken]
        exact work.exact.take free vacant }
  dinodes := dinodes
  type := type
  nlink := nlink
  size := size
  keeps := by
    intro slot b' held
    have other : slot ≠ (inum, k) := by
      rintro rfl
      rw [vacant] at held
      cases held
    rw [taken, update_of_ne other]
    exact held
  others := by
    intro slot other
    rw [taken, update_of_ne]
    rintro rfl
    exact other rfl

theorem balloc_cases (boot : d.bitmap 0 = true) : d.balloc sb = (0, d) ∨
      ∃ b, d.bitmap (b + 1) = false ∧
        d.balloc sb = (b + 1, { d with
          bitmap := update d.bitmap (b + 1) true
          blocks := update d.blocks (b + 1) fun _ => 0 }) := by
  unfold Disk.balloc
  split
  · exact Or.inl rfl
  · next b found =>
    have free : d.bitmap b = false := by simpa using List.find?_some found
    rcases b with _ | b
    · rw [boot] at free
      cases free
    · exact Or.inr ⟨b, free, rfl⟩

section

variable (work : Working sb inum ip d)
include work

theorem Working.boot : d.bitmap 0 = true :=
  (work.exact.used_iff 0).mpr (Or.inl work.bootBlock)

theorem Working.holds_zeroed (free : d.bitmap b = false) (nonzero : b ≠ 0) (c : Contents) :
    holds (update d.dinodes inum ip) (update d.blocks b c) = working inum ip d :=
  holds_update_blocks nonzero (fun _ => work.exact.not_holds free _) c

theorem Working.holds_table (present : ip.addrs indirect ≠ 0) :
    working inum ip d (inum, .inl indirect) = some (ip.addrs indirect) := by
  rw [working, holds_self]
  simp [Dinode.slots, work.allocated, address_of_ne present]

theorem bmapDirect_ok {k : Fin (NDIRECT + 1)} (mapped : bmapDirect sb ip k d = (addr, ip', d')) :
    Grown sb inum ip d ip' d' ∧ (addr ≠ 0 → ip'.addrs k = addr) := by
  unfold bmapDirect at mapped
  split at mapped
  · next vacant =>
    rcases @balloc_cases sb d work.boot with full | ⟨b, free, allocated⟩
    · rw [full] at mapped
      cases mapped
      exact ⟨.refl work, fun nonzero => absurd rfl nonzero⟩
    · rw [allocated] at mapped
      cases mapped
      refine ⟨?_, fun _ => by simp⟩
      have zeroed := work.holds_zeroed free (Nat.succ_ne_zero b) (fun _ => 0)
      have empty : working inum ip d (inum, .inl k) = none := by
        rw [working, holds_self]
        simp [Dinode.slots, vacant]
      refine Grown.of_take work rfl rfl rfl rfl free rfl empty ?_
      rw [← zeroed]
      apply holds_update_slot
      by_cases same : k = indirect
      · subst same
        exact slots_new_indirect work.allocated vacant (Nat.succ_ne_zero b) (by simp)
      · rw [slots_update_addrs work.allocated same, address_of_ne (Nat.succ_ne_zero b)]
  · next present =>
    cases mapped
    exact ⟨.refl work, fun _ => rfl⟩

theorem bmapEntry_ok (present : ip.addrs indirect ≠ 0) {j : Fin NINDIRECT}
    (mapped : bmapEntry sb (ip.addrs indirect) j d = (addr, d')) :
    Grown sb inum ip d ip d' ∧ (addr ≠ 0 → d'.blocks (ip.addrs indirect) j = addr) := by
  unfold bmapEntry at mapped
  split at mapped
  · next vacant =>
    rcases @balloc_cases sb d work.boot with full | ⟨b, free, allocated⟩
    · rw [full] at mapped
      cases mapped
      exact ⟨.refl work, fun nonzero => absurd rfl nonzero⟩
    · rw [allocated] at mapped
      cases mapped
      refine ⟨?_, fun _ => by simp⟩
      have zeroed := work.holds_zeroed free (Nat.succ_ne_zero b) (fun _ => 0)
      have empty : working inum ip d (inum, .inr j) = none := by
        rw [working, holds_self]
        simp [Dinode.slots, vacant]
      refine Grown.of_take work rfl rfl rfl rfl free rfl empty ?_
      -- The entry is a change of the indirect block, which no other inode uses.
      funext slot
      rcases slot with ⟨i, k⟩
      by_cases same : i = inum
      · subst same
        rw [working, holds_self, slots_update_entry work.allocated present,
          address_of_ne (Nat.succ_ne_zero b)]
        by_cases here : k = .inr j
        · subst here
          simp
        · rw [update_of_ne here, update_of_ne (by simp [here]), ← zeroed, holds_self]
      · rw [update_of_ne (by simp [same]), ← zeroed, working, holds_of_ne same, holds_of_ne same]
        refine congrFun (slots_update_blocks _ _ ?_) k
        by_cases free' : (d.dinodes i).type = .free
        · exact Or.inl free'
        · refine Or.inr (Or.inr fun shared => same ?_)
          change (d.dinodes i).addrs indirect = ip.addrs indirect at shared
          have theirs : working inum ip d (i, .inl indirect) = some (ip.addrs indirect) := by
            rw [working, holds_of_ne same]
            simp [holds, Dinode.slots, free', shared, address_of_ne present]
          exact (Prod.mk.inj (work.exact.exclusive _ _ _ theirs (work.holds_table present))).1
  · next occupied =>
    cases mapped
    exact ⟨.refl work, fun _ => rfl⟩

end

theorem dataSlot_direct (direct : bn < NDIRECT) :
    dataSlot bn = some (.inl ⟨bn, Nat.lt_succ_of_lt direct⟩) :=
  dif_pos direct

theorem dataSlot_entry (direct : ¬bn < NDIRECT) (inside : bn - NDIRECT < NINDIRECT) :
    dataSlot bn = some (.inr ⟨bn - NDIRECT, inside⟩) := by
  rw [dataSlot, dif_neg direct, dif_pos inside]

theorem dataSlot_ne_indirect (slot : dataSlot bn = some k) : k ≠ .inl indirect := by
  rintro rfl
  unfold dataSlot at slot
  split at slot
  · next direct =>
    have same := congrArg Fin.val (Sum.inl.inj (Option.some.inj slot))
    simp only [indirect, Fin.val_last] at same
    omega
  · split at slot <;> cases slot

theorem bmap_ok (work : Working sb inum ip d) (inside : bn < MAXFILE) :
    ∃ addr ip' d' k, bmap sb ip bn d = .ok (addr, ip', d') ∧ dataSlot bn = some k ∧
      Grown sb inum ip d ip' d' ∧
      (addr ≠ 0 → working inum ip' d' (inum, k) = some addr) := by
  rw [MAXFILE_eq] at inside
  by_cases direct : bn < NDIRECT
  · rcases mapped : bmapDirect sb ip ⟨bn, by omega⟩ d with ⟨addr, ip', d'⟩
    obtain ⟨grown, found⟩ := bmapDirect_ok work mapped
    refine ⟨addr, ip', d', _, ?_, dataSlot_direct direct, grown, ?_⟩
    · rw [bmap, dif_pos direct, mapped]
    · intro nonzero
      rw [working, holds_self]
      simp [Dinode.slots, grown.working.allocated, found nonzero, address_of_ne nonzero]
  · have entry : bn - NDIRECT < NINDIRECT := by
      change bn - 12 < 256
      omega
    rcases mapped : bmapDirect sb ip indirect d with ⟨table, ip', d'⟩
    obtain ⟨grown, found⟩ := bmapDirect_ok work mapped
    rcases table with _ | table
    · refine ⟨0, ip', d', _, ?_, dataSlot_entry direct entry, grown,
        fun nonzero => absurd rfl nonzero⟩
      rw [bmap, dif_neg direct, dif_pos entry, mapped]
    · have table_eq := found (Nat.succ_ne_zero table)
      have present : ip'.addrs indirect ≠ 0 := by
        rw [table_eq]
        exact Nat.succ_ne_zero table
      rcases second : bmapEntry sb (table + 1) ⟨bn - NDIRECT, entry⟩ d' with ⟨addr, d''⟩
      rw [← table_eq] at second
      obtain ⟨grown', found'⟩ := bmapEntry_ok grown.working present second
      rw [table_eq] at second
      refine ⟨addr, ip', d'', _, ?_, dataSlot_entry direct entry, grown.trans grown', ?_⟩
      · rw [bmap, dif_neg direct, dif_pos entry, mapped]
        simp only [second]
      · intro nonzero
        rw [working, holds_self]
        simp [Dinode.slots, grown.working.allocated, present, found' nonzero, address_of_ne nonzero]

theorem bmap_of_bmapOutside (sb : Superblock) (found : bmapOutside ip bn d = .ok addr) :
    addr ≠ 0 ∧ bmap sb ip bn d = .ok (addr, ip, d) := by
  unfold bmapOutside at found
  unfold bmap
  split at found
  · next direct =>
    obtain ⟨nonzero, rfl⟩ := present_eq_ok.mp found
    exact ⟨nonzero, by rw [dif_pos direct, bmapDirect, if_neg nonzero]⟩
  · next direct =>
    split at found
    · next entry =>
      by_cases absent : ip.addrs indirect = 0
      · simp [present, absent, bind, Except.bind] at found
      rw [present_eq_ok.mpr ⟨absent, rfl⟩] at found
      obtain ⟨nonzero', rfl⟩ := present_eq_ok.mp found
      refine ⟨nonzero', ?_⟩
      obtain ⟨table, table_eq⟩ := Nat.exists_eq_succ_of_ne_zero absent
      rw [dif_neg direct, dif_pos entry, bmapDirect, if_neg absent]
      rw [table_eq] at nonzero' ⊢
      simp only [bmapEntry, if_neg nonzero']
    · cases found

section

variable (work : Working sb inum ip d) (slot : dataSlot bn = some k)
include work slot

theorem bmapOutside_eq_ok (held : working inum ip d (inum, k) = some b) :
    bmapOutside ip bn d = .ok b := by
  rw [working, holds_self] at held
  unfold dataSlot at slot
  unfold bmapOutside
  split at slot
  · next direct =>
    cases slot
    simp only [Dinode.slots, if_neg work.allocated, address_eq_some] at held
    rw [dif_pos direct, present_eq_ok, held.1]
    exact ⟨held.2, rfl⟩
  · next direct =>
    split at slot
    · next entry =>
      cases slot
      by_cases absent : ip.addrs indirect = 0
      · simp [Dinode.slots, absent] at held
      · simp only [Dinode.slots, work.allocated, absent, or_self, if_false, address_eq_some] at held
        rw [dif_neg direct, dif_pos entry, present_eq_ok.mpr ⟨absent, rfl⟩]
        exact present_eq_ok.mpr ⟨by rw [held.1]; exact held.2, held.1⟩
    · cases slot

theorem working_store (nonzero : addr ≠ 0) (held : working inum ip d (inum, k) = some addr)
    (c : Contents) :
    working inum ip { d with blocks := update d.blocks addr c } = working inum ip d := by
  apply holds_update_blocks nonzero
  intro i shared
  have same := work.exact.exclusive _ _ _ shared held
  exact dataSlot_ne_indirect slot (Prod.mk.inj same).2.symm

theorem Grown.of_store (nonzero : addr ≠ 0) (held : Blocks.working inum ip d (inum, k) = some addr)
    (c : Contents) :
    Grown sb inum ip d ip { d with blocks := update d.blocks addr c } := by
  have same := working_store work slot nonzero held c
  exact
    { working := ⟨work.bootBlock, work.allocated, by rw [same]; exact work.exact⟩
      dinodes := rfl
      type := rfl
      nlink := rfl
      size := rfl
      keeps := fun _ _ holding => by rwa [same]
      others := fun _ _ => by rw [same] }

end

/-! ## `writei` and `readi` -/

/-- Every block of the file that begins before `bound` exists. -/
def FilledTo (inum : Nat) (ip : Dinode) (d : Disk) (bound : Nat) : Prop :=
  ∀ bn, BSIZE * bn < bound → ∃ k b, dataSlot bn = some k ∧ working inum ip d (inum, k) = some b

theorem Grown.filledTo (grown : Grown sb inum ip d ip' d') {bound : Nat}
    (filled : FilledTo inum ip d bound) : FilledTo inum ip' d' bound := by
  intro bn below
  obtain ⟨k, b, slot, held⟩ := filled bn below
  exact ⟨k, b, slot, grown.keeps _ _ held⟩

theorem writeiLoop_ok (copy : Copy) (rounds : Nat) (off left : Nat) (ip : Dinode) (d : Disk)
    (work : Working sb inum ip d) (short : off + left ≤ MAXFILE * BSIZE)
    (filled : FilledTo inum ip d off) :
    ∃ off' left' ip' d', writeiLoop sb copy rounds off left ip d = .ok (off', left', ip', d') ∧
      Grown sb inum ip d ip' d' ∧ off' ≤ off + left ∧ FilledTo inum ip' d' off' := by
  induction rounds generalizing off left ip d with
  | zero => exact ⟨off, left, ip, d, rfl, .refl work, by omega, filled⟩
  | succ rounds ih =>
    unfold writeiLoop
    by_cases done : left = 0
    · rw [if_pos done]
      exact ⟨off, left, ip, d, rfl, .refl work, by omega, filled⟩
    · rw [if_neg done]
      rw [MAXFILE_eq, BSIZE_eq] at short
      have inside : off / BSIZE < MAXFILE := by
        rw [MAXFILE_eq, BSIZE_eq]
        omega
      obtain ⟨addr, ip₁, d₁, k, mapped, slot, grown, found⟩ := bmap_ok work inside
      simp only [mapped, bind, Except.bind]
      by_cases full : addr = 0
      · rw [if_pos full]
        exact ⟨off, left, ip₁, d₁, rfl, grown, by omega, grown.filledTo filled⟩
      · rw [if_neg full]
        have stored := Grown.of_store grown.working slot full (found full)
          (copy.contents (off / BSIZE))
        have both := grown.trans stored
        split
        · -- The block just mapped is the only one between the old and the new offset.
          have further : FilledTo inum ip₁
              { d₁ with blocks :=
                  update d₁.blocks addr (copy.contents (off / BSIZE)) }
              (off + min left (BSIZE - off % BSIZE)) := by
            intro bn below
            by_cases earlier : BSIZE * bn < off
            · exact both.filledTo filled bn earlier
            · have here : bn = off / BSIZE := by
                rw [BSIZE_eq] at earlier below ⊢
                omega
              subst here
              exact ⟨k, addr, slot, stored.keeps _ _ (found full)⟩
          have within : off + min left (BSIZE - off % BSIZE) +
              (left - min left (BSIZE - off % BSIZE)) ≤ MAXFILE * BSIZE := by
            rw [MAXFILE_eq, BSIZE_eq]
            omega
          obtain ⟨off', left', ip', d', returned, grown', bound, filled'⟩ :=
            ih _ _ _ _ stored.working within further
          exact ⟨off', left', ip', d', returned, both.trans grown', by omega, filled'⟩
        · exact ⟨off, left, ip₁, _, rfl, both, by omega, both.filledTo filled⟩

theorem writei_ok (copy : Copy) (small : off < 2 ^ 32) (small' : n < 2 ^ 32)
    (work : Working sb inum ip d) (short : ip.size ≤ MAXFILE * BSIZE)
    (filled : FilledTo inum ip d ip.size) :
    ∃ result ip' d', writei sb copy inum off n ip d = .ok (result, ip', d') ∧ ((ip' = ip ∧ d' = d) ∨
        ∃ ip₁ d₁, Grown sb inum ip d ip₁ d₁ ∧ d' = d₁.iupdate inum ip' ∧
          ip' = { ip₁ with size := ip'.size } ∧ ip'.size ≤ MAXFILE * BSIZE ∧
          FilledTo inum ip₁ d₁ ip'.size) := by
  unfold writei
  split
  · exact ⟨-1, ip, d, rfl, Or.inl ⟨rfl, rfl⟩⟩
  · next start =>
    split
    · exact ⟨-1, ip, d, rfl, Or.inl ⟨rfl, rfl⟩⟩
    · next fits =>
      have nowrap : off + n ≤ MAXFILE * BSIZE := by
        omega
      have before : FilledTo inum ip d off := fun bn below =>
        filled bn (by omega)
      obtain ⟨off', left', ip₁, d₁, returned, grown, bound, filled'⟩ :=
        writeiLoop_ok copy n off n ip d work nowrap before
      simp only [returned, bind, Except.bind]
      refine ⟨_, _, _, rfl, Or.inr ⟨ip₁, d₁, grown, rfl, ?_, ?_, ?_⟩⟩
      · split <;> rfl
      · split
        · exact bound.trans nowrap
        · rw [grown.size]
          exact short
      · split
        · exact filled'
        · rw [grown.size]
          exact grown.filledTo filled

theorem readiLoopOutside_ok (ok : Nat → Bool) (rounds : Nat) (off left : Nat)
    (work : Working sb inum ip d) (filled : FilledTo inum ip d (off + left)) :
    ∃ result, readiLoopOutside ok rounds off left ip d = .ok result := by
  induction rounds generalizing off left with
  | zero => exact ⟨some left, rfl⟩
  | succ rounds ih =>
    unfold readiLoopOutside
    by_cases done : left = 0
    · exact ⟨some left, by rw [if_pos done]⟩
    · rw [if_neg done]
      have below : BSIZE * (off / BSIZE) < off + left := by
        have := Nat.mul_div_le off BSIZE
        omega
      obtain ⟨k, b, slot, held⟩ := filled (off / BSIZE) below
      rw [bmapOutside_eq_ok work slot held]
      have fewer : FilledTo inum ip d (off + min left (BSIZE - off % BSIZE) +
          (left - min left (BSIZE - off % BSIZE))) :=
        fun bn before => filled bn (by omega)
      split
      · exact ih _ _ fewer
      · exact ⟨none, rfl⟩

theorem readiLoop_of_outside {ok : Nat → Bool} (rounds : Nat) {left : Nat}
    {result : Option Nat} (returned : readiLoopOutside ok rounds off left ip d = .ok result) :
    readiLoop sb ok rounds off left ip d = .ok (result, ip, d) := by
  induction rounds generalizing off left with
  | zero =>
    cases returned
    rfl
  | succ rounds ih =>
    unfold readiLoopOutside at returned
    unfold readiLoop
    split at returned
    · next done =>
      cases returned
      rw [if_pos done]
    · next more =>
      rw [if_neg more]
      rcases found : bmapOutside ip (off / BSIZE) d with stop | addr
      · rw [found] at returned
        cases returned
      · obtain ⟨nonzero, mapped⟩ := bmap_of_bmapOutside sb found
        rw [found] at returned
        rw [mapped]
        simp only [bind, Except.bind, if_neg nonzero] at returned ⊢
        split at returned
        · next copied =>
          rw [if_pos copied]
          exact ih returned
        · next failed =>
          cases returned
          rw [if_neg failed]
          rfl

theorem readiOutside_ok (ok : Nat → Bool) (small : off < 2 ^ 32)
    (small' : n < 2 ^ 32) (work : Working sb inum ip d) (filled : FilledTo inum ip d ip.size) :
    ∃ result, readiOutside ok off n ip d = .ok result := by
  unfold readiOutside
  split
  · exact ⟨0, rfl⟩
  · next start =>
    have within : FilledTo inum ip d
        (off + if ip.size < (off + n) % 2 ^ 32 then ip.size - off else n) := by
      intro bn below
      apply filled bn
      split at below <;> omega
    obtain ⟨left, returned⟩ := readiLoopOutside_ok ok
      (if ip.size < (off + n) % 2 ^ 32 then ip.size - off else n) off _ work within
    simp only [returned, bind, Except.bind]
    exact ⟨_, rfl⟩

theorem readi_of_outside {ok : Nat → Bool} {result : Int}
    (returned : readiOutside ok off n ip d = .ok result) :
    readi sb ok off n ip d = .ok (result, ip, d) := by
  unfold readiOutside at returned
  unfold readi
  split at returned
  · next outside =>
    cases returned
    rw [if_pos outside]
  · next inside =>
    rw [if_neg inside]
    dsimp only at returned ⊢
    rcases loop : readiLoopOutside ok
        (if ip.size < (off + n) % 2 ^ 32 then ip.size - off else n) off
        (if ip.size < (off + n) % 2 ^ 32 then ip.size - off else n) ip d with stop | left
    · rw [loop] at returned
      cases returned
    · rw [loop] at returned
      rw [readiLoop_of_outside _ loop]
      cases returned
      rfl

theorem readi_ok (ok : Nat → Bool) (small : off < 2 ^ 32) (small' : n < 2 ^ 32)
    (work : Working sb inum ip d) (filled : FilledTo inum ip d ip.size) :
    ∃ result, readi sb ok off n ip d = .ok (result, ip, d) := by
  obtain ⟨result, returned⟩ := readiOutside_ok ok small small' work filled
  exact ⟨result, readi_of_outside returned⟩

/-! ## `itrunc` -/

theorem bfree_ok (used : d.bitmap b = true) :
    d.bfree b = .ok { d with bitmap := update d.bitmap b false } :=
  if_pos used

theorem truncDirect_ok (rounds : List (Fin NDIRECT)) (ip : Dinode) (d : Disk)
    (work : Working sb inum ip d) :
    ∃ ip' d', rounds.foldlM truncDirect (ip, d) = .ok (ip', d') ∧ Working sb inum ip' d' ∧
      d'.dinodes = d.dinodes ∧ d'.blocks = d.blocks ∧ ip'.type = ip.type ∧
      ip'.nlink = ip.nlink ∧ ip'.addrs indirect = ip.addrs indirect ∧
      (∀ k, ip.addrs k = 0 → ip'.addrs k = 0) ∧
      ∀ i ∈ rounds, ip'.addrs i.castSucc = 0 := by
  induction rounds generalizing ip d with
  | nil => exact ⟨ip, d, rfl, work, rfl, rfl, rfl, rfl, rfl, fun _ zero => zero, by simp⟩
  | cons i rounds ih =>
    rw [List.foldlM_cons]
    by_cases absent : ip.addrs i.castSucc = 0
    · simp only [truncDirect, if_pos absent]
      obtain ⟨ip', d', returned, work', dinodes, blocks, type, nlink, table, kept, cleared⟩ :=
        ih ip d work
      refine ⟨ip', d', returned, work', dinodes, blocks, type, nlink, table, kept, ?_⟩
      intro i' mem
      rcases List.mem_cons.mp mem with rfl | later
      · exact kept _ absent
      · exact cleared i' later
    · have direct : i.castSucc ≠ indirect := Fin.castSucc_ne_last i
      have held : working inum ip d (inum, .inl i.castSucc) = some (ip.addrs i.castSucc) := by
        rw [working, holds_self, slots_addrs work.allocated, address_of_ne absent]
      have dropped : Working sb inum { ip with addrs := update ip.addrs i.castSucc 0 }
          { d with bitmap := update d.bitmap (ip.addrs i.castSucc) false } :=
        { bootBlock := work.bootBlock
          allocated := work.allocated
          exact := by
            have changed := @holds_update_slot inum ip _ d.dinodes d.blocks _ _
              (slots_update_addrs work.allocated direct d.blocks 0)
            unfold working
            rw [changed]
            exact work.exact.drop held }
      simp only [truncDirect, if_neg absent, bfree_ok (work.exact.used_of_holds held)]
      obtain ⟨ip', d', returned, work', dinodes, blocks, type, nlink, table, kept, cleared⟩ :=
        ih _ _ dropped
      refine ⟨ip', d', returned, work', dinodes, blocks, type, nlink, ?_, ?_, ?_⟩
      · exact table.trans (update_of_ne direct.symm _ _)
      · intro k zero
        apply kept
        by_cases same : k = i.castSucc
        · exact same ▸ update_self ..
        · exact (update_of_ne same _ _).trans zero
      · intro i' mem
        rcases List.mem_cons.mp mem with rfl | later
        · exact kept _ (update_self ..)
        · exact cleared i' later

theorem truncEntry_ok (a : Contents) (rounds : List (Fin NINDIRECT)) (distinct : rounds.Nodup)
    (d : Disk) (held : Slot → Option Nat)
    (exact : Exact d.bitmap (fun b => b < sb.nmeta) held)
    (entries : ∀ j ∈ rounds, held (inum, .inr j) = address (a j)) :
    ∃ d' held', rounds.foldlM (truncEntry a) d = .ok d' ∧ d'.dinodes = d.dinodes ∧
      d'.blocks = d.blocks ∧ Exact d'.bitmap (fun b => b < sb.nmeta) held' ∧
      (∀ j ∈ rounds, held' (inum, .inr j) = none) ∧
      ∀ slot, (∀ j ∈ rounds, slot ≠ (inum, .inr j)) → held' slot = held slot := by
  induction rounds generalizing d held with
  | nil => exact ⟨d, held, rfl, rfl, rfl, exact, by simp, fun _ _ => rfl⟩
  | cons j rounds ih =>
    obtain ⟨fresh, distinct⟩ := List.nodup_cons.mp distinct
    have entry := entries j List.mem_cons_self
    rw [List.foldlM_cons]
    -- The ledger without the entry `j`, whether or not it held a block.
    obtain ⟨d₁, freed, dinodes₁, blocks₁, exact₁⟩ :
        ∃ d₁, truncEntry a d j = .ok d₁ ∧ d₁.dinodes = d.dinodes ∧ d₁.blocks = d.blocks ∧
          Exact d₁.bitmap (fun b => b < sb.nmeta) (update held (inum, .inr j) none) := by
      by_cases absent : a j = 0
      · refine ⟨d, if_pos absent, rfl, rfl, ?_⟩
        rw [absent, address_zero] at entry
        rwa [← entry, update_eq_self]
      · rw [address_of_ne absent] at entry
        refine ⟨{ d with bitmap := update d.bitmap (a j) false }, ?_, rfl, rfl,
          exact.drop entry⟩
        rw [truncEntry, if_neg absent, bfree_ok (exact.used_of_holds entry)]
    have entries₁ : ∀ j' ∈ rounds,
        update held (inum, .inr j) none (inum, .inr j') = address (a j') := by
      intro j' later
      have other : j' ≠ j := fun same => fresh (same ▸ later)
      rw [update_of_ne (by simp [other])]
      exact entries j' (List.mem_cons_of_mem j later)
    obtain ⟨d', held', returned, dinodes, blocks, exact', cleared, kept⟩ :=
      ih distinct d₁ _ exact₁ entries₁
    refine ⟨d', held', ?_, dinodes.trans dinodes₁, blocks.trans blocks₁, exact', ?_, ?_⟩
    · simp only [freed, bind, Except.bind]
      exact returned
    · intro j' mem
      rcases List.mem_cons.mp mem with rfl | later
      · rw [kept _ (by
          intro i later same
          exact fresh ((Sum.inr.inj (Prod.mk.inj same).2) ▸ later)), update_self]
      · exact cleared j' later
    · intro slot apart
      rw [kept slot fun i later => apart i (List.mem_cons_of_mem j later),
        update_of_ne (apart j List.mem_cons_self)]

theorem truncIndirect_ok (work : Working sb inum ip d) :
    ∃ ip' d', truncIndirect ip d = .ok (ip', d') ∧ Working sb inum ip' d' ∧
      d'.dinodes = d.dinodes ∧ d'.blocks = d.blocks ∧ ip'.type = ip.type ∧
      ip'.nlink = ip.nlink ∧ ip'.addrs = update ip.addrs indirect 0 := by
  by_cases absent : ip.addrs indirect = 0
  · refine ⟨ip, d, if_pos absent, work, rfl, rfl, rfl, rfl, ?_⟩
    rw [← absent, update_eq_self]
  · have entries : ∀ j ∈ List.finRange NINDIRECT,
        working inum ip d (inum, .inr j) = address (d.blocks (ip.addrs indirect) j) := by
      intro j _
      rw [working, holds_self, slots_entry work.allocated absent]
    obtain ⟨d₁, held, returned, dinodes, blocks, exact, cleared, kept⟩ :=
      truncEntry_ok (d.blocks (ip.addrs indirect)) (List.finRange NINDIRECT)
        (List.nodup_finRange NINDIRECT) d _ work.exact entries
    have table : held (inum, .inl indirect) = some (ip.addrs indirect) := by
      rw [kept _ (by simp), working, holds_self, slots_addrs work.allocated, address_of_ne absent]
    have ledger : update held (inum, .inl indirect) none = holds (update d₁.dinodes inum
          { ip with addrs := update ip.addrs indirect 0 }) d₁.blocks := by
      funext slot
      rcases slot with ⟨i, k⟩
      by_cases same : i = inum
      · subst same
        rw [holds_self]
        rcases k with k | j
        · by_cases here : k = indirect
          · subst here
            simp [Dinode.slots]
          · rw [update_of_ne (by simp [here]), kept _ (by simp), working, holds_self]
            simp [Dinode.slots, update_of_ne here]
        · rw [update_of_ne (by simp), cleared j (List.mem_finRange j)]
          simp [Dinode.slots]
      · rw [update_of_ne (by simp [same]), kept _ (by simp [same]), working,
          holds_of_ne same, holds_of_ne same, dinodes, blocks]
    refine ⟨{ ip with addrs := update ip.addrs indirect 0 },
      { d₁ with bitmap := update d₁.bitmap (ip.addrs indirect) false }, ?_,
      ⟨work.bootBlock, work.allocated, ?_⟩, dinodes, blocks, rfl, rfl, rfl⟩
    · simp only [truncIndirect, if_neg absent, returned, bind, Except.bind,
        bfree_ok (exact.used_of_holds table)]
    · rw [working, ← ledger]
      exact exact.drop table

theorem itrunc_ok (work : Working sb inum ip d) :
    ∃ ip' d', itrunc inum ip d = .ok (ip', d') ∧ d'.dinodes = update d.dinodes inum ip' ∧
      d'.blocks = d.blocks ∧ ip'.type = ip.type ∧ ip'.nlink = ip.nlink ∧ ip'.size = 0 ∧
      (∀ k, ip'.addrs k = 0) ∧
      Exact d'.bitmap (fun b => b < sb.nmeta) (holds d'.dinodes d'.blocks) := by
  obtain ⟨ip₁, d₁, first, work₁, dinodes₁, blocks₁, type₁, nlink₁, -, -, cleared⟩ :=
    truncDirect_ok (List.finRange NDIRECT) ip d work
  obtain ⟨ip₂, d₂, second, work₂, dinodes₂, blocks₂, type₂, nlink₂, addrs⟩ := truncIndirect_ok work₁
  refine ⟨{ ip₂ with size := 0 }, d₂.iupdate inum { ip₂ with size := 0 }, ?_, ?_,
    blocks₂.trans blocks₁, type₂.trans type₁, nlink₂.trans nlink₁, rfl, ?_, ?_⟩
  · simp only [itrunc, first, second, bind, Except.bind]
  · rw [Disk.iupdate, dinodes₂, dinodes₁]
  · intro k
    rw [addrs]
    by_cases last : k = indirect
    · rw [last, update_self]
    · rw [update_of_ne last]
      obtain ⟨i, rfl⟩ := Fin.exists_castSucc_eq.mpr last
      exact cleared i (List.mem_finRange i)
  · have sizeless : holds (update d₂.dinodes inum { ip₂ with size := 0 }) d₂.blocks =
        working inum ip₂ d₂ := by
      funext slot
      by_cases same : slot.1 = inum
      · obtain ⟨i, k⟩ := slot
        subst same
        rw [working, holds_self, holds_self]
        rcases k with k | j <;> rfl
      · rw [working, holds_of_ne same, holds_of_ne same]
    exact sizeless ▸ work₂.exact

end Xv6.Blocks
