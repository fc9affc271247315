import Xv6.Fs.FileBytes
import Xv6.Log.Model

/-!
# The blocks that a write logs

A transaction that calls `writei` once logs data blocks, the indirect block, one block of the
bitmap for each allocation, and the block of the inode. `filewrite` cuts its writes so that
these fit into the reservation of the operation; `sys_munmap` and `kexit` write whole pages.
-/

namespace Xv6.Blocks

open Log (MAXOPBLOCKS)
open Function

/-- `max` of `filewrite`. -/
def chunkMax : Nat := (MAXOPBLOCKS - 1 - 1 - 2) / 2 * BSIZE

/-- The blocks logged so far are no more than an operation has reserved. -/
def Buffers.FitsOp (s : Buffers) : Prop :=
  ∃ blocks : Finset BlockId, blocks.card ≤ MAXOPBLOCKS ∧ ∀ id, s.logged id = true → id ∈ blocks

/-- The start of a transaction, and an inode without holes whose blocks are in use. -/
structure Begun (ip : Dinode) (s : Buffers) : Prop where
  unlogged : ∀ id, s.logged id = false
  boot : s.cached.bitmap 0 = true
  used : ∀ k b, ip.slots s.cached.blocks k = some b → s.cached.bitmap b = true
  noHoles : ∀ bn, BSIZE * bn < ip.size → ip.blockAt s.cached.blocks bn ≠ none

/-- What a transaction has logged before `iupdate`: the blocks `data`, the indirect block, and
the blocks `maps` of the bitmap. -/
structure Within (sb : Superblock) (ip : Dinode) (s : Buffers) (data maps : Finset Nat) : Prop where
  data : ∀ b, s.logged (.data b) = true → b ∈ data ∨ b = ip.addrs indirect ∧ b ≠ 0
  bitmap : ∀ k, s.logged (.bitmap k) = true → k ∈ maps
  inodes : ∀ k, s.logged (.inodes k) = false
  inside : ∀ k ∈ maps, k * BPB < sb.size

/-- The allocation of the indirect block. -/
def Dinode.tables (ip : Dinode) : Nat := if ip.addrs indirect = 0 then 0 else 1

theorem Dinode.tables_le (ip : Dinode) : ip.tables ≤ 1 := by
  unfold tables
  split <;> omega

variable {sb : Superblock} {ip ip' : Dinode} {s s' : Buffers} {data maps : Finset Nat}
variable {addr b : Nat} {data' : Finset Nat}

theorem Buffers.balloc_full (full : s.balloc sb = (0, s')) : s'.logged = s.logged := by
  unfold Buffers.balloc at full
  split at full
  · cases full
    rfl
  · cases full

theorem Buffers.balloc_logged (allocated : s.balloc sb = (b + 1, s')) :
    b + 1 < sb.size ∧ ∀ id, s'.logged id = true →
      id = .data (b + 1) ∨ id = .bitmap ((b + 1) / BPB) ∨ s.logged id = true := by
  unfold Buffers.balloc Disk.balloc at allocated
  cases found : (List.range sb.size).find? (fun b => !s.cached.bitmap b) with
  | none =>
    rw [found] at allocated
    cases allocated
  | some b' =>
    rw [found] at allocated
    cases b' with
    | zero => cases allocated
    | succ b' =>
      cases allocated
      refine ⟨List.mem_range.mp (List.mem_of_find?_eq_some found), fun id => ?_⟩
      simp only [logged_logWrite, Bool.or_eq_true, decide_eq_true_eq]
      exact fun cases => cases

namespace Within

section

variable (within : Within sb ip s data maps)
include within

theorem congr (same : s'.logged = s.logged)
    (table : ip'.addrs indirect = ip.addrs indirect) : Within sb ip' s' data maps := by
  obtain ⟨inData, inBitmap, inInodes, inside⟩ := within
  rw [← same] at inData inBitmap inInodes
  rw [← table] at inData
  exact ⟨inData, inBitmap, inInodes, inside⟩

/-- A block that is logged is one of the data blocks or the indirect block. -/
theorem logWrite (known : b ∈ data ∨ b = ip.addrs indirect ∧ b ≠ 0) :
    Within sb ip (s.logWrite (.data b)) data maps := by
  refine ⟨fun b' logged => ?_, fun k logged => within.bitmap k ?_, fun k => ?_, within.inside⟩
  · simp only [Buffers.logged_logWrite, Bool.or_eq_true, decide_eq_true_eq,
      BlockId.data.injEq] at logged
    rcases logged with rfl | earlier
    · exact known
    · exact within.data b' earlier
  · simpa using logged
  · simpa using within.inodes k

theorem mono (more : data ⊆ data') : Within sb ip s data' maps :=
  ⟨fun b logged => (within.data b logged).imp_left fun member => more member,
    within.bitmap, within.inodes, within.inside⟩

/-- An allocation; the new block may have become the indirect block. -/
theorem balloc (allocated : s.balloc sb = (b + 1, s'))
    (new : b + 1 ∈ data' ∨ b + 1 = ip'.addrs indirect)
    (old : ∀ b, b ∈ data ∨ b = ip.addrs indirect ∧ b ≠ 0 →
      b ∈ data' ∨ b = ip'.addrs indirect ∧ b ≠ 0) :
    Within sb ip' s' data' (insert ((b + 1) / BPB) maps) := by
  obtain ⟨below, logged⟩ := Buffers.balloc_logged allocated
  refine ⟨fun b' now => ?_, fun k now => ?_, fun k => ?_, fun k member => ?_⟩
  · rcases logged _ now with here | other | before
    · cases here
      exact new.imp_right fun same => ⟨same, b.succ_ne_zero⟩
    · cases other
    · exact old b' (within.data b' before)
  · rcases logged _ now with other | here | before
    · cases other
    · cases here
      exact Finset.mem_insert_self ..
    · exact Finset.mem_insert_of_mem (within.bitmap k before)
  · rw [← Bool.not_eq_true]
    intro now
    rcases logged _ now with other | other | before
    · cases other
    · cases other
    · rw [within.inodes k] at before
      cases before
  · rcases Finset.mem_insert.mp member with rfl | earlier
    · exact (Nat.div_mul_le_self ..).trans_lt below
    · exact within.inside k earlier

end

end Within

namespace Logged

/-- The data block of a call of `bmap`, and what it has logged. -/
def Mapped (sb : Superblock) (ip ip' : Dinode) (s' : Buffers) (data maps : Finset Nat)
    (addr : Nat) : Prop :=
  ∃ maps', Within sb ip' s' (insert addr data) maps' ∧
    maps'.card + ip.tables ≤ maps.card + 1 + ip'.tables

section

variable (within : Within sb ip s data maps)
include within

theorem Mapped.unchanged : Mapped sb ip ip s data maps addr :=
  ⟨maps, within.mono (Finset.subset_insert ..), by omega⟩

theorem bmapDirect_mapped {k : Fin (NDIRECT + 1)}
    (direct : indirect ≠ k) (mapped : bmapDirect sb ip k s = (addr, ip', s')) :
    Mapped sb ip ip' s' data maps addr := by
  unfold bmapDirect at mapped
  split at mapped
  · split at mapped
    · next full =>
      cases mapped
      exact .unchanged (within.congr (Buffers.balloc_full full) rfl)
    · next b s₁ allocated =>
      cases mapped
      have table : update ip.addrs k (b + 1) indirect = ip.addrs indirect :=
        update_of_ne direct ..
      refine ⟨_, within.balloc allocated (Or.inl (Finset.mem_insert_self ..)) ?_, ?_⟩
      · exact fun b' known => known.imp Finset.mem_insert_of_mem
          fun ⟨same, nonzero⟩ => ⟨same.trans table.symm, nonzero⟩
      · have := Finset.card_insert_le ((b + 1) / BPB) maps
        simp only [Dinode.tables, table]
        omega
  · cases mapped
    exact .unchanged within

theorem bmapDirect_table (mapped : bmapDirect sb ip indirect s = (addr, ip', s')) :
    (addr ≠ 0 → ip'.addrs indirect = addr) ∧ ∃ maps', Within sb ip' s' data maps' ∧
      maps'.card + ip.tables ≤ maps.card + ip'.tables := by
  unfold bmapDirect at mapped
  split at mapped
  · next vacant =>
    split at mapped
    · next full =>
      cases mapped
      exact ⟨fun found => absurd rfl found, maps,
        within.congr (Buffers.balloc_full full) rfl, le_rfl⟩
    · next b s₁ allocated =>
      cases mapped
      have table : update ip.addrs indirect (b + 1) indirect = b + 1 :=
        update_self ..
      refine ⟨fun _ => table, _, within.balloc allocated (Or.inr table.symm) ?_, ?_⟩
      · rintro b' (known | ⟨rfl, nonzero⟩)
        · exact Or.inl known
        · exact absurd vacant nonzero
      · have := Finset.card_insert_le ((b + 1) / BPB) maps
        simp only [Dinode.tables, table, vacant, if_true, b.succ_ne_zero, if_false]
        omega
  · cases mapped
    exact ⟨fun _ => rfl, maps, within, le_rfl⟩

theorem bmapEntry_mapped {table : Nat} (here : ip.addrs indirect = table + 1) {j : Fin NINDIRECT}
    (mapped : bmapEntry sb (table + 1) j s = (addr, s')) :
    Mapped sb ip ip s' data maps addr := by
  unfold bmapEntry at mapped
  split at mapped
  · split at mapped
    · next full =>
      cases mapped
      exact .unchanged (within.congr (Buffers.balloc_full full) rfl)
    · next b s₁ allocated =>
      cases mapped
      have more := within.balloc allocated (Or.inl (Finset.mem_insert_self ..))
        fun b' => Or.imp_left Finset.mem_insert_of_mem
      have stored := more.congr (Buffers.logged_setBlock s₁ (table + 1)
        (update (s₁.cached.blocks (table + 1)) j (b + 1))) rfl
      refine ⟨_, stored.logWrite (Or.inr ⟨here.symm, table.succ_ne_zero⟩), ?_⟩
      have := Finset.card_insert_le ((b + 1) / BPB) maps
      omega
  · cases mapped
    exact .unchanged within

theorem bmap_mapped {bn : Nat} (inside : bn < MAXFILE) :
    ∃ addr ip' s', bmap sb ip bn s = .ok (addr, ip', s') ∧ Mapped sb ip ip' s' data maps addr := by
  unfold bmap
  split
  · next direct =>
    refine ⟨_, _, _, rfl, bmapDirect_mapped within ?_ rfl⟩
    intro same
    have := congrArg Fin.val same
    simp only [indirect, Fin.val_last] at this
    omega
  · next far =>
    have below : bn - NDIRECT < NINDIRECT := by
      unfold MAXFILE at inside
      omega
    rw [dif_pos below]
    split
    · next ip₁ s₁ full =>
      obtain ⟨-, maps', after, count⟩ := bmapDirect_table within full
      exact ⟨_, _, _, rfl, maps', after.mono (Finset.subset_insert ..), by omega⟩
    · next table ip₁ s₁ found =>
      obtain ⟨here, maps', after, count⟩ := bmapDirect_table within found
      obtain ⟨maps'', last, count'⟩ := bmapEntry_mapped after (here table.succ_ne_zero)
        (j := ⟨bn - NDIRECT, below⟩) rfl
      exact ⟨_, _, _, rfl, maps'', last, by omega⟩

end

/-- The loop from the start of a block on, with no more than `more` blocks to go. -/
theorem writeiLoop_within (source : Source) (n : Nat) (rounds off tot first more : Nat)
    (within : Within sb ip s data maps) (start : tot < n → off = BSIZE * first)
    (stop : tot < n → off + (n - tot) ≤ BSIZE * (first + more))
    (inside : tot < n → off + (n - tot) ≤ MAXFILE * BSIZE) :
    ∃ w, writeiLoop sb source n rounds off tot ip s = .ok w ∧ ∃ data' maps',
      Within sb w.ip w.buffers data' maps' ∧ data'.card ≤ data.card + more ∧
      maps'.card + ip.tables ≤ maps.card + more + w.ip.tables := by
  induction rounds generalizing off tot first more ip s data maps with
  | zero => exact ⟨_, rfl, data, maps, within, by omega, by dsimp only; omega⟩
  | succ rounds ih =>
    rw [writeiLoop]
    by_cases left : tot < n
    · rw [if_pos left]
      have start := start left
      subst start
      have here : BSIZE * first / BSIZE = first := Nat.mul_div_cancel_left first (by decide)
      have whole : BSIZE * first % BSIZE = 0 := Nat.mul_mod_right ..
      have low : first < MAXFILE := by
        rw [BSIZE_eq] at inside
        omega
      have some_ : 1 ≤ more := by
        rw [BSIZE_eq] at stop
        omega
      obtain ⟨addr, ip₁, s₁, mapped, maps₁, after, count⟩ := bmap_mapped within low
      have one := Finset.card_insert_le addr data
      rw [here, mapped]
      dsimp only [bind, Except.bind, pure, Except.pure]
      split
      · exact ⟨_, rfl, _, maps₁, after, by omega, by dsimp only; omega⟩
      · rw [whole, Nat.sub_zero]
        have stored : Within sb ip₁ _ _ _ := after.congr (Buffers.logged_setBlock s₁ addr
          ((s₁.cached.blocks addr).store 0 (eitherCopyin source tot (min (n - tot) BSIZE)).1)) rfl
        split
        · have logged := stored.logWrite (Or.inl (Finset.mem_insert_self addr data))
          obtain ⟨w, done, data', maps', last, count₁, count₂⟩ :=
            ih (BSIZE * first + min (n - tot) BSIZE)
              (tot + min (n - tot) BSIZE) (first + 1) (more - 1) logged
              (fun _ => by rw [BSIZE_eq] at *; omega)
              (fun _ => by rw [BSIZE_eq] at *; omega)
              (fun _ => by rw [BSIZE_eq] at *; omega)
          exact ⟨w, done, data', maps', last, by omega, by omega⟩
        · exact ⟨_, rfl, _, maps₁, stored, by omega, by dsimp only; omega⟩
    · rw [if_neg left]
      exact ⟨_, rfl, data, maps, within, by omega, by dsimp only; omega⟩

/-- A block that exists is found without a `log_write`. -/
theorem bmap_of_blockAt {bn b : Nat} (held : ip.blockAt s.cached.blocks bn = some b) :
    b ≠ 0 ∧ bmap sb ip bn s = .ok (b, ip, s) := by
  unfold Dinode.blockAt dataSlot at held
  unfold bmap
  split at held
  · next direct =>
    rw [dif_pos direct]
    simp only [Option.bind_some, Dinode.slots, address] at held
    split at held
    · cases held
    · split at held
      · cases held
      · next present =>
        cases held
        exact ⟨present, by rw [bmapDirect, if_neg present]⟩
  · next far =>
    rw [dif_neg far]
    split at held
    · next inside =>
      rw [dif_pos inside]
      simp only [Option.bind_some, Dinode.slots, address] at held
      split at held
      · cases held
      · next allocated =>
        rw [not_or] at allocated
        split at held
        · cases held
        · next present =>
          cases held
          refine ⟨present, ?_⟩
          rw [bmapDirect, if_neg allocated.2]
          obtain ⟨table, here⟩ := Nat.exists_eq_succ_of_ne_zero allocated.2
          simp only [here, bmapEntry] at present ⊢
          rw [if_neg present]
    · cases held

/-- A write of `c` blocks from any offset. The first block is there unless the write begins at
the start of a block. -/
theorem writeiLoop_begun (begun : Begun ip s) (source : Source) {off n c : Nat}
    (known : off ≤ ip.size) (short : n ≤ BSIZE * c) (inside : off + n ≤ MAXFILE * BSIZE) :
    ∃ w, writeiLoop sb source n n off 0 ip s = .ok w ∧ ∃ data maps,
      Within sb w.ip w.buffers data maps ∧ data.card ≤ c + 1 ∧ maps.card ≤ c + 1 := by
  have start : Within sb ip s ∅ ∅ := by
    refine ⟨fun b logged => ?_, fun k logged => ?_, fun k => begun.unlogged _, nofun⟩
    · rw [begun.unlogged] at logged
      cases logged
    · rw [begun.unlogged] at logged
      cases logged
  have split := Nat.div_add_mod off BSIZE
  have rest := Nat.mod_lt off (show BSIZE > 0 by decide)
  by_cases whole : n = 0 ∨ off % BSIZE = 0
  · obtain ⟨w, done, data, maps, within, count, count'⟩ :=
      writeiLoop_within source n n off 0 (off / BSIZE) c start (fun _ => by omega)
        (fun _ => by rw [Nat.mul_add]; omega) (fun _ => by omega)
    have := w.ip.tables_le
    rw [Finset.card_empty] at count count'
    exact ⟨w, done, data, maps, within, by omega, by omega⟩
  · rw [not_or] at whole
    obtain ⟨rounds, more⟩ := Nat.exists_eq_succ_of_ne_zero whole.1
    obtain ⟨b, held⟩ := Option.ne_none_iff_exists'.mp (begun.noHoles (off / BSIZE) (by omega))
    obtain ⟨present, mapped⟩ := @bmap_of_blockAt sb ip s _ b held
    have started : Within sb ip s {b} ∅ := start.mono (Finset.empty_subset _)
    nth_rewrite 2 [more]
    rw [writeiLoop, if_pos (by omega), mapped]
    dsimp only [bind, Except.bind, pure, Except.pure]
    rw [if_neg present, Nat.sub_zero, Nat.zero_add]
    have stored : Within sb ip _ _ _ := started.congr (Buffers.logged_setBlock s b
      ((s.cached.blocks b).store (off % BSIZE)
        (eitherCopyin source 0 (min n (BSIZE - off % BSIZE))).1)) rfl
    split
    · have logged := stored.logWrite (Or.inl (Finset.mem_singleton_self b))
      obtain ⟨w, done, data, maps, within, count, count'⟩ :=
        writeiLoop_within source n rounds (off + min n (BSIZE - off % BSIZE))
          (min n (BSIZE - off % BSIZE)) (off / BSIZE + 1) c logged
          (fun _ => by rw [Nat.mul_add]; omega) (fun _ => by rw [Nat.mul_add, Nat.mul_add]; omega)
          (fun _ => by omega)
      have := w.ip.tables_le
      rw [Finset.card_empty] at count'
      rw [Finset.card_singleton] at count
      exact ⟨w, done, data, maps, within, by omega, by omega⟩
    · exact ⟨_, rfl, {b}, ∅, stored, by rw [Finset.card_singleton]; omega, Nat.zero_le _⟩

end Logged

/-- The blocks logged after `iupdate`. -/
theorem Within.blocks (within : Within sb ip s data maps) (inum : Nat) (ip' : Dinode) :
    ∃ blocks : Finset BlockId, blocks.card ≤ data.card + maps.card + 2 ∧
      ∀ id, (s.iupdate inum ip').logged id = true → id ∈ blocks := by
  refine ⟨insert (.inodes (inum / IPB)) (insert (.data (ip.addrs indirect))
    (data.image .data ∪ maps.image .bitmap)), ?_, fun id logged => ?_⟩
  · have := Finset.card_insert_le (BlockId.inodes (inum / IPB))
      (insert (.data (ip.addrs indirect)) (data.image .data ∪ maps.image .bitmap))
    have := Finset.card_insert_le (BlockId.data (ip.addrs indirect))
      (data.image .data ∪ maps.image .bitmap)
    have := Finset.card_union_le (data.image BlockId.data) (maps.image .bitmap)
    have := data.card_image_le (f := BlockId.data)
    have := maps.card_image_le (f := BlockId.bitmap)
    omega
  · simp only [Buffers.iupdate, Buffers.logged_logWrite, Bool.or_eq_true,
      decide_eq_true_eq] at logged
    simp only [Finset.mem_insert, Finset.mem_union, Finset.mem_image]
    rcases logged with rfl | earlier
    · exact Or.inl rfl
    · cases id with
      | bitmap k => exact Or.inr (Or.inr (Or.inr ⟨k, within.bitmap k earlier, rfl⟩))
      | inodes k => rw [within.inodes k] at earlier; cases earlier
      | data b =>
        rcases within.data b earlier with member | ⟨same, -⟩
        · exact Or.inr (Or.inr (Or.inl ⟨b, member, rfl⟩))
        · exact Or.inr (Or.inl (by rw [same]))

/-- `writei` of at most `c` blocks of bytes logs at most `c + 1` data blocks and `c + 1` blocks of
the bitmap, beside the indirect block and the block of the inode. -/
theorem writei_blocks (begun : Begun ip s) (source : Source) (inum : Nat) {off n c : Nat}
    (small : off < 2 ^ 32) (word : n < 2 ^ 32) (short : n ≤ BSIZE * c) :
    ∃ result ending ip' s',
      Logged.writei sb source inum off n ip s = .ok (result, ending, ip', s') ∧
      ∃ maps : Finset Nat, maps.card ≤ c + 1 ∧ (∀ k ∈ maps, k * BPB < sb.size) ∧
      ∃ blocks : Finset BlockId, blocks.card ≤ c + 3 + maps.card ∧
        ∀ id, s'.logged id = true → id ∈ blocks := by
  unfold Logged.writei
  split
  · exact ⟨_, _, _, _, rfl, ∅, Nat.zero_le _, nofun, ∅, Nat.zero_le _,
      fun id logged => by rw [begun.unlogged] at logged; cases logged⟩
  · next range =>
    split
    · exact ⟨_, _, _, _, rfl, ∅, Nat.zero_le _, nofun, ∅, Nat.zero_le _,
        fun id logged => by rw [begun.unlogged] at logged; cases logged⟩
    · next fits =>
      obtain ⟨w, done, data, maps, within, count, count'⟩ :=
        @Logged.writeiLoop_begun sb ip s begun source off n c (by omega) short (by omega)
      rw [done]
      obtain ⟨blocks, count'', covered⟩ := within.blocks inum _
      exact ⟨_, _, _, _, rfl, maps, count', within.inside, blocks, by omega, covered⟩

/-- A file of 12 blocks and a half, on a disk with one free block in each of four blocks of the
bitmap. -/
def halfBlock : Dinode := { type := .file, size := 12800, addrs := fun k => k + 1 }

def fourFree : Buffers :=
  let disk : Disk := ⟨fun b => b ∉ [8191, 8192, 16384, 24576],
    fun _ j => if j = 0 then 14 else 0, fun _ => halfBlock⟩
  ⟨disk, fun _ => false, disk⟩

theorem halfBlock_begun : Begun halfBlock fourFree := by
  refine ⟨fun _ => rfl, rfl, fun k b held => ?_, fun bn below => ?_⟩
  · cases k with
    | inl k =>
      cases held
      have : k.val < 13 := k.isLt
      have apart : k.val + 1 ∉ [8191, 8192, 16384, 24576] := by
        simp only [List.mem_cons, List.not_mem_nil, or_false]
        omega
      exact decide_eq_true apart
    | inr j =>
      simp only [halfBlock, fourFree, Dinode.slots, address] at held
      obtain ⟨-, same⟩ : j = 0 ∧ (if j = 0 then 14 else 0) = b := by simpa using held
      split at same <;> cases same <;> rfl
  · have : bn < 13 := by
      rw [BSIZE_eq, show halfBlock.size = 12800 from rfl] at below
      omega
    interval_cases bn <;> rintro ⟨⟩

/-- A chunk of `filewrite` logs at most `MAXOPBLOCKS` blocks, wherever it starts in the file and
whichever blocks `balloc` returns. -/
theorem filewrite_chunk_fits (begun : Begun ip s) (mem : UserMemory) (addr inum : Nat)
    {off n1 : Nat} (small : off < 2 ^ 32) (chunk : n1 ≤ chunkMax) :
    ∃ result ending ip' s',
      Logged.writei sb (.user mem addr) inum off n1 ip s = .ok (result, ending, ip', s') ∧
        s'.FitsOp := by
  have short : n1 ≤ BSIZE * 3 := chunk.trans (by decide)
  obtain ⟨result, ending, ip', s', returned, maps, few, -, blocks, count, covered⟩ :=
    @writei_blocks sb ip s begun (.user mem addr) inum off n1 3 small
      (short.trans_lt (by decide)) short
  refine ⟨result, ending, ip', s', returned, blocks, count.trans ?_, covered⟩
  rw [show MAXOPBLOCKS = 10 from rfl]
  omega

/-- A full chunk, in the middle of a block and with every new block under another block of the
bitmap. -/
theorem filewrite_chunk_fits_half_block :
    ∃ result ending ip' s', Logged.writei { size := 24577, ninodes := 200, nmeta := 1 }
        (.user ⟨fun _ => true, fun _ => 0⟩ 0) 1 12800 chunkMax halfBlock fourFree =
          .ok (result, ending, ip', s') ∧ s'.FitsOp :=
  filewrite_chunk_fits halfBlock_begun _ 0 1 (by decide) le_rfl

/-! ## Whole pages -/

theorem Buffers.balloc_eq (inside : b + 1 < sb.size)
    (free : s.cached.bitmap (b + 1) = false) (below : ∀ b' < b + 1, s.cached.bitmap b' = true) :
    s.balloc sb = (b + 1, (({ s with cached := { s.cached with
      bitmap := update s.cached.bitmap (b + 1) true
      blocks := update s.cached.blocks (b + 1) fun _ => 0 } }).logWrite
        (.bitmap ((b + 1) / BPB))).logWrite (.data (b + 1))) := by
  have found : (List.range sb.size).find? (fun b => !s.cached.bitmap b) = some (b + 1) := by
    simpa [free, inside] using below
  rw [Buffers.balloc, Disk.balloc, found]

/-- A new block for an entry of the indirect block. -/
theorem Logged.bmapEntry_new {table b : Nat} {j : Fin NINDIRECT} (inside : b + 1 < sb.size)
    (free : s.cached.bitmap (b + 1) = false) (below : ∀ b' < b + 1, s.cached.bitmap b' = true)
    (vacant : s.cached.blocks (table + 1) j = 0) (other : b + 1 ≠ table + 1) :
    ∃ s', bmapEntry sb (table + 1) j s = (b + 1, s') ∧
      (∀ id, s'.logged id = true ↔ id = .data (table + 1) ∨ id = .data (b + 1) ∨
        id = .bitmap ((b + 1) / BPB) ∨ s.logged id = true) ∧
      s'.cached.bitmap = update s.cached.bitmap (b + 1) true ∧
      ∀ j' ≠ j, s'.cached.blocks (table + 1) j' = s.cached.blocks (table + 1) j' := by
  refine ⟨_, by rw [bmapEntry, if_pos vacant, Buffers.balloc_eq inside free below], ?_, rfl, ?_⟩
  · intro id
    simp
  · intro j' apart
    rw [Buffers.cached_logWrite, Buffers.setBlock]
    dsimp only
    rw [update_self, update_of_ne apart]
    exact congrFun (update_of_ne (Ne.symm other) ..) j'

/-- Each free block is taken for one entry of the indirect block, in ascending order. -/
theorem Logged.writeiLoop_entries {source : Source} (found : ∀ i, source.accessible i = true)
    {table : Nat} (here : ip.addrs indirect = table + 1) (n : Nat) (frees : List Nat)
    (rounds bn off tot : Nat) (ascending : frees.Pairwise (· < ·))
    (inside : ∀ b ∈ frees, 0 < b ∧ b < sb.size ∧ b ≠ table + 1)
    (free : ∀ b, s.cached.bitmap b = false ↔ b ∈ frees) (far : NDIRECT ≤ bn)
    (vacant : ∀ j : Fin NINDIRECT, bn ≤ NDIRECT + j → s.cached.blocks (table + 1) j = 0)
    (room : bn + frees.length ≤ MAXFILE) (start : frees ≠ [] → off = BSIZE * bn)
    (left : n - tot = BSIZE * frees.length - 512) (enough : frees.length < rounds) :
    ∃ w, writeiLoop sb source n rounds off tot ip s = .ok w ∧
      (∀ id, s.logged id = true → w.buffers.logged id = true) ∧
      ∀ b ∈ frees, w.buffers.logged (.data b) = true ∧ w.buffers.logged (.bitmap (b / BPB)) = true ∧
        w.buffers.logged (.data (table + 1)) = true := by
  induction frees generalizing rounds bn off tot s with
  | nil =>
    obtain ⟨rounds, rfl⟩ := Nat.exists_eq_succ_of_ne_zero (show rounds ≠ 0 by omega)
    rw [List.length_nil, Nat.mul_zero, Nat.zero_sub] at left
    exact ⟨_, by rw [writeiLoop, if_neg (by omega)], fun _ logged => logged, nofun⟩
  | cons b frees ih =>
    obtain ⟨rounds, rfl⟩ := Nat.exists_eq_succ_of_ne_zero (show rounds ≠ 0 by omega)
    obtain ⟨ordered, rest⟩ := List.pairwise_cons.mp ascending
    obtain ⟨pos, within, other⟩ := inside b List.mem_cons_self
    obtain ⟨b, rfl⟩ := Nat.exists_eq_succ_of_ne_zero (Nat.ne_of_gt pos)
    obtain rfl := start (List.cons_ne_nil _ _)
    rw [List.length_cons] at room left enough
    have below : bn - NDIRECT < NINDIRECT := by
      unfold MAXFILE at room
      omega
    obtain ⟨s', mapped, logged, bitmap, entries⟩ := @bmapEntry_new sb s table b
      ⟨bn - NDIRECT, below⟩ within ((free _).mpr List.mem_cons_self)
      (fun b' less => by
        rw [← Bool.not_eq_false, free]
        intro member
        rcases List.mem_cons.mp member with rfl | later
        · exact Nat.lt_irrefl _ less
        · exact Nat.lt_asymm less (ordered b' later))
      (vacant _ (by simp; omega)) other
    have copied : (eitherCopyin source tot (min (n - tot) BSIZE)).2 = true := by
      obtain ⟨done, -, copied⟩ := eitherCopyin_copied source tot (min (n - tot) BSIZE)
      by_contra failed
      obtain ⟨-, missing⟩ := copied.failure (Bool.eq_false_of_not_eq_true failed)
      rw [found] at missing
      cases missing
    rw [writeiLoop, if_pos (by rw [BSIZE_eq] at left; omega),
      Nat.mul_div_cancel_left bn (by decide), Nat.mul_mod_right, Nat.sub_zero, bmap,
      dif_neg (by omega), dif_pos below, bmapDirect, if_neg (by rw [here]; omega), here]
    dsimp only [bind, Except.bind]
    rw [mapped, if_neg b.succ_ne_zero, copied, if_pos rfl]
    have next := @ih
      ((s'.setBlock (b + 1) ((s'.cached.blocks (b + 1)).store 0
        (eitherCopyin source tot (min (n - tot) BSIZE)).1)).logWrite (.data (b + 1)))
      rounds (bn + 1) (BSIZE * bn + min (n - tot) BSIZE) (tot + min (n - tot) BSIZE) rest
      (fun b' member => inside b' (List.mem_cons_of_mem _ member)) ?_ (by omega) ?_ (by omega) ?_ ?_
      (by omega)
    · obtain ⟨w, done, grows, all⟩ := next
      have later : ∀ id, s'.logged id = true → w.buffers.logged id = true :=
        fun id now => grows id (by simp [now])
      refine ⟨w, done, fun id before => later id ((logged id).mpr (by simp [before])), ?_⟩
      intro b' member
      rcases List.mem_cons.mp member with rfl | other
      · exact ⟨later _ ((logged _).mpr (by simp)), later _ ((logged _).mpr (by simp)),
          later _ ((logged _).mpr (by simp))⟩
      · exact all b' other
    · intro b'
      rw [Buffers.cached_logWrite, Buffers.setBlock]
      rw [bitmap]
      by_cases same : b' = b + 1
      · subst same
        simp only [update_self, Bool.true_eq_false, false_iff]
        exact fun member => Nat.lt_irrefl _ (ordered _ member)
      · rw [update_of_ne same, free, List.mem_cons, or_iff_right same]
    · intro j later
      have : update s'.cached.blocks (b + 1) ((s'.cached.blocks (b + 1)).store 0
          (eitherCopyin source tot (min (n - tot) BSIZE)).1) (table + 1) j =
          s'.cached.blocks (table + 1) j := congrFun (update_of_ne (Ne.symm other) ..) j
      refine this.trans ((entries j fun same => ?_).trans (vacant j (by omega)))
      rw [same] at later
      simp only at later
      omega
    · intro more
      have := List.length_pos_iff.mpr more
      rw [BSIZE_eq] at left ⊢
      omega
    · rw [BSIZE_eq] at left ⊢
      omega

/-- The last block of the file and four new ones, with a block of the bitmap for each. -/
theorem page_logs_eleven (large : 3 * BPB < sb.size) :
    ∃ result ending ip' s', Logged.writei sb (.user ⟨fun _ => true, fun _ => 0⟩ 0) 1 12800 PGSIZE
        halfBlock fourFree = .ok (result, ending, ip', s') ∧ ¬s'.FitsOp := by
  have size : 24576 < sb.size := large
  obtain ⟨bytes, copied⟩ : ∃ bytes, eitherCopyin (.user ⟨fun _ => true, fun _ => 0⟩ 0) 0 512 =
      (bytes, true) := ⟨_, rfl⟩
  let s : Buffers :=
    (fourFree.setBlock 14 ((fourFree.cached.blocks 14).store 512 bytes)).logWrite (.data 14)
  have free : ∀ b, s.cached.bitmap b = false ↔ b ∈ [8191, 8192, 16384, 24576] := by
    intro b
    exact decide_eq_false_iff_not.trans not_not
  have vacant : ∀ j : Fin NINDIRECT, 13 ≤ NDIRECT + j → s.cached.blocks 13 j = 0 := by
    intro j later
    have other : j ≠ 0 := by
      rintro rfl
      exact absurd later (by decide)
    simp [s, fourFree, Buffers.setBlock, other]
  obtain ⟨w, done, grows, all⟩ := @Logged.writeiLoop_entries sb halfBlock s
    (.user ⟨fun _ => true, fun _ => 0⟩ 0) (fun _ => rfl) 12 rfl PGSIZE [8191, 8192, 16384, 24576]
    4095 13 13312 512 (by decide) (by simp; omega) free (by decide) vacant (by decide)
    (fun _ => rfl) rfl (by decide)
  have loop : Logged.writeiLoop sb (.user ⟨fun _ => true, fun _ => 0⟩ 0) PGSIZE PGSIZE 12800 0
      halfBlock fourFree = .ok w := by
    rw [← done, show PGSIZE = 4095 + 1 from rfl, Logged.writeiLoop, if_pos (by decide),
      show 12800 / BSIZE = 12 from rfl, show 12800 % BSIZE = 512 from rfl,
      (@Logged.bmap_of_blockAt sb halfBlock fourFree 12 14 rfl).2]
    dsimp only [bind, Except.bind]
    rw [show min (4095 + 1 - 0) (BSIZE - 512) = 512 from rfl, copied]
    rfl
  rw [Logged.writei, if_neg (by decide), if_neg (by decide), loop]
  refine ⟨_, _, _, _, rfl, fun fits => ?_⟩
  obtain ⟨blocks, few, covered⟩ := fits
  have later : ∀ id, w.buffers.logged id = true → id ∈ blocks :=
    fun id now => covered id (by rw [Buffers.iupdate, Buffers.logged_logWrite, now, Bool.or_true])
  have logged : ({.inodes 0, .data 13, .data 14, .data 8191, .data 8192, .data 16384, .data 24576,
      .bitmap 0, .bitmap 1, .bitmap 2, .bitmap 3} : Finset BlockId) ⊆ blocks := by
    simp only [List.forall_mem_cons] at all
    obtain ⟨⟨data₁, map₁, table⟩, ⟨data₂, map₂, -⟩, ⟨data₃, map₃, -⟩, ⟨data₄, map₄, -⟩, -⟩ := all
    simp only [Finset.insert_subset_iff, Finset.singleton_subset_iff]
    exact ⟨covered _ (by simp [Buffers.iupdate, IPB]), later _ table,
      later _ (grows _ (by simp [s])), later _ data₁, later _ data₂, later _ data₃, later _ data₄,
      later _ map₁, later _ map₂, later _ map₃, later _ map₄⟩
  exact absurd ((Finset.card_le_card logged).trans few) (by decide)

/-- The transaction in which `munmap` or `kexit` writes back a page of a shared mapping logs at most
`MAXOPBLOCKS` blocks for every file exactly when the bitmap has at most three blocks. -/
theorem writeBack_fits_iff (sb : Superblock) :
    (∀ (mem : UserMemory) (va inum file_offset : Nat) (ip : Dinode) (s : Buffers),
      Begun ip s → file_offset < 2 ^ 32 → ∃ result ending ip' s',
        Logged.writei sb (.user mem va) inum file_offset PGSIZE ip s =
          .ok (result, ending, ip', s') ∧ s'.FitsOp) ↔ sb.size ≤ 3 * BPB := by
  constructor
  · intro fits
    by_contra large
    obtain ⟨result, ending, ip', s', returned, more⟩ := page_logs_eleven (Nat.lt_of_not_le large)
    obtain ⟨_, _, _, _, returned', few⟩ := fits _ 0 1 12800 _ _ halfBlock_begun (by decide)
    rw [returned] at returned'
    cases returned'
    exact more few
  · intro size mem va inum file_offset ip s begun small
    obtain ⟨result, ending, ip', s', returned, maps, -, inside, blocks, count, covered⟩ :=
      @writei_blocks sb ip s begun (.user mem va) inum file_offset PGSIZE 4 small (by decide)
        (by decide)
    have three : maps ⊆ Finset.range 3 := by
      intro k member
      have := (inside k member).trans_le size
      rw [Finset.mem_range]
      exact Nat.lt_of_mul_lt_mul_right (by omega : k * BPB < 3 * BPB)
    have few := Finset.card_le_card three
    refine ⟨result, ending, ip', s', returned, blocks, ?_, covered⟩
    rw [Finset.card_range] at few
    rw [show MAXOPBLOCKS = 10 from rfl]
    omega

theorem writeBack_logs_too_much :
    ∃ sb : Superblock, Begun halfBlock fourFree ∧ ∃ result ending ip' s',
      Logged.writei sb (.user ⟨fun _ => true, fun _ => 0⟩ 0) 1 12800 PGSIZE halfBlock fourFree =
        .ok (result, ending, ip', s') ∧ ¬s'.FitsOp :=
  ⟨{ size := 24577, ninodes := 200, nmeta := 1 }, halfBlock_begun, page_logs_eleven (by decide)⟩

end Xv6.Blocks
