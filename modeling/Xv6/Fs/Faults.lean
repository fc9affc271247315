import Xv6.Fs.FileContents

/-!
# Writes that fault

When `either_copyin` fails, `writei` releases the buffer without `log_write`, and what the copy
had already put into the buffer stays in the cache.
-/

namespace Xv6.Blocks

open Ledger Function

variable {sb : Superblock} {inum : Nat} {ip ip' : Dinode} {s s' : Buffers} {fs : FsState}
variable {source : Source} {a off t : Nat}

/-! ## The cache and the disk -/

/-- The disk after the next commit has the bytes that are in the cache. The entries of an indirect
block are numbers, and are the same numbers. -/
structure Buffers.Agree (s : Buffers) : Prop where
  bitmap : s.postCommit.bitmap = s.cached.bitmap
  blocks : ∀ b, (s.postCommit.blocks b).Same (s.cached.blocks b)
  dinodes : s.postCommit.dinodes = s.cached.dinodes
  tables : ∀ i b, holds s.cached.dinodes s.cached.blocks (i, .inl indirect) = some b →
    s.postCommit.blocks b = s.cached.blocks b

theorem Buffers.Agree.byteAt (agree : s.Agree) (i p : Nat) :
    (s.postCommit.dinodes i).byteAt s.postCommit.blocks p =
      (s.cached.dinodes i).byteAt s.cached.blocks p := by
  have slots : (s.cached.dinodes i).slots s.postCommit.blocks =
      (s.cached.dinodes i).slots s.cached.blocks := by
    funext k
    rcases k with k | j
    · rfl
    · by_cases present : (s.cached.dinodes i).type = .free ∨ (s.cached.dinodes i).addrs indirect = 0
      · simp only [Dinode.slots, if_pos present]
      · obtain ⟨allocated, nonzero⟩ := not_or.mp present
        have table := agree.tables i ((s.cached.dinodes i).addrs indirect)
          (by simp [holds, Dinode.slots, allocated, address_of_ne nonzero])
        simp only [Dinode.slots, if_neg present, table]
  rw [agree.dinodes, Dinode.byteAt, Dinode.byteAt, Dinode.blockAt, Dinode.blockAt, slots]
  congr 1
  funext b
  exact agree.blocks b _ (Nat.mod_lt _ (by decide))

theorem Overwritten.postCommit {d : Disk} (agree : s.Agree)
    (written : Overwritten source inum off t d s.cached) :
    Overwritten source inum off t d s.postCommit where
  size := by
    rw [agree.dinodes]
    exact written.size
  bytes := by
    intro p below
    rw [agree.dinodes] at below
    rw [agree.byteAt]
    exact written.bytes p below
  others := by
    intro i other
    obtain ⟨dinode, bytes⟩ := written.others i other
    refine ⟨by rw [agree.dinodes, dinode], fun p below => ?_⟩
    rw [agree.byteAt]
    exact bytes p below

theorem Tracked.unlogged (tracked : Tracked s s') {b : BlockId} (unlogged : s'.logged b = false) :
    s.logged b = false := by
  rw [← Bool.not_eq_true] at unlogged ⊢
  exact fun logged => unlogged (tracked.grows b logged)

theorem Tracked.postCommit_blocks (tracked : Tracked s s') {b : Nat}
    (same : s.postCommit.blocks b = s.cached.blocks b) :
    s'.postCommit.blocks b = s'.cached.blocks b := by
  cases logged : s'.logged (.data b) with
  | true => simp [Buffers.postCommit, logged]
  | false =>
    rw [tracked.blocks b logged, ← same]
    simp [Buffers.postCommit, logged, tracked.unlogged logged, tracked.home]

theorem Tracked.agree (tracked : Tracked s s') (agree : s.Agree)
    (tables : ∀ i b, holds s'.cached.dinodes s'.cached.blocks (i, .inl indirect) = some b →
      s'.postCommit.blocks b = s'.cached.blocks b) : s'.Agree := by
  refine ⟨?_, fun b => ?_, ?_, tables⟩
  · funext b
    cases logged : s'.logged (.bitmap (b / BPB)) with
    | true => simp [Buffers.postCommit, logged]
    | false =>
      rw [tracked.bitmap b logged, ← agree.bitmap]
      simp [Buffers.postCommit, logged, tracked.unlogged logged, tracked.home]
  · cases logged : s'.logged (.data b) with
    | true =>
      simp only [Buffers.postCommit, logged, if_true]
      exact fun _ _ => rfl
    | false =>
      have same := agree.blocks b
      rw [tracked.blocks b logged]
      simpa [Buffers.postCommit, logged, tracked.unlogged logged, tracked.home] using same
  · funext i
    cases logged : s'.logged (.inodes (i / IPB)) with
    | true => simp [Buffers.postCommit, logged]
    | false =>
      rw [tracked.dinodes i logged, ← agree.dinodes]
      simp [Buffers.postCommit, logged, tracked.unlogged logged, tracked.home]

theorem Tracked.of_iupdate (s : Buffers) (inum : Nat) (ip : Dinode) :
    Tracked s (s.iupdate inum ip) where
  home := rfl
  grows := fun _ logged => by simp [Buffers.iupdate, logged]
  bitmap := fun _ _ => rfl
  blocks := fun _ _ => rfl
  dinodes := by
    intro i unlogged
    have other : i ≠ inum := by
      rintro rfl
      simp [Buffers.iupdate] at unlogged
    exact update_of_ne other ..
  marked := by
    intro b free used
    rw [show (s.iupdate inum ip).cached.bitmap b = s.cached.bitmap b from rfl, free] at used
    cases used

theorem holds_extend (inum : Nat) (ip : Dinode) (d : Disk) (off : Nat) :
    holds (d.iupdate inum (ip.extend off)).dinodes d.blocks = working inum ip d := by
  have slots : (ip.extend off).slots = ip.slots := by
    unfold Dinode.extend
    split <;> rfl
  funext ⟨i, k⟩
  unfold working holds Disk.iupdate
  by_cases same : i = inum
  · subst same
    simp only [update_self, slots]
  · simp only [update_of_ne same]

theorem Progress.agree (agree : s.Agree) (work : Working sb inum ip s.cached)
    (same : s.cached.dinodes inum = ip) {stop : Nat}
    (progress : Progress sb inum source off off stop ip s ip' s') :
    (s'.iupdate inum (ip'.extend stop)).Agree := by
  have tracked := progress.tracked.trans (.of_iupdate s' inum (ip'.extend stop))
  refine tracked.agree agree fun i b held => ?_
  have now : working inum ip' s'.cached (i, .inl indirect) = some b :=
    (congrFun (holds_extend inum ip' s'.cached stop) _).symm.trans held
  cases before : working inum ip s.cached (i, .inl indirect) with
  | none =>
    -- A new indirect block has been logged.
    have logged := progress.tracked.fresh work progress.grown before now
    simp [Buffers.postCommit, Buffers.iupdate, logged]
  | some b' =>
    have kept := progress.grown.keeps _ _ before
    rw [now] at kept
    cases kept
    rw [working, ← same, update_eq_self] at before
    exact tracked.postCommit_blocks (agree.tables i b before)

/-- A block that is no indirect block is overwritten in the cache only. -/
theorem Buffers.Agree.setBlock_iff (agree : s.Agree) {b : Nat}
    (data : ∀ i, holds s.cached.dinodes s.cached.blocks (i, .inl indirect) ≠ some b)
    (c : Contents) :
    (s.setBlock b c).Agree ↔ (s.logged (.data b) = false → (s.cached.blocks b).Same c) := by
  have changed : (s.setBlock b c).cached.blocks b = c := update_self ..
  have others : ∀ b', b' ≠ b → (s.setBlock b c).cached.blocks b' = s.cached.blocks b' ∧
      (s.setBlock b c).postCommit.blocks b' = s.postCommit.blocks b' := by
    intro b' other
    simp [Buffers.postCommit, Buffers.setBlock, other]
  have kept : s.logged (.data b) = false →
      (s.setBlock b c).postCommit.blocks b = s.postCommit.blocks b := by
    intro unlogged
    simp [Buffers.postCommit, Buffers.setBlock, unlogged]
  constructor
  · intro clean unlogged k inside
    have before := agree.blocks b k inside
    have after := clean.blocks b k inside
    rw [kept unlogged, changed] at after
    exact before.symm.trans after
  · intro same
    refine ⟨agree.bitmap, fun b' => ?_, agree.dinodes, fun i b' held => ?_⟩
    · by_cases here : b' = b
      · subst here
        cases logged : s.logged (.data b') with
        | true =>
          simp only [Buffers.postCommit, Buffers.logged_setBlock, logged, if_true]
          exact fun _ _ => rfl
        | false =>
          rw [kept logged, changed]
          exact fun k inside => (agree.blocks b' k inside).trans (same logged k inside)
      · rw [(others b' here).1, (others b' here).2]
        exact agree.blocks b'
    · have other : b' ≠ b := by
        rintro rfl
        exact data i held
      rw [(others b' other).1, (others b' other).2]
      exact agree.tables i b' held

/-! ## The block of the fault -/

/-- What is in the buffer after `a - t` bytes of the source have been copied to `off + t`. -/
def partlyCopied (source : Source) (off a t : Nat) (c : Contents) : Contents :=
  c.store ((off + t) % BSIZE) ((List.range (a - t)).map fun i => source.byte (t + i))

/-- A write at `off` of a source whose first `a` bytes are in reach has stopped after `t`
bytes, with the block `addr` partly overwritten; without that the buffers would be `s₂`. -/
structure FaultAt (source : Source) (inum off a t : Nat) (ip : Dinode) (s s₂ : Buffers)
    (addr : Nat) : Prop where
  agree : s₂.Agree
  data : ∀ i, holds s₂.cached.dinodes s₂.cached.blocks (i, .inl indirect) ≠ some addr
  within : off ≤ ip.size
  started : t ≤ a
  -- The fault is in the block that begins at `off + t`, or in the first one.
  block : (off + t) % BSIZE + (a - t) < BSIZE
  boundary : t = 0 ∨ (off + t) % BSIZE = 0
  before : Overwritten source inum off t s.cached s₂.cached
  new : ∀ p, off + t ≤ p → p < off + a →
    (s₂.cached.dinodes inum).byteAt (update s₂.cached.blocks addr
      (partlyCopied source off a t (s₂.cached.blocks addr))) p = some (source.byte (p - off))
  kept : ∀ i p v, i ≠ inum ∨ p < off + t ∨ off + a ≤ p →
    (s₂.cached.dinodes i).byteAt s₂.cached.blocks p = some v →
    (s₂.cached.dinodes i).byteAt (update s₂.cached.blocks addr
      (partlyCopied source off a t (s₂.cached.blocks addr))) p = some v
  present : ∀ b, ip.blockAt s.cached.blocks ((off + t) / BSIZE) = some b →
    b = addr ∧ (s₂.cached.blocks addr).Same (s.cached.blocks b) ∧
      s₂.logged (.data addr) = s.logged (.data b)
  absent : ip.blockAt s.cached.blocks ((off + t) / BSIZE) = none → s₂.logged (.data addr) = true

theorem working_blockAt {d : Disk} (bn : Nat) :
    ip.blockAt d.blocks bn = (dataSlot bn).bind fun k => working inum ip d (inum, k) := by
  unfold Dinode.blockAt
  congr 1
  funext k
  rw [working, holds_self]

theorem reach_eq {part : Nat} (found : ∀ i < a, source.accessible i = true)
    (missing : source.accessible a = false) (written : ∀ i < t, source.accessible i = true)
    (reached : ∀ i < part, source.accessible (t + i) = true)
    (stopped : source.accessible (t + part) = false) : a = t + part := by
  rcases lt_trichotomy a (t + part) with early | same | late
  · have there : source.accessible a = true := by
      by_cases before : a < t
      · exact written a before
      · have later := reached (a - t) (by omega)
        rwa [show t + (a - t) = a by omega] at later
    rw [missing] at there
    cases there
  · exact same
  · rw [found (t + part) late] at stopped
    cases stopped

section

variable (inv : BlocksOk sb fs) (cached : s.cached = fs.disk) (agree : s.Agree)
  (work : Working sb inum ip s.cached) (same : s.cached.dinodes inum = ip)
include inv cached agree work same

theorem faultAt_of_progress {part addr : Nat}
    (within : off ≤ ip.size) {k : Fin (NDIRECT + 1) ⊕ Fin NINDIRECT}
    (progress : Progress sb inum source off off (off + t) ip s ip' s')
    (slot : dataSlot ((off + t) / BSIZE) = some k)
    (held : working inum ip' s'.cached (inum, k) = some addr) (nonzero : addr ≠ 0)
    (fits : (off + t) % BSIZE + part < BSIZE) (boundary : t = 0 ∨ (off + t) % BSIZE = 0) :
    FaultAt source inum off (t + part) t ip s (s'.iupdate inum (ip'.extend (off + t))) addr := by
  obtain ⟨new, kept⟩ := @fileByte_store sb inum ip' s'.cached progress.grown.working (off + t) addr
    k slot held nonzero source t part fits.le _ rfl
  have copied : partlyCopied source off (t + part) t (s'.cached.blocks addr) =
      (s'.cached.blocks addr).store ((off + t) % BSIZE)
        ((List.range part).map fun i => source.byte (t + i)) := by
    rw [partlyCopied, Nat.add_sub_cancel_left]
  refine ⟨progress.agree agree work same, fun i table => ?_, within,
    Nat.le_add_right t part, by omega, boundary, progress.overwritten inv cached same within,
    ?_, ?_, ?_, ?_⟩
  · have taken := (congrFun (holds_extend inum ip' s'.cached (off + t)) _).symm.trans table
    have clash := progress.grown.working.exact.exclusive _ _ _ held taken
    exact dataSlot_ne_indirect slot (Prod.mk.inj clash).2
  · intro p after before
    have byte := new p after (by omega)
    rw [← fileByte_iupdate inum ip' _ (off + t), show t + (p - (off + t)) = p - off by omega,
      ← copied] at byte
    exact byte
  · intro i p v outside before
    have old := (fileByte_iupdate inum ip' s'.cached (off + t) i p).symm.trans before
    have byte := kept i p v (by omega) old
    rw [← fileByte_iupdate inum ip' _ (off + t), ← copied] at byte
    exact byte
  · intro b present
    rw [@working_blockAt inum, slot, Option.bind_some] at present
    have after := progress.grown.keeps _ _ present
    rw [held] at after
    cases after
    refine ⟨rfl, fun j inside => ?_, ?_⟩
    · rw [BSIZE_eq] at inside boundary
      have block : (BSIZE * ((off + t) / BSIZE) + j) / BSIZE = (off + t) / BSIZE := by
        rw [BSIZE_eq]
        omega
      have offset : (BSIZE * ((off + t) / BSIZE) + j) % BSIZE = j := by
        rw [BSIZE_eq]
        omega
      have byte : fileByte inum ip s.cached inum (BSIZE * ((off + t) / BSIZE) + j) =
          some ((s.cached.blocks addr).byte j) :=
        fileByte_eq_some.mpr ⟨k, addr, by rw [block]; exact slot, present, by rw [offset]⟩
      have later := progress.kept inum _ _ (by rw [BSIZE_eq]; omega) byte
      obtain ⟨k', b, slot', held', byte'⟩ := fileByte_eq_some.mp later
      rw [block, slot] at slot'
      cases slot'
      rw [held] at held'
      cases held'
      rw [offset] at byte'
      exact byte'
    · have unlogged := progress.unlogged ((off + t) / BSIZE) k addr
        (by rw [BSIZE_eq] at boundary ⊢; omega) slot present
      rw [← unlogged]
      simp [Buffers.iupdate]
  · intro absent
    rw [@working_blockAt inum, slot, Option.bind_some] at absent
    have logged := progress.tracked.fresh work progress.grown absent held
    simp [Buffers.iupdate, logged]

theorem faultAt_of_writei {n : Nat}
    (small : off < 2 ^ 32) (small' : n < 2 ^ 32) (found : ∀ i < a, source.accessible i = true)
    (missing : source.accessible a = false)
    (returned : Logged.writei sb source inum off n ip s = .ok ((t : Int), .fault, ip', s')) :
    t < n ∧ ∃ s₂ addr, FaultAt source inum off a t ip s s₂ addr ∧
      s' = s₂.setBlock addr (partlyCopied source off a t (s₂.cached.blocks addr)) := by
  by_cases within : off ≤ ip.size ∧ off + n ≤ MAXFILE * BSIZE
  · obtain ⟨⟨ending, off', tot, ip₁, buffers⟩, spec, written⟩ :=
      Logged.writei_inside source work within.1 within.2
    obtain ⟨place, -, -, boundary, before, loopEnd⟩ := spec
    simp only at place boundary before written
    subst place
    rw [returned] at written
    obtain ⟨rfl, rfl, rfl, rfl⟩ := written
    cases loopEnd with
    | done ending | full ending => cases ending
    | fault s₁ k addr part _ progress slot held nonzero less reached stopped buffers =>
      simp only at progress slot held less reached stopped buffers
      subst buffers
      obtain rfl := reach_eq found missing (fun i => before i (Nat.zero_le i)) reached stopped
      rw [BSIZE_eq] at less
      have fits : (off + t) % BSIZE + part < BSIZE := by
        rw [BSIZE_eq]
        omega
      refine ⟨by omega, s₁.iupdate inum (ip₁.extend (off + t)), addr,
        faultAt_of_progress inv cached agree work same within.1 progress slot held nonzero fits
          (by omega), ?_⟩
      rw [partlyCopied, Nat.add_sub_cancel_left]
      rfl
  · rw [Logged.writei_outside source small small' within] at returned
    cases returned

end

/-! ## When a fault leaves a trace -/

/-- The file is the old one with `t` bytes overwritten, in the cache and on the disk after the
next commit, and the cache agrees with that disk. -/
structure NoTrace (source : Source) (inum off t : Nat) (s s' : Buffers) : Prop where
  cached : Overwritten source inum off t s.cached s'.cached
  committed : Overwritten source inum off t s.cached s'.postCommit
  agree : s'.Agree

/-- The bytes in reach behind the last boundary of a block are those that the block has
already. Behind the end of the file it is enough if the block is in the log. -/
def Harmless (source : Source) (off a : Nat) (ip : Dinode) (s : Buffers) : Prop :=
  ∀ p b, off ≤ p → BSIZE * ((off + a) / BSIZE) ≤ p → p < off + a →
    ip.blockAt s.cached.blocks (p / BSIZE) = some b →
    (p < ip.size ∨ s.logged (.data b) = false) →
    (s.cached.blocks b).byte (p % BSIZE) = source.byte (p - off)

namespace FaultAt

variable {addr : Nat} {s₂ : Buffers}

theorem range_iff (fault : FaultAt source inum off a t ip s s₂ addr) (p : Nat) :
    (off ≤ p ∧ BSIZE * ((off + a) / BSIZE) ≤ p ∧ p < off + a) ↔ (off + t ≤ p ∧ p < off + a) := by
  have started := fault.started
  have block := fault.block
  have boundary := fault.boundary
  rw [BSIZE_eq] at *
  omega

theorem block_eq (fault : FaultAt source inum off a t ip s s₂ addr) {p : Nat}
    (after : off + t ≤ p) (before : p < off + a) : p / BSIZE = (off + t) / BSIZE := by
  have block := fault.block
  rw [BSIZE_eq] at *
  omega

theorem overwritten_iff (inv : BlocksOk sb fs) (cached : s.cached = fs.disk)
    (same : s.cached.dinodes inum = ip) (allocated : ip.type ≠ .free)
    (fault : FaultAt source inum off a t ip s s₂ addr) : Overwritten source inum off t s.cached
        (s₂.setBlock addr (partlyCopied source off a t (s₂.cached.blocks addr))).cached ↔
      ∀ p, off + t ≤ p → p < off + a → p < ip.size →
        ip.byteAt s.cached.blocks p = some (source.byte (p - off)) := by
  have size := fault.before.size
  have within := fault.within
  rw [same] at size
  have present : ∀ p < ip.size, ∃ v, ip.byteAt s.cached.blocks p = some v := by
    rw [cached] at same ⊢
    rw [← same] at allocated ⊢
    exact fun p below => inv.byteAt allocated below
  constructor
  · intro written p after before below
    have byte := written.bytes p (show p < (s₂.cached.dinodes inum).size by omega)
    rw [if_neg (by omega), same] at byte
    rw [← byte]
    exact fault.new p after before
  · intro equal
    refine ⟨fault.before.size, fun p below => ?_, fun i other => ?_⟩
    · have old := fault.before.bytes p below
      change p < (s₂.cached.dinodes inum).size at below
      by_cases here : off + t ≤ p ∧ p < off + a
      · rw [if_neg (by omega), same, equal p here.1 here.2 (by omega)]
        exact fault.new p here.1 here.2
      · have some_ : ∃ v, (if off ≤ p ∧ p < off + t then some (source.byte (p - off))
            else (s.cached.dinodes inum).byteAt s.cached.blocks p) = some v := by
          split
          · exact ⟨_, rfl⟩
          · rw [same]
            exact present p (by omega)
        obtain ⟨v, byte⟩ := some_
        rw [byte] at old ⊢
        exact fault.kept inum p v (by omega) old
    · obtain ⟨dinode, bytes⟩ := fault.before.others i other
      refine ⟨dinode, fun p below => ?_⟩
      have old := bytes p below
      by_cases free : (s.cached.dinodes i).type = .free
      · rw [Dinode.byteAt_of_free free]
        exact Dinode.byteAt_of_free (by rw [← free, ← dinode]; rfl) ..
      · rw [cached] at free below old ⊢
        obtain ⟨v, byte⟩ := inv.byteAt free below
        rw [byte] at old ⊢
        exact fault.kept i p v (.inl other) old

section

variable (fault : FaultAt source inum off a t ip s s₂ addr)
include fault

theorem same_iff :
    (s₂.cached.blocks addr).Same (partlyCopied source off a t (s₂.cached.blocks addr)) ↔
      ∀ p, off + t ≤ p → p < off + a →
        (s₂.cached.blocks addr).byte (p % BSIZE) = source.byte (p - off) := by
  have block := fault.block
  have below := Nat.mod_le (off + t) BSIZE
  constructor
  · intro same p after before
    have inside : p % BSIZE < BSIZE := Nat.mod_lt _ (by decide)
    rw [same (p % BSIZE) inside, partlyCopied, Contents.byte_store_inside _ inside]
    · rw [List.getElem_map, List.getElem_range]
      congr 1
      rw [BSIZE_eq] at *
      omega
    · rw [BSIZE_eq] at *
      omega
    · rw [List.length_map, List.length_range]
      rw [BSIZE_eq] at *
      omega
  · intro equal j inside
    by_cases here : (off + t) % BSIZE ≤ j ∧ j < (off + t) % BSIZE + (a - t)
    · have offset : (off + t - (off + t) % BSIZE + j) % BSIZE = j := by
        rw [BSIZE_eq] at *
        omega
      have byte := equal (off + t - (off + t) % BSIZE + j) (by omega) (by omega)
      rw [offset] at byte
      rw [byte, partlyCopied, Contents.byte_store_inside _ inside here.1
        (by rw [List.length_map, List.length_range]; omega), List.getElem_map, List.getElem_range]
      congr 1
      omega
    · rw [partlyCopied, Contents.byte_store_outside _ inside]
      rw [List.length_map, List.length_range]
      omega

theorem noTrace_iff (c : Contents) : NoTrace source inum off t s (s₂.setBlock addr c) ↔
      Overwritten source inum off t s.cached (s₂.setBlock addr c).cached ∧
      (s₂.logged (.data addr) = false → (s₂.cached.blocks addr).Same c) := by
  rw [← fault.agree.setBlock_iff fault.data]
  exact ⟨fun clean => ⟨clean.cached, clean.agree⟩, fun ⟨written, agree⟩ =>
    ⟨written, written.postCommit agree, agree⟩⟩

theorem harmless_iff
    (filled : ∀ p < ip.size, ∃ b, ip.blockAt s.cached.blocks (p / BSIZE) = some b) :
    Harmless source off a ip s ↔ (∀ p, off + t ≤ p → p < off + a → p < ip.size →
        ip.byteAt s.cached.blocks p = some (source.byte (p - off))) ∧
      (s₂.logged (.data addr) = false → ∀ p, off + t ≤ p → p < off + a →
        (s₂.cached.blocks addr).byte (p % BSIZE) = source.byte (p - off)) := by
  have offset : ∀ p, p % BSIZE < BSIZE := fun p => Nat.mod_lt _ (by decide)
  constructor
  · intro harmless
    refine ⟨fun p after before below => ?_, fun unlogged p after before => ?_⟩
    · obtain ⟨b, held⟩ := filled p below
      obtain ⟨start, boundary, -⟩ := (fault.range_iff p).mpr ⟨after, before⟩
      rw [Dinode.byteAt, held, Option.map_some,
        harmless p b start boundary before held (.inl below)]
    · cases held : ip.blockAt s.cached.blocks ((off + t) / BSIZE) with
      | none =>
        rw [fault.absent held] at unlogged
        cases unlogged
      | some b =>
        obtain ⟨rfl, same, logged⟩ := fault.present b held
        obtain ⟨start, boundary, -⟩ := (fault.range_iff p).mpr ⟨after, before⟩
        rw [logged] at unlogged
        rw [← fault.block_eq after before] at held
        rw [same _ (offset p)]
        exact harmless p b start boundary before held (.inr unlogged)
  · rintro ⟨readable, whole⟩ p b start boundary before held exposed
    obtain ⟨after, -⟩ := (fault.range_iff p).mp ⟨start, boundary, before⟩
    rcases exposed with below | unlogged
    · have byte := readable p after before below
      rw [Dinode.byteAt, held, Option.map_some, Option.some.injEq] at byte
      exact byte
    · rw [fault.block_eq after before] at held
      obtain ⟨rfl, same, logged⟩ := fault.present b held
      rw [← same _ (offset p)]
      exact whole (logged.trans unlogged) p after before

end

end FaultAt

theorem noTrace_iff_harmless (inv : BlocksOk sb fs) (cached : s.cached = fs.disk)
    (agree : s.Agree) (referenced : 1 ≤ (fs.itable inum).ref)
    (valid : (fs.itable inum).valid = true) {n : Nat}
    (small : off < 2 ^ 32) (small' : n < 2 ^ 32)
    (found : ∀ i < a, source.accessible i = true) (missing : source.accessible a = false)
    (returned : Logged.writei sb source inum off n (fs.itable inum).copy s =
      .ok ((t : Int), .fault, ip', s')) :
    t < n ∧ (NoTrace source inum off t s s' ↔ Harmless source off a (fs.itable inum).copy s) := by
  obtain ⟨same, allocated⟩ := inv.copies inum referenced valid
  obtain ⟨work, -, filled⟩ := inv.locked referenced valid
  rw [← cached] at same allocated work filled
  obtain ⟨short, s₂, addr, fault, rfl⟩ := faultAt_of_writei inv cached agree work same.symm small
    small' found missing returned
  refine ⟨short, ?_⟩
  have blocks : ∀ p < (fs.itable inum).copy.size,
      ∃ b, (fs.itable inum).copy.blockAt s.cached.blocks (p / BSIZE) = some b := by
    intro p below
    obtain ⟨k, b, slot, held⟩ := filled (p / BSIZE) (by rw [BSIZE_eq]; omega)
    exact ⟨b, by rw [@working_blockAt inum, slot, Option.bind_some, held]⟩
  rw [fault.noTrace_iff, fault.harmless_iff blocks,
    fault.overwritten_iff inv cached same.symm work.allocated, fault.same_iff]

/-- Writes and commits from a state in which the cache is the disk. Every write that faulted has
met the condition. -/
inductive HarmlessRun (sb : Superblock) : FsState → Buffers → Prop
  | start {fs : FsState} (reachable : FsReachable sb fs) :
      HarmlessRun sb fs ⟨fs.disk, fun _ => false, fs.disk⟩
  /-- The inodes in memory change. -/
  | inodes {fs fs' : FsState} {s : Buffers} (before : HarmlessRun sb fs s)
      (reachable : FsReachable sb fs') (disk : fs'.disk = fs.disk) : HarmlessRun sb fs' s
  | writei {fs : FsState} {s s' : Buffers} {inum : Nat} {ip' : Dinode} {source : Source}
      {off n : BitVec 32} {result : Int} {ending : Logged.Ending} (before : HarmlessRun sb fs s)
      (referenced : 1 ≤ (fs.itable inum).ref) (valid : (fs.itable inum).valid = true)
      (returned : Logged.writei sb source inum off.toNat n.toNat (fs.itable inum).copy s =
        .ok (result, ending, ip', s'))
      (harmless : ending = .fault → ∃ a, (∀ i < a, source.accessible i = true) ∧
        source.accessible a = false ∧ Harmless source off.toNat a (fs.itable inum).copy s) :
      HarmlessRun sb (fs.replace inum ip' s'.cached) s'
  | commit {fs : FsState} {s : Buffers} (before : HarmlessRun sb fs s) :
      HarmlessRun sb fs ⟨s.cached, fun _ => false, s.postCommit⟩

theorem HarmlessRun.agree {fs : FsState} (run : HarmlessRun sb fs s) :
    FsReachable sb fs ∧ s.cached = fs.disk ∧ s.Agree := by
  induction run with
  | start reach =>
    exact ⟨reach, rfl, rfl, fun _ _ _ => rfl, rfl, fun _ _ _ => rfl⟩
  | inodes before reach disk ih => exact ⟨reach, ih.2.1.trans disk.symm, ih.2.2⟩
  | @writei fs s s' inum ip' source off n result ending before referenced valid returned
      harmless ih =>
    obtain ⟨reach, cached, agree⟩ := ih
    refine ⟨reach.writei cached referenced valid off n returned, rfl, ?_⟩
    obtain ⟨same, -⟩ := reach.blocksOk.copies inum referenced valid
    obtain ⟨work, -⟩ := reach.blocksOk.locked referenced valid
    rw [← cached] at same work
    by_cases within : off.toNat ≤ (fs.itable inum).copy.size ∧
        off.toNat + n.toNat ≤ MAXFILE * BSIZE
    · obtain ⟨w, spec, written⟩ := Logged.writei_inside source work within.1 within.2
      have result := returned.symm.trans written
      cases result
      cases spec.loopEnd with
      | done _ _ progress | full _ _ progress => exact progress.agree agree work same.symm
      | fault _ _ _ _ ending =>
        obtain ⟨a, found, missing, clean⟩ := harmless ending
        rw [ending] at returned
        exact ((noTrace_iff_harmless reach.blocksOk cached agree referenced valid off.isLt
          n.isLt found missing returned).2.mpr clean).agree
    · rw [Logged.writei_outside source off.isLt n.isLt within] at returned
      cases returned
      exact agree
  | commit before ih =>
    obtain ⟨reach, cached, agree⟩ := ih
    exact ⟨reach, cached, agree.bitmap, agree.blocks, agree.dinodes, agree.tables⟩

/-- User memory of one page, all bytes of which are equal. -/
def onePage (value : UInt8) : UserMemory where
  accessible page := page = 0
  byte _ := value

end Xv6.Blocks
