import Xv6.Fs.FileBytes

/-!
# The bytes that `writei` writes

After each round the bytes from the first offset up to the present one are those of the source,
and every other byte of every file is as it was.
-/

namespace Xv6.Blocks

open Ledger Function

variable {sb : Superblock} {inum : Nat} {ip ip' : Dinode} {s s' : Buffers}
variable {source : Source} {base n off : Nat} {w : Written}

/-- The bytes of all files while the copy `ip` of an inode is in memory. -/
def fileByte (inum : Nat) (ip : Dinode) (d : Disk) (i p : Nat) : Option UInt8 :=
  (update d.dinodes inum ip i).byteAt d.blocks p

theorem fileByte_eq_some {d : Disk} {i p : Nat} {v : UInt8} : fileByte inum ip d i p = some v ↔
      ∃ k b, dataSlot (p / BSIZE) = some k ∧ working inum ip d (i, k) = some b ∧
        (d.blocks b).byte (p % BSIZE) = v := by
  unfold fileByte Dinode.byteAt Dinode.blockAt
  rw [Option.map_eq_some_iff]
  constructor
  · rintro ⟨b, found, byte⟩
    obtain ⟨k, slot, held⟩ := Option.bind_eq_some_iff.mp found
    exact ⟨k, b, slot, held, byte⟩
  · rintro ⟨k, b, slot, held, byte⟩
    exact ⟨b, Option.bind_eq_some_iff.mpr ⟨k, slot, held⟩, byte⟩

theorem dataSlot_injective {bn bn' : Nat} {k : Fin (NDIRECT + 1) ⊕ Fin NINDIRECT}
    (slot : dataSlot bn = some k) (slot' : dataSlot bn' = some k) : bn = bn' := by
  unfold dataSlot at slot slot'
  split at slot
  · cases slot
    split at slot'
    · simpa using slot'.symm
    · split at slot' <;> cases slot'
  · next direct =>
    split at slot
    · cases slot
      split at slot'
      · cases slot'
      · next direct' =>
        split at slot'
        · simp only [Option.some.injEq, Sum.inr.injEq, Fin.mk.injEq] at slot'
          omega
        · cases slot'
    · cases slot

theorem fileByte_store {d : Disk} (work : Working sb inum ip d) {off addr : Nat}
    {k : Fin (NDIRECT + 1) ⊕ Fin NINDIRECT} (slot : dataSlot (off / BSIZE) = some k)
    (held : working inum ip d (inum, k) = some addr) (nonzero : addr ≠ 0)
    {source : Source} {tot done : Nat}
    (fits : off % BSIZE + done ≤ BSIZE) {d' : Disk}
    (stored : d' = { d with
      blocks := update d.blocks addr ((d.blocks addr).store (off % BSIZE)
        ((List.range done).map fun i => source.byte (tot + i))) }) :
    (∀ p, off ≤ p → p < off + done →
      fileByte inum ip d' inum p = some (source.byte (tot + (p - off)))) ∧
    ∀ i p v, i ≠ inum ∨ p < off ∨ off + done ≤ p → fileByte inum ip d i p = some v →
      fileByte inum ip d' i p = some v := by
  have same : working inum ip d' = working inum ip d := by
    rw [stored]
    exact working_store work slot nonzero held _
  rw [BSIZE_eq] at fits
  constructor
  · intro p after before
    have block : p / BSIZE = off / BSIZE := by
      rw [BSIZE_eq]
      omega
    rw [fileByte_eq_some]
    refine ⟨k, addr, block ▸ slot, same ▸ held, ?_⟩
    rw [stored]
    simp only [update_self]
    rw [Contents.byte_store_inside]
    · rw [List.getElem_map, List.getElem_range]
      congr 2
      rw [BSIZE_eq]
      omega
    · rw [BSIZE_eq]
      omega
    · rw [BSIZE_eq]
      omega
    · rw [List.length_map, List.length_range, BSIZE_eq]
      omega
  · intro i p v outside before
    obtain ⟨k', b, slot', held', byte⟩ := fileByte_eq_some.mp before
    rw [fileByte_eq_some]
    refine ⟨k', b, slot', same ▸ held', ?_⟩
    by_cases here : b = addr
    · subst here
      obtain ⟨rfl, rfl⟩ := Prod.mk.inj (work.exact.exclusive _ _ _ held' held)
      have block := dataSlot_injective slot' slot
      rw [stored]
      simp only [update_self]
      rw [Contents.byte_store_outside, byte]
      · exact Nat.mod_lt _ (by decide)
      · rw [List.length_map, List.length_range]
        rw [BSIZE_eq] at block ⊢
        omega
    · rw [stored]
      simp only [update_of_ne here]
      exact byte

/-- The bytes of the file from `start` to `stop` are those of the source, whose first byte
goes to `base`; every other byte of a file is as it was. -/
structure Progress (sb : Superblock) (inum : Nat) (source : Source) (base start stop : Nat)
    (ip : Dinode) (s : Buffers) (ip' : Dinode) (s' : Buffers) : Prop where
  grown : Grown sb inum ip s.cached ip' s'.cached
  tracked : Tracked s s'
  written : ∀ p, start ≤ p → p < stop →
    fileByte inum ip' s'.cached inum p = some (source.byte (p - base))
  kept : ∀ i p v, i ≠ inum ∨ p < start ∨ stop ≤ p → fileByte inum ip s.cached i p = some v →
    fileByte inum ip' s'.cached i p = some v
  unlogged : ∀ bn k b, start = stop ∨ stop ≤ BSIZE * bn → dataSlot bn = some k →
    working inum ip s.cached (inum, k) = some b → s'.logged (.data b) = s.logged (.data b)

theorem Extended.fileByte (extended : Extended sb inum ip s ip' s') {i p : Nat} {v : UInt8}
    (before : fileByte inum ip s.cached i p = some v) :
    fileByte inum ip' s'.cached i p = some v := by
  obtain ⟨k, b, slot, held, byte⟩ := fileByte_eq_some.mp before
  obtain ⟨contents, -⟩ := extended.data i k b (dataSlot_ne_indirect slot) held
  exact fileByte_eq_some.mpr ⟨k, b, slot, extended.grown.keeps _ _ held, by rw [contents, byte]⟩

theorem Extended.progress (extended : Extended sb inum ip s ip' s') (source : Source)
    (base off : Nat) : Progress sb inum source base off off ip s ip' s' where
  grown := extended.grown
  tracked := extended.tracked
  written := by
    intro p after before
    omega
  kept := fun _ _ _ _ before => extended.fileByte before
  unlogged := fun _ k b _ slot held =>
    (extended.data inum k b (dataSlot_ne_indirect slot) held).2

theorem Progress.trans {start middle stop : Nat} {ip'' : Dinode}
    {s'' : Buffers} (first : Progress sb inum source base start middle ip s ip' s')
    (second : Progress sb inum source base middle stop ip' s' ip'' s'')
    (ordered : start ≤ middle) (ordered' : middle ≤ stop) :
    Progress sb inum source base start stop ip s ip'' s'' where
  grown := first.grown.trans second.grown
  tracked := first.tracked.trans second.tracked
  written := by
    intro p after before
    by_cases early : p < middle
    · exact second.kept _ _ _ (.inr (.inl early)) (first.written p after early)
    · exact second.written p (by omega) before
  kept := by
    intro i p v outside before
    exact second.kept _ _ _ (by omega) (first.kept _ _ _ (by omega) before)
  unlogged := by
    intro bn k b outside slot held
    have later := second.unlogged bn k b (by omega) slot (first.grown.keeps _ _ held)
    exact later.trans (first.unlogged bn k b (by omega) slot held)

theorem Progress.of_round (work : Working sb inum ip s.cached) {source : Source}
    {base off tot m addr : Nat} {k : Fin (NDIRECT + 1) ⊕ Fin NINDIRECT}
    (slot : dataSlot (off / BSIZE) = some k)
    (held : working inum ip s.cached (inum, k) = some addr) (nonzero : addr ≠ 0)
    (place : off = base + tot) (fits : off % BSIZE + m ≤ BSIZE) (pos : 0 < m) :
    Progress sb inum source base off (off + m) ip s ip
      ((s.setBlock addr ((s.cached.blocks addr).store (off % BSIZE)
        ((List.range m).map fun i => source.byte (tot + i)))).logWrite (.data addr)) := by
  obtain ⟨written, kept⟩ := @fileByte_store sb inum ip s.cached work off addr k slot held nonzero
    source tot m fits _ rfl
  refine ⟨Grown.of_store work slot nonzero held _, .of_setBlock .., ?_, kept, ?_⟩
  · intro p after before
    have byte := written p after before
    rwa [show tot + (p - off) = p - base by omega] at byte
  · intro bn k' b outside slot' held'
    have other : b ≠ addr := by
      rintro rfl
      obtain ⟨-, rfl⟩ := Prod.mk.inj (work.exact.exclusive _ _ _ held' held)
      have block := dataSlot_injective slot' slot
      rw [BSIZE_eq] at block outside
      omega
    simp [other]

namespace Logged

/-- How the loop of `writei` ends that began at `off`. -/
inductive LoopEnd (sb : Superblock) (inum : Nat) (source : Source) (base n off : Nat)
    (ip : Dinode) (s : Buffers) (w : Written) : Prop
  | done (ending : w.ending = .done) (all : w.tot = n)
      (progress : Progress sb inum source base off w.off ip s w.ip w.buffers)
  | full (ending : w.ending = .full) (short : w.tot < n)
      (progress : Progress sb inum source base off w.off ip s w.ip w.buffers)
  /-- `either_copyin` has put the first bytes of the round into the block. -/
  | fault (s₁ : Buffers) (k : Fin (NDIRECT + 1) ⊕ Fin NINDIRECT) (addr part : Nat)
      (ending : w.ending = .fault)
      (progress : Progress sb inum source base off w.off ip s w.ip s₁)
      (slot : dataSlot (w.off / BSIZE) = some k)
      (held : working inum w.ip s₁.cached (inum, k) = some addr) (nonzero : addr ≠ 0)
      (less : part < min (n - w.tot) (BSIZE - w.off % BSIZE))
      (found : ∀ i < part, source.accessible (w.tot + i) = true)
      (missing : source.accessible (w.tot + part) = false)
      (buffers : w.buffers = s₁.setBlock addr ((s₁.cached.blocks addr).store (w.off % BSIZE)
        ((List.range part).map fun i => source.byte (w.tot + i))))

theorem LoopEnd.of_progress {middle : Nat}
    (progress : Progress sb inum source base off middle ip s ip' s') (ordered : off ≤ middle)
    (ordered' : middle ≤ w.off) (rest : LoopEnd sb inum source base n middle ip' s' w) :
    LoopEnd sb inum source base n off ip s w := by
  cases rest with
  | done ending all later => exact .done ending all (progress.trans later ordered ordered')
  | full ending short later => exact .full ending short (progress.trans later ordered ordered')
  | fault s₁ k addr part ending later slot held nonzero less found missing buffers =>
    exact .fault s₁ k addr part ending (progress.trans later ordered ordered') slot held nonzero
      less found missing buffers

structure LoopSpec (sb : Superblock) (inum : Nat) (source : Source) (base n off tot : Nat)
    (ip : Dinode) (s : Buffers) (w : Written) : Prop where
  place : w.off = base + w.tot
  forward : tot ≤ w.tot
  bound : w.tot ≤ n
  /-- A round other than the last ends at the end of a block. -/
  boundary : w.off = off ∨ w.off % BSIZE = 0 ∨ w.tot = n
  found : ∀ i, tot ≤ i → i < w.tot → source.accessible i = true
  loopEnd : LoopEnd sb inum source base n off ip s w

theorem LoopSpec.stay {tot : Nat}
    (place : off = base + tot) (bound : tot ≤ n) (sameOff : w.off = off) (sameTot : w.tot = tot)
    (loopEnd : LoopEnd sb inum source base n off ip s w) :
    LoopSpec sb inum source base n off tot ip s w :=
  ⟨by omega, by omega, by omega, .inl sameOff, by omega, loopEnd⟩

theorem LoopSpec.round {tot m : Nat}
    (progress : Progress sb inum source base off (off + m) ip s ip' s')
    (amount : m = min (n - tot) (BSIZE - off % BSIZE)) (more : tot < n)
    (found : ∀ i < m, source.accessible (tot + i) = true)
    (rest : LoopSpec sb inum source base n (off + m) (tot + m) ip' s' w)
    (place : off = base + tot) :
    LoopSpec sb inum source base n off tot ip s w := by
  have forward := rest.forward
  have later := rest.place
  refine ⟨later, by omega, rest.bound, ?_, ?_, ?_⟩
  · have boundary := rest.boundary
    rw [BSIZE_eq] at amount boundary ⊢
    omega
  · intro i after before
    by_cases here : i < tot + m
    · have now := found (i - tot) (by omega)
      rwa [show tot + (i - tot) = i by omega] at now
    · exact rest.found i (by omega) before
  · exact rest.loopEnd.of_progress progress (by omega) (by omega)

theorem writeiLoop_spec (source : Source) (base n : Nat) (rounds : Nat) (off tot : Nat)
    (ip : Dinode) (s : Buffers) (work : Working sb inum ip s.cached)
    (short : base + n ≤ MAXFILE * BSIZE) (place : off = base + tot) (bound : tot ≤ n)
    (enough : n - tot ≤ rounds) :
    ∃ w, writeiLoop sb source n rounds off tot ip s = .ok w ∧
      LoopSpec sb inum source base n off tot ip s w := by
  induction rounds generalizing off tot ip s with
  | zero =>
    have all : tot = n := by omega
    exact ⟨_, rfl, .stay place bound rfl rfl
      (.done rfl all ((Extended.refl work).progress source base off))⟩
  | succ rounds ih =>
    by_cases more : tot < n
    · have inside : off / BSIZE < MAXFILE := by
        rw [MAXFILE_eq, BSIZE_eq] at *
        omega
      obtain ⟨addr, ip₁, s₁, k, mapped, -, slot, extended, held⟩ := bmap_ok work inside
      have begun := extended.progress source base off
      by_cases full : addr = 0
      · refine ⟨⟨.full, off, tot, ip₁, s₁⟩, ?_, .stay place bound rfl rfl (.full rfl more begun)⟩
        simp only [writeiLoop, if_pos more, mapped, bind, Except.bind, if_pos full]
        rfl
      · obtain ⟨part, bytes, copied⟩ :=
          eitherCopyin_copied source tot (min (n - tot) (BSIZE - off % BSIZE))
        cases ok : (eitherCopyin source tot (min (n - tot) (BSIZE - off % BSIZE))).2 with
        | true =>
          have amount := copied.success ok
          have fits : off % BSIZE + part ≤ BSIZE := by
            rw [BSIZE_eq] at *
            omega
          have pos : 0 < part := by
            rw [BSIZE_eq] at *
            omega
          have round := begun.trans (@Progress.of_round sb inum ip₁ s₁ extended.grown.working
            source base off tot part addr k slot (held full) full place fits pos)
            le_rfl (by omega)
          obtain ⟨w, returned, rest⟩ := ih (off + part) (tot + part) ip₁ _
            round.grown.working (by omega) (by omega) (by omega)
          refine ⟨w, ?_, .round round amount more copied.found rest place⟩
          simp only [writeiLoop, if_pos more, mapped, bind, Except.bind, if_neg full, ok,
            bytes, if_true]
          rw [← amount]
          exact returned
        | false =>
          obtain ⟨less, missing⟩ := copied.failure ok
          refine ⟨⟨.fault, off, tot, ip₁, s₁.setBlock addr ((s₁.cached.blocks addr).store
            (off % BSIZE) ((List.range part).map fun i => source.byte (tot + i)))⟩, ?_,
            .stay place bound rfl rfl
              (.fault s₁ k addr part rfl begun slot (held full) full less copied.found missing rfl)⟩
          simp only [writeiLoop, if_pos more, mapped, bind, Except.bind, if_neg full, ok, bytes]
          rfl
    · have all : tot = n := by omega
      refine ⟨⟨.done, off, tot, ip, s⟩, by rw [writeiLoop, if_neg more],
        .stay place bound rfl rfl ?_⟩
      exact .done rfl all ((Extended.refl work).progress source base off)

end Logged

end Xv6.Blocks
