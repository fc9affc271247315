import Xv6.Fs.FileData

/-!
# Bytes in blocks

What `memmove` and `either_copyin` do to single bytes, and what `bmap` leaves alone.
-/

namespace Xv6.Blocks

namespace Contents

theorem byte_ofBytes (bytes : Nat → UInt8) {k : Nat} (inside : k < BSIZE) :
    (ofBytes bytes).byte k = bytes k := by
  rw [BSIZE_eq] at inside
  have word : k / 4 < NINDIRECT := by
    change k / 4 < 256
    omega
  rw [byte, dif_pos word]
  apply UInt8.toNat_inj.mp
  rw [UInt8.toNat_ofNat']
  simp only [ofBytes]
  have first := (bytes (4 * (k / 4))).toNat_lt
  have second := (bytes (4 * (k / 4) + 1)).toNat_lt
  have third := (bytes (4 * (k / 4) + 2)).toNat_lt
  have fourth := (bytes (4 * (k / 4) + 3)).toNat_lt
  have split : k % 4 = 0 ∨ k % 4 = 1 ∨ k % 4 = 2 ∨ k % 4 = 3 := by omega
  rcases split with rest | rest | rest | rest
  · rw [rest]
    conv_rhs => rw [show k = 4 * (k / 4) by omega]
    omega
  · rw [rest]
    conv_rhs => rw [show k = 4 * (k / 4) + 1 by omega]
    omega
  · rw [rest]
    conv_rhs => rw [show k = 4 * (k / 4) + 2 by omega]
    omega
  · rw [rest]
    conv_rhs => rw [show k = 4 * (k / 4) + 3 by omega]
    omega

section

variable (c : Contents) {start k : Nat} {bytes : List UInt8} (inside : k < BSIZE)
include inside

theorem byte_store_inside (after : start ≤ k) (before : k < start + bytes.length) :
    (c.store start bytes).byte k = bytes[k - start] := by
  have bound : k - start < bytes.length := by omega
  rw [store, byte_ofBytes _ inside, if_pos after, List.getElem?_eq_getElem bound, Option.getD_some]

theorem byte_store_outside (outside : k < start ∨ start + bytes.length ≤ k) :
    (c.store start bytes).byte k = c.byte k := by
  rw [store, byte_ofBytes _ inside]
  split
  · rw [List.getElem?_eq_none (by omega), Option.getD_none]
  · rfl

end

end Contents

/-! ## `either_copyin` -/

/-- What has been copied: the bytes up to the first one that is not accessible. -/
structure Copied (source : Source) (tot len done : Nat) (ok : Bool) : Prop where
  bound : done ≤ len
  found : ∀ i < done, source.accessible (tot + i) = true
  success : ok = true → done = len
  failure : ok = false → done < len ∧ source.accessible (tot + done) = false

theorem copyin_zero (mem : UserMemory) (rounds srcva : Nat) :
    copyin mem rounds srcva 0 = ([], true) := by
  cases rounds <;> rfl

theorem copyin_page (mem : UserMemory) (rounds : Nat) {srcva len : Nat} (some_ : len ≠ 0)
    (page : mem.accessible (srcva / PGSIZE) = true) :
    ∃ n, 0 < n ∧ n ≤ len ∧ (∀ i < n, (srcva + i) / PGSIZE = srcva / PGSIZE) ∧
      copyin mem (rounds + 1) srcva len = ((List.range n).map (fun i => mem.byte (srcva + i)) ++
          (copyin mem rounds (srcva + n) (len - n)).1,
          (copyin mem rounds (srcva + n) (len - n)).2) := by
  refine ⟨min (PGSIZE - (srcva - srcva / PGSIZE * PGSIZE)) len, ?_, ?_, ?_, ?_⟩
  · rw [PGSIZE_eq]
    omega
  · exact min_le_right ..
  · intro i below
    rw [PGSIZE_eq] at below ⊢
    omega
  · rw [copyin, if_neg some_, if_pos page]
    by_cases last : PGSIZE - (srcva - srcva / PGSIZE * PGSIZE) < len
    · have next : srcva + min (PGSIZE - (srcva - srcva / PGSIZE * PGSIZE)) len =
          srcva / PGSIZE * PGSIZE + PGSIZE := by
        rw [PGSIZE_eq] at last ⊢
        omega
      rw [next]
    · have all : min (PGSIZE - (srcva - srcva / PGSIZE * PGSIZE)) len = len := by omega
      simp only [all, Nat.sub_self, copyin_zero]

theorem copyin_copied (mem : UserMemory) (src : Nat) (rounds : Nat) (tot len : Nat)
    (enough : len ≤ rounds) :
    ∃ done, (copyin mem rounds (src + tot) len).1 =
        (List.range done).map (fun i => (Source.user mem src).byte (tot + i)) ∧
      Copied (.user mem src) tot len done (copyin mem rounds (src + tot) len).2 := by
  induction rounds generalizing tot len with
  | zero =>
    obtain rfl : len = 0 := by omega
    exact ⟨0, rfl, le_rfl, nofun, fun _ => rfl, nofun⟩
  | succ rounds ih =>
    by_cases none_ : len = 0
    · subst none_
      exact ⟨0, rfl, le_rfl, nofun, fun _ => rfl, nofun⟩
    · by_cases page : mem.accessible ((src + tot) / PGSIZE) = true
      · obtain ⟨n, pos, bound, same, round⟩ := copyin_page mem rounds none_ page
        rw [round]
        obtain ⟨done, bytes, copied⟩ := ih (tot + n) (len - n) (by omega)
        rw [← Nat.add_assoc] at bytes copied
        refine ⟨n + done, ?_, ?_, ?_, ?_, ?_⟩
        · simp only [bytes, List.range_add, List.map_append, List.map_map]
          congr 1
          · exact List.map_congr_left fun i _ => by rw [Source.byte, Nat.add_assoc]
          · refine List.map_congr_left fun i _ => ?_
            simp only [Function.comp, Nat.add_assoc]
        · have := copied.bound
          omega
        · intro i below
          by_cases here : i < n
          · rw [Source.accessible, ← Nat.add_assoc, same i here]
            exact page
          · have later := copied.found (i - n) (by omega)
            rwa [show tot + n + (i - n) = tot + i by omega] at later
        · intro success
          have := copied.success success
          omega
        · intro failure
          obtain ⟨less, missing⟩ := copied.failure failure
          exact ⟨by omega, by rwa [Nat.add_assoc] at missing⟩
      · have stopped : copyin mem (rounds + 1) (src + tot) len = ([], false) := by
          rw [copyin, if_neg none_, if_neg page]
        rw [stopped]
        refine ⟨0, rfl, Nat.zero_le _, nofun, nofun, fun _ => ⟨by omega, ?_⟩⟩
        simpa [Source.accessible] using page

theorem eitherCopyin_copied (source : Source) (tot len : Nat) :
    ∃ done, (eitherCopyin source tot len).1 =
        (List.range done).map (fun i => source.byte (tot + i)) ∧
      Copied source tot len done (eitherCopyin source tot len).2 := by
  cases source with
  | user mem src => exact copyin_copied mem src len tot len le_rfl
  | kernel bytes => exact ⟨len, rfl, le_rfl, fun _ _ => rfl, fun _ => rfl, nofun⟩

/-! ## `bmap` and the log -/

open Ledger Function

variable {sb : Superblock} {inum : Nat} {ip ip' : Dinode} {s s' : Buffers}

@[simp]
theorem Buffers.logged_logWrite (s : Buffers) (b b' : BlockId) :
    (s.logWrite b).logged b' = (decide (b' = b) || s.logged b') := by
  by_cases same : b' = b <;> simp [logWrite, same]

@[simp]
theorem Buffers.cached_logWrite (s : Buffers) (b : BlockId) : (s.logWrite b).cached = s.cached :=
  rfl

@[simp]
theorem Buffers.logged_setBlock (s : Buffers) (b : Nat) (c : Contents) :
    (s.setBlock b c).logged = s.logged := rfl

/-- Whatever changed has been passed to `log_write`. -/
structure Tracked (s s' : Buffers) : Prop where
  home : s'.home = s.home
  grows : ∀ b, s.logged b = true → s'.logged b = true
  bitmap : ∀ b, s'.logged (.bitmap (b / BPB)) = false → s'.cached.bitmap b = s.cached.bitmap b
  blocks : ∀ b, s'.logged (.data b) = false → s'.cached.blocks b = s.cached.blocks b
  dinodes : ∀ i, s'.logged (.inodes (i / IPB)) = false → s'.cached.dinodes i = s.cached.dinodes i
  marked : ∀ b, s.cached.bitmap b = false → s'.cached.bitmap b = true → s'.logged (.data b) = true

theorem Tracked.refl (s : Buffers) : Tracked s s where
  home := rfl
  grows := fun _ logged => logged
  bitmap := fun _ _ => rfl
  blocks := fun _ _ => rfl
  dinodes := fun _ _ => rfl
  marked := by
    intro b free used
    rw [free] at used
    cases used

theorem Tracked.trans {s'' : Buffers} (first : Tracked s s') (second : Tracked s' s'') :
    Tracked s s'' := by
  have earlier : ∀ {b}, s''.logged b = false → s'.logged b = false := by
    intro b unlogged
    rw [← Bool.not_eq_true] at unlogged ⊢
    exact fun logged => unlogged (second.grows b logged)
  refine ⟨second.home.trans first.home, fun b logged => second.grows b (first.grows b logged),
    ?_, ?_, ?_, ?_⟩
  · intro b unlogged
    exact (second.bitmap b unlogged).trans (first.bitmap b (earlier unlogged))
  · intro b unlogged
    exact (second.blocks b unlogged).trans (first.blocks b (earlier unlogged))
  · intro i unlogged
    exact (second.dinodes i unlogged).trans (first.dinodes i (earlier unlogged))
  · intro b free used
    cases between : s'.cached.bitmap b with
    | false => exact second.marked b between used
    | true => exact second.grows _ (first.marked b free between)

theorem Tracked.of_setBlock (s : Buffers) (b : Nat) (c : Contents) :
    Tracked s ((s.setBlock b c).logWrite (.data b)) where
  home := rfl
  grows := by
    intro b' logged
    simp [Buffers.setBlock, logged]
  bitmap := fun _ _ => rfl
  blocks := by
    intro b' unlogged
    simp only [Buffers.logged_logWrite, Bool.or_eq_false_iff, decide_eq_false_iff_not,
      BlockId.data.injEq] at unlogged
    exact update_of_ne unlogged.1 ..
  dinodes := fun _ _ => rfl
  marked := by
    intro b' free used
    simp [Buffers.setBlock, free] at used

/-- The blocks of the files are as they were, and the inode may have got more of them. -/
structure Extended (sb : Superblock) (inum : Nat) (ip : Dinode) (s : Buffers) (ip' : Dinode)
    (s' : Buffers) : Prop where
  grown : Grown sb inum ip s.cached ip' s'.cached
  tracked : Tracked s s'
  data : ∀ i k b, k ≠ .inl indirect → working inum ip s.cached (i, k) = some b →
    s'.cached.blocks b = s.cached.blocks b ∧ s'.logged (.data b) = s.logged (.data b)

theorem Extended.refl (work : Working sb inum ip s.cached) : Extended sb inum ip s ip s :=
  ⟨.refl work, .refl s, fun _ _ _ _ _ => ⟨rfl, rfl⟩⟩

theorem Extended.trans {ip'' : Dinode} {s'' : Buffers} (first : Extended sb inum ip s ip' s')
    (second : Extended sb inum ip' s' ip'' s'') : Extended sb inum ip s ip'' s'' where
  grown := first.grown.trans second.grown
  tracked := first.tracked.trans second.tracked
  data := by
    intro i k b data held
    obtain ⟨contents, logged⟩ := first.data i k b data held
    obtain ⟨contents', logged'⟩ := second.data i k b data (first.grown.keeps _ _ held)
    exact ⟨contents'.trans contents, logged'.trans logged⟩

theorem Tracked.fresh (tracked : Tracked s s') (work : Working sb inum ip s.cached)
    (grown : Grown sb inum ip s.cached ip' s'.cached)
    {slot : Slot} {b : Nat} (vacant : working inum ip s.cached slot = none)
    (held : working inum ip' s'.cached slot = some b) : s'.logged (.data b) = true := by
  apply tracked.marked b
  · rw [← Bool.not_eq_true, work.exact.used_iff]
    rintro (reserved | ⟨other, before⟩)
    · exact grown.working.exact.unreserved _ _ held reserved
    · have same := grown.working.exact.exclusive _ _ _ held (grown.keeps _ _ before)
      rw [← same, vacant] at before
      cases before
  · exact grown.working.exact.used_of_holds held

theorem Buffers.balloc_cases (boot : s.cached.bitmap 0 = true) :
    s.balloc sb = (0, s) ∧ s.cached.balloc sb = (0, s.cached) ∨
      ∃ b s', s.cached.bitmap (b + 1) = false ∧ s.balloc sb = (b + 1, s') ∧
        s.cached.balloc sb = (b + 1, s'.cached) ∧ Tracked s s' ∧
        ∀ b', b' ≠ b + 1 → s'.cached.blocks b' = s.cached.blocks b' ∧
          s'.logged (.data b') = s.logged (.data b') := by
  rcases @Blocks.balloc_cases sb s.cached boot with full | ⟨b, free, allocated⟩
  · refine .inl ⟨?_, full⟩
    rw [balloc, full]
  · refine .inr ⟨b, _, free, by rw [balloc, allocated], allocated, ?_, ?_⟩
    · refine ⟨rfl, fun _ logged => by simp [logged], ?_, ?_, fun _ _ => rfl, ?_⟩
      · intro b' unlogged
        have other : b' ≠ b + 1 := by
          rintro rfl
          simp at unlogged
        exact update_of_ne other ..
      · intro b' unlogged
        have other : b' ≠ b + 1 := by
          rintro rfl
          simp at unlogged
        exact update_of_ne other ..
      · intro b' before after
        have same : b' = b + 1 := by
          by_contra other
          have kept : update s.cached.bitmap (b + 1) true b' = s.cached.bitmap b' :=
            update_of_ne other ..
          exact absurd (kept.symm.trans after) (by simp [before])
        simp [same]
    · intro b' other
      exact ⟨update_of_ne other .., by simp [other]⟩

namespace Logged

section

variable (work : Working sb inum ip s.cached)
include work

theorem bmapDirect_ok {k : Fin (NDIRECT + 1)} {addr : Nat}
    (mapped : bmapDirect sb ip k s = (addr, ip', s')) :
    Blocks.bmapDirect sb ip k s.cached = (addr, ip', s'.cached) ∧ Extended sb inum ip s ip' s' := by
  unfold bmapDirect at mapped
  split at mapped
  · next vacant =>
    rcases @Buffers.balloc_cases sb s work.boot with
      ⟨full, full'⟩ | ⟨b, s₁, free, allocated, allocated', tracked, elsewhere⟩
    · rw [full] at mapped
      cases mapped
      exact ⟨by rw [Blocks.bmapDirect, if_pos vacant, full'], .refl work⟩
    · rw [allocated] at mapped
      cases mapped
      have plain : Blocks.bmapDirect sb ip k s.cached =
          (b + 1, { ip with addrs := update ip.addrs k (b + 1) }, s'.cached) := by
        rw [Blocks.bmapDirect, if_pos vacant, allocated']
      refine ⟨plain, (Blocks.bmapDirect_ok work plain).1, tracked, ?_⟩
      intro i k' b' _ held
      apply elsewhere
      rintro rfl
      exact work.exact.not_holds free _ held
  · next present =>
    cases mapped
    exact ⟨by rw [Blocks.bmapDirect, if_neg present], .refl work⟩

theorem bmapEntry_ok (present : ip.addrs indirect ≠ 0) {j : Fin NINDIRECT} {addr : Nat}
    (mapped : bmapEntry sb (ip.addrs indirect) j s = (addr, s')) :
    Blocks.bmapEntry sb (ip.addrs indirect) j s.cached = (addr, s'.cached) ∧
      Extended sb inum ip s ip s' := by
  unfold bmapEntry at mapped
  split at mapped
  · next vacant =>
    rcases @Buffers.balloc_cases sb s work.boot with
      ⟨full, full'⟩ | ⟨b, s₁, free, allocated, allocated', tracked, elsewhere⟩
    · rw [full] at mapped
      cases mapped
      exact ⟨by rw [Blocks.bmapEntry, if_pos vacant, full'], .refl work⟩
    · rw [allocated] at mapped
      cases mapped
      have plain : Blocks.bmapEntry sb (ip.addrs indirect) j s.cached =
          (b + 1, { s₁.cached with
            blocks := update s₁.cached.blocks (ip.addrs indirect)
              (update (s₁.cached.blocks (ip.addrs indirect)) j (b + 1)) }) := by
        rw [Blocks.bmapEntry, if_pos vacant, allocated']
      refine ⟨plain, (Blocks.bmapEntry_ok work present plain).1,
        tracked.trans (.of_setBlock ..), ?_⟩
      intro i k b' data held
      have fresh : b' ≠ b + 1 := by
        rintro rfl
        exact work.exact.not_holds free _ held
      have other : b' ≠ ip.addrs indirect := by
        rintro rfl
        exact data (Prod.mk.inj (work.exact.exclusive _ _ _ held (work.holds_table present))).2
      obtain ⟨contents, logged⟩ := elsewhere b' fresh
      refine ⟨(update_of_ne other ..).trans contents, ?_⟩
      simpa [other] using logged
  · next occupied =>
    cases mapped
    exact ⟨by rw [Blocks.bmapEntry, if_neg occupied], .refl work⟩

theorem bmap_extended {bn : Nat} (inside : bn < MAXFILE) :
    ∃ addr ip' s', bmap sb ip bn s = .ok (addr, ip', s') ∧
      Blocks.bmap sb ip bn s.cached = .ok (addr, ip', s'.cached) ∧
      Extended sb inum ip s ip' s' := by
  rw [MAXFILE_eq] at inside
  by_cases direct : bn < NDIRECT
  · rcases mapped : bmapDirect sb ip ⟨bn, by omega⟩ s with ⟨addr, ip', s'⟩
    obtain ⟨plain, extended⟩ := bmapDirect_ok work mapped
    refine ⟨addr, ip', s', ?_, ?_, extended⟩
    · rw [bmap, dif_pos direct, mapped]
    · rw [Blocks.bmap, dif_pos direct, plain]
  · have entry : bn - NDIRECT < NINDIRECT := by
      change bn - 12 < 256
      omega
    rcases mapped : bmapDirect sb ip indirect s with ⟨table, ip', s'⟩
    obtain ⟨plain, extended⟩ := bmapDirect_ok work mapped
    rcases table with _ | table
    · refine ⟨0, ip', s', ?_, ?_, extended⟩
      · rw [bmap, dif_neg direct, dif_pos entry, mapped]
      · rw [Blocks.bmap, dif_neg direct, dif_pos entry, plain]
    · have table_eq := (Blocks.bmapDirect_ok work plain).2 (Nat.succ_ne_zero table)
      have present : ip'.addrs indirect ≠ 0 := by
        rw [table_eq]
        exact Nat.succ_ne_zero table
      rcases second : bmapEntry sb (table + 1) ⟨bn - NDIRECT, entry⟩ s' with ⟨addr, s''⟩
      rw [← table_eq] at second
      obtain ⟨plain', extended'⟩ := bmapEntry_ok extended.grown.working present second
      rw [table_eq] at second plain'
      refine ⟨addr, ip', s'', ?_, ?_, extended.trans extended'⟩
      · rw [bmap, dif_neg direct, dif_pos entry, mapped]
        simp only [second]
      · rw [Blocks.bmap, dif_neg direct, dif_pos entry, plain]
        simp only [plain']

theorem bmap_ok {bn : Nat} (inside : bn < MAXFILE) :
    ∃ addr ip' s' k, bmap sb ip bn s = .ok (addr, ip', s') ∧
      Blocks.bmap sb ip bn s.cached = .ok (addr, ip', s'.cached) ∧ dataSlot bn = some k ∧
      Extended sb inum ip s ip' s' ∧
      (addr ≠ 0 → working inum ip' s'.cached (inum, k) = some addr) := by
  obtain ⟨addr, ip', s', mapped, plain, extended⟩ := bmap_extended work inside
  obtain ⟨addr', ip'', d', k, plain', slot, -, found⟩ := Blocks.bmap_ok work inside
  rw [plain] at plain'
  cases plain'
  exact ⟨addr, ip', s', k, mapped, plain, slot, extended, found⟩

end

end Logged

end Xv6.Blocks
