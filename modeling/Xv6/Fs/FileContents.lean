import Xv6.Fs.FileWrites

/-!
# A file is an array of bytes

On the blocks in the cache, the functions here do what those of `Xv6.Fs.Blocks` do, for some
outcome of the copies.
-/

namespace Xv6.Blocks

open Ledger
open Function

variable {sb : Superblock} {inum : Nat} {ip ip' : Dinode} {s s' : Buffers}
variable {off n : Nat} {v : Nat → UInt8} {fs : FsState}
variable {copy : Copy} {w : Written} {k : Fin (NDIRECT + 1) ⊕ Fin NINDIRECT} {ok : Nat → Bool}
  {source : Source}

/-! ## Refinement -/

theorem writeiLoop_left_zero (copy : Copy) (rounds off : Nat) (ip : Dinode) (d : Disk) :
    writeiLoop sb copy rounds off 0 ip d = .ok (off, 0, ip, d) := by
  cases rounds <;> rfl

theorem writeiLoop_congr {copy' : Copy} (rounds : Nat) (off left : Nat) (ip : Dinode)
    (d : Disk) (agree : ∀ bn, off / BSIZE ≤ bn →
      copy.contents bn = copy'.contents bn ∧ copy.ok bn = copy'.ok bn) :
    writeiLoop sb copy rounds off left ip d = writeiLoop sb copy' rounds off left ip d := by
  induction rounds generalizing off left ip d with
  | zero => rfl
  | succ rounds ih =>
    obtain ⟨contents, ok⟩ := agree (off / BSIZE) le_rfl
    have later : ∀ ip d, writeiLoop sb copy rounds (off + min left (BSIZE - off % BSIZE))
            (left - min left (BSIZE - off % BSIZE)) ip d =
          writeiLoop sb copy' rounds (off + min left (BSIZE - off % BSIZE))
            (left - min left (BSIZE - off % BSIZE)) ip d := by
      intro ip d
      refine ih _ _ ip d fun bn after => agree bn (le_trans ?_ after)
      exact Nat.div_le_div_right (Nat.le_add_right ..)
    simp only [writeiLoop, contents, ok, later]

def Copy.set (copy : Copy) (bn : Nat) (contents : Contents) (ok : Bool) : Copy where
  contents := update copy.contents bn contents
  ok := update copy.ok bn ok

theorem writeiLoop_set {bn rounds left : Nat} {contents : Contents} {ok : Bool}
    {ip : Dinode} {d : Disk} (later : left = 0 ∨ bn < off / BSIZE) :
    writeiLoop sb (copy.set bn contents ok) rounds off left ip d =
      writeiLoop sb copy rounds off left ip d := by
  rcases later with done | later
  · subst done
    rw [writeiLoop_left_zero, writeiLoop_left_zero]
  · refine writeiLoop_congr rounds off left ip d fun bn' after => ?_
    have other : bn' ≠ bn := by omega
    exact ⟨update_of_ne other .., update_of_ne other ..⟩

namespace Logged

theorem writeiLoop_refines (source : Source) (n : Nat) (rounds : Nat) (off tot : Nat)
    (ip : Dinode) (s : Buffers) (work : Working sb inum ip s.cached)
    (short : off + (n - tot) ≤ MAXFILE * BSIZE)
    (returned : writeiLoop sb source n rounds off tot ip s = .ok w) :
    ∃ copy, Blocks.writeiLoop sb copy rounds off (n - tot) ip s.cached =
      .ok (w.off, n - w.tot, w.ip, w.buffers.cached) := by
  induction rounds generalizing off tot ip s with
  | zero =>
    cases returned
    exact ⟨⟨fun _ _ => 0, fun _ => true⟩, rfl⟩
  | succ rounds ih =>
    by_cases more : tot < n
    · have some_ : n - tot ≠ 0 := by omega
      have inside : off / BSIZE < MAXFILE := by
        rw [MAXFILE_eq, BSIZE_eq] at *
        omega
      obtain ⟨addr, ip₁, s₁, k, mapped, plain, slot, extended, held⟩ := bmap_ok work inside
      simp only [writeiLoop, if_pos more, mapped, bind, Except.bind] at returned
      by_cases full : addr = 0
      · rw [if_pos full] at returned
        cases returned
        refine ⟨⟨fun _ _ => 0, fun _ => true⟩, ?_⟩
        simp only [Blocks.writeiLoop, if_neg some_, plain, bind, Except.bind, if_pos full]
        rfl
      · rw [if_neg full] at returned
        generalize (s₁.cached.blocks addr).store (off % BSIZE)
          (eitherCopyin source tot (min (n - tot) (BSIZE - off % BSIZE))).1 = contents at returned
        have stored := Grown.of_store extended.grown.working slot full (held full) contents
        cases ok : (eitherCopyin source tot (min (n - tot) (BSIZE - off % BSIZE))).2 with
        | true =>
          rw [ok, if_pos rfl] at returned
          obtain ⟨copy, rest⟩ := ih _ _ _ _ stored.working (by omega) returned
          refine ⟨copy.set (off / BSIZE) contents true, ?_⟩
          have later : n - tot - min (n - tot) (BSIZE - off % BSIZE) = 0 ∨
              off / BSIZE < (off + min (n - tot) (BSIZE - off % BSIZE)) / BSIZE := by
            rw [BSIZE_eq]
            omega
          simp only [Blocks.writeiLoop, if_neg some_, plain, bind, Except.bind, if_neg full,
            Copy.set, update_self, if_true]
          refine (writeiLoop_set later).trans ?_
          rw [Nat.sub_add_eq] at rest
          exact rest
        | false =>
          rw [ok] at returned
          cases returned
          refine ⟨⟨fun _ => contents, fun _ => false⟩, ?_⟩
          simp only [Blocks.writeiLoop, if_neg some_, plain, bind, Except.bind, if_neg full]
          rfl
    · rw [writeiLoop, if_neg more] at returned
      cases returned
      refine ⟨⟨fun _ _ => 0, fun _ => true⟩, ?_⟩
      rw [Nat.sub_eq_zero_of_le (by omega), writeiLoop_left_zero]

theorem writei_refines (source : Source) (small : off < 2 ^ 32)
    (small' : n < 2 ^ 32) (work : Working sb inum ip s.cached) {result : Int} {ending : Ending}
    (returned : writei sb source inum off n ip s = .ok (result, ending, ip', s')) :
    ∃ copy, Blocks.writei sb copy inum off n ip s.cached = .ok (result, ip', s'.cached) := by
  unfold writei at returned
  unfold Blocks.writei
  split at returned
  · next refused =>
    cases returned
    exact ⟨⟨fun _ _ => 0, fun _ => true⟩, if_pos refused⟩
  · next start =>
    split at returned
    · next refused =>
      cases returned
      refine ⟨⟨fun _ _ => 0, fun _ => true⟩, ?_⟩
      rw [if_neg start, if_pos refused]
    · next fits =>
      have short : off + n ≤ MAXFILE * BSIZE := by
        omega
      obtain ⟨w, loop, spec⟩ := writeiLoop_spec source off n n off 0 ip s work short rfl
        (Nat.zero_le n) le_rfl
      simp only [loop, bind, Except.bind] at returned
      cases returned
      obtain ⟨copy, plain⟩ := writeiLoop_refines source n n off 0 ip s work short loop
      refine ⟨copy, ?_⟩
      rw [Nat.sub_zero] at plain
      rw [if_neg start, if_neg fits]
      simp only [plain, bind, Except.bind]
      have total : n - (n - w.tot) = w.tot := by
        have := spec.bound
        omega
      rw [total]
      rfl

/-! ## Reading -/

theorem bmap_present (work : Working sb inum ip s.cached) {bn : Nat} (slot : dataSlot bn = some k)
    {b : Nat} (held : working inum ip s.cached (inum, k) = some b) :
    bmap sb ip bn s = .ok (b, ip, s) := by
  have found := bmapOutside_eq_ok work slot held
  unfold bmapOutside at found
  unfold bmap
  split at found
  · next direct =>
    obtain ⟨nonzero, rfl⟩ := present_eq_ok.mp found
    rw [dif_pos direct, bmapDirect, if_neg nonzero]
  · next direct =>
    split at found
    · next entry =>
      by_cases absent : ip.addrs indirect = 0
      · simp [present, absent, bind, Except.bind] at found
      rw [present_eq_ok.mpr ⟨absent, rfl⟩] at found
      obtain ⟨nonzero, rfl⟩ := present_eq_ok.mp found
      obtain ⟨table, table_eq⟩ := Nat.exists_eq_succ_of_ne_zero absent
      rw [dif_neg direct, dif_pos entry, bmapDirect, if_neg absent]
      rw [table_eq] at nonzero ⊢
      simp only [bmapEntry, if_neg nonzero]
    · cases found

theorem load_eq {d : Disk} {addr m : Nat}
    (slot : dataSlot (off / BSIZE) = some k) (held : working inum ip d (inum, k) = some addr)
    (fits : off % BSIZE + m ≤ BSIZE)
    (bytes : ∀ p, off ≤ p → p < off + m → fileByte inum ip d inum p = some (v p)) :
    (d.blocks addr).load (off % BSIZE) m = (List.range m).map fun i => v (off + i) := by
  refine List.map_congr_left fun i inside => ?_
  rw [List.mem_range] at inside
  obtain ⟨k', b, slot', held', byte⟩ := fileByte_eq_some.mp (bytes (off + i) (by omega) (by omega))
  rw [BSIZE_eq] at fits
  have block : (off + i) / BSIZE = off / BSIZE := by
    rw [BSIZE_eq]
    omega
  rw [block, slot] at slot'
  cases slot'
  rw [held] at held'
  cases held'
  rw [← byte]
  congr 1
  rw [BSIZE_eq]
  omega

theorem readiLoop_spec (copied : ∀ bn, ok bn = true) (base n : Nat)
    (work : Working sb inum ip s.cached)
    (bytes : ∀ p, p < base + n → fileByte inum ip s.cached inum p = some (v p))
    (rounds : Nat) (off tot : Nat) (out : List UInt8) (place : off = base + tot)
    (bound : tot ≤ n) (enough : n - tot ≤ rounds) :
    readiLoop sb ok n rounds off tot out ip s =
      .ok (some n, out ++ (List.range (n - tot)).map (fun i => v (off + i)), ip, s) := by
  induction rounds generalizing off tot out with
  | zero =>
    obtain rfl : tot = n := by omega
    simp [readiLoop]
  | succ rounds ih =>
    by_cases more : tot < n
    · obtain ⟨k, addr, slot, held, -⟩ := fileByte_eq_some.mp (bytes off (by omega))
      have nonzero := (bmap_of_bmapOutside sb (bmapOutside_eq_ok work slot held)).1
      have pos : 0 < min (n - tot) (BSIZE - off % BSIZE) := by
        rw [BSIZE_eq]
        omega
      have size : min (n - tot) (BSIZE - off % BSIZE) ≤ n - tot := min_le_left ..
      have fits : off % BSIZE + min (n - tot) (BSIZE - off % BSIZE) ≤ BSIZE := by
        omega
      simp only [readiLoop, if_pos more, bmap_present work slot held, bind, Except.bind,
        if_neg nonzero, copied, if_true]
      generalize min (n - tot) (BSIZE - off % BSIZE) = m at pos size fits
      rw [ih _ _ _ (by omega) (by omega) (by omega),
        load_eq slot held fits fun p _ before => bytes p (by omega), List.append_assoc]
      have rest : n - tot = m + (n - (tot + m)) := by omega
      rw [rest, List.range_add, List.map_append, List.map_map]
      simp only [Function.comp_def, Nat.add_assoc]
    · obtain rfl : tot = n := by omega
      simp [readiLoop]

end Logged

/-! ## Writing -/

/-- The bytes from `off` to `off + t` of a file have become those of the source. -/
structure Overwritten (source : Source) (inum off t : Nat) (d d' : Disk) : Prop where
  size : (d'.dinodes inum).size = max (d.dinodes inum).size (off + t)
  bytes : ∀ p < (d'.dinodes inum).size, (d'.dinodes inum).byteAt d'.blocks p =
    if off ≤ p ∧ p < off + t then some (source.byte (p - off))
    else (d.dinodes inum).byteAt d.blocks p
  others : ∀ i, i ≠ inum → d'.dinodes i = d.dinodes i ∧
    ∀ p < (d.dinodes i).size, (d'.dinodes i).byteAt d'.blocks p = (d.dinodes i).byteAt d.blocks p

/-- The size that `writei` sets before its `iupdate`. -/
def Dinode.extend (ip : Dinode) (off : Nat) : Dinode :=
  if ip.size < off then { ip with size := off } else ip

theorem Dinode.extend_size (ip : Dinode) (off : Nat) : (ip.extend off).size = max ip.size off := by
  unfold extend
  split
  · next grows => exact (max_eq_right grows.le).symm
  · next stays => exact (max_eq_left (not_lt.mp stays)).symm

theorem Dinode.extend_byteAt (ip : Dinode) (off : Nat) (blocks : Nat → Contents) (p : Nat) :
    (ip.extend off).byteAt blocks p = ip.byteAt blocks p := by
  unfold extend
  split <;> rfl

theorem Dinode.byteAt_of_free {ip : Dinode} (free : ip.type = .free) (blocks : Nat → Contents)
    (p : Nat) : ip.byteAt blocks p = none := by
  unfold byteAt blockAt
  rcases dataSlot (p / BSIZE) with _ | k | j
  · rfl
  · simp [slots, free]
  · simp [slots, free]

theorem fileByte_self {d : Disk} {inum : Nat} (same : d.dinodes inum = ip) (i p : Nat) :
    fileByte inum ip d i p = (d.dinodes i).byteAt d.blocks p := by
  rw [fileByte, ← same, update_eq_self]

theorem fileByte_iupdate (inum : Nat) (ip : Dinode) (d : Disk) (off i p : Nat) :
    ((d.iupdate inum (ip.extend off)).dinodes i).byteAt d.blocks p = fileByte inum ip d i p := by
  unfold fileByte Disk.iupdate
  by_cases same : i = inum
  · subst same
    simp only [update_self]
    exact ip.extend_byteAt off d.blocks p
  · simp only [update_of_ne same]

theorem BlocksOk.byteAt (inv : BlocksOk sb fs) {i p : Nat}
    (allocated : (fs.disk.dinodes i).type ≠ .free) (below : p < (fs.disk.dinodes i).size) :
    ∃ v, (fs.disk.dinodes i).byteAt fs.disk.blocks p = some v := by
  have begins : BSIZE * (p / BSIZE) < (fs.disk.dinodes i).size := by
    rw [BSIZE_eq]
    omega
  obtain ⟨k, b, slot, held⟩ := inv.filled i (p / BSIZE) allocated begins
  refine ⟨(fs.disk.blocks b).byte (p % BSIZE), ?_⟩
  rw [← @fileByte_self (fs.disk.dinodes i) fs.disk i rfl]
  refine fileByte_eq_some.mpr ⟨k, b, slot, ?_, rfl⟩
  rw [working, update_eq_self]
  exact held

theorem Progress.overwritten (inv : BlocksOk sb fs) (cached : s.cached = fs.disk)
    (same : s.cached.dinodes inum = ip) {t : Nat} (within : off ≤ ip.size)
    (progress : Progress sb inum source off off (off + t) ip s ip' s') :
    Overwritten source inum off t s.cached (s'.iupdate inum (ip'.extend (off + t))).cached := by
  have updated : (s'.iupdate inum (ip'.extend (off + t))).cached.dinodes inum =
      ip'.extend (off + t) := update_self ..
  refine ⟨?_, fun p below => ?_, fun i other => ?_⟩
  · rw [updated, Dinode.extend_size, progress.grown.size, same]
  · rw [updated, Dinode.extend_size, progress.grown.size] at below
    have now := fileByte_iupdate inum ip' s'.cached (off + t) inum p
    refine now.trans ?_
    split
    · next inside => exact progress.written p inside.1 inside.2
    · next outside =>
      rw [← fileByte_self same]
      have allocated : (fs.disk.dinodes inum).type ≠ .free := by
        rw [← cached, same, ← progress.grown.type]
        exact progress.grown.working.allocated
      have old : p < (fs.disk.dinodes inum).size := by
        rw [← cached, same]
        omega
      obtain ⟨v, byte⟩ := inv.byteAt allocated old
      rw [← cached, ← fileByte_self same] at byte
      rw [byte]
      exact progress.kept inum p v (by omega) byte
  · have kept : (s'.iupdate inum (ip'.extend (off + t))).cached.dinodes i = s.cached.dinodes i := by
      rw [← progress.grown.dinodes]
      exact update_of_ne other ..
    refine ⟨kept, fun p below => ?_⟩
    by_cases free : (s.cached.dinodes i).type = .free
    · rw [kept, Dinode.byteAt_of_free free, Dinode.byteAt_of_free free]
    · rw [cached] at free below
      obtain ⟨v, byte⟩ := inv.byteAt free below
      rw [← cached] at byte
      have now := fileByte_iupdate inum ip' s'.cached (off + t) i p
      refine now.trans ?_
      rw [byte]
      exact progress.kept i p v (.inl other) ((fileByte_self same i p).trans byte)

namespace Logged

theorem writei_inside (source : Source) (work : Working sb inum ip s.cached)
    (start : off ≤ ip.size) (fits : off + n ≤ MAXFILE * BSIZE) :
    ∃ w, LoopSpec sb inum source off n off 0 ip s w ∧ writei sb source inum off n ip s =
        .ok (w.tot, w.ending, w.ip.extend w.off, w.buffers.iupdate inum (w.ip.extend w.off)) := by
  obtain ⟨w, loop, spec⟩ := writeiLoop_spec source off n n off 0 ip s work fits rfl
    (Nat.zero_le n) le_rfl
  refine ⟨w, spec, ?_⟩
  rw [MAXFILE_eq, BSIZE_eq] at fits
  have whole : (off + n) % 2 ^ 32 = off + n := Nat.mod_eq_of_lt (by omega)
  rw [writei, whole, if_neg (by omega), if_neg (by rw [MAXFILE_eq, BSIZE_eq]; omega)]
  simp only [loop, bind, Except.bind]
  rfl

theorem writei_outside (source : Source) (small : off < 2 ^ 32)
    (small' : n < 2 ^ 32) (outside : ¬ (off ≤ ip.size ∧ off + n ≤ MAXFILE * BSIZE)) :
    writei sb source inum off n ip s = .ok (-1, .refused, ip, s) := by
  unfold writei
  by_cases start : ip.size < off ∨ (off + n) % 2 ^ 32 < off
  · rw [if_pos start]
  · rw [if_neg start, if_pos (by omega)]

theorem LoopSpec.progress {base tot : Nat} (spec : LoopSpec sb inum source base n off tot ip s w)
    (found : ∀ i < n, source.accessible i = true) :
    Progress sb inum source base off w.off ip s w.ip w.buffers ∧
      (w.tot < n → w.ending = .full) := by
  cases spec.loopEnd with
  | done ending all progress => exact ⟨progress, fun short => absurd all short.ne⟩
  | full ending short progress => exact ⟨progress, fun _ => ending⟩
  | fault s₁ k addr part ending progress slot held nonzero less reached missing buffers =>
    rw [found _ (by omega)] at missing
    cases missing

theorem readi_spec (copied : ∀ bn, ok bn = true)
    (work : Working sb inum ip s.cached) (small' : n < 2 ^ 32)
    (bytes : ∀ p < ip.size, fileByte inum ip s.cached inum p = some (v p)) :
    readi sb ok off n ip s = .ok ((min ((off + n) % 2 ^ 32) ip.size - off : Nat),
        (List.range (min ((off + n) % 2 ^ 32) ip.size - off)).map (fun i => v (off + i)), ip,
        s) := by
  unfold readi
  by_cases outside : ip.size < off ∨ (off + n) % 2 ^ 32 < off
  · rw [if_pos outside, Nat.sub_eq_zero_of_le (by omega)]
    rfl
  · rw [if_neg outside]
    have length : (if ip.size < (off + n) % 2 ^ 32 then ip.size - off else n) =
        min ((off + n) % 2 ^ 32) ip.size - off := by
      split <;> omega
    have inside : off + (min ((off + n) % 2 ^ 32) ip.size - off) ≤ ip.size := by omega
    generalize min ((off + n) % 2 ^ 32) ip.size - off = count at length inside
    have loop := readiLoop_spec copied off count work (fun p below => bytes p (by omega)) count
      off 0 [] rfl (Nat.zero_le _) (Nat.sub_le ..)
    simp only [length, loop, bind, Except.bind, Nat.sub_zero, List.nil_append]

end Logged

theorem ilock_reload (same : fs.disk.dinodes inum = ip)
    (allocated : ip.type ≠ .free) (evicted : (fs.itable inum).valid = false) :
    ∃ fs', fs.ilock inum = .ok fs' ∧ (fs'.itable inum).copy = ip := by
  refine ⟨fs.setInode inum { fs.itable inum with valid := true, copy := fs.disk.dinodes inum },
    ?_, ?_⟩
  · rw [FsState.ilock, if_neg (by rw [evicted]; decide), if_neg (by rwa [same])]
  · simp [FsState.setInode, same]

theorem writei_bytes (inv : BlocksOk sb fs) (cached : s.cached = fs.disk)
    (work : Working sb inum ip s.cached) (same : s.cached.dinodes inum = ip) (source : Source)
    (small : off < 2 ^ 32) (small' : n < 2 ^ 32) (found : ∀ i < n, source.accessible i = true) :
    ∃ result ending ip' s', Logged.writei sb source inum off n ip s =
        .ok (result, ending, ip', s') ∧
      (off ≤ ip.size ∧ off + n ≤ MAXFILE * BSIZE →
        ∃ t ≤ n, result = (t : Int) ∧ (t < n → ending = .full) ∧
          Overwritten source inum off t s.cached s'.cached) ∧
      (¬ (off ≤ ip.size ∧ off + n ≤ MAXFILE * BSIZE) → result = -1 ∧ ip' = ip ∧ s' = s) ∧
      ip'.type ≠ .free ∧ s'.cached.dinodes inum = ip' := by
  by_cases within : off ≤ ip.size ∧ off + n ≤ MAXFILE * BSIZE
  · obtain ⟨w, spec, returned⟩ := Logged.writei_inside source work within.1 within.2
    obtain ⟨progress, full⟩ := spec.progress found
    have place := spec.place
    refine ⟨_, _, _, _, returned, fun _ => ⟨w.tot, spec.bound, rfl, full, ?_⟩, absurd within, ?_,
      update_self ..⟩
    · rw [place] at progress ⊢
      exact progress.overwritten inv cached same within.1
    · have type : (w.ip.extend w.off).type = w.ip.type := by
        unfold Dinode.extend
        split <;> rfl
      rw [type]
      exact progress.grown.working.allocated
  · exact ⟨-1, .refused, ip, s, Logged.writei_outside source small small' within,
      fun inside => absurd inside within, fun _ => ⟨rfl, rfl, rfl⟩, work.allocated, same⟩

theorem FsReachable.writei (reach : FsReachable sb fs) (cached : s.cached = fs.disk)
    (referenced : 1 ≤ (fs.itable inum).ref) (valid : (fs.itable inum).valid = true)
    {source : Source} (off n : BitVec 32) {result : Int} {ending : Logged.Ending}
    (returned : Logged.writei sb source inum off.toNat n.toNat (fs.itable inum).copy s =
      .ok (result, ending, ip', s')) : FsReachable sb (fs.replace inum ip' s'.cached) := by
  obtain ⟨work, -⟩ := reach.blocksOk.locked referenced valid
  rw [← cached] at work
  obtain ⟨copy, plain⟩ := Logged.writei_refines source off.isLt n.isLt work returned
  refine reach.step (.writei inum copy off.toNat n.toNat)
    ⟨referenced, valid, off.isLt, n.isLt⟩ ?_
  rw [cached] at plain
  simp only [FsState.step, plain, bind, Except.bind]

/-- In every reachable state a file is an array of bytes, which `writei` overwrites and
`readi` reads; the sums of offset and length are taken in 32 bits. -/
theorem inode_contents_are_bytes {fs : FsState} (reachable : FsReachable sb fs) {s : Buffers}
    (cached : s.cached = fs.disk) (referenced : 1 ≤ (fs.itable inum).ref)
    (valid : (fs.itable inum).valid = true) (off n : BitVec 32) :
    s.cached.dinodes inum = (fs.itable inum).copy ∧
    (∀ p < (fs.itable inum).copy.size,
      ∃ v, (fs.itable inum).copy.byteAt s.cached.blocks p = some v) ∧
    (∀ source : Source, (∀ i < n.toNat, source.accessible i = true) → ∃ result ending ip' s',
        Logged.writei sb source inum off.toNat n.toNat (fs.itable inum).copy s =
          .ok (result, ending, ip', s') ∧
        (off.toNat ≤ (fs.itable inum).copy.size ∧ off.toNat + n.toNat ≤ MAXFILE * BSIZE →
          ∃ t ≤ n.toNat, result = (t : Int) ∧ (t < n.toNat → ending = .full) ∧
            Overwritten source inum off.toNat t s.cached s'.cached) ∧
        (¬ (off.toNat ≤ (fs.itable inum).copy.size ∧ off.toNat + n.toNat ≤ MAXFILE * BSIZE) →
          result = -1 ∧ ip' = (fs.itable inum).copy ∧ s' = s) ∧
        FsReachable sb (fs.replace inum ip' s'.cached) ∧
        ∀ fs' : FsState, fs'.disk = s'.cached → (fs'.itable inum).valid = false →
          ∃ fs'', fs'.ilock inum = .ok fs'' ∧ (fs''.itable inum).copy = ip') ∧
    ∀ ok : Nat → Bool, (∀ bn, ok bn = true) → ∃ bytes : List UInt8,
        Logged.readi sb ok off.toNat n.toNat (fs.itable inum).copy s =
          .ok (bytes.length, bytes, (fs.itable inum).copy, s) ∧
        bytes.map some = (List.range (min (off + n).toNat (fs.itable inum).copy.size -
          off.toNat)).map fun i =>
            (fs.itable inum).copy.byteAt s.cached.blocks (off.toNat + i) := by
  have inv := reachable.blocksOk
  obtain ⟨same, allocated⟩ := inv.copies inum referenced valid
  obtain ⟨work, short, -⟩ := inv.locked referenced valid
  rw [← cached] at same allocated work
  have present : ∀ p < (fs.itable inum).copy.size,
      ∃ v, (fs.itable inum).copy.byteAt s.cached.blocks p = some v := by
    rw [same, cached]
    rw [cached] at allocated
    exact fun p below => inv.byteAt allocated below
  refine ⟨same.symm, present, fun source found => ?_, fun ok copied => ?_⟩
  · obtain ⟨result, ending, ip', s', returned, within, outside, type, reload⟩ :=
      writei_bytes inv cached work same.symm source off.isLt n.isLt found
    exact ⟨result, ending, ip', s', returned, within, outside,
      reachable.writei cached referenced valid off n returned, fun fs' disk evicted =>
        ilock_reload (by rw [disk, reload]) type evicted⟩
  · have bytes : ∀ p < (fs.itable inum).copy.size,
        fileByte inum (fs.itable inum).copy s.cached inum p =
          some (((fs.itable inum).copy.byteAt s.cached.blocks p).getD 0) := by
      intro p below
      obtain ⟨v, byte⟩ := present p below
      rw [fileByte_self same.symm, ← same, byte, Option.getD_some]
    refine ⟨(List.range (min (off + n).toNat (fs.itable inum).copy.size - off.toNat)).map
      fun i => ((fs.itable inum).copy.byteAt s.cached.blocks (off.toNat + i)).getD 0, ?_, ?_⟩
    · rw [Logged.readi_spec copied work n.isLt bytes, List.length_map, List.length_range,
        BitVec.toNat_add]
    · rw [List.map_map]
      refine List.map_congr_left fun i inside => ?_
      rw [List.mem_range, BitVec.toNat_add] at inside
      obtain ⟨v, byte⟩ := present (off.toNat + i) (by omega)
      simp only [Function.comp, byte, Option.getD_some]

/-- A byte is appended to a file of one byte, and both are read. -/
theorem inode_contents_write_and_read :
    ∃ (fs : FsState) (s : Buffers) (ip' : Dinode) (s' : Buffers),
      FsReachable fourBlocks (fs.replace 1 ip' s'.cached) ∧
      Logged.writei fourBlocks (.kernel fun _ => 8) 1 1 1
        (fs.itable 1).copy s = .ok (1, .done, ip', s') ∧
      Overwritten (.kernel fun _ => 8) 1 1 1 s.cached s'.cached ∧
      Logged.readi fourBlocks (fun _ => true) 0 5 ip' s' =
        .ok (2, [7, 8], ip', s') := by
  let s : Buffers := ⟨sevenFile.disk, fun _ => false, sevenFile.disk⟩
  obtain ⟨before, -, writes, -⟩ := @inode_contents_are_bytes _ 1 sevenFile sevenFile_reachable s rfl
    (le_refl 1) rfl 1 1
  obtain ⟨result, ending, ip', s', returned, inside, -, reachable, -⟩ :=
    writes (.kernel fun _ => 8) fun _ _ => rfl
  obtain ⟨t, -, count, -, written⟩ := inside ⟨by decide, by decide⟩
  have ran : ∃ ip s₁,
      Logged.writei fourBlocks (.kernel fun _ => 8) 1 1 1 (sevenFile.itable 1).copy s =
        .ok (1, .done, ip, s₁) ∧ ip.size = 2 := ⟨_, _, rfl, rfl⟩
  obtain ⟨ip, s₁, wrote, size⟩ := ran
  cases wrote.symm.trans returned
  obtain rfl : t = 1 := Int.ofNat.inj count.symm
  refine ⟨sevenFile, s, ip', s', reachable, wrote, written, ?_⟩
  obtain ⟨copy, -, -, reads⟩ := @inode_contents_are_bytes _ 1 (sevenFile.replace 1 ip' s'.cached)
    reachable s' rfl (le_refl 1) rfl 0 5
  obtain ⟨bytes, read, contents⟩ := reads (fun _ => true) fun _ => rfl
  have same : s'.cached.dinodes 1 = ip' := copy
  have byte := written.bytes
  rw [same, size] at byte
  have both : bytes.map some = [7, 8].map some := by
    refine contents.trans ?_
    change (List.range (min 5 ip'.size - 0)).map (fun i => ip'.byteAt s'.cached.blocks (0 + i)) = _
    have old : (sevenFile.itable 1).copy.byteAt sevenFile.disk.blocks 0 = some 7 := rfl
    have first := byte 0 (by decide)
    rw [if_neg (by decide), before] at first
    have second := byte 1 (by decide)
    rw [if_pos (by decide)] at second
    rw [size]
    exact congrArg₂ (fun a b => [a, b]) (first.trans old) second
  rw [List.map_injective_iff.mpr (Option.some_injective UInt8) both] at read
  exact read

end Xv6.Blocks
