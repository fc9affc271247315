import Xv6.Bio.BufferList

/-!
# What holds of the buffer cache

`refcnt` counts the calls that are about the buffer and its pins, the sleep lock is held by one
call, and a buffer contains what its last holder has left.
-/

namespace Xv6.Bio.State

open LinkedRing

variable {T D : Type} {owner : T → Nat} {s s' : State T D} {b : BufId} {t : T}

@[simp]
theorem buf_setBuf (s : State T D) (b b' : BufId) (new : Buf D) :
    (s.setBuf b new).buf b' = if b' = b then new else s.buf b' :=
  Function.update_apply ..

theorem field_setBuf {α : Type} (field : Buf D → α) {new : Buf D}
    (same : field new = field (s.buf b)) (b' : BufId) :
    field ((s.setBuf b new).buf b') = field (s.buf b') := by
  rw [buf_setBuf]
  split
  · next here => rw [here, same]
  · rfl

theorem buf_setBuf_self (s : State T D) (b : BufId) (new : Buf D) :
    (s.setBuf b new).buf b = new := by
  rw [buf_setBuf, if_pos rfl]

theorem buf_setBuf_of_ne (s : State T D) {b' : BufId} (new : Buf D) (other : b' ≠ b) :
    (s.setBuf b new).buf b' = s.buf b' := by
  rw [buf_setBuf, if_neg other]

/-- The sleep lock of a buffer is held by one call, and names its process. -/
structure Locked (owner : T → Nat) (s : State T D) : Prop where
  lock : ∀ t b, (s.stage t).locked = some b → (s.buf b).lock = some (owner t)
  alone : ∀ t t' b, (s.stage t).locked = some b → (s.stage t').locked = some b → t = t'

theorem Locked.congr (ok : Locked owner s) (lock : ∀ b, (s'.buf b).lock = (s.buf b).lock)
    (locked : ∀ t, (s'.stage t).locked = (s.stage t).locked) : Locked owner s' where
  lock := by
    intro t b here
    rw [lock]
    exact ok.lock t b ((locked t).symm.trans here)
  alone := by
    intro t t' b here there
    exact ok.alone t t' b ((locked t).symm.trans here) ((locked t').symm.trans there)

structure Stored (s : State T D) : Prop where
  held : ∀ t b, s.stage t = .holding b → (s.buf b).valid = true
  pinned : ∀ b, 0 < s.pins b → (s.buf b).valid = true
  kept : ∀ b, (s.buf b).valid = true → (∀ t, s.stage t ≠ .holding b) →
    s.left (s.buf b).block = some (s.buf b).data
  unread : ∀ b, (s.buf b).valid = false → s.left (s.buf b).block = none
  uncached : ∀ block, (∀ b, (s.buf b).block ≠ block) → s.left block = none
  device : ∀ b, (s.buf b).valid = true → (s.buf b).dev ≠ 0

theorem Stored.congr (ok : Stored s) (block : ∀ b, (s'.buf b).block = (s.buf b).block)
    (valid : ∀ b, (s'.buf b).valid = (s.buf b).valid)
    (data : ∀ b, (s'.buf b).data = (s.buf b).data)
    (holding : ∀ t b, s'.stage t = .holding b ↔ s.stage t = .holding b)
    (pins : ∀ b, 0 < s'.pins b → 0 < s.pins b) (left : s'.left = s.left) : Stored s' where
  held := fun t b here => (valid b).trans (ok.held t b ((holding t b).mp here))
  pinned := fun b here => (valid b).trans (ok.pinned b (pins b here))
  kept := by
    intro b here idle
    rw [left, block, data]
    exact ok.kept b ((valid b).symm.trans here) fun t held => idle t ((holding t b).mpr held)
  unread := by
    intro b here
    rw [left, block]
    exact ok.unread b ((valid b).symm.trans here)
  uncached := by
    intro block' missing
    rw [left]
    exact ok.uncached block' fun b => by
      rw [← block]
      exact missing b
  device := by
    intro b here
    rw [show (s'.buf b).dev = (s.buf b).dev from congrArg Prod.fst (block b)]
    exact ok.device b ((valid b).symm.trans here)

theorem Stored.write (ok : Stored s) {new : Buf D} (here : s'.buf b = new)
    (block : new.block = (s.buf b).block) (valid : new.valid = true) (device : (s.buf b).dev ≠ 0)
    (data : ∀ b', b' ≠ b → s'.buf b' = s.buf b')
    (holds : s'.stage t = .holding b)
    (stages : ∀ u, u ≠ t → s'.stage u = s.stage u)
    (before : ∀ b', s.stage t = .holding b' → b' = b)
    (pins : s'.pins = s.pins) (left : s'.left = s.left) : Stored s' := by
  have blocks : ∀ b', (s'.buf b').block = (s.buf b').block := by
    intro b'
    by_cases same : b' = b
    · rw [same, here, block]
    · rw [data b' same]
  constructor
  · intro u b' held
    by_cases same : b' = b
    · rw [same, here, valid]
    · rw [data b' same]
      have other : u ≠ t := by
        rintro rfl
        rw [holds] at held
        exact same (Stage.holding.inj held).symm
      rw [stages u other] at held
      exact ok.held u b' held
  · intro b' pinned
    by_cases same : b' = b
    · rw [same, here, valid]
    · rw [data b' same]
      exact ok.pinned b' (pins ▸ pinned)
  · intro b' valid' unused
    have other : b' ≠ b := by
      rintro rfl
      exact unused t holds
    rw [data b' other] at valid' ⊢
    rw [left]
    refine ok.kept b' valid' fun u held => ?_
    by_cases same : u = t
    · subst same
      exact other (before b' held)
    · exact unused u ((stages u same).trans held)
  · intro b' invalid
    have other : b' ≠ b := by
      rintro rfl
      rw [here, valid] at invalid
      cases invalid
    rw [data b' other] at invalid ⊢
    rw [left]
    exact ok.unread b' invalid
  · intro block' missing
    rw [left]
    exact ok.uncached block' fun b' => by
      rw [← blocks]
      exact missing b'
  · intro b' valid'
    rw [show (s'.buf b').dev = (s.buf b').dev from congrArg Prod.fst (blocks b')]
    by_cases same : b' = b
    · rwa [same]
    · rw [data b' same] at valid'
      exact ok.device b' valid'

variable [Fintype T]

def uses (s : State T D) (b : BufId) : Nat :=
  (Finset.univ.filter fun t => (s.stage t).buf = some b).card

theorem uses_pos (about : (s.stage t).buf = some b) : 0 < s.uses b :=
  Finset.card_pos.mpr ⟨t, Finset.mem_filter.mpr ⟨Finset.mem_univ t, about⟩⟩

structure Counted (s : State T D) : Prop where
  ringed : ∃ l, s.bcache.Ringed l
  unique : ∀ b b', (s.buf b).dev ≠ 0 → (s.buf b').block = (s.buf b).block → b' = b
  refcnt : ∀ b, (s.buf b).refcnt = s.uses b + s.pins b
  wanted : ∀ t b, (s.stage t).buf = some b → (s.buf b).block = s.wants t ∧ (s.buf b).dev ≠ 0

theorem uses_congr (about : ∀ t, (s'.stage t).buf = (s.stage t).buf) (b : BufId) :
    s'.uses b = s.uses b := by
  simp only [uses, about]

theorem Counted.unique_congr (ok : Counted s) (block : ∀ b, (s'.buf b).block = (s.buf b).block)
    (b b' : BufId) (device : (s'.buf b).dev ≠ 0) (same : (s'.buf b').block = (s'.buf b).block) :
    b' = b := by
  have device' : (s.buf b).dev ≠ 0 := by
    rwa [← show (s'.buf b).dev = (s.buf b).dev from congrArg Prod.fst (block b)]
  exact ok.unique b b' device' (by rwa [block, block] at same)

theorem Counted.congr (ok : Counted s) (links : s'.bcache.links = s.bcache.links)
    (block : ∀ b, (s'.buf b).block = (s.buf b).block)
    (refcnt : ∀ b, (s'.buf b).refcnt = (s.buf b).refcnt)
    (about : ∀ t, (s'.stage t).buf = (s.stage t).buf) (wants : s'.wants = s.wants)
    (pins : s'.pins = s.pins) : Counted s' where
  ringed := by
    obtain ⟨l, ringed⟩ := ok.ringed
    exact ⟨l, ringed.congr links⟩
  unique := ok.unique_congr block
  refcnt := by
    intro b
    rw [refcnt, ok.refcnt, uses_congr about, pins]
  wanted := by
    intro t b here
    obtain ⟨asked, device⟩ := ok.wanted t b ((about t).symm.trans here)
    refine ⟨by rw [block, asked, wants], ?_⟩
    rwa [show (s'.buf b).dev = (s.buf b).dev from congrArg Prod.fst (block b)]

theorem Counted.block_ne (counted : Counted s) {b' : BufId} (device : (s.buf b).dev ≠ 0)
    (other : b' ≠ b) : (s.buf b').block ≠ (s.buf b).block :=
  fun same => other (counted.unique b b' device same)

structure Ok (owner : T → Nat) (s : State T D) : Prop where
  counted : Counted s
  locked : Locked owner s
  stored : Stored s

theorem Ok.init (zero : D) (disk : Nat × Nat → D) : Ok owner (State.init (T := T) zero disk) where
  counted :=
    { ringed := ⟨_, Bcache.binit_ringed zero⟩
      unique := fun _ _ device => absurd rfl device
      refcnt := by
        intro b
        symm
        simp [uses, State.init, Stage.buf, buf, Bcache.binit]
      wanted := nofun }
  locked := ⟨nofun, nofun⟩
  stored :=
    { held := nofun
      pinned := fun _ pinned => absurd pinned (Nat.lt_irrefl 0)
      kept := nofun
      unread := fun _ _ => rfl
      uncached := fun _ _ => rfl
      device := nofun }

theorem Ok.fill (ok : Ok owner s) {t : T} {b : BufId} (entered : s.stage t = .entered b) :
    (s.fill b).block = s.wants t ∧
      (s.fill b).data = (s.left (s.wants t)).getD (s.disk (s.wants t)) := by
  have wants := (ok.counted.wanted t b (by rw [entered]; rfl)).1
  rw [← wants]
  unfold State.fill
  split
  · next valid =>
    have alone : ∀ u, s.stage u ≠ .holding b := by
      intro u holding
      have same := ok.locked.alone u t b (by rw [holding]; rfl) (by rw [entered]; rfl)
      rw [same, entered] at holding
      cases holding
    rw [ok.stored.kept b valid alone]
    exact ⟨rfl, rfl⟩
  · next invalid =>
    rw [ok.stored.unread b (Bool.eq_false_of_not_eq_true invalid)]
    exact ⟨rfl, rfl⟩

theorem Ok.holdingsleep (ok : Ok owner s) (holding : s.stage t = .holding b) :
    s.bcache.holdingsleep b (owner t) = true :=
  decide_eq_true (ok.locked.lock t b (by rw [holding]; rfl))

end Xv6.Bio.State
