import Xv6.Bio.Invariant
import Xv6.Library.RefCount

/-!
# Integrity of the buffer cache

A buffer is only given another block while nobody counts on it, so what one holder of a block
leaves in the buffer is what the next one finds.
-/

namespace Xv6.Bio.State

open LinkedRing
open Function

variable {T D : Type} [DecidableEq T] {owner : T → Nat} {s s' : State T D}
variable {action : Action T D} {t : T} {stage : Stage}

/-- The steps, with what they found and what they lead to. -/
inductive Turn (owner : T → Nat) (s : State T D) : Action T D → State T D → Prop
  | cached {t : T} {dev blockno : Nat} (b : BufId) (idle : s.stage t = .idle) (device : dev ≠ 0)
      (here : (s.buf b).block = (dev, blockno)) :
      Turn owner s (.bget t dev blockno)
        { (s.setBuf b { s.buf b with refcnt := (s.buf b).refcnt + 1 }).goTo t (.waiting b) with
          wants := update s.wants t (dev, blockno) }
  | recycled {t : T} {dev blockno : Nat} (b : BufId) (idle : s.stage t = .idle)
      (device : dev ≠ 0) (missing : ∀ b', (s.buf b').block ≠ (dev, blockno))
      (free : (s.buf b).refcnt = 0) :
      Turn owner s (.bget t dev blockno)
        { (s.setBuf b { s.buf b with
            dev := dev, blockno := blockno, valid := false, refcnt := 1 }).goTo t (.waiting b) with
          wants := update s.wants t (dev, blockno)
          left := update s.left (s.buf b).block none }
  | acquiresleep {t : T} {b : BufId} (waiting : s.stage t = .waiting b)
      (unlocked : (s.buf b).lock = none) :
      Turn owner s (.acquiresleep t)
        ((s.setBuf b { s.buf b with lock := some (owner t) }).goTo t (.entered b))
  | fill {t : T} {b : BufId} (entered : s.stage t = .entered b) :
      Turn owner s (.fill t) ((s.setBuf b (s.fill b)).goTo t (.holding b))
  | modify {t : T} {b : BufId} {data : D} (holding : s.stage t = .holding b) :
      Turn owner s (.modify t data) (s.setBuf b { s.buf b with data := data })
  | bwrite {t : T} {b : BufId} (holding : s.stage t = .holding b) :
      Turn owner s (.bwrite t) { s with disk := update s.disk (s.buf b).block (s.buf b).data }
  | releasesleep {t : T} {b : BufId} (holding : s.stage t = .holding b) :
      Turn owner s (.releasesleep t)
        { (s.setBuf b { s.buf b with lock := none }).goTo t (.releasing b) with
          left := update s.left (s.buf b).block (some (s.buf b).data) }
  | brelse {t : T} {b : BufId} {links : Links Node} (releasing : s.stage t = .releasing b)
      (relinked : s.bcache.brelse b =
        ⟨update s.buf b { s.buf b with refcnt := (s.buf b).refcnt - 1 }, links⟩) :
      Turn owner s (.brelse t) { s.goTo t .idle with bcache := s.bcache.brelse b }
  | bpin {t : T} {b : BufId} (holding : s.stage t = .holding b) :
      Turn owner s (.bpin t)
        { s.setBuf b { s.buf b with refcnt := (s.buf b).refcnt + 1 } with
          pins := update s.pins b (s.pins b + 1) }
  | bunpin {t : T} {b : BufId} (holding : s.stage t = .holding b) (pinned : 0 < s.pins b) :
      Turn owner s (.bunpin t)
        { s.setBuf b { s.buf b with refcnt := (s.buf b).refcnt - 1 } with
          pins := update s.pins b (s.pins b - 1) }

theorem brelse_eq (c : Bcache D) (b : BufId) : ∃ links, c.brelse b =
      ⟨update c.buf b { c.buf b with refcnt := (c.buf b).refcnt - 1 }, links⟩ := by
  unfold Bcache.brelse
  dsimp only
  split <;> exact ⟨_, rfl⟩

theorem buf_brelse {b : BufId} {links : Links Node} (relinked : s.bcache.brelse b =
      ⟨update s.buf b { s.buf b with refcnt := (s.buf b).refcnt - 1 }, links⟩) (b' : BufId) :
    State.buf { s.goTo t .idle with bcache := s.bcache.brelse b } b' =
      (s.setBuf b { s.buf b with refcnt := (s.buf b).refcnt - 1 }).buf b' := by
  rw [relinked]
  rfl

theorem turn_of_step {l : List BufId} (ringed : s.bcache.Ringed l)
    (returned : s.step owner action = some (.ok s')) : Turn owner s action s' := by
  cases action with
  | bget t dev blockno =>
    obtain ⟨⟨idle, device⟩, result⟩ := Option.ite_none_right_eq_some.mp returned
    have got := Bcache.got_bget ringed dev blockno
    rw [Option.some.injEq, bget] at result
    cases outcome : s.bcache.bget dev blockno with
    | error halt =>
      rw [outcome] at result
      cases result
    | ok found =>
      rw [outcome] at result got
      cases got with
      | cached b here =>
        cases result
        exact .cached b idle device here
      | recycled b missing free =>
        cases result
        exact .recycled b idle device missing free
  | acquiresleep t =>
    simp only [step] at returned
    split at returned
    · next b waiting =>
      obtain ⟨unlocked, result⟩ := Option.ite_none_right_eq_some.mp returned
      cases result
      exact .acquiresleep waiting unlocked
    · cases returned
  | fill t =>
    simp only [step] at returned
    split at returned
    · next b entered =>
      cases returned
      exact .fill entered
    · cases returned
  | modify t data =>
    simp only [step] at returned
    split at returned
    · next b holding =>
      cases returned
      exact .modify holding
    · cases returned
  | bwrite t =>
    simp only [step] at returned
    split at returned
    · next b holding =>
      split at returned
      · cases returned
        exact .bwrite holding
      · cases returned
    · cases returned
  | releasesleep t =>
    simp only [step] at returned
    split at returned
    · next b holding =>
      split at returned
      · cases returned
        exact .releasesleep holding
      · cases returned
    · cases returned
  | brelse t =>
    simp only [step] at returned
    split at returned
    · next b releasing =>
      cases returned
      obtain ⟨links, relinked⟩ := brelse_eq s.bcache b
      exact .brelse releasing relinked
    · cases returned
  | bpin t =>
    simp only [step] at returned
    split at returned
    · next b holding =>
      cases returned
      exact .bpin holding
    · cases returned
  | bunpin t =>
    simp only [step] at returned
    split at returned
    · next b holding =>
      obtain ⟨pinned, result⟩ := Option.ite_none_right_eq_some.mp returned
      cases result
      exact .bunpin holding pinned
    · cases returned

@[simp]
theorem stage_goTo (s : State T D) (t u : T) (stage : Stage) :
    (s.goTo t stage).stage u = if u = t then stage else s.stage u :=
  update_apply ..

theorem locked_update (stages : s'.stage = update s.stage t stage)
    (same : stage.locked = (s.stage t).locked) (u : T) :
    (s'.stage u).locked = (s.stage u).locked := by
  rw [stages, update_apply]
  split
  · next here => rw [here, same]
  · rfl

theorem Locked.turn (ok : Locked owner s) (turn : Turn owner s action s') : Locked owner s' := by
  cases turn with
  | cached b idle | recycled b idle =>
    exact ok.congr (field_setBuf (s := s) Buf.lock rfl) (locked_update rfl (by rw [idle]; rfl))
  | @acquiresleep t b waiting unlocked =>
    have nobody : ∀ u, (s.stage u).locked ≠ some b := by
      intro u here
      rw [ok.lock u b here] at unlocked
      cases unlocked
    constructor
    · intro u b' here
      rw [stage_goTo] at here
      change ((s.setBuf b _).buf b').lock = _
      split at here
      · next same =>
        cases here
        rw [buf_setBuf_self, same]
      · have other : b' ≠ b := by
          rintro rfl
          exact nobody u here
        rw [s.buf_setBuf_of_ne _ other]
        exact ok.lock u b' here
    · intro u u' b' here there
      rw [stage_goTo] at here there
      split at here
      · next same =>
        cases here
        split at there
        · next same' => rw [same, same']
        · exact absurd there (nobody u')
      · split at there
        · cases there
          exact absurd here (nobody u)
        · exact ok.alone u u' b' here there
  | @fill t b entered =>
    refine ok.congr (field_setBuf (s := s) Buf.lock ?_) (locked_update rfl (by rw [entered]; rfl))
    unfold State.fill
    split <;> rfl
  | modify => exact ok.congr (field_setBuf Buf.lock rfl) fun _ => rfl
  | bwrite => exact ok.congr (fun _ => rfl) fun _ => rfl
  | @releasesleep t b holding =>
    have mine : ∀ u, u ≠ t → (s.stage u).locked ≠ some b := fun u other here =>
      other (ok.alone u t b here (by rw [holding]; rfl))
    constructor
    · intro u b' here
      change ((s.setBuf b _).buf b').lock = _
      rw [stage_goTo] at here
      split at here
      · cases here
      · next other =>
        have apart : b' ≠ b := by
          rintro rfl
          exact mine u other here
        rw [s.buf_setBuf_of_ne _ apart]
        exact ok.lock u b' here
    · intro u u' b' here there
      rw [stage_goTo] at here there
      split at here
      · cases here
      · split at there
        · cases there
        · exact ok.alone u u' b' here there
  | @brelse t b links releasing relinked =>
    refine ok.congr (fun b' => ?_) (locked_update rfl (by rw [releasing]; rfl))
    rw [relinked]
    refine field_setBuf (s := s) Buf.lock ?_ b'
    rfl
  | bpin | bunpin => exact ok.congr (field_setBuf (s := s) Buf.lock rfl) fun _ => rfl

theorem holding_update (stages : s'.stage = update s.stage t stage)
    (before : ∀ b, s.stage t ≠ .holding b) (after : ∀ b, stage ≠ .holding b) (u : T) (b : BufId) :
    s'.stage u = .holding b ↔ s.stage u = .holding b := by
  rw [stages, update_apply]
  split
  · next here =>
    rw [here]
    exact iff_of_false (after b) (before b)
  · rfl

theorem turn_stays (turn : Turn owner s action s') (b : BufId) :
    ((s'.buf b).data = (s.buf b).data ∨ (s.stage action.call).locked = some b) ∧
    (0 < (s.buf b).refcnt → (s'.buf b).block = (s.buf b).block ∧
      ((s.buf b).valid = true → (s'.buf b).valid = true)) := by
  -- a step that writes a new version of one buffer, its data under the sleep lock
  have stays : ∀ {b' : BufId} {new : Buf D} {n : State T D}, n.bcache.buf = update s.buf b' new →
      (new.data = (s.buf b').data ∨ (s.stage action.call).locked = some b') →
      (0 < (s.buf b').refcnt → new.block = (s.buf b').block ∧
        ((s.buf b').valid = true → new.valid = true)) →
      ((n.buf b).data = (s.buf b).data ∨ (s.stage action.call).locked = some b) ∧
      (0 < (s.buf b).refcnt → (n.buf b).block = (s.buf b).block ∧
        ((s.buf b).valid = true → (n.buf b).valid = true)) := by
    intro b' new n bufs data kept
    rw [show n.buf b = update s.buf b' new b from congrFun bufs b]
    by_cases same : b = b'
    · subst same
      rw [update_self]
      exact ⟨data, kept⟩
    · rw [update_of_ne same]
      exact ⟨Or.inl rfl, fun _ => ⟨rfl, id⟩⟩
  cases turn with
  | cached b' | acquiresleep | releasesleep | bpin | bunpin =>
    exact stays rfl (Or.inl rfl) fun _ => ⟨rfl, id⟩
  | recycled b' idle device missing free =>
    refine stays rfl (Or.inl rfl) fun counted => ?_
    rw [free] at counted
    exact absurd counted (Nat.lt_irrefl 0)
  | @fill t b' entered =>
    refine stays rfl (Or.inr ?_) fun _ => ⟨?_, fun valid => ?_⟩
    · change (s.stage t).locked = some b'
      rw [entered]
      rfl
    · unfold State.fill
      split <;> rfl
    · rw [State.fill, if_pos valid, valid]
  | @modify t b' data holding =>
    refine stays rfl (Or.inr ?_) fun _ => ⟨rfl, id⟩
    change (s.stage t).locked = some b'
    rw [holding]
    rfl
  | bwrite => exact ⟨Or.inl rfl, fun _ => ⟨rfl, id⟩⟩
  | @brelse t b' links releasing relinked =>
    exact stays (congrArg Bcache.buf relinked) (Or.inl rfl) fun _ => ⟨rfl, id⟩

variable [Fintype T]

theorem uses_goTo (s : State T D) (t : T) (stage : Stage) (b : BufId) :
    (s.goTo t stage).uses b + (if (s.stage t).buf = some b then 1 else 0) =
      s.uses b + (if stage.buf = some b then 1 else 0) :=
  RefCount.card_update (fun stage : Stage => stage.buf = some b) s.stage t stage

section

variable (ok : Counted s) {b : BufId}
include ok

theorem Counted.count (ringed : ∃ l, s'.bcache.Ringed l)
    (block : ∀ b', (s'.buf b').block = (s.buf b').block)
    (others : ∀ b', b' ≠ b → (s'.buf b').refcnt = (s.buf b').refcnt ∧ s'.pins b' = s.pins b')
    (before : ∀ b', (s.stage t).buf = some b' → b' = b) (after : ∀ b', stage.buf = some b' → b' = b)
    (stages : s'.stage = update s.stage t stage)
    (refcnt : (s'.buf b).refcnt + s.pins b + (if (s.stage t).buf = some b then 1 else 0) =
      (s.buf b).refcnt + s'.pins b + if stage.buf = some b then 1 else 0)
    (wants : ∀ u, u ≠ t → s'.wants u = s.wants u)
    (wanted : stage.buf = some b → (s.buf b).block = s'.wants t ∧ (s.buf b).dev ≠ 0) :
    Counted s' where
  ringed := ringed
  unique := ok.unique_congr block
  refcnt := by
    intro b'
    have moved := s.uses_goTo t stage b'
    rw [show (s.goTo t stage).uses b' = s'.uses b' from
      uses_congr (fun u => by rw [stages]; rfl) b'] at moved
    have counted := ok.refcnt b'
    by_cases same : b' = b
    · subst same
      omega
    · obtain ⟨refcnt', pins'⟩ := others b' same
      rw [if_neg fun here => same (before b' here), if_neg fun here => same (after b' here)]
        at moved
      omega
  wanted := by
    intro u b' here
    rw [stages] at here
    have devices : (s'.buf b').dev = (s.buf b').dev := congrArg Prod.fst (block b')
    rw [block, devices]
    by_cases same : u = t
    · subst same
      rw [update_self] at here
      obtain rfl := after b' here
      exact wanted here
    · rw [update_of_ne same] at here
      rw [wants u same]
      exact ok.wanted u b' here

theorem Counted.stay {new : Buf D}
    (block : new.block = (s.buf b).block) (refcnt : new.refcnt = (s.buf b).refcnt)
    (about : stage.buf = (s.stage t).buf) : Counted ((s.setBuf b new).goTo t stage) := by
  refine ok.congr rfl (field_setBuf Buf.block block) (field_setBuf Buf.refcnt refcnt) ?_ rfl rfl
  intro u
  rw [stage_goTo]
  split
  · next same => rw [same, about]
  · rfl

omit [DecidableEq T] in
theorem Counted.unused (free : (s.buf b).refcnt = 0) :
    s.uses b = 0 ∧ s.pins b = 0 ∧ ∀ u, (s.stage u).buf ≠ some b := by
  have counted := ok.refcnt b
  refine ⟨by omega, by omega, fun u about => ?_⟩
  have := uses_pos about
  omega

theorem Counted.recycled {t : T} {dev blockno : Nat} (idle : s.stage t = .idle) (device : dev ≠ 0)
    (missing : ∀ b', (s.buf b').block ≠ (dev, blockno)) (free : (s.buf b).refcnt = 0) :
    Counted { (s.setBuf b { s.buf b with
      dev := dev, blockno := blockno, valid := false, refcnt := 1 }).goTo t (.waiting b) with
      wants := update s.wants t (dev, blockno)
      left := update s.left (s.buf b).block none } := by
  obtain ⟨l, ringed⟩ := ok.ringed
  obtain ⟨unasked, unpinned, unused⟩ := ok.unused free
  have new := s.buf_setBuf_self b { s.buf b with
    dev := dev, blockno := blockno, valid := false, refcnt := 1 }
  have old : ∀ {b'}, b' ≠ b → _ := fun other => s.buf_setBuf_of_ne
    { s.buf b with dev := dev, blockno := blockno, valid := false, refcnt := 1 } other
  refine ⟨⟨l, ringed.congr rfl⟩, ?_, ?_, ?_⟩
  · intro b₁ b₂ device' same
    change ((s.setBuf b _).buf b₁).dev ≠ 0 at device'
    change ((s.setBuf b _).buf b₂).block = ((s.setBuf b _).buf b₁).block at same
    by_cases first : b₁ = b
    · by_cases second : b₂ = b
      · rw [first, second]
      · rw [first, new, old second] at same
        exact absurd same (missing b₂)
    · by_cases second : b₂ = b
      · rw [second, new, old first] at same
        exact absurd same.symm (missing b₁)
      · rw [old first] at device' same
        rw [old second] at same
        exact ok.unique b₁ b₂ device' same
  · intro b'
    have moved := s.uses_goTo t (.waiting b) b'
    have counted := ok.refcnt b'
    change ((s.setBuf b _).buf b').refcnt = (s.goTo t (.waiting b)).uses b' + s.pins b'
    simp only [idle, Stage.buf, reduceCtorEq, if_false, Option.some.injEq] at moved
    by_cases same : b' = b
    · subst same
      rw [if_pos rfl] at moved
      rw [new]
      change 1 = _
      omega
    · rw [if_neg (Ne.symm same)] at moved
      rw [old same]
      omega
  · intro u b' here
    change ((s.setBuf b _).buf b').block = update s.wants t (dev, blockno) u ∧
      ((s.setBuf b _).buf b').dev ≠ 0
    rw [stage_goTo] at here
    split at here
    · next same =>
      cases here
      rw [new, same, update_self]
      exact ⟨rfl, device⟩
    · next other =>
      have apart : b' ≠ b := fun same => unused u (same ▸ here)
      rw [old apart, update_of_ne other]
      exact ok.wanted u b' here

theorem Counted.pin {count pins : Nat}
    (holding : s.stage t = .holding b) (balance : count + s.pins b = (s.buf b).refcnt + pins) :
    Counted { s.setBuf b { s.buf b with refcnt := count } with
      pins := update s.pins b pins } := by
  obtain ⟨l, ringed⟩ := ok.ringed
  have here : ∀ b', (s.stage t).buf = some b' → b' = b := by simp [holding, Stage.buf]
  refine ok.count (t := t) (b := b) ⟨l, ringed.congr rfl⟩ (field_setBuf (s := s) Buf.block rfl)
    (fun b' other => ⟨congrArg Buf.refcnt (s.buf_setBuf_of_ne _ other), update_of_ne other ..⟩)
    here here (update_eq_self t s.stage).symm ?_ (fun _ _ => rfl) (ok.wanted t b)
  change ((s.setBuf b _).buf b).refcnt + s.pins b + _ = _ + update s.pins b pins b + _
  rw [buf_setBuf_self, update_self]
  dsimp only
  omega

end

theorem Counted.turn (ok : Counted s) (turn : Turn owner s action s') : Counted s' := by
  obtain ⟨l, ringed⟩ := ok.ringed
  cases turn with
  | @cached t dev blockno b idle device here =>
    refine ok.count (t := t) (b := b) ⟨l, ringed.congr rfl⟩
      (field_setBuf (s := s) Buf.block rfl) ?_ ?_ ?_ rfl ?_ ?_ ?_
    · intro b' other
      exact ⟨congrArg Buf.refcnt (s.buf_setBuf_of_ne _ other), rfl⟩
    · simp [idle, Stage.buf]
    · simp [Stage.buf]
    · change ((s.setBuf b _).buf b).refcnt + s.pins b + _ = (s.buf b).refcnt + s.pins b + _
      rw [buf_setBuf_self, idle]
      simp only [Stage.buf, reduceCtorEq, if_false, if_true]
      omega
    · exact fun u other => update_of_ne other ..
    · intro _
      change _ = update s.wants t (dev, blockno) t ∧ _
      rw [update_self, here]
      exact ⟨rfl, by rwa [show (s.buf b).dev = dev from congrArg Prod.fst here]⟩
  | recycled b idle device missing free => exact ok.recycled idle device missing free
  | acquiresleep waiting => exact ok.stay rfl rfl (by rw [waiting]; rfl)
  | @fill t b entered =>
    refine ok.stay ?_ ?_ (by rw [entered]; rfl)
    · unfold State.fill
      split <;> rfl
    · unfold State.fill
      split <;> rfl
  | modify holding =>
    exact ok.congr rfl (field_setBuf Buf.block rfl) (field_setBuf Buf.refcnt rfl)
      (fun _ => rfl) rfl rfl
  | bwrite holding =>
    exact ok.congr rfl (fun _ => rfl) (fun _ => rfl) (fun _ => rfl) rfl rfl
  | @releasesleep t b holding =>
    have moved : Counted ((s.setBuf b { s.buf b with lock := none }).goTo t (.releasing b)) :=
      ok.stay rfl rfl (by rw [holding]; rfl)
    exact moved.congr rfl (fun _ => rfl) (fun _ => rfl) (fun _ => rfl) rfl rfl
  | @brelse t b links releasing relinked =>
    have bufs := buf_brelse (t := t) relinked
    have pos := uses_pos (s := s) (t := t) (b := b) (by rw [releasing]; rfl)
    have counted := ok.refcnt b
    refine ok.count (t := t) (b := b) (Bcache.brelse_ringed ringed b) ?_ ?_ ?_ ?_ rfl ?_ ?_ ?_
    · intro b'
      rw [bufs]
      refine field_setBuf Buf.block ?_ b'
      rfl
    · intro b' other
      rw [bufs, s.buf_setBuf_of_ne _ other]
      exact ⟨rfl, rfl⟩
    · simp [releasing, Stage.buf]
    · simp [Stage.buf]
    · rw [bufs, buf_setBuf_self]
      simp only [releasing, Stage.buf, if_true]
      change (s.buf b).refcnt - 1 + s.pins b + 1 = (s.buf b).refcnt + s.pins b + 0
      omega
    · exact fun _ _ => rfl
    · rintro ⟨⟩
  | bpin holding => exact ok.pin holding (by omega)
  | @bunpin t b holding pinned =>
    have counted := ok.refcnt b
    exact ok.pin holding (by omega)

section

variable (ok : Stored s) (counted : Counted s)
include ok counted

theorem Stored.recycled {t : T} {b : BufId} {dev blockno : Nat} (idle : s.stage t = .idle)
    (missing : ∀ b', (s.buf b').block ≠ (dev, blockno)) (free : (s.buf b).refcnt = 0) :
    Stored { (s.setBuf b { s.buf b with
      dev := dev, blockno := blockno, valid := false, refcnt := 1 }).goTo t (.waiting b) with
      wants := update s.wants t (dev, blockno)
      left := update s.left (s.buf b).block none } := by
  obtain ⟨-, unpinned, free⟩ := counted.unused free
  have holding : ∀ u b', (s.goTo t (.waiting b)).stage u = .holding b' ↔ s.stage u = .holding b' :=
    holding_update rfl (by simp [idle]) (by simp)
  have new := s.buf_setBuf_self b { s.buf b with
    dev := dev, blockno := blockno, valid := false, refcnt := 1 }
  have old : ∀ {b'}, b' ≠ b → _ := fun other => s.buf_setBuf_of_ne
    { s.buf b with dev := dev, blockno := blockno, valid := false, refcnt := 1 } other
  -- what is forgotten is nothing that another valid buffer holds
  have lefts : ∀ b', b' ≠ b → (s.buf b').valid = true →
      update s.left (s.buf b).block Option.none (s.buf b').block =
        s.left (s.buf b').block := fun b' other valid =>
    update_of_ne (counted.block_ne (ok.device b' valid) other.symm).symm ..
  constructor
  · intro u b' here
    have held := (holding u b').mp here
    have other : b' ≠ b := by
      rintro rfl
      exact free u (by rw [held]; rfl)
    change ((s.setBuf b _).buf b').valid = true
    rw [old other]
    exact ok.held u b' held
  · intro b' pins
    have other : b' ≠ b := by
      rintro rfl
      exact absurd unpinned (Nat.ne_of_gt pins)
    change ((s.setBuf b _).buf b').valid = true
    rw [old other]
    exact ok.pinned b' pins
  · intro b' valid unused
    change ((s.setBuf b _).buf b').valid = true at valid
    change update s.left _ Option.none ((s.setBuf b _).buf b').block =
      some ((s.setBuf b _).buf b').data
    have other : b' ≠ b := by
      rintro rfl
      rw [new] at valid
      cases valid
    rw [old other] at valid ⊢
    rw [lefts b' other valid]
    exact ok.kept b' valid fun u held => unused u ((holding u b').mpr held)
  · intro b' invalid
    change ((s.setBuf b _).buf b').valid = false at invalid
    change update s.left _ Option.none ((s.setBuf b _).buf b').block = Option.none
    rw [update_apply]
    split
    · rfl
    · by_cases same : b' = b
      · subst same
        rw [new]
        exact ok.uncached (dev, blockno) missing
      · rw [old same] at invalid ⊢
        exact ok.unread b' invalid
  · intro block absent
    change ∀ b', ((s.setBuf b _).buf b').block ≠ block at absent
    change update s.left _ Option.none block = Option.none
    rw [update_apply]
    split
    · rfl
    · next other =>
      refine ok.uncached block fun b' here => ?_
      by_cases same : b' = b
      · exact other (same ▸ here).symm
      · exact absent b' (by rw [old same]; exact here)
  · intro b' valid
    change ((s.setBuf b _).buf b').valid = true at valid
    change ((s.setBuf b _).buf b').dev ≠ 0
    have other : b' ≠ b := by
      rintro rfl
      rw [new] at valid
      cases valid
    rw [old other] at valid ⊢
    exact ok.device b' valid

theorem Stored.releasesleep {t : T} {b : BufId} (holding : s.stage t = .holding b) :
    Stored { (s.setBuf b { s.buf b with lock := none }).goTo t (.releasing b) with
      left := update s.left (s.buf b).block (some (s.buf b).data) } := by
  have device := (counted.wanted t b (by rw [holding]; rfl)).2
  have valid := ok.held t b holding
  have fields : ∀ {α : Type} (field : Buf D → α), field { s.buf b with lock := none } =
      field (s.buf b) → ∀ b', field ((s.setBuf b { s.buf b with lock := none }).buf b') =
        field (s.buf b') := fun field same b' => field_setBuf field same b'
  have blocks := fields Buf.block rfl
  have valids := fields Buf.valid rfl
  have datas := fields Buf.data rfl
  have stages : ∀ u b', (s.goTo t (.releasing b)).stage u = .holding b' ↔
      u ≠ t ∧ s.stage u = .holding b' := by
    intro u b'
    rw [stage_goTo]
    split
    · next same => exact iff_of_false nofun fun both => both.1 same
    · next other => exact ⟨fun held => ⟨other, held⟩, And.right⟩
  have lefts : ∀ b', b' ≠ b → update s.left (s.buf b).block (some (s.buf b).data)
      (s.buf b').block = s.left (s.buf b').block := fun b' other =>
    update_of_ne (counted.block_ne device other) ..
  constructor
  · intro u b' held
    exact (valids b').trans (ok.held u b' ((stages u b').mp held).2)
  · intro b' pinned
    exact (valids b').trans (ok.pinned b' pinned)
  · intro b' valid' unused
    change update s.left _ _ ((s.setBuf b _).buf b').block = some ((s.setBuf b _).buf b').data
    rw [blocks, datas]
    by_cases same : b' = b
    · rw [same, update_self]
    · rw [lefts b' same]
      refine ok.kept b' ((valids b').symm.trans valid') fun u held => ?_
      refine unused u ((stages u b').mpr ⟨?_, held⟩)
      rintro rfl
      rw [holding] at held
      exact same (Stage.holding.inj held).symm
  · intro b' invalid
    have invalid' := (valids b').symm.trans invalid
    have other : b' ≠ b := by
      rintro rfl
      rw [valid] at invalid'
      cases invalid'
    change update s.left _ _ ((s.setBuf b _).buf b').block = none
    rw [blocks, lefts b' other]
    exact ok.unread b' invalid'
  · intro block missing
    have missing' : ∀ b', (s.buf b').block ≠ block := fun b' here =>
      missing b' ((blocks b').trans here)
    change update s.left _ _ block = none
    rw [update_of_ne (missing' b).symm]
    exact ok.uncached block missing'
  · intro b' valid'
    exact fun zero => ok.device b' ((valids b').symm.trans valid')
      ((fields Buf.dev rfl b').symm.trans zero)

theorem Stored.turn (turn : Turn owner s action s') : Stored s' := by
  cases turn with
  | @cached t dev blockno b idle device here =>
    exact ok.congr (field_setBuf (s := s) Buf.block rfl) (field_setBuf (s := s) Buf.valid rfl)
      (field_setBuf (s := s) Buf.data rfl) (holding_update rfl (by simp [idle]) (by simp))
      (fun _ => id) rfl
  | recycled b idle device missing free => exact ok.recycled counted idle missing free
  | acquiresleep waiting unlocked =>
    exact ok.congr (field_setBuf Buf.block rfl) (field_setBuf Buf.valid rfl)
      (field_setBuf Buf.data rfl) (holding_update rfl (by simp [waiting]) (by simp))
      (fun _ => id) rfl
  | @fill t b entered =>
    have device := (counted.wanted t b (by rw [entered]; rfl)).2
    refine ok.write (t := t) (s.buf_setBuf_self b (s.fill b)) ?_ ?_ device
      (fun b' other => s.buf_setBuf_of_ne _ other) (update_self ..)
      (fun u other => update_of_ne other ..) (by simp [entered]) rfl rfl
    · unfold State.fill
      split <;> rfl
    · unfold State.fill
      split
      · next valid => exact valid
      · rfl
  | @modify t b data holding =>
    have device := (counted.wanted t b (by rw [holding]; rfl)).2
    refine ok.write (t := t) (s.buf_setBuf_self b { s.buf b with data := data }) rfl
      (ok.held t b holding) device (fun b' other => s.buf_setBuf_of_ne _ other) holding
      (fun _ _ => rfl) (fun b' held => ?_) rfl rfl
    rw [holding] at held
    exact (Stage.holding.inj held).symm
  | bwrite =>
    exact ok.congr (fun _ => rfl) (fun _ => rfl) (fun _ => rfl) (fun _ _ => Iff.rfl)
      (fun _ => id) rfl
  | releasesleep holding => exact ok.releasesleep counted holding
  | @brelse t b links releasing relinked =>
    have bufs := buf_brelse (t := t) relinked
    have relinked' : Stored (s.setBuf b { s.buf b with refcnt := (s.buf b).refcnt - 1 }) :=
      ok.congr (field_setBuf Buf.block rfl) (field_setBuf Buf.valid rfl)
        (field_setBuf Buf.data rfl) (fun _ _ => Iff.rfl) (fun _ => id) rfl
    exact relinked'.congr (fun b' => congrArg Buf.block (bufs b'))
      (fun b' => congrArg Buf.valid (bufs b')) (fun b' => congrArg Buf.data (bufs b'))
      (holding_update rfl (by simp [setBuf, releasing]) (by simp)) (fun _ => id) rfl
  | @bpin t b holding =>
    have counted' : Stored (s.setBuf b { s.buf b with refcnt := (s.buf b).refcnt + 1 }) :=
      ok.congr (field_setBuf Buf.block rfl) (field_setBuf Buf.valid rfl)
        (field_setBuf Buf.data rfl) (fun _ _ => Iff.rfl) (fun _ => id) rfl
    refine { counted' with pinned := fun b' pinned => ?_ }
    by_cases same : b' = b
    · exact counted'.held t b' (by rw [same]; exact holding)
    · change 0 < update s.pins b (s.pins b + 1) b' at pinned
      rw [update_of_ne same] at pinned
      exact counted'.pinned b' pinned
  | @bunpin t b holding pinned =>
    refine ok.congr (field_setBuf (s := s) Buf.block rfl) (field_setBuf (s := s) Buf.valid rfl)
      (field_setBuf (s := s) Buf.data rfl) (fun _ _ => Iff.rfl) (fun b' pos => ?_) rfl
    by_cases same : b' = b
    · rwa [same]
    · change 0 < update s.pins b (s.pins b - 1) b' at pos
      rwa [update_of_ne same] at pos

end

theorem Ok.step (ok : Ok owner s) (returned : s.step owner action = some (.ok s')) :
    Ok owner s' := by
  obtain ⟨l, ringed⟩ := ok.counted.ringed
  have turn := turn_of_step ringed returned
  exact ⟨ok.counted.turn turn, ok.locked.turn turn, ok.stored.turn ok.counted turn⟩

theorem Reachable.ok (reached : Reachable owner s) : Ok owner s := by
  induction reached with
  | init zero disk => exact .init zero disk
  | step _ _ returned ih => exact ih.step returned

theorem Ok.step_ne_error (ok : Ok owner s) (action : Action T D) :
    s.step owner action ≠ some (.error .bwrite) ∧ s.step owner action ≠ some (.error .brelse) ∧
      s.step owner action ≠ some (.error .endless) := by
  suffices only : ∀ halt, s.step owner action = some (.error halt) → halt = .noBuffers by
    refine ⟨fun failed => ?_, fun failed => ?_, fun failed => ?_⟩
    · cases only _ failed
    · cases only _ failed
    · cases only _ failed
  intro halt failed
  cases action with
  | bget t dev blockno =>
    obtain ⟨-, result⟩ := Option.ite_none_right_eq_some.mp failed
    obtain ⟨l, ringed⟩ := ok.counted.ringed
    have got := Bcache.got_bget ringed dev blockno
    rw [Option.some.injEq, bget] at result
    cases outcome : s.bcache.bget dev blockno with
    | error other =>
      rw [outcome] at result got
      cases got
      cases result
      rfl
    | ok found =>
      rw [outcome] at result
      cases result
  | acquiresleep t | bunpin t =>
    simp only [State.step] at failed
    split at failed
    · obtain ⟨-, result⟩ := Option.ite_none_right_eq_some.mp failed
      cases result
    · cases failed
  | bwrite t | releasesleep t =>
    simp only [State.step] at failed
    split at failed
    · next b holding =>
      rw [if_pos (ok.holdingsleep holding)] at failed
      cases failed
    · cases failed
  | fill t | modify t | brelse t | bpin t =>
    simp only [State.step] at failed
    split at failed <;> cases failed

/-- In every interleaving: `next` leads from the head through each buffer once and back,
and `prev` is its inverse; no block has two buffers; `refcnt` counts the calls about the
buffer and its pins; a buffer that is held, waited for or pinned is not recycled; a holder
finds what the last holder has left, or what is on disk if the buffer has been recycled
since; and the contents of a pinned buffer are there. -/
theorem buffer_cache_integrity (reached : Reachable owner s) :
    (∃ l : List BufId, l.Nodup ∧ (∀ b, b ∈ l) ∧ Path s.bcache.links none none (l.map some)) ∧
    (∀ x, s.bcache.links.prev (s.bcache.links.next x) = x ∧
      s.bcache.links.next (s.bcache.links.prev x) = x) ∧
    (∀ b b', (s.buf b).dev ≠ 0 → (s.buf b').block = (s.buf b).block → b' = b) ∧
    (∀ b, (s.buf b).refcnt = s.uses b + s.pins b) ∧
    (∀ action s', s.step owner action = some (.ok s') → ∀ b,
      ((s'.buf b).data = (s.buf b).data ∨ (s.stage action.call).locked = some b) ∧
      (0 < (s.buf b).refcnt → (s'.buf b).block = (s.buf b).block ∧
        ((s.buf b).valid = true → (s'.buf b).valid = true))) ∧
    (∀ t t' b, (s.stage t).locked = some b → (s.stage t').locked = some b → t = t') ∧
    (∀ t b, s.stage t = .entered b → ∃ s', s.step owner (.fill t) = some (.ok s') ∧
      s'.stage t = .holding b ∧ (s'.buf b).block = s.wants t ∧
      (s'.buf b).data = (s.left (s.wants t)).getD (s.disk (s.wants t))) ∧
    (∀ b, 0 < s.pins b → (s.buf b).valid = true ∧
      ((∃ t, s.stage t = .holding b) ∨ s.left (s.buf b).block = some (s.buf b).data)) ∧
    (∀ action, s.step owner action ≠ some (.error .bwrite) ∧
      s.step owner action ≠ some (.error .brelse) ∧
      s.step owner action ≠ some (.error .endless)) := by
  have ok := reached.ok
  obtain ⟨l, ringed⟩ := ok.counted.ringed
  have everywhere : ∀ x : Node, x ∈ none :: l.map some := by
    intro x
    cases x with
    | none => exact List.mem_cons_self
    | some b => exact List.mem_cons_of_mem _ (List.mem_map_of_mem (ringed.all b))
  refine ⟨⟨l, ringed.nodup, ringed.all, ringed.ring.path⟩, fun x => ⟨?_, ?_⟩,
    ok.counted.unique, ok.counted.refcnt, fun action s' returned b => ?_, ok.locked.alone,
    ?_, ?_, ok.step_ne_error⟩
  · exact ringed.ring.path.prev_next (everywhere x)
  · refine ringed.ring.path.next_prev ?_
    have member := everywhere x
    simp only [List.mem_cons, List.mem_append, List.not_mem_nil, or_false] at member ⊢
    exact member.symm
  · exact turn_stays (turn_of_step ringed returned) b
  · intro t b entered
    have filled := ok.fill entered
    refine ⟨(s.setBuf b (s.fill b)).goTo t (.holding b), by simp only [step, entered],
      update_self .., ?_⟩
    change ((s.setBuf b (s.fill b)).buf b).block = _ ∧ ((s.setBuf b (s.fill b)).buf b).data = _
    rw [buf_setBuf_self]
    exact filled
  · intro b pinned
    have valid := ok.stored.pinned b pinned
    refine ⟨valid, ?_⟩
    by_cases held : ∃ t, s.stage t = .holding b
    · exact Or.inl held
    · exact Or.inr (ok.stored.kept b valid fun t here => held ⟨t, here⟩)

set_option maxRecDepth 10000 in
/-- Process 1 changes block 5, pins it and lets it go; process 2 then asks for the block. -/
theorem buffer_cache_integrity_pinned_block :
    ∃ s : State (Fin 2) Nat, Reachable (fun t => t.val + 1) s ∧ s.stage 1 = .entered 0 ∧
      (s.buf 0).refcnt = 2 ∧ s.uses 0 = 1 ∧ s.pins 0 = 1 ∧
      ∃ s', s.step (fun t => t.val + 1) (.fill 1) = some (.ok s') ∧ (s'.buf 0).data = 7 := by
  have start : Reachable (fun t : Fin 2 => t.val + 1) (State.init 0 fun _ => 0) := .init 0 _
  have got := start.step (.bget 0 1 5) rfl
  have locked := got.step (.acquiresleep 0) rfl
  have filled := locked.step (.fill 0) rfl
  have modified := filled.step (.modify 0 7) rfl
  have pinned := modified.step (.bpin 0) rfl
  have unlocked := pinned.step (.releasesleep 0) rfl
  have released := unlocked.step (.brelse 0) rfl
  have gotAgain := released.step (.bget 1 1 5) rfl
  have lockedAgain := gotAgain.step (.acquiresleep 1) rfl
  obtain ⟨-, -, -, counts, -, -, fills, -⟩ := buffer_cache_integrity lockedAgain
  obtain ⟨s', returned, -, -, data⟩ := fills 1 0 rfl
  have count := counts 0
  refine ⟨_, lockedAgain, rfl, rfl, Nat.add_right_cancel (count.symm.trans ?_), rfl, s', returned,
    data⟩
  rfl

end Xv6.Bio.State
