import Xv6.Bio.Commit
import Xv6.Bio.Pins

/-!
# Buffers for the commit

The pinned buffers are those of the blocks that are logged and not yet installed. For a block
of the log area that is not in the cache `commit` needs a buffer that is neither pinned nor in
use, and `bget` panics exactly when there is none.
-/

namespace Xv6.Bio

open Log (LOGBLOCKS)
open Function

variable {instr : Instr} {rest : List Instr}

/-! ## What `commit` has to do -/

/-- The blocks that are still to be installed. -/
def unpins (todo : List Instr) : List Nat := todo.filterMap fun
    | .bunpin blockno => some blockno
    | _ => none

/-- The calls inside `commit` are about the blocks that the instructions take them to be
about, and a block at home is pinned when its buffer is taken. -/
def Ready (dev : Nat) : (Part → Option (Nat × Nat)) → List Instr → Prop
  | _, [] => False
  | asked, .finish :: rest => rest = [] ∧ ∀ part, asked part = none
  | asked, .bget part blockno :: rest =>
    asked part = none ∧ (part = .home → blockno ∈ unpins rest) ∧
      Ready dev (update asked part (some (dev, blockno))) rest
  | asked, .bunpin blockno :: rest => asked .home = some (dev, blockno) ∧ Ready dev asked rest
  | asked, .brelse part :: rest => Ready dev (update asked part none) rest
  | asked, _ :: rest => Ready dev asked rest

@[simp]
theorem unpins_append (first second : List Instr) :
    unpins (first ++ second) = unpins first ++ unpins second :=
  List.filterMap_append

@[simp]
theorem unpins_writeLog (start tail : Nat) (lh : List Nat) :
    unpins (writeLog start tail lh) = [] := by
  induction lh generalizing tail with
  | nil => rfl
  | cons blockno rest ih =>
    rw [writeLog, unpins_append, ih]
    rfl

@[simp]
theorem unpins_installTrans (start tail : Nat) (lh : List Nat) :
    unpins (installTrans start tail lh) = lh := by
  induction lh generalizing tail with
  | nil => rfl
  | cons blockno rest ih =>
    rw [installTrans, unpins_append, ih]
    rfl

theorem unpins_commit (start : Nat) (lh : List Nat) : unpins (commit start lh) = lh := by
  unfold commit
  split
  · simp only [unpins_append, unpins_writeLog, unpins_installTrans]
    exact (List.append_nil _).trans (List.append_nil lh)
  · next empty =>
    rw [List.length_eq_zero_iff.mp (Nat.eq_zero_of_not_pos empty)]
    rfl

section Ready

variable {dev start : Nat}

theorem Ready.of_released {asked : Part → Option (Nat × Nat)} (released : ∀ part, asked part = none)
    (ready : Ready dev (fun _ => none) rest) : Ready dev asked rest := by
  rwa [funext released]

theorem ready_writeLog (tail : Nat) {lh : List Nat} (pinned : ∀ blockno ∈ lh, blockno ∈ unpins rest)
    (ready : Ready dev (fun _ => none) rest) :
    Ready dev (fun _ => none) (writeLog start tail lh ++ rest) := by
  induction lh generalizing tail with
  | nil => exact ready
  | cons blockno lh ih =>
    have later := ih (tail + 1) fun blockno' mem =>
      pinned blockno' (List.mem_cons_of_mem _ mem)
    refine ⟨rfl, nofun, rfl, fun _ => ?_, ?_⟩
    · change blockno ∈ unpins (writeLog start (tail + 1) lh ++ rest)
      rw [unpins_append, unpins_writeLog]
      exact pinned blockno List.mem_cons_self
    · change Ready dev _ (writeLog start (tail + 1) lh ++ rest)
      exact Ready.of_released (fun part => by cases part <;> rfl) later

theorem ready_installTrans (tail : Nat) (lh : List Nat) (ready : Ready dev (fun _ => none) rest) :
    Ready dev (fun _ => none) (installTrans start tail lh ++ rest) := by
  induction lh generalizing tail with
  | nil => exact ready
  | cons blockno lh ih =>
    rw [installTrans, List.append_assoc]
    refine ⟨rfl, nofun, rfl, fun _ => List.mem_cons_self, rfl, ?_⟩
    change Ready dev _ (installTrans start (tail + 1) lh ++ rest)
    exact Ready.of_released (fun part => by cases part <;> rfl) (ih (tail + 1))

theorem ready_writeHead (ready : Ready dev (fun _ => none) rest) :
    Ready dev (fun _ => none) (writeHead start ++ rest) := by
  refine ⟨rfl, nofun, ?_⟩
  change Ready dev _ rest
  exact Ready.of_released (fun part => by cases part <;> rfl) ready

theorem ready_commit (lh : List Nat) :
    Ready dev (fun _ => none) (commit start lh ++ [.finish]) := by
  have empty : Ready dev (fun _ => none) [.finish] := ⟨rfl, fun _ => rfl⟩
  unfold commit
  split
  · simp only [List.append_assoc]
    apply ready_writeLog 0
    · intro blockno mem
      simp [mem]
    · apply ready_writeHead
      apply ready_installTrans
      exact ready_writeHead empty
  · exact empty

end Ready

namespace Machine

variable {P D : Type} {K : Nat} {setup : Setup P D} {m m' : Machine P K D}

/-- The blocks that are logged and not yet installed. -/
def pinned (m : Machine P K D) : List Nat :=
  match m.committing with
  | none => m.lh
  | some _ => unpins m.todo

/-- What the calls of a process inside `commit` are about. -/
def asked (m : Machine P K D) (p : P) (part : Part) : Option (Nat × Nat) :=
  m.cache.asked (p, .inr part)

section

variable {done : State (Call P K) D → Machine P K D}
  {result : Option (Except Halt (State (Call P K) D))}

theorem lift_eq_ok (returned : lift done result = some (.ok m')) :
    ∃ cache, result = some (.ok cache) ∧ m' = done cache := by
  match result, returned with
  | some (.ok cache), returned =>
    cases returned
    exact ⟨cache, rfl, rfl⟩

theorem lift_eq_error {halt : Halt} :
    lift done result = some (.error (.bio halt)) ↔ result = some (.error halt) := by
  match result with
  | none | some (.ok cache) => exact ⟨nofun, nofun⟩
  | some (.error halt') =>
    constructor
    · intro same
      cases same
      rfl
    · intro same
      cases same
      rfl

end

variable {p : P} {action : Action (Call P K) D} {cache : State (Call P K) D}

theorem asked_commit [DecidableEq P] {part : Part}
    (turn : State.Turn setup.owner m.cache action cache)
    (call : action.call = (p, .inr part)) (rest : List Instr) :
    ({ m with cache := cache, todo := rest } : Machine P K D).asked p =
        update (m.asked p) part (m.cache.askedAfter action) ∧
      ∀ q, q ≠ p →
        ({ m with cache := cache, todo := rest } : Machine P K D).asked q = m.asked q := by
  have asked := State.asked_turn turn
  rw [call] at asked
  refine ⟨funext fun part' => (congrFun asked _).trans ?_,
    fun q other => funext fun part' => (congrFun asked _).trans ?_⟩
  · by_cases same : part' = part
    · rw [same, update_self, update_self]
    · rw [update_of_ne same, update_of_ne (by simpa using same)]
      rfl
  · rw [update_of_ne (by simp [other])]
    rfl

section

variable (acts : m.action setup p instr = some action)
include acts

theorem action_ready (ready : Ready setup.dev (m.asked p) (instr :: rest)) :
    ∃ part, action.call = (p, .inr part) ∧
      Ready setup.dev (update (m.asked p) part (m.cache.askedAfter action)) rest := by
  have same : ∀ part, Ready setup.dev (m.asked p) rest →
      Ready setup.dev (update (m.asked p) part (m.asked p part)) rest := by
    intro part ready
    rwa [update_eq_self]
  cases instr with
  | bget part blockno =>
    cases acts
    exact ⟨part, rfl, ready.2.2⟩
  | acquiresleep part | fill part | bwrite part | releasesleep part =>
    cases acts
    exact ⟨part, rfl, same part ready⟩
  | memmove dst src =>
    simp only [Machine.action] at acts
    split at acts
    · cases acts
      exact ⟨dst, rfl, same dst ready⟩
    · cases acts
  | header =>
    simp only [Machine.action] at acts
    split at acts
    · cases acts
      exact ⟨.log, rfl, same .log ready⟩
    · cases acts
  | bunpin blockno =>
    cases acts
    exact ⟨.home, rfl, same .home ready.2⟩
  | brelse part =>
    cases acts
    exact ⟨part, rfl, ready⟩
  | clear | finish => cases acts

theorem action_pins : (∀ t, action ≠ .bpin t) ∧
      ((∃ blockno, instr = .bunpin blockno ∧ action = .bunpin (p, .inr .home)) ∨
        (∀ t, action ≠ .bunpin t) ∧ ∀ rest, unpins (instr :: rest) = unpins rest) := by
  cases instr with
  | memmove dst src | header =>
    simp only [Machine.action] at acts
    split at acts
    · cases acts
      exact ⟨nofun, Or.inr ⟨nofun, fun _ => rfl⟩⟩
    · cases acts
  | bunpin blockno =>
    cases acts
    exact ⟨nofun, Or.inl ⟨blockno, rfl, rfl⟩⟩
  | clear | finish => cases acts
  | _ =>
    cases acts
    exact ⟨nofun, Or.inr ⟨nofun, fun _ => rfl⟩⟩

theorem exec_of_action [DecidableEq P] :
    m.exec setup p rest instr = lift (fun cache => { m with cache := cache, todo := rest })
        (m.cache.step setup.owner action) := by
  cases instr with
  | clear | finish => cases acts
  | _ => simp only [Machine.exec, acts, Option.bind_some]

end

variable [Fintype P]

structure LogOk (setup : Setup P D) (m : Machine P K D) : Prop where
  cache : m.cache.Ok setup.owner
  pinned : m.cache.Pinned setup.dev m.pinned
  distinct : m.pinned.Nodup
  counted : m.outstanding = (Finset.univ.filter fun p => (m.ops p).isSome).card
  exclusive : m.committing ≠ none → m.outstanding = 0
  cleared : m.committing ≠ none → .clear ∈ m.todo ∨ m.lh = []
  ready : ∀ p, m.committing = some p → Ready setup.dev (m.asked p) m.todo
  idle : ∀ p, m.committing ≠ some p → ∀ part, m.asked p part = none

theorem LogOk.init (zero : D) (disk : Nat × Nat → D) :
    LogOk setup (Machine.init zero disk : Machine P K D) where
  cache := .init zero disk
  pinned := ⟨fun b => by simp [Machine.init, State.init, Machine.pinned], nofun⟩
  distinct := List.nodup_nil
  counted := by simp [Machine.init]
  exclusive := fun _ => rfl
  cleared := fun _ => Or.inr rfl
  ready := nofun
  idle := fun _ _ _ => rfl

section

variable (ok : LogOk setup m)
include ok

theorem LogOk.no_commit {used : Finset Nat}
    (inside : m.ops p = some used) : m.committing = none := by
  by_contra busy
  have none := ok.counted.symm.trans (ok.exclusive busy)
  rw [Finset.card_eq_zero, Finset.filter_eq_empty_iff] at none
  exact none (Finset.mem_univ p) (by rw [inside]; rfl)

theorem LogOk.commit (free : m.committing = none) (last : m.outstanding = 0) :
    LogOk setup { m with
      committing := some p
      todo := Bio.commit setup.start m.lh ++ [.finish] } := by
  have logged : m.pinned = m.lh := by rw [Machine.pinned, free]
  have same : ({ m with committing := some p, todo := Bio.commit setup.start m.lh ++ [.finish] } :
      Machine P K D).pinned = m.lh := by
    change unpins (Bio.commit setup.start m.lh ++ [.finish]) = m.lh
    rw [unpins_append, unpins_commit]
    exact List.append_nil _
  have idle : ∀ q part, m.asked q part = none := by
    intro q
    apply ok.idle q
    rw [free]
    nofun
  have pinned := ok.pinned
  have distinct := ok.distinct
  rw [logged, ← same] at pinned distinct
  exact
    { cache := ok.cache
      pinned := pinned
      distinct := distinct
      counted := ok.counted
      exclusive := fun _ => last
      cleared := fun _ => by
        by_cases empty : 0 < m.lh.length
        · left
          simp [Bio.commit, empty]
        · exact Or.inr (List.length_eq_zero_iff.mp (Nat.eq_zero_of_not_pos empty))
      ready := fun q committing => by
        cases committing
        exact Ready.of_released (idle p) (ready_commit m.lh)
      idle := fun q _ => idle q }

theorem LogOk.clear (committing : m.committing = some p) (next : m.todo = .clear :: rest) :
    LogOk setup { m with lh := [], todo := rest } := by
  have same : ({ m with lh := [], todo := rest } : Machine P K D).pinned = m.pinned := by
    simp only [Machine.pinned, committing, next]
    rfl
  exact
    { cache := ok.cache
      pinned := by
        rw [same]
        exact ok.pinned
      distinct := by
        rw [same]
        exact ok.distinct
      counted := ok.counted
      exclusive := ok.exclusive
      cleared := fun _ => Or.inr rfl
      ready := fun q here => by
        have ready := ok.ready q here
        rw [next] at ready
        exact ready
      idle := ok.idle }

theorem LogOk.finish (committing : m.committing = some p) (next : m.todo = .finish :: rest) :
    LogOk setup { m with committing := none, todo := rest } := by
  have ready := ok.ready p committing
  rw [next] at ready
  obtain ⟨rfl, released⟩ := ready
  have before : m.pinned = [] := by
    rw [Machine.pinned, committing, next]
    rfl
  have empty : m.lh = [] := by
    have cleared := ok.cleared (by rw [committing]; nofun)
    rw [next] at cleared
    simpa using cleared
  have after : ({ m with committing := none, todo := [] } : Machine P K D).pinned = m.pinned := by
    rw [before]
    exact empty
  exact
    { cache := ok.cache
      pinned := by
        rw [after]
        exact ok.pinned
      distinct := by
        rw [after]
        exact ok.distinct
      counted := ok.counted
      exclusive := fun busy => absurd rfl busy
      cleared := fun busy => absurd rfl busy
      ready := nofun
      idle := fun q _ part => by
        by_cases same : q = p
        · rw [same]
          exact released part
        · refine ok.idle q (fun other => same ?_) part
          exact (Option.some.inj (committing.symm.trans other)).symm }

end

variable [DecidableEq P]

section

variable (ok : LogOk setup m)
include ok

theorem LogOk.turn (returned : m.cache.step setup.owner action = some (.ok cache)) :
    State.Turn setup.owner m.cache action cache := by
  obtain ⟨l, ringed⟩ := ok.cache.counted.ringed
  exact State.turn_of_step ringed returned

theorem LogOk.access (access : action.IsAccess = true)
    (returned : m.cache.step setup.owner action = some (.ok cache)) :
    LogOk setup { m with cache := cache } := by
  have turn := ok.turn returned
  have pin : ∀ t, action ≠ .bpin t := by
    rintro t rfl
    cases access
  have unpin : ∀ t, action ≠ .bunpin t := by
    rintro t rfl
    cases access
  have asked : ∀ p, ({ m with cache := cache } : Machine P K D).asked p = m.asked p := by
    intro p
    funext part
    have other : ((p, .inr part) : Call P K) ≠ action.call := by
      intro same
      have left : action.call.2.isLeft = true := by
        cases action <;> first | exact access | cases access
      rw [← same] at left
      cases left
    change cache.asked _ = _
    rw [State.asked_turn turn, update_of_ne other]
    rfl
  exact
    { cache := ok.cache.step returned
      pinned := ok.pinned.turn ok.cache.counted turn pin unpin
      distinct := ok.distinct
      counted := ok.counted
      exclusive := ok.exclusive
      cleared := ok.cleared
      ready := fun p committing => by
        rw [asked]
        exact ok.ready p committing
      idle := fun p other part => by
        rw [asked]
        exact ok.idle p other part }

theorem LogOk.setOp {value : Option (Finset Nat)} {outstanding : Nat} (free : m.committing = none)
    (count : outstanding + (if (m.ops p).isSome then 1 else 0) =
      m.outstanding + if value.isSome then 1 else 0) :
    LogOk setup { m with outstanding := outstanding, ops := update m.ops p value } where
  cache := ok.cache
  pinned := ok.pinned
  distinct := ok.distinct
  counted := by
    have counted := RefCount.card_update (fun op : Option (Finset Nat) => op.isSome = true) m.ops p
      value
    rw [← ok.counted, ← count] at counted
    exact (Nat.add_right_cancel counted).symm
  exclusive := fun busy => absurd free busy
  cleared := ok.cleared
  ready := ok.ready
  idle := ok.idle

theorem LogOk.pin {k : Fin K} {b : BufId}
    (free : m.committing = none) (holding : m.cache.stage (p, .inl k) = .holding b)
    (device : (m.cache.buf b).dev = setup.dev) (fresh : (m.cache.buf b).blockno ∉ m.lh)
    (returned : m.cache.step setup.owner (.bpin (p, .inl k)) = some (.ok cache)) :
    LogOk setup { m with cache := cache, lh := m.lh ++ [(m.cache.buf b).blockno] } := by
  have turn := ok.turn returned
  have logged : m.pinned = m.lh := by rw [Machine.pinned, free]
  have asked : cache.asked = m.cache.asked := (State.asked_turn turn).trans (update_eq_self _ _)
  have pinned := ok.pinned
  have distinct := ok.distinct
  rw [logged] at pinned distinct
  have logged' : ({ m with cache := cache, lh := m.lh ++ [(m.cache.buf b).blockno] } :
      Machine P K D).pinned = m.lh ++ [(m.cache.buf b).blockno] := by rw [Machine.pinned, free]
  exact
    { cache := ok.cache.step returned
      pinned := by
        rw [logged']
        exact pinned.pin ok.cache.counted holding device fresh turn
      distinct := by
        rw [logged', List.nodup_append]
        refine ⟨distinct, List.nodup_singleton _, fun a mem b last => ?_⟩
        rintro rfl
        exact fresh (List.mem_singleton.mp last ▸ mem)
      counted := ok.counted
      exclusive := ok.exclusive
      cleared := fun busy => absurd free busy
      ready := fun p committing => by
        rw [free] at committing
        cases committing
      idle := fun p other part => (congrFun asked _).trans (ok.idle p other part) }

section

variable (committing : m.committing = some p) (next : m.todo = instr :: rest)
  (acts : m.action setup p instr = some action)
include committing next acts

theorem LogOk.unpin (turn : State.Turn setup.owner m.cache action cache) :
    cache.Pinned setup.dev (unpins rest) := by
  have before : m.pinned = unpins (instr :: rest) := by rw [Machine.pinned, committing, next]
  have pinned := ok.pinned
  have distinct := ok.distinct
  have ready := ok.ready p committing
  rw [before] at pinned distinct
  rw [next] at ready
  obtain ⟨pin, ⟨blockno, rfl, rfl⟩ | ⟨unpin, same⟩⟩ := action_pins acts
  · exact pinned.unpin distinct ok.cache.counted ready.1 turn
  · rw [same] at pinned
    exact pinned.turn ok.cache.counted turn pin unpin

theorem LogOk.exec (returned : m.cache.step setup.owner action = some (.ok cache)) :
    LogOk setup { m with cache := cache, todo := rest } := by
  have turn := ok.turn returned
  have ready := ok.ready p committing
  rw [next] at ready
  obtain ⟨part, call, ready⟩ := action_ready acts ready
  obtain ⟨own, others⟩ := asked_commit turn call rest
  have before : m.pinned = unpins (instr :: rest) := by rw [Machine.pinned, committing, next]
  have after : ({ m with cache := cache, todo := rest } : Machine P K D).pinned = unpins rest := by
    rw [Machine.pinned, committing]
  exact
    { cache := ok.cache.step returned
      pinned := by
        rw [after]
        exact ok.unpin committing next acts turn
      distinct := by
        have distinct := ok.distinct
        rw [before] at distinct
        rw [after]
        exact distinct.sublist ((List.sublist_cons_self instr rest).filterMap _)
      counted := ok.counted
      exclusive := ok.exclusive
      cleared := fun busy => by
        have cleared := ok.cleared busy
        rw [next, List.mem_cons] at cleared
        obtain (rfl | later) | empty := cleared
        · cases acts
        · exact Or.inl later
        · exact Or.inr empty
      ready := fun q same => by
        obtain rfl : p = q := Option.some.inj (committing.symm.trans same)
        rw [own]
        exact ready
      idle := fun q other part' => by
        have apart : q ≠ p := by
          rintro rfl
          exact other committing
        rw [others q apart]
        exact ok.idle q other part' }

end

theorem LogOk.step {event : Event P K D}
    (returned : m.step setup event = some (.ok m')) : LogOk setup m' := by
  cases event with
  | access action =>
    obtain ⟨access, returned⟩ := Option.ite_none_right_eq_some.mp returned
    obtain ⟨cache, stepped, rfl⟩ := lift_eq_ok returned
    exact ok.access access stepped
  | beginOp p =>
    obtain ⟨⟨outside, free, room⟩, returned⟩ := Option.ite_none_right_eq_some.mp returned
    cases returned
    exact ok.setOp free (by rw [outside]; rfl)
  | logWrite p k =>
    simp only [Machine.step] at returned
    split at returned
    · next used b inside holding =>
      obtain ⟨⟨device, behaved, home⟩, returned⟩ := Option.ite_none_right_eq_some.mp returned
      have free := ok.no_commit inside
      have logged : LogOk setup { m with
          ops := update m.ops p (some (insert (m.cache.buf b).blockno used)) } :=
        ok.setOp free (by rw [inside]; rfl)
      split at returned
      · cases returned
      · split at returned
        · cases returned
          exact logged
        · next fresh =>
          obtain ⟨cache, stepped, rfl⟩ := lift_eq_ok returned
          exact logged.pin free holding device fresh stepped
    · cases returned
  | endOp p =>
    simp only [Machine.step] at returned
    split at returned
    · next used inside =>
      obtain ⟨⟨free, released⟩, returned⟩ := Option.ite_none_right_eq_some.mp returned
      have pos : 0 < m.outstanding := by
        rw [ok.counted, Finset.card_pos]
        exact ⟨p, Finset.mem_filter.mpr ⟨Finset.mem_univ p, by rw [inside]; rfl⟩⟩
      have ended : LogOk setup { m with
          outstanding := m.outstanding - 1
          ops := update m.ops p none } :=
        ok.setOp free (by
          rw [inside]
          exact Nat.sub_add_cancel pos)
      split at returned
      · next last =>
        cases returned
        exact ended.commit free last
      · cases returned
        exact ended
    · cases returned
  | commit =>
    simp only [Machine.step] at returned
    split at returned
    · next p instr rest committing next =>
      cases acts : m.action setup p instr with
      | some action =>
        rw [exec_of_action acts] at returned
        obtain ⟨cache, stepped, rfl⟩ := lift_eq_ok returned
        exact ok.exec committing next acts stepped
      | none =>
        cases instr with
        | clear =>
          cases returned
          exact ok.clear committing next
        | finish =>
          cases returned
          exact ok.finish committing next
        | _ =>
          simp only [Machine.exec, acts, Option.bind_none] at returned
          cases returned
    · cases returned

end

theorem Reachable.ok (reached : Reachable setup m) : LogOk setup m := by
  induction reached with
  | init zero disk => exact .init zero disk
  | step _ event returned ih => exact ih.step returned

theorem bget_of_noBuffers {T : Type} [DecidableEq T] {owner : T → Nat} {s : State T D}
    {action : Action T D} (failed : s.step owner action = some (.error .noBuffers)) :
    ∃ t dev blockno, action = .bget t dev blockno ∧
      s.bcache.bget dev blockno = .error .noBuffers := by
  cases action with
  | bget t dev blockno =>
    obtain ⟨_, result⟩ := Option.ite_none_right_eq_some.mp failed
    refine ⟨t, dev, blockno, rfl, ?_⟩
    rw [Option.some.injEq, State.bget] at result
    cases outcome : s.bcache.bget dev blockno with
    | error halt =>
      rw [outcome] at result
      cases result
      rfl
    | ok found =>
      rw [outcome] at result
      cases result
  | _ =>
    simp only [State.step] at failed
    repeat' split at failed
    all_goals cases failed

theorem bget_eq_noBuffers_iff {c : Bcache D} {l : List BufId} (ringed : c.Ringed l)
    {dev blockno : Nat} : c.bget dev blockno = .error .noBuffers ↔
      (∀ b, (c.buf b).block ≠ (dev, blockno)) ∧ ∀ b, (c.buf b).refcnt ≠ 0 := by
  have got := Bcache.got_bget ringed dev blockno
  generalize c.bget dev blockno = result at got
  cases got with
  | cached b here => exact ⟨nofun, fun both => absurd here (both.1 b)⟩
  | recycled b missing free => exact ⟨nofun, fun both => absurd free (both.2 b)⟩
  | noBuffers missing busy => exact ⟨fun _ => ⟨missing, busy⟩, fun _ => rfl⟩

/-- `commit` runs out of buffers exactly when it asks for a block of the log area that is
not in the cache while the blocks still pinned for the log and the other buffers in use are
all buffers there are. -/
theorem commit_out_of_buffers_iff (reached : Reachable setup m) :
    m.step setup .commit = some (.error (.bio .noBuffers)) ↔
      ∃ p blockno rest, m.committing = some p ∧ m.todo = .bget .log blockno :: rest ∧
        (∀ b, (m.cache.buf b).block ≠ (setup.dev, blockno)) ∧
        NBUF ≤ m.pinned.length + m.cache.taken := by
  have ok := reached.ok
  obtain ⟨l, ringed⟩ := ok.cache.counted.ringed
  have busy := ok.pinned.busy_iff setup.device ok.distinct ok.cache.counted
  constructor
  · intro failed
    simp only [Machine.step] at failed
    split at failed
    · next p instr rest committing next =>
      cases acts : m.action setup p instr with
      | none =>
        cases instr with
        | clear | finish => cases failed
        | _ =>
          simp only [Machine.exec, acts, Option.bind_none] at failed
          cases failed
      | some action =>
        rw [exec_of_action acts, lift_eq_error] at failed
        obtain ⟨t, dev, blockno, rfl, out⟩ := bget_of_noBuffers failed
        obtain ⟨missing, all⟩ := (bget_eq_noBuffers_iff ringed).mp out
        have ready := ok.ready p committing
        rw [next] at ready
        -- the instruction is a `bget`, and a block at home would be in the cache
        cases instr with
        | bget part blockno' =>
          cases acts
          refine ⟨p, blockno, rest, committing, ?_, missing, busy.mp all⟩
          cases part with
          | log => exact next
          | home =>
            have here : blockno ∈ m.pinned := by
              rw [Machine.pinned, committing, next]
              exact ready.2.1 rfl
            obtain ⟨b, cached⟩ := ok.pinned.cached blockno here
            exact absurd cached (missing b)
        | memmove | header =>
          simp only [Machine.action] at acts
          split at acts <;> cases acts
        | _ => cases acts
    · cases failed
  · rintro ⟨p, blockno, rest, committing, next, missing, full⟩
    have ready := ok.ready p committing
    rw [next] at ready
    have idle : m.cache.stage (p, .inr .log) = .idle := State.asked_eq_none.mp ready.1
    have out := (bget_eq_noBuffers_iff ringed).mpr ⟨missing, busy.mpr full⟩
    simp only [Machine.step, committing, next]
    rw [exec_of_action rfl, lift_eq_error]
    have admitted : m.cache.step setup.owner (.bget (p, .inr .log) setup.dev blockno) =
        some (m.cache.bget (p, .inr .log) setup.dev blockno) := if_pos ⟨idle, setup.device⟩
    rw [admitted, State.bget, out]
    rfl

/-! ## The largest transaction -/

omit [Fintype P] in
theorem Reachable.run (reached : Reachable setup m) {events : List (Event P K D)}
    (ran : m.run setup events = some (.ok m')) : Reachable setup m' := by
  induction events generalizing m with
  | nil =>
    cases ran
    exact reached
  | cons event rest ih =>
    simp only [Machine.run] at ran
    split at ran
    · next m₁ returned => exact ih (reached.step event returned) ran
    · next failed => exact absurd ran (failed m')

def panics : Option (Except Panic (Machine P K D)) → Option Panic
  | some (.error panic) => some panic
  | _ => none

omit [Fintype P] [DecidableEq P] in
theorem eq_error_of_panics {result : Option (Except Panic (Machine P K D))} {panic : Panic}
    (panicked : panics result = some panic) : result = some (.error panic) := by
  match result, panicked with
  | some (.error _), rfl => rfl

def mkfsSetup : Setup (Fin 3) Unit where
  dev := 1
  start := 2
  header := fun _ block => block
  pid := fun p => p + 1
  device := by decide

/-- `bread`, `log_write` and `brelse` of one block by a process. -/
def logBlock (p : Fin 3) (blockno : Nat) : List (Event (Fin 3) 1 Unit) :=
  let only : Fin 1 := Fin.last 0
  [.access (.bget (p, .inl only) 1 blockno), .access (.acquiresleep (p, .inl only)),
    .access (.fill (p, .inl only)), .logWrite p only, .access (.releasesleep (p, .inl only)),
    .access (.brelse (p, .inl only))]

/-- Three operations log ten blocks each. -/
def threeOperations : List (Event (Fin 3) 1 Unit) := [.beginOp 0, .beginOp 1, .beginOp 2] ++
    (List.range 30).flatMap (fun i => logBlock (Fin.ofNat 3 i) (46 + i)) ++
    [.endOp 0, .endOp 1, .endOp 2]

def oneOperation : List (Event (Fin 3) 1 Unit) := [.beginOp 0] ++ logBlock 0 46 ++ [.endOp 0]

def ran (events : List (Event (Fin 3) 1 Unit)) (test : Machine (Fin 3) 1 Unit → Bool) : Bool :=
  match (Machine.init () fun _ => ()).run mkfsSetup events with
  | some (.ok m) => test m
  | _ => false

theorem reachable_of_ran (events : List (Event (Fin 3) 1 Unit))
    (test : Machine (Fin 3) 1 Unit → Bool) (passed : ran events test = true) :
    ∃ m, Reachable mkfsSetup m ∧ test m = true := by
  unfold ran at passed
  split at passed
  · next m ended => exact ⟨m, (Reachable.init () _).run ended, passed⟩
  · cases passed

set_option maxRecDepth 10000 in
theorem commit_out_of_buffers_iff_one_operation :
    ∃ m : Machine (Fin 3) 1 Unit, Reachable mkfsSetup m ∧ m.todo.head? = some (.bget .log 3) ∧
      m.step mkfsSetup .commit ≠ some (.error (.bio .noBuffers)) := by
  obtain ⟨m, reached, facts⟩ := reachable_of_ran oneOperation
    (fun m => m.todo.head? = some (.bget .log 3) ∧ m.pinned.length + m.cache.taken < NBUF)
    (by decide +kernel)
  obtain ⟨next, room⟩ := of_decide_eq_true facts
  refine ⟨m, reached, next, fun failed => ?_⟩
  obtain ⟨_, _, _, _, _, _, full⟩ := (commit_out_of_buffers_iff reached).mp failed
  exact absurd full (Nat.not_le.mpr room)

set_option maxRecDepth 10000 in
/-- Three operations within their reservation leave no buffer for the first block that
`write_log` asks for. -/
theorem commit_panics_after_three_operations :
    ∃ m : Machine (Fin 3) 1 Unit, Reachable mkfsSetup m ∧ m.lh.length = LOGBLOCKS ∧
      m.lh.Nodup ∧ (∀ t, m.cache.stage t = .idle) ∧ m.todo.head? = some (.bget .log 3) ∧
      m.step mkfsSetup .commit = some (.error (.bio .noBuffers)) := by
  obtain ⟨m, reached, facts⟩ := reachable_of_ran threeOperations
    (fun m => m.lh.length = LOGBLOCKS ∧ m.lh.Nodup ∧ (∀ t, m.cache.stage t = .idle) ∧
      m.todo.head? = some (.bget .log 3) ∧
      panics (m.step mkfsSetup .commit) = some (.bio .noBuffers))
    (by decide +kernel)
  obtain ⟨length, nodup, idle, next, panicked⟩ := of_decide_eq_true facts
  exact ⟨m, reached, length, nodup, idle, next, eq_error_of_panics panicked⟩

end Machine

end Xv6.Bio
