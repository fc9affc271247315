import Xv6.Console.Model

/-!
# Reads deliver the edited input

The bytes taken from the buffer, followed by those that are committed, are the committed bytes
of the line discipline, and the bytes between `w` and `e` are its open line.
-/

namespace Xv6.Console

open RingBuffer
open Function

/-! ## Input -/

/-- The indices and the buffer are where the line discipline is, after the bytes `done` have
been taken. -/
structure Follows (cons : Cons) (done : List Byte) (line : Line) : Prop where
  committed : done ++ cons.unread = line.committed
  pending : cons.pending = line.pending
  room : used cons.r cons.w + used cons.w cons.e ≤ INPUT_BUF_SIZE
  single : newline ∉ line.pending

section Input

variable {cons : Cons} {done : List Byte} {line : Line}

theorem Cons.length_unread (cons : Cons) : cons.unread.length = used cons.r cons.w :=
  length_contents ..

theorem Cons.length_pending (cons : Cons) : cons.pending.length = used cons.w cons.e :=
  length_contents ..

theorem used_edit (room : used cons.r cons.w + used cons.w cons.e ≤ INPUT_BUF_SIZE) :
    used cons.r cons.e = used cons.r cons.w + used cons.w cons.e :=
  used_trans (lt_of_le_of_lt room (by decide))

theorem killLoop_eq (single : newline ∉ cons.pending) :
    killLoop (used cons.w cons.e) cons = { cons with e := cons.w } := by
  generalize count : used cons.w cons.e = rounds
  induction rounds generalizing cons with
  | zero =>
    have same : cons.w = cons.e := used_eq_zero_iff.mp count
    exact congrArg (fun e => ({ cons with e := e } : Cons)) same.symm
  | succ rounds ih =>
    have apart : cons.w ≠ cons.e := by
      intro same
      rw [same, used_self] at count
      cases count
    have last := contents_eq_append_last cons.buf apart
    have shorter : used cons.w (cons.e - 1) = rounds := by
      have lengths := congrArg List.length last
      rw [List.length_append, length_contents, length_contents, count] at lengths
      exact (Nat.succ.inj lengths).symm
    rw [Cons.pending, last, List.mem_append, List.mem_singleton, not_or] at single
    have other : cons.buf (slot INPUT_BUF_SIZE (cons.e - 1)) ≠ newline :=
      fun here => single.2 here.symm
    rw [killLoop, if_pos ⟨apart.symm, other⟩]
    exact @ih { cons with e := cons.e - 1 } single.1 shorter

/-- `cons.buf[cons.e++ % INPUT_BUF_SIZE] = c`. -/
def Cons.store (cons : Cons) (c : Byte) : Cons :=
  { cons with
    buf := update cons.buf (slot INPUT_BUF_SIZE cons.e) c
    e := cons.e + 1 }

theorem store_cell (room : used cons.r cons.e < INPUT_BUF_SIZE) (c : Byte) {i : BitVec 32}
    (inside : used cons.r i < used cons.r cons.e) :
    (cons.store c).buf (slot INPUT_BUF_SIZE i) = cons.buf (slot INPUT_BUF_SIZE i) := by
  have apart := slot_ne_of_room (by decide : INPUT_BUF_SIZE ∣ 2 ^ 32) room inside
  rw [add_used] at apart
  exact update_of_ne apart _ _

section

variable (room : used cons.r cons.w + used cons.w cons.e < INPUT_BUF_SIZE)
include room

theorem store_unread (c : Byte) : (cons.store c).unread = cons.unread := by
  have total := used_edit room.le
  refine contents_congr fun i inside => store_cell (by omega) c ?_
  have short : i < 2 ^ 32 := by
    have := (cons.w - cons.r).isLt
    exact lt_trans inside this
  have offset : used cons.r (cons.r + BitVec.ofNat 32 i) = i := by
    rw [used, BitVec.add_comm, BitVec.add_sub_cancel, BitVec.toNat_ofNat, Nat.mod_eq_of_lt short]
  change i < used cons.r cons.w at inside
  change used cons.r (cons.r + BitVec.ofNat 32 i) < _
  omega

theorem store_pending (c : Byte) : (cons.store c).pending = cons.pending ++ [c] :=
  contents_store (by decide) (by decide) cons.buf c
    (lt_of_le_of_lt (Nat.le_add_left (used cons.w cons.e) _) room)

theorem store_used (c : Byte) : used cons.w (cons.store c).e = used cons.w cons.e + 1 := by
  have lengths := congrArg List.length (store_pending room c)
  rw [Cons.length_pending, List.length_append, Cons.length_pending] at lengths
  exact lengths

end

section

variable (follows : Follows cons done line)
include follows

theorem Follows.unread_length : line.committed.length - done.length = used cons.r cons.w := by
  rw [← follows.committed, List.length_append, Cons.length_unread]
  omega

theorem Follows.pending_length : line.pending.length = used cons.w cons.e := by
  rw [← follows.pending, Cons.length_pending]

section

variable (room : used cons.r cons.w + used cons.w cons.e < INPUT_BUF_SIZE)
include room

theorem Follows.store {c : Byte} (inner : c ≠ newline) :
    Follows (cons.store c) done { line with pending := line.pending ++ [c] } where
  committed := by
    rw [store_unread room]
    exact follows.committed
  pending := by rw [store_pending room, follows.pending]
  room := by
    rw [show (cons.store c).r = cons.r from rfl, show (cons.store c).w = cons.w from rfl,
      store_used room]
    omega
  single := by
    rw [List.mem_append, List.mem_singleton, not_or]
    exact ⟨follows.single, inner.symm⟩

theorem Follows.commit (c : Byte) :
    Follows { cons.store c with w := (cons.store c).e } done
      { committed := line.committed ++ (line.pending ++ [c]), pending := [] } where
  committed := by
    have used := store_used room c
    have whole : ({ cons.store c with w := (cons.store c).e } : Cons).unread =
        (cons.store c).unread ++ (cons.store c).pending :=
      contents_append _ (by
        change RingBuffer.used cons.r cons.w + RingBuffer.used cons.w (cons.store c).e < 2 ^ 32
        have : INPUT_BUF_SIZE < 2 ^ 32 := by decide
        omega)
    rw [whole, store_unread room, store_pending room, ← List.append_assoc, follows.committed,
      follows.pending]
  pending := contents_self ..
  room := by
    have used := store_used room c
    have total := @used_trans 32 cons.r cons.w (cons.store c).e (by
      have : INPUT_BUF_SIZE < 2 ^ 32 := by decide
      omega)
    rw [used_self]
    change RingBuffer.used cons.r (cons.store c).e + 0 ≤ _
    omega
  single := List.not_mem_nil

end

/-- Every character. -/
theorem Follows.key (c : Byte) : Follows (consoleintr cons c) done (line.key done.length c) := by
  have unreadLength := follows.unread_length
  have pendingLength := follows.pending_length
  unfold consoleintr Line.key
  by_cases dump : c = C 'P'
  · rw [if_pos dump, if_pos dump]
    exact follows
  rw [if_neg dump, if_neg dump]
  by_cases kill : c = C 'U'
  · rw [if_pos kill, if_pos kill]
    rw [← used, killLoop_eq (by rw [follows.pending]; exact follows.single)]
    exact ⟨follows.committed, contents_self .., by
      have room := follows.room
      dsimp only
      rw [used_self]
      omega, List.not_mem_nil⟩
  rw [if_neg kill, if_neg kill]
  by_cases erase : c = C 'H' ∨ c = delete
  · rw [if_pos erase, if_pos erase]
    by_cases empty : cons.e = cons.w
    · have nothing : line.pending = [] := by
        rw [← follows.pending, Cons.pending, empty]
        exact contents_self ..
      rw [if_neg (not_not.mpr empty), nothing, List.dropLast_nil, ← nothing]
      exact follows
    · rw [if_pos empty]
      have last := contents_eq_append_last cons.buf (Ne.symm empty)
      have front : line.pending.dropLast = contents cons.buf cons.w (cons.e - 1#32) := by
        rw [← follows.pending, Cons.pending, last, List.dropLast_concat]
      refine ⟨follows.committed, front.symm, ?_, fun mem =>
        follows.single (List.mem_of_mem_dropLast mem)⟩
      have shorter := congrArg List.length last
      rw [List.length_append, length_contents, length_contents] at shorter
      have room := follows.room
      change used cons.r cons.w + used cons.w (cons.e - 1#32) ≤ _
      omega
  rw [if_neg erase, if_neg erase]
  have total := used_edit follows.room
  rw [unreadLength, pendingLength, ← total, used]
  by_cases accepted : c ≠ 0 ∧ (cons.e - cons.r).toNat < INPUT_BUF_SIZE
  · rw [if_pos accepted, if_pos accepted]
    have room : used cons.r cons.w + used cons.w cons.e < INPUT_BUF_SIZE := by
      rw [← total]
      exact accepted.2
    generalize (if c = carriageReturn then newline else c) = stored
    have after : (cons.e + 1 - cons.r).toNat =
        line.committed.length - done.length + (line.pending ++ [stored]).length := by
      have longer := store_used room stored
      have sum := @used_trans 32 cons.r cons.w (cons.e + 1) (by
        change used cons.r cons.w + used cons.w (cons.store stored).e < _
        have : INPUT_BUF_SIZE < 2 ^ 32 := by decide
        omega)
      change used cons.r (cons.e + 1) = _
      change used cons.w (cons.e + 1) = _ at longer
      rw [List.length_append, List.length_singleton]
      omega
    dsimp only
    rw [after, unreadLength]
    by_cases ends : stored = newline ∨ stored = C 'D' ∨
        used cons.r cons.w + (line.pending ++ [stored]).length = INPUT_BUF_SIZE
    · rw [if_pos ends, if_pos ends]
      exact follows.commit room stored
    · rw [if_neg ends, if_neg ends]
      exact follows.store room fun here => ends (.inl here)
  · rw [if_neg accepted, if_neg accepted]
    exact follows

end

theorem consoleintr_cell (room : used cons.r cons.w + used cons.w cons.e ≤ INPUT_BUF_SIZE)
    (single : newline ∉ cons.pending) (c : Byte) {i : BitVec 32}
    (inside : used cons.r i < used cons.r cons.w) :
    (consoleintr cons c).buf (slot INPUT_BUF_SIZE i) = cons.buf (slot INPUT_BUF_SIZE i) ∧
      used (consoleintr cons c).r i < used (consoleintr cons c).r (consoleintr cons c).w := by
  have total := used_edit room
  unfold consoleintr
  split
  · exact ⟨rfl, inside⟩
  split
  · rw [← used, killLoop_eq single]
    exact ⟨rfl, inside⟩
  split
  · split <;> exact ⟨rfl, inside⟩
  split
  · next accepted =>
    have free : used cons.r cons.e < INPUT_BUF_SIZE := accepted.2
    generalize (if c = carriageReturn then newline else c) = stored
    have cell := store_cell free stored (lt_of_lt_of_le inside (by omega))
    dsimp only
    split
    · refine ⟨cell, ?_⟩
      have short : used cons.r cons.e + 1 < 2 ^ 32 :=
        lt_of_le_of_lt (Nat.succ_le_of_lt free) (by decide)
      have longer : used cons.r (cons.e + 1) = used cons.r cons.e + 1 := used_store short
      change used cons.r i < used cons.r (cons.e + 1)
      omega
    · exact ⟨cell, inside⟩
  · exact ⟨rfl, inside⟩

end Input

/-! ## Reads -/

/-- What a section of `consoleread` does, that copies out the bytes `data`. -/
structure Reads (copyout : Nat → Bool) (target n : Nat) (cons : Cons) (got : List Byte)
    (out : Section) (data : List Byte) : Prop where
  fixed : out.cons = { cons with r := out.cons.r }
  unread : out.took ++ out.cons.unread = cons.unread
  got : out.got = got ++ data
  count : out.n + data.length = n
  plain : C 'D' ∉ data
  took : out.ending ≠ .fault → out.took = data ++ if out.ending = .eof then [C 'D'] else []
  fault : out.ending = .fault → ∃ k, copyout k = false
  line : out.ending = .line → ∃ front, data = front ++ [newline] ∧ newline ∉ front
  inner : out.ending ≠ .line → newline ∉ data
  eof : out.ending = .eof → target ≤ out.n
  saved : out.ending = .saved → out.n < target ∧ out.cons.unread.head? = some (C 'D')
  filled : out.ending = .filled → out.n = 0

theorem unread_cons {cons : Cons} (nonempty : cons.r ≠ cons.w) :
    cons.unread = cons.buf (slot INPUT_BUF_SIZE cons.r) ::
      ({ cons with r := cons.r + 1 } : Cons).unread :=
  contents_take cons.buf nonempty

theorem readLoop_reads (killed : Bool) (copyout : Nat → Bool) (target n : Nat) (cons : Cons)
    (got : List Byte) :
    ∃ data, Reads copyout target n cons got (readLoop killed copyout target n cons got) data := by
  induction n generalizing cons got with
  | zero =>
    refine ⟨[], ?_⟩
    constructor <;> simp [readLoop]
  | succ n ih =>
    rw [readLoop]
    by_cases empty : cons.r = cons.w
    · rw [if_pos empty]
      refine ⟨[], ?_⟩
      cases killed <;> constructor <;> simp
    rw [if_neg empty]
    have front := unread_cons empty
    generalize byte : cons.buf (slot INPUT_BUF_SIZE cons.r) = c at front
    dsimp only
    by_cases control : c = C 'D'
    · subst control
      by_cases later : n + 1 < target
      · have back : cons.r + 1 - 1 = cons.r := BitVec.add_sub_cancel ..
        rw [if_pos later, back]
        refine ⟨[], ?_⟩
        constructor <;> simp [later, front]
      · rw [if_neg later]
        refine ⟨[], ?_⟩
        constructor <;> simp [front, not_lt.mp later]
    rw [if_neg control]
    by_cases copied : copyout (n + 1) = true
    · rw [copied, Bool.not_true, if_neg Bool.false_ne_true]
      by_cases last : c = newline
      · subst last
        refine ⟨[newline], ?_⟩
        constructor <;> simp [front, Ne.symm control]
      rw [if_neg last]
      obtain ⟨data, reads⟩ := ih { cons with r := cons.r + 1 } (got ++ [c])
      refine ⟨c :: data, ?_⟩
      generalize readLoop killed copyout target n _ _ = out at reads
      exact {
        fixed := reads.fixed
        unread := by rw [front, List.cons_append, reads.unread]
        got := by rw [reads.got, List.append_assoc, List.singleton_append]
        count := by rw [List.length_cons, ← reads.count, Nat.add_assoc]
        plain := by
          rw [List.mem_cons, not_or]
          exact ⟨Ne.symm control, reads.plain⟩
        took := fun ending => by rw [reads.took ending, List.cons_append]
        fault := reads.fault
        line := by
          intro ending
          obtain ⟨before, rfl, inner⟩ := reads.line ending
          refine ⟨c :: before, rfl, ?_⟩
          rw [List.mem_cons, not_or]
          exact ⟨Ne.symm last, inner⟩
        inner := by
          intro ending
          rw [List.mem_cons, not_or]
          exact ⟨Ne.symm last, reads.inner ending⟩
        eof := reads.eof
        saved := reads.saved
        filled := reads.filled }
    · rw [Bool.not_eq_true] at copied
      rw [copied, Bool.not_false, if_pos rfl]
      refine ⟨[], ?_⟩
      constructor <;> simp [front]
      exact ⟨n + 1, copied⟩

theorem Reads.follows {copyout : Nat → Bool} {target n : Nat} {cons : Cons}
    {got data done : List Byte} {out : Section} {line : Line}
    (reads : Reads copyout target n cons got out data) (follows : Follows cons done line) :
    Follows out.cons (done ++ out.took) line where
  committed := by rw [List.append_assoc, reads.unread, follows.committed]
  pending := by
    rw [reads.fixed]
    exact follows.pending
  room := by
    have lengths := congrArg List.length reads.unread
    rw [List.length_append, Cons.length_unread, Cons.length_unread] at lengths
    have room := follows.room
    rw [reads.fixed] at lengths ⊢
    dsimp only at lengths ⊢
    omega
  single := follows.single

/-! ## Calls -/

structure Call.Ok (call : Call) : Prop where
  count : call.n + call.got.length = call.target
  plain : C 'D' ∉ call.got
  inner : newline ∉ call.got

/-- A call that has returned: its bytes have no `^D` in them, and nothing after a newline; a
`^D` was taken only by a call without bytes, and is the next byte for a call that stopped at
it. -/
structure Return.Ok (ret : Return) : Prop where
  plain : C 'D' ∉ ret.got
  inner : newline ∉ ret.got.dropLast
  short : ret.got.length ≤ ret.target
  value : ret.ending ≠ .killed → ret.value = ret.got.length
  killed : ret.ending = .killed → ret.value = -1
  eof : ret.ending = .eof → ret.got = []
  saved : ret.ending = .saved → ret.got ≠ [] ∧ ret.unread.head? = some (C 'D')
  line : ret.ending = .line → ret.got.getLast? = some newline
  filled : ret.ending = .filled → ret.got.length = ret.target
  awake : ret.ending ≠ .asleep

def Return.took (ret : Return) : List Byte := ret.got ++ if ret.ending = .eof then [C 'D'] else []

section Hold

variable {copyout : Nat → Bool} {call : Call} {cons : Cons} {out : Section} {data : List Byte}

section

variable (reads : Reads copyout call.target call.n cons call.got out data) (ok : call.Ok)
include reads ok

theorem Reads.sleeps (asleep : out.ending = .asleep) :
    Call.Ok { call with n := out.n, got := out.got } where
  count := by
    have count := reads.count
    have before := ok.count
    dsimp only
    rw [reads.got, List.length_append]
    omega
  plain := by
    rw [reads.got, List.mem_append, not_or]
    exact ⟨ok.plain, reads.plain⟩
  inner := by
    rw [reads.got, List.mem_append, not_or]
    exact ⟨ok.inner, reads.inner (by rw [asleep]; nofun)⟩

theorem Reads.returns (awake : out.ending ≠ .asleep) :
    Return.Ok
      { target := call.target
        got := out.got
        ending := out.ending
        value := if out.ending = .killed then -1 else call.target - out.n
        unread := out.cons.unread } := by
  have count : out.n + out.got.length = call.target := by
    have sum := reads.count
    have before := ok.count
    rw [reads.got, List.length_append]
    omega
  constructor
  · rw [reads.got, List.mem_append, not_or]
    exact ⟨ok.plain, reads.plain⟩
  · rw [reads.got]
    by_cases last : out.ending = .line
    · obtain ⟨front, rfl, inner⟩ := reads.line last
      rw [← List.append_assoc, List.dropLast_concat, List.mem_append, not_or]
      exact ⟨ok.inner, inner⟩
    · intro mem
      rcases List.mem_append.mp (List.mem_of_mem_dropLast mem) with earlier | later
      · exact ok.inner earlier
      · exact reads.inner last later
  · dsimp only
    omega
  · intro alive
    dsimp only at alive ⊢
    rw [if_neg alive]
    omega
  · intro killed
    exact if_pos killed
  · intro eof
    have all := reads.eof eof
    exact List.length_eq_zero_iff.mp (by dsimp only; omega)
  · intro saved
    obtain ⟨part, next⟩ := reads.saved saved
    refine ⟨fun none => ?_, next⟩
    have zero := congrArg List.length none
    dsimp only at zero
    rw [List.length_nil] at zero
    omega
  · intro last
    obtain ⟨front, rfl, -⟩ := reads.line last
    rw [reads.got, ← List.append_assoc, List.getLast?_concat]
  · intro filled
    have none := reads.filled filled
    dsimp only
    omega
  · exact awake

end

end Hold

/-! ## Runs -/

section Runs

variable {P : Type} [DecidableEq P]

def soFar (call : Option Call) : List Byte := call.elim [] Call.got

def State.takenBy (s : State P) (p : P) : List Byte :=
  (s.taken.filter fun item => item.1 = p).map Prod.snd

structure Invariant (s : Watched P) : Prop where
  follows : Follows s.state.cons (s.state.taken.map Prod.snd) s.line
  calls : ∀ p call, s.state.calls p = some call → call.Ok
  returned : ∀ p, ∀ ret ∈ s.state.returned p, ret.Ok

/-- The bytes that each process took are those of its calls. -/
def Shared (s : State P) : Prop :=
  ∀ p, s.takenBy p = (s.returned p).flatMap Return.took ++ soFar (s.calls p)

/-- No `either_copyout` of the event fails. -/
def Event.Copies : Event P → Prop
  | .hold _ _ copyout => ∀ k, copyout k = true
  | _ => True

omit [DecidableEq P] in
theorem init_invariant : Invariant ({ state := .init, line := {} } : Watched P) where
  follows := by
    refine ⟨contents_self .., contents_self .., ?_, List.not_mem_nil⟩
    change used Cons.init.r Cons.init.w + used Cons.init.w Cons.init.e ≤ INPUT_BUF_SIZE
    decide
  calls := nofun
  returned := nofun

variable {s : State P}

theorem Invariant.hold {line : Line} (inv : Invariant ⟨s, line⟩) {p : P}
    {call : Call} (running : s.calls p = some call) (killed : Bool) (copyout : Nat → Bool) :
    Invariant ⟨s.hold p call killed copyout, line⟩ := by
  obtain ⟨data, reads⟩ := readLoop_reads killed copyout call.target call.n s.cons call.got
  have ok := inv.calls p call running
  unfold State.hold
  generalize readLoop killed copyout call.target call.n s.cons call.got = out at reads
  have follows := reads.follows inv.follows
  have log : (s.taken ++ out.took.map fun c => (p, c)).map Prod.snd =
      s.taken.map Prod.snd ++ out.took := by
    rw [List.map_append, List.map_map]
    exact congrArg _ (List.map_id _)
  rw [← log] at follows
  by_cases asleep : out.ending = .asleep
  · rw [if_pos asleep]
    refine ⟨follows, fun q other running' => ?_, inv.returned⟩
    by_cases same : q = p
    · subst same
      dsimp only at running'
      rw [update_self] at running'
      cases running'
      exact reads.sleeps ok asleep
    · dsimp only at running'
      rw [update_of_ne same] at running'
      exact inv.calls q other running'
  · rw [if_neg asleep]
    refine ⟨follows, fun q other running' => ?_, fun q ret mem => ?_⟩
    · by_cases same : q = p
      · subst same
        dsimp only at running'
        rw [update_self] at running'
        cases running'
      · dsimp only at running'
        rw [update_of_ne same] at running'
        exact inv.calls q other running'
    · dsimp only at mem
      by_cases same : q = p
      · subst same
        rw [update_self, List.mem_append, List.mem_singleton] at mem
        rcases mem with earlier | rfl
        · exact inv.returned q ret earlier
        · exact reads.returns ok asleep
      · rw [update_of_ne same] at mem
        exact inv.returned q ret mem

theorem Invariant.step {s : Watched P} (inv : Invariant s) (event : Event P) :
    Invariant (s.step event) := by
  cases event with
  | intr c =>
    refine ⟨?_, inv.calls, inv.returned⟩
    have follows := inv.follows.key c
    rw [List.length_map] at follows
    exact follows
  | call p n =>
    unfold Watched.step State.step
    cases running : s.state.calls p with
    | some _ =>
      simp only [running]
      exact inv
    | none =>
      simp only [running]
      refine ⟨inv.follows, fun q call running' => ?_, inv.returned⟩
      dsimp only at running'
      by_cases same : q = p
      · subst same
        rw [update_self] at running'
        cases running'
        exact ⟨rfl, List.not_mem_nil, List.not_mem_nil⟩
      · rw [update_of_ne same] at running'
        exact inv.calls q call running'
  | hold p killed copyout =>
    unfold Watched.step State.step
    cases running : s.state.calls p with
    | none =>
      simp only [running]
      exact inv
    | some call =>
      simp only [running]
      exact inv.hold running killed copyout

theorem run_invariant (events : List (Event P)) : Invariant (Watched.run events) :=
  List.foldlRecOn events Watched.step init_invariant fun _ inv event _ => inv.step event

theorem takenBy_append (s : State P) (p q : P) (took : List Byte) (cons : Cons)
    (calls : P → Option Call) (returned : P → List Return) :
    State.takenBy ⟨cons, calls, returned, s.taken ++ took.map fun c => (p, c)⟩ q =
      s.takenBy q ++ if q = p then took else [] := by
  unfold State.takenBy
  rw [List.filter_append, List.map_append]
  congr 1
  by_cases same : q = p
  · rw [if_pos same, List.filter_eq_self.mpr, List.map_map]
    · exact List.map_id _
    · intro item mem
      obtain ⟨c, -, rfl⟩ := List.mem_map.mp mem
      exact decide_eq_true same.symm
  · rw [if_neg same, List.filter_eq_nil_iff.mpr, List.map_nil]
    intro item mem
    obtain ⟨c, -, rfl⟩ := List.mem_map.mp mem
    simpa using Ne.symm same

theorem Shared.hold (shared : Shared s) {p : P} {call : Call}
    (running : s.calls p = some call) (killed : Bool) {copyout : Nat → Bool}
    (copies : ∀ k, copyout k = true) : Shared (s.hold p call killed copyout) := by
  obtain ⟨data, reads⟩ := readLoop_reads killed copyout call.target call.n s.cons call.got
  unfold State.hold
  generalize readLoop killed copyout call.target call.n s.cons call.got = out at reads
  have took := reads.took fun fault => by
    obtain ⟨k, failed⟩ := reads.fault fault
    rw [copies k] at failed
    cases failed
  have before := shared p
  rw [running] at before
  by_cases asleep : out.ending = .asleep
  · rw [if_pos asleep]
    intro q
    dsimp only
    rw [takenBy_append]
    by_cases same : q = p
    · subst same
      rw [if_pos rfl, update_self, before, took, if_neg (by rw [asleep]; nofun),
        List.append_nil, List.append_assoc]
      exact congrArg _ reads.got.symm
    · rw [if_neg same, List.append_nil, update_of_ne same]
      exact shared q
  · rw [if_neg asleep]
    intro q
    dsimp only
    rw [takenBy_append]
    by_cases same : q = p
    · subst same
      rw [if_pos rfl, update_self, update_self, before, took,
        List.flatMap_append, List.flatMap_singleton, Return.took]
      dsimp only [soFar, Option.elim]
      rw [reads.got]
      simp only [List.append_assoc, List.append_nil]
    · rw [if_neg same, List.append_nil, update_of_ne same, update_of_ne same]
      exact shared q

theorem Shared.step (shared : Shared s) {event : Event P} (copies : event.Copies) :
    Shared (s.step event) := by
  cases event with
  | intr c => exact shared
  | call p n =>
    unfold State.step
    cases running : s.calls p with
    | some _ => simpa only [running] using shared
    | none =>
      simp only [running]
      intro q
      have before := shared q
      by_cases same : q = p
      · subst same
        rw [running] at before
        dsimp only
        rw [update_self]
        exact before
      · dsimp only
        rw [update_of_ne same]
        exact before
  | hold p killed copyout =>
    unfold State.step
    cases running : s.calls p with
    | none => simpa only [running] using shared
    | some call =>
      simp only [running]
      exact shared.hold running killed copies

theorem run_shared (events : List (Event P)) (copies : ∀ event ∈ events, event.Copies) :
    Shared (Watched.run events).state :=
  List.foldlRecOn (motive := fun s => Shared s.state) events Watched.step (fun _ => rfl)
    fun _ shared event mem => shared.step (copies event mem)

/-- After any interleaving of input and reads: the indices are in order; no input changes a
committed byte; the bytes taken, followed by the committed ones, are the committed bytes of
the line discipline; and, as long as `either_copyout` does not fail, the bytes that each
process took are those its calls returned, with one `^D` for each call that returned at the
end of file. -/
theorem console_line_discipline (events : List (Event P)) :
    let s := (Watched.run events).state
    let line := (Watched.run events).line
    (used s.cons.r s.cons.w ≤ used s.cons.r s.cons.e ∧ used s.cons.r s.cons.e ≤ INPUT_BUF_SIZE) ∧
    (∀ c i, used s.cons.r i < used s.cons.r s.cons.w →
      (consoleintr s.cons c).buf (slot INPUT_BUF_SIZE i) = s.cons.buf (slot INPUT_BUF_SIZE i) ∧
      used (consoleintr s.cons c).r i < used (consoleintr s.cons c).r (consoleintr s.cons c).w) ∧
    s.taken.map Prod.snd ++ s.cons.unread = line.committed ∧
    s.cons.pending = line.pending ∧
    (∀ p, ∀ ret ∈ s.returned p, ret.Ok) ∧
    ((∀ event ∈ events, event.Copies) →
      ∀ p, s.takenBy p = (s.returned p).flatMap Return.took ++ soFar (s.calls p)) := by
  have inv := run_invariant events
  have follows := inv.follows
  have total := used_edit follows.room
  have room := follows.room
  refine ⟨⟨by omega, by omega⟩, fun c i inside => ?_, follows.committed, follows.pending,
    inv.returned, run_shared events⟩
  refine consoleintr_cell room ?_ c inside
  rw [follows.pending]
  exact follows.single

end Runs

/-- The keys `a`, `b`, backspace, return and `^D`, and two reads of ten bytes. -/
def typed : List (Event (Fin 1)) :=
  [.intr 0x61, .intr 0x62, .intr (C 'H'), .intr carriageReturn, .intr (C 'D'), .call 0 10,
    .hold 0 false fun _ => true, .call 0 10, .hold 0 false fun _ => true]

set_option maxRecDepth 10000 in
theorem console_line_discipline_line_and_eof :
    ((Watched.run typed).state.returned 0).map (fun ret => (ret.got, ret.value)) =
        [([0x61, newline], 2), ([], 0)] ∧
      (Watched.run typed).line.committed = [0x61, newline, C 'D'] ∧
      (Watched.run typed).state.takenBy 0 =
        ((Watched.run typed).state.returned 0).flatMap Return.took ++
          soFar ((Watched.run typed).state.calls 0) := by
  refine ⟨by decide, by decide, (console_line_discipline typed).2.2.2.2.2 ?_ 0⟩
  intro event member
  fin_cases member <;> first | exact trivial | exact fun _ => rfl

end Xv6.Console
