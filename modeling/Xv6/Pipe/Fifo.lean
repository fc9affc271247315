import Xv6.Pipe.Model

/-!
# A pipe is a queue

The bytes that reads have copied out, in the order in which they returned, followed by the bytes
in the buffer are the bytes stored so far: a read keeps the lock from its first byte until it
returns. A write that finds room for all its bytes keeps the lock until it returns.
-/

namespace Xv6.Pipes

open RingBuffer Function

variable {stored : List Byte} {pi : Pipe} {held : Prop} {call : Call} {result : Int}

namespace Pipe

section

variable (pi)

theorem full_iff : pi.full = true ↔ used pi.nread pi.nwrite = PIPESIZE := by
  rw [used_eq_iff (by norm_num), full, beq_iff_eq]

theorem empty_iff : pi.empty = true ↔ pi.buffered = [] := by
  rw [← List.length_eq_zero_iff, buffered, length_contents, used_eq_zero_iff, empty, beq_iff_eq]

theorem used_store_of_room (ch : Byte) (room : used pi.nread pi.nwrite < PIPESIZE) :
    used (pi.store ch).nread (pi.store ch).nwrite = used pi.nread pi.nwrite + 1 := by
  have size : PIPESIZE = 512 := rfl
  exact @RingBuffer.used_store 32 pi.nread pi.nwrite (by omega)

theorem buffered_store_of_room (ch : Byte) (room : used pi.nread pi.nwrite < PIPESIZE) :
    (pi.store ch).buffered = pi.buffered ++ [ch] :=
  contents_store (by norm_num) (by norm_num) pi.data ch room

theorem used_drop (nonempty : ¬pi.empty = true) :
    used pi.nread pi.nwrite = used pi.drop.nread pi.drop.nwrite + 1 :=
  used_take (by simpa [empty] using nonempty)

theorem buffered_drop (nonempty : ¬pi.empty = true) :
    pi.buffered = pi.front :: pi.drop.buffered :=
  contents_take pi.data (by simpa [empty] using nonempty)

theorem close_counters (writable : Bool) :
    (pi.close writable).data = pi.data ∧ (pi.close writable).nread = pi.nread ∧
      (pi.close writable).nwrite = pi.nwrite := by
  cases writable <;> exact ⟨rfl, rfl, rfl⟩

end

end Pipe

/-! ## What is known of a call -/

/-- A call of `pipewrite` that does not hold the lock has not begun, or has slept and so
found too little room when it began. -/
def WriteCall.Waiting (call : WriteCall) : Prop := call.i = call.wrote.length ∧
    ((call.begun = none ∧ call.i = 0) ∨
      ∃ pi before, call.begun = some (pi, before) ∧ (pi.room : Int) < call.n)

/-- A call of `pipewrite` that holds the lock of `pi` and that began with enough room has
only added its own bytes since then. -/
def WriteCall.Storing (call : WriteCall) (pi : Pipe) (stored : List Byte) : Prop :=
  call.i = call.wrote.length ∧ ∃ pi₀ before, call.begun = some (pi₀, before) ∧ (call.n ≤ pi₀.room →
        used pi.nread pi.nwrite = used pi₀.nread pi₀.nwrite + call.i ∧
        stored = before ++ call.wrote)

/-- `held` says that the caller holds the lock. -/
def Call.Ok (pi : Pipe) (stored : List Byte) (held : Prop) : Call → Prop
  | .none => True
  | .writeAcquire call => call.Waiting
  | .writeSleep call => call.Waiting
  | .writeLoop call => held ∧ call.Storing pi stored
  | .readAcquire call => call.i = 0 ∧ call.got = []
  | .readSleep call => call.i = 0 ∧ call.got = []
  | .readWait call => held ∧ call.i = 0 ∧ call.got = []
  | .readCopy call =>
    held ∧ call.i = call.got.length ∧ (call.i = 0 → pi.empty = true → pi.writeopen = false)

theorem Call.Ok.unheld {pi' : Pipe} {stored' : List Byte} {held' : Prop}
    (ok : call.Ok pi stored held) (unheld : ¬held) :
    call.Ok pi' stored' held' := by
  cases call with
  | none => trivial
  | writeAcquire call | writeSleep call | readAcquire call | readSleep call => exact ok
  | writeLoop call | readWait call | readCopy call => exact absurd ok.1 unheld

theorem Call.Ok.wake (ok : call.Ok pi stored held) : call.wake.Ok pi stored held := by
  cases call <;> exact ok

theorem Call.Ok.wakeup (ok : call.Ok pi stored held) (chan : Chan) :
    (call.wakeup chan).Ok pi stored held := by
  cases chan <;> cases call <;> exact ok

def WriteReturn.Ok (stored : List Byte) (r : WriteReturn) : Prop :=
  (r.result = -1 ∨ r.result = r.call.wrote.length) ∧ ∃ pi before, r.call.begun = some (pi, before) ∧
      (r.call.n ≤ pi.room → before ++ r.call.wrote <+: stored)

def ReadReturn.Ok (r : ReadReturn) : Prop :=
  (r.result = r.call.got.length ∨ (r.result = -1 ∧ r.call.got = [])) ∧
    (0 < r.call.n → r.result = 0 → r.pi.buffered = [] ∧ r.pi.writeopen = false)

theorem WriteReturn.Ok.append {r : WriteReturn} (ok : r.Ok stored)
    (more : List Byte) : r.Ok (stored ++ more) := by
  obtain ⟨result, pi, before, begun, contiguous⟩ := ok
  exact ⟨result, pi, before, begun, fun fits =>
    (contiguous fits).trans (List.prefix_append stored more)⟩

theorem WriteCall.Storing.returned {call : WriteCall} (storing : call.Storing pi stored)
    (value : result = -1 ∨ result = call.i) :
    WriteReturn.Ok stored { call := call, result := result } := by
  obtain ⟨count, pi₀, before, begun, fits⟩ := storing
  refine ⟨by rwa [count] at value, pi₀, before, begun, fun enough => ?_⟩
  rw [(fits enough).2]

/-! ## The invariant -/

variable {P : Type} [DecidableEq P]

/-- What a call of `piperead` in its second loop has copied out. -/
def Call.copied : Call → List Byte
  | .readCopy call => call.got
  | _ => []

theorem Call.copied_wakeup (call : Call) (chan : Chan) :
    (call.wakeup chan).copied = call.copied := by
  cases chan <;> cases call <;> rfl

theorem Call.copied_wake (call : Call) : call.wake.copied = call.copied := by
  cases call <;> rfl

/-- What the read under way has copied out: a read holds the lock while it copies. -/
def copying (holder : Option P) (calls : P → Call) : List Byte :=
  holder.elim [] fun p => (calls p).copied

theorem copying_update {holder : Option P} {calls : P → Call} {p : P} (next : Call)
    (same : next.copied = (calls p).copied) :
    copying holder (update calls p next) = copying holder calls := by
  rcases holder with _ | q
  · rfl
  · by_cases here : q = p
    · subst here
      simpa [copying] using same
    · simp [copying, here]

structure Fifo (s : PipeState P) : Prop where
  used_le : used s.pi.nread s.pi.nwrite ≤ PIPESIZE
  queue : s.reads.flatMap (·.call.got) ++ copying s.holder s.calls ++ s.pi.buffered = s.stored
  calls : ∀ p, (s.calls p).Ok s.pi s.stored (s.holder = some p)
  writes : ∀ r ∈ s.writes, r.Ok s.stored
  reads : ∀ r ∈ s.reads, r.Ok

omit [DecidableEq P] in
theorem Fifo.init (data : Fin PIPESIZE → Byte) : Fifo (PipeState.init (P := P) data) where
  used_le := by simp [PipeState.init, Pipe.pipealloc]
  queue := by
    simp [PipeState.init, copying, Pipe.buffered, Pipe.pipealloc, contents_self]
  calls := fun _ => trivial
  writes := fun r mem => absurd mem List.not_mem_nil
  reads := fun r mem => absurd mem List.not_mem_nil

namespace Fifo

variable {s : PipeState P} {p : P}

omit [DecidableEq P] in
theorem wakeup (inv : Fifo s) (chan : Chan) : Fifo (s.wakeup chan) :=
  { inv with
    queue := by simpa only [copying, PipeState.wakeup, Call.copied_wakeup] using inv.queue
    calls := fun q => (inv.calls q).wakeup chan }

theorem calls_update (inv : Fifo s) {holder : Option P} {next : Call}
    (alone : ∀ q, q ≠ p → s.holder ≠ some q)
    (own : next.Ok pi stored (holder = some p)) (q : P) :
    (update s.calls p next q).Ok pi stored (holder = some q) := by
  by_cases same : q = p
  · subst same
    rwa [update_self]
  · rw [update_of_ne same]
    exact (inv.calls q).unheld (alone q same)

omit [DecidableEq P] in
theorem alone_of_holder (holder : s.holder = some p) (q : P) (other : q ≠ p) :
    s.holder ≠ some q := by
  rw [holder]
  exact fun same => other (Option.some.inj same).symm

omit [DecidableEq P] in
theorem alone_of_unlocked (unlocked : s.holder = none) (q : P) (_ : q ≠ p) : s.holder ≠ some q := by
  simp [unlocked]

section

variable (inv : Fifo s) (holder : s.holder = some p)
include inv holder

theorem returnWrite (idle : (s.calls p).copied = []) {call : WriteCall}
    (ok : WriteReturn.Ok s.stored { call := call, result := result }) :
    Fifo (s.returnWrite p call result) :=
  { inv with
    queue := by simpa [PipeState.returnWrite, copying, holder, idle] using inv.queue
    calls := inv.calls_update (alone_of_holder holder) trivial
    writes := by
      intro r mem
      rcases List.mem_append.mp mem with earlier | last
      · exact inv.writes r earlier
      · rwa [List.mem_singleton.mp last] }

theorem returnRead {call : ReadCall} (copied : (s.calls p).copied = call.got)
    (ok : ReadReturn.Ok { call := call, result := result, pi := s.pi }) :
    Fifo (s.returnRead p call result) :=
  { inv with
    queue := by simpa [PipeState.returnRead, copying, holder, copied] using inv.queue
    calls := inv.calls_update (alone_of_holder holder) trivial
    reads := by
      intro r mem
      rcases List.mem_append.mp mem with earlier | last
      · exact inv.reads r earlier
      · rwa [List.mem_singleton.mp last] }

theorem sleep (idle : (s.calls p).copied = []) {asleep : Call}
    (own : asleep.Ok s.pi s.stored False) : Fifo (s.sleep p asleep) :=
  { inv with
    queue := by simpa [PipeState.sleep, copying, holder, idle] using inv.queue
    calls := inv.calls_update (alone_of_holder holder) (own.unheld not_false) }

end

variable {s' : PipeState P}

theorem acquire (inv : Fifo s) {next : Call} (acquired : s.acquire p next = some s')
    (nothing : next.copied = []) (own : next.Ok s.pi s.stored True) : Fifo s' := by
  unfold PipeState.acquire at acquired
  split at acquired
  · next unlocked =>
    cases acquired
    exact { inv with
      queue := by simpa [copying, unlocked, nothing] using inv.queue
      calls := inv.calls_update (alone_of_unlocked unlocked) (by simpa using own) }
  · cases acquired

theorem start (inv : Fifo s) {next : Call} (idle : next.copied = (s.calls p).copied)
    (own : next.Ok s.pi s.stored False) : Fifo { s with calls := update s.calls p next } :=
  { inv with
    queue := (copying_update next idle).symm ▸ inv.queue
    calls := by
      intro q
      by_cases same : q = p
      · subst same
        simpa using own.unheld not_false
      · simpa [same] using inv.calls q }

/-! ## The steps -/

section

variable (inv : Fifo s)
include inv

theorem pipewriteLoop {call : WriteCall} (at_loop : s.calls p = .writeLoop call)
    (copyin : BitVec 64 → Option Byte) : Fifo (s.pipewriteLoop p call copyin) := by
  have own := inv.calls p
  rw [at_loop] at own
  obtain ⟨holder, storing⟩ := own
  have idle : (s.calls p).copied = [] := by rw [at_loop]; rfl
  have woken := (Call.copied_wakeup _ .nread).trans idle
  have returned := (inv.wakeup .nread).returnWrite (p := p) holder woken
    (storing.returned (Or.inr rfl))
  unfold PipeState.pipewriteLoop
  split
  · next more =>
    split
    · exact inv.returnWrite holder idle (storing.returned (Or.inl rfl))
    · split
      · next full =>
        -- A write that began with enough room never meets a full buffer.
        refine (inv.wakeup .nread).sleep holder woken ?_
        obtain ⟨count, pi₀, before, begun, fits⟩ := storing
        refine ⟨count, Or.inr ⟨pi₀, before, begun, ?_⟩⟩
        by_contra enough
        have grown := (fits (by omega)).1
        rw [(s.pi.full_iff).mp full] at grown
        unfold Pipe.room at enough
        omega
      · next notFull =>
        have room : used s.pi.nread s.pi.nwrite < PIPESIZE := by
          have := inv.used_le
          have := mt s.pi.full_iff.mpr notFull
          omega
        split
        · exact returned
        · next ch _ =>
          obtain ⟨count, pi₀, before, begun, fits⟩ := storing
          exact
            { used_le := by
                rw [s.pi.used_store_of_room ch room]
                omega
              queue := by
                rw [← inv.queue, s.pi.buffered_store_of_room ch room]
                simp [copying, holder, at_loop, Call.copied]
              calls := by
                refine inv.calls_update (alone_of_holder holder) ⟨holder, ?_⟩
                refine ⟨by simp [count], pi₀, before, begun, fun enough => ?_⟩
                obtain ⟨grown, history⟩ := fits enough
                refine ⟨?_, ?_⟩
                · rw [s.pi.used_store_of_room ch room, grown]
                  dsimp only
                  omega
                · rw [history, List.append_assoc]
              writes := fun r mem => (inv.writes r mem).append [ch]
              reads := inv.reads }
  · exact returned

theorem pipereadWait {call : ReadCall} (at_wait : s.calls p = .readWait call) :
    Fifo (s.pipereadWait p call) := by
  have own := inv.calls p
  rw [at_wait] at own
  obtain ⟨holder, first, nothing⟩ := own
  have idle : (s.calls p).copied = [] := by rw [at_wait]; rfl
  unfold PipeState.pipereadWait
  split
  · split
    · exact inv.returnRead holder (idle.trans nothing.symm)
        ⟨Or.inr ⟨rfl, nothing⟩, fun _ zero => by cases zero⟩
    · exact inv.sleep holder idle ⟨first, nothing⟩
  · next ready =>
    refine { inv with
      queue := (copying_update (.readCopy call) (nothing.trans idle.symm)).symm ▸ inv.queue
      calls := inv.calls_update (alone_of_holder holder) ⟨holder, by simp [first, nothing], ?_⟩ }
    intro _ empty
    simpa [empty] using ready

theorem pipereadCopy {call : ReadCall} (at_copy : s.calls p = .readCopy call)
    (copyout : BitVec 64 → Bool) : Fifo (s.pipereadCopy p call copyout) := by
  have own := inv.calls p
  rw [at_copy] at own
  obtain ⟨holder, count, closed⟩ := own
  have copied : (s.calls p).copied = call.got := by rw [at_copy]; rfl
  have woken := (Call.copied_wakeup _ .nwrite).trans copied
  unfold PipeState.pipereadCopy
  split
  · next more =>
    split
    · next empty =>
      refine (inv.wakeup .nwrite).returnRead holder woken ⟨Or.inl (by simp [count]), ?_⟩
      intro _ zero
      have first : call.i = 0 := Int.ofNat_eq_zero.mp zero
      exact ⟨s.pi.empty_iff.mp empty, closed first empty⟩
    · next nonempty =>
      split
      · exact
          { inv with
            used_le := by
              have := inv.used_le
              have := s.pi.used_drop nonempty
              dsimp only
              omega
            queue := by
              rw [← inv.queue, s.pi.buffered_drop nonempty]
              simp [copying, holder, at_copy, Call.copied]
            calls := inv.calls_update (alone_of_holder holder)
              ⟨holder, by simp [count], fun absurdly => by simp at absurdly⟩ }
      · refine (inv.wakeup .nwrite).returnRead holder woken ?_
        by_cases first : call.i = 0
        · have nothing : call.got = [] := List.eq_nil_of_length_eq_zero (count ▸ first)
          rw [if_pos first]
          exact ⟨Or.inr ⟨rfl, nothing⟩, fun _ zero => by cases zero⟩
        · rw [if_neg first]
          exact ⟨Or.inl (by simp [count]), fun _ zero =>
            absurd (Int.ofNat_eq_zero.mp zero) first⟩
  · next done =>
    refine (inv.wakeup .nwrite).returnRead holder woken ⟨Or.inl (by simp [count]), ?_⟩
    intro pos zero
    dsimp only at pos zero
    omega

theorem advance {copyin : BitVec 64 → Option Byte} {copyout : BitVec 64 → Bool}
    (next : s.advance p copyin copyout = some s') : Fifo s' := by
  have own := inv.calls p
  unfold PipeState.advance at next
  split at next
  · next call at_acquire =>
    rw [at_acquire] at own
    obtain ⟨count, fresh | ⟨pi, before, begun, short⟩⟩ := own
    · refine inv.acquire next rfl ⟨trivial, count, s.pi, s.stored, by simp [fresh.1], fun _ => ?_⟩
      have nothing : call.wrote = [] := List.eq_nil_of_length_eq_zero (count ▸ fresh.2)
      simp [fresh.2, nothing]
    · exact inv.acquire next rfl ⟨trivial, count, pi, before, by simp [begun], fun enough =>
        absurd enough (not_le.mpr short)⟩
  · next call at_loop =>
    cases next
    exact inv.pipewriteLoop at_loop copyin
  · next call at_acquire =>
    rw [at_acquire] at own
    exact inv.acquire next rfl ⟨trivial, own⟩
  · next call at_wait =>
    cases next
    exact inv.pipereadWait at_wait
  · next call at_copy =>
    cases next
    exact inv.pipereadCopy at_copy copyout
  all_goals cases next

omit [DecidableEq P] in
theorem pipeclose (unlocked : s.holder = none) (writable : Bool) :
    Fifo (s.pipeclose writable) := by
  obtain ⟨data, nread, nwrite⟩ := s.pi.close_counters writable
  exact
    { used_le := by
        simpa only [PipeState.pipeclose, nread, nwrite] using inv.used_le
      queue := by
        simpa only [PipeState.pipeclose, PipeState.wakeup, copying, Call.copied_wakeup,
          Pipe.buffered, data, nread, nwrite] using inv.queue
      calls := fun q => by
        refine ((inv.calls q).unheld ?_).wakeup _
        simp [unlocked]
      writes := inv.writes
      reads := inv.reads }

theorem kill (p : P) : Fifo (s.kill p) :=
  { inv with
    queue := (copying_update _ (s.calls p).copied_wake).symm ▸ inv.queue
    calls := by
      intro q
      by_cases same : q = p
      · subst same
        simpa [PipeState.kill] using (inv.calls q).wake
      · simpa [PipeState.kill, same] using inv.calls q }

theorem step (step : PipeStep s s') : Fifo s' := by
  cases step with
  | pipewrite p addr n idle live => exact inv.start (by rw [idle]; rfl) ⟨rfl, Or.inl ⟨rfl, rfl⟩⟩
  | piperead p addr n idle live => exact inv.start (by rw [idle]; rfl) ⟨rfl, rfl⟩
  | advance p copyin copyout s' live next => exact inv.advance next
  | pipeclose writable live unlocked => exact inv.pipeclose unlocked writable
  | kill p => exact inv.kill p

end

end Fifo

theorem PipeReachable.fifo {s : PipeState P} (reach : PipeReachable s) : Fifo s := by
  induction reach with
  | init data => exact Fifo.init data
  | step _ step ih => exact ih.step step

/-! ## Writes that find enough room -/

/-- A number of steps of one process; no other process comes in between. -/
def PipeState.advances (s : PipeState P) (p : P) (copyin : BitVec 64 → Option Byte)
    (copyout : BitVec 64 → Bool) : Nat → Option (PipeState P)
  | 0 => some s
  | steps + 1 =>
    match s.advance p copyin copyout with
    | none => none
    | some next => next.advances p copyin copyout steps

theorem pipewriteLoop_store {s : PipeState P} {p : P} {call : WriteCall}
    {copyin : BitVec 64 → Option Byte} {ch : Byte} (more : (call.i : Int) < call.n)
    (readers : s.pi.readopen = true) (alive : s.killed p = false)
    (room : used s.pi.nread s.pi.nwrite < PIPESIZE)
    (readable : copyin (call.addr + BitVec.ofNat 64 call.i) = some ch) :
    s.pipewriteLoop p call copyin =
      { s with
        pi := s.pi.store ch
        calls := update s.calls p
          (.writeLoop { call with i := call.i + 1, wrote := call.wrote ++ [ch] })
        stored := s.stored ++ [ch] } := by
  have notFull : ¬s.pi.full = true := by
    rw [s.pi.full_iff]
    omega
  simp [PipeState.pipewriteLoop, more, readers, alive, notFull, readable]

theorem advances_writeLoop (p : P) (copyin : BitVec 64 → Option Byte)
    (copyout : BitVec 64 → Bool) (bytes : List Byte) (s : PipeState P) (call : WriteCall)
    (at_loop : s.calls p = .writeLoop call) (rest : call.n = call.i + bytes.length)
    (readers : s.pi.readopen = true) (alive : s.killed p = false)
    (room : used s.pi.nread s.pi.nwrite + bytes.length ≤ PIPESIZE)
    (readable : ∀ j (inside : j < bytes.length),
      copyin (call.addr + BitVec.ofNat 64 (call.i + j)) = some bytes[j]) :
    ∃ s', s.advances p copyin copyout (bytes.length + 1) = some s' ∧ s'.stored = s.stored ++ bytes ∧
      s'.writes = s.writes ++
        [{ call := { call with i := call.i + bytes.length, wrote := call.wrote ++ bytes }
           result := call.n }] := by
  induction bytes generalizing s call with
  | nil =>
    have done : ¬(call.i : Int) < call.n := by simp [rest]
    have result : call.n = (call.i : Int) := by simpa using rest
    refine ⟨(s.wakeup .nread).returnWrite p call call.i, ?_, ?_, ?_⟩
    · simp [PipeState.advances, PipeState.advance, at_loop, PipeState.pipewriteLoop, done]
    · simp [PipeState.returnWrite, PipeState.wakeup]
    · simpa [PipeState.returnWrite, PipeState.wakeup] using result.symm
  | cons ch bytes ih =>
    rw [List.length_cons] at rest room
    have space : used s.pi.nread s.pi.nwrite < PIPESIZE := by omega
    have first : copyin (call.addr + BitVec.ofNat 64 call.i) = some ch := readable 0 (by simp)
    have stored := @pipewriteLoop_store P _ s p call copyin ch (by omega) readers alive space
      first
    obtain ⟨s', steps, history, returned⟩ := ih (s.pipewriteLoop p call copyin)
      { call with i := call.i + 1, wrote := call.wrote ++ [ch] }
      (by simp [stored]) (by push_cast at rest ⊢; omega) (by rw [stored]; exact readers)
      (by simpa [stored] using alive)
      (by
        rw [stored]
        have := s.pi.used_store_of_room ch space
        dsimp only
        omega)
      (by
        intro j inside
        have byte := readable (j + 1) (by simpa using inside)
        rw [List.getElem_cons_succ] at byte
        rw [← byte]
        rw [Nat.add_assoc, Nat.add_comm 1 j])
    refine ⟨s', ?_, ?_, ?_⟩
    · rw [List.length_cons, PipeState.advances]
      simpa only [PipeState.advance, at_loop] using steps
    · rw [history, stored]
      simp
    · rw [returned, stored]
      simp [Nat.add_assoc, Nat.add_comm 1]

/-- The counters never drift apart by more than `PIPESIZE`, nothing is lost, duplicated or
reordered, an end of file is read only from an empty pipe that is closed for writing, and
a write that finds enough room is stored in one piece. -/
theorem pipe_fifo_integrity {s : PipeState P} (reachable : PipeReachable s) :
    (s.pi.nwrite - s.pi.nread).toNat ≤ PIPESIZE ∧
    s.reads.flatMap (·.call.got) ++ copying s.holder s.calls ++ s.pi.buffered = s.stored ∧
    (∀ r ∈ s.reads, (r.result = r.call.got.length ∨ (r.result = -1 ∧ r.call.got = [])) ∧
      (0 < r.call.n → r.result = 0 → r.pi.buffered = [] ∧ r.pi.writeopen = false)) ∧
    (∀ r ∈ s.writes, (r.result = -1 ∨ r.result = r.call.wrote.length) ∧
      ∃ pi before, r.call.begun = some (pi, before) ∧
        (r.call.n ≤ pi.room → before ++ r.call.wrote <+: s.stored)) ∧
    (∀ (p : P) (addr : BitVec 64) (bytes : List Byte) (copyin : BitVec 64 → Option Byte)
        (copyout : BitVec 64 → Bool),
      s.calls p = .writeAcquire { addr := addr, n := bytes.length } →
      s.holder = none → s.pi.readopen = true → s.killed p = false →
      bytes.length ≤ s.pi.room →
      (∀ j (inside : j < bytes.length), copyin (addr + BitVec.ofNat 64 j) = some bytes[j]) →
      ∃ s', s.advances p copyin copyout (bytes.length + 2) = some s' ∧
        s'.stored = s.stored ++ bytes ∧
        ∃ r : WriteReturn, s'.writes = s.writes ++ [r] ∧
          r.result = bytes.length ∧ r.call.wrote = bytes) := by
  have inv := reachable.fifo
  refine ⟨inv.used_le, inv.queue, inv.reads, inv.writes, ?_⟩
  intro p addr bytes copyin copyout at_acquire unlocked readers alive enough readable
  have bound := inv.used_le
  unfold Pipe.room at enough
  obtain ⟨s', steps, history, returned⟩ := advances_writeLoop p copyin copyout bytes
    { s with
      holder := some p
      calls := update s.calls p
        (.writeLoop { addr := addr, n := bytes.length, begun := some (s.pi, s.stored) }) }
    { addr := addr, n := bytes.length, begun := some (s.pi, s.stored) }
    (by simp) (by simp) readers alive (by dsimp only; omega)
    (by simpa using readable)
  refine ⟨s', ?_, history, _, returned, rfl, by simp⟩
  rw [PipeState.advances]
  simpa [PipeState.advance, at_acquire, PipeState.acquire, unlocked] using steps

/-- A write of two bytes to a new pipe, then a read of the first of them. -/
theorem pipe_fifo_integrity_two_bytes : ∃ s s' : PipeState Bool, PipeReachable s ∧ s.stored = [] ∧
      s.advances true (fun addr => some (addr.setWidth 8)) (fun _ => true) 4 = some s' ∧
      s'.stored = [7, 8] ∧
      ∃ r : PipeState Bool, PipeReachable r ∧ r.reads.map (·.call.got) = [[7]] ∧
        r.pi.buffered = [8] := by
  have written := (PipeReachable.init (P := Bool) (fun _ => 0)).step
    (PipeStep.pipewrite true 7 2 rfl rfl)
  obtain ⟨-, -, -, -, completes⟩ := pipe_fifo_integrity written
  obtain ⟨s', steps, history, -⟩ := completes true 7 [7, 8] (fun addr => some (addr.setWidth 8))
    (fun _ => true) rfl rfl rfl rfl (by decide)
    (by
      intro j inside
      match j, inside with
      | 0, _ => rfl
      | 1, _ => rfl)
  have advance {s s' : PipeState Bool} (reachable : PipeReachable s) (live : s.freed = false)
      (p : Bool)
      (next : s.advance p (fun addr => some (addr.setWidth 8)) (fun _ => true) = some s') :
      PipeReachable s' := reachable.step (PipeStep.advance p _ _ s' live next)
  have stored := advance (advance (advance (advance written rfl true rfl) rfl true rfl)
    rfl true rfl) rfl true rfl
  have read := stored.step (PipeStep.piperead false 0 1 rfl rfl)
  have copied := advance (advance (advance (advance read rfl false rfl) rfl false rfl)
    rfl false rfl) rfl false rfl
  obtain ⟨-, queue, -⟩ := pipe_fifo_integrity copied
  exact ⟨_, s', written, rfl, steps, history, _, copied, rfl, List.append_cancel_left queue⟩

end Xv6.Pipes
