import Xv6.Virtio.Chains

/-!
# The invariant of the request protocol

A request is outstanding from `submit` until its caller returns. The rings cannot overflow,
because outstanding requests have different heads.
-/

namespace Xv6.Virtio

open RingBuffer
open Function

variable {P B : Type} {k : Nat} {r : Request P B} {chain : Chain} {p : P} {b : B}
variable {taken : Nat} {completed returned : List Nat} {blockno : BitVec 32} {write : Bool}

def Live (requests : List (Request P B)) (returned : List Nat) (k : Nat) (r : Request P B) :
    Prop :=
  requests[k]? = some r ∧ k ∉ returned

def headOf (requests : List (Request P B)) (k : Nat) : Option (BitVec 32) :=
  requests[k]?.map fun r => (number r.chain.idx0).setWidth 32

def bufOf (requests : List (Request P B)) (k : Nat) : Option B := requests[k]?.map Request.b

structure Callers (calls : P → Call B) (busy : B → Bool) (requests : List (Request P B))
    (returned : List Nat) : Prop where
  waits : ∀ p k b chain, calls p = .wait k b chain → Live requests returned k ⟨p, b, chain⟩
  live : ∀ k r, Live requests returned k r → calls r.p = .wait k r.b r.chain
  busy : ∀ p b, (calls p).buf = some b → busy b = true
  single : ∀ p q b, (calls p).buf = some b → (calls q).buf = some b → p = q

structure Chains (d : Disk B) (requests : List (Request P B)) (returned : List Nat) : Prop where
  formatted : ∀ k r, Live requests returned k r → d.Formatted r.chain r.b
  apart : ∀ k r k' r', Live requests returned k r → Live requests returned k' r' → k ≠ k' →
    ∀ i ∈ r.chain.all, i ∉ r'.chain.all
  covered : ∀ i, d.free i = false → ∃ k r, Live requests returned k r ∧ i ∈ r.chain.all
  zero : ∀ i, d.free i = true → d.desc i = {}

structure Avail (d : Disk B) (seen : BitVec 16) (requests : List (Request P B)) (taken : Nat) :
    Prop where
  bound : taken ≤ requests.length
  ring : contents d.availRing seen d.availIdx =
    (requests.drop taken).map fun r => number r.chain.idx0

structure Jobs (d : Disk B) (jobs : List (Job B)) (requests : List (Request P B)) (taken : Nat)
    (completed : List Nat) : Prop where
  order : (jobs.map Job.request ++ completed).Perm (List.range taken)
  each : ∀ job ∈ jobs, ∃ r, requests[job.request]? = some r ∧ job.head = number r.chain.idx0 ∧
    job.status = .status r.chain.idx0 ∧
    (job.written = true → d.infoStatus r.chain.idx0 = 0)

structure Used (d : Disk B) (requests : List (Request P B)) (completed : List Nat)
    (cleared : List B) : Prop where
  count : cleared.length ≤ completed.length
  ring : (contents d.usedRing d.usedIdx d.usedRingIdx).map some =
    (completed.drop cleared.length).map (headOf requests)
  status : ∀ k ∈ completed.drop cleared.length, ∀ r, requests[k]? = some r →
    d.infoStatus r.chain.idx0 = 0
  cleared : cleared.map some = (completed.take cleared.length).map (bufOf requests)

structure Returns (bufDisk : B → Bool) (requests : List (Request P B)) (completed : List Nat)
    (cleared : List B) (returned : List Nat) : Prop where
  handled : ∀ k ∈ returned, k ∈ completed.take cleared.length
  once : returned.Nodup
  waiting : ∀ k r, Live requests returned k r →
    (bufDisk r.b = true ↔ k ∉ completed.take cleared.length)

structure Invariant (s : State P B) : Prop where
  callers : Callers s.calls s.busy s.requests s.returned
  chains : Chains s.disk s.requests s.returned
  avail : Avail s.disk s.seen s.requests s.taken
  jobs : Jobs s.disk s.jobs s.requests s.taken s.completed
  used : Used s.disk s.requests s.completed s.cleared
  returns : Returns s.disk.bufDisk s.requests s.completed s.cleared s.returned

theorem init_invariant : Invariant (.init : State P B) where
  callers := ⟨nofun, nofun, nofun, nofun⟩
  chains := ⟨nofun, nofun, nofun, fun _ _ => rfl⟩
  avail := ⟨le_refl 0, contents_self ..⟩
  jobs := ⟨.refl _, nofun⟩
  used := ⟨le_refl 0, congrArg (List.map some) (contents_self ..), nofun, rfl⟩
  returns := ⟨nofun, List.nodup_nil, nofun⟩

/-! ## Requests and their numbers -/

section Numbers

variable {s : State P B}

section

variable {d : Disk B} {jobs : List (Job B)} {requests : List (Request P B)}
  (ok : Jobs d jobs requests taken completed)
include ok

theorem Jobs.nodup : (jobs.map Job.request ++ completed).Nodup :=
  ok.order.nodup_iff.mpr List.nodup_range

theorem Jobs.completed_lt (mem : k ∈ completed) : k < taken :=
  List.mem_range.mp (ok.order.mem_iff.mp (List.mem_append_right _ mem))

end

section

variable (inv : Invariant s)
include inv

theorem Invariant.completed_lt (mem : k ∈ s.completed) :
    k < s.requests.length :=
  lt_of_lt_of_le (inv.jobs.completed_lt mem) inv.avail.bound

theorem Invariant.completed_nodup : s.completed.Nodup :=
  (List.nodup_append.mp inv.jobs.nodup).2.1

theorem Invariant.live (request : s.requests[k]? = some r)
    (waiting : k ∉ s.completed.take s.cleared.length) :
    Live s.requests s.returned k r :=
  ⟨request, fun returned => waiting (inv.returns.handled k returned)⟩

theorem Invariant.unhandled (mem : k ∈ s.completed.drop s.cleared.length) :
    k ∉ s.completed.take s.cleared.length := by
  have nodup := inv.completed_nodup
  rw [← List.take_append_drop s.cleared.length s.completed, List.nodup_append] at nodup
  exact fun early => nodup.2.2 k early k mem rfl

theorem Invariant.exists_request (mem : k ∈ s.completed) :
    ∃ r, s.requests[k]? = some r :=
  ⟨_, List.getElem?_eq_getElem (inv.completed_lt mem)⟩

end

section

variable {requests : List (Request P B)}

theorem getElem?_request (new : Request P B) (request : requests[k]? = some r) :
    (requests ++ [new])[k]? = some r := by
  rw [List.getElem?_append_left (List.getElem?_eq_some_iff.mp request).1, request]

theorem live_append_iff {new : Request P B} (fresh : requests.length ∉ returned) :
    Live (requests ++ [new]) returned k r ↔
      Live requests returned k r ∨ k = requests.length ∧ r = new := by
  unfold Live
  grind

theorem live_return_iff {done : Nat} :
    Live requests (returned ++ [done]) k r ↔ Live requests returned k r ∧ k ≠ done := by
  unfold Live
  rw [List.mem_append, List.mem_singleton, not_or, and_assoc]

theorem length_lt_of_live {d : Disk B} {returned : List Nat}
    (ok : Chains d requests returned) {ks : List Nat} (nodup : ks.Nodup)
    (live : ∀ k ∈ ks, ∃ r, Live requests returned k r) {i : Fin NUM}
    (other : ∀ k ∈ ks, ∀ r, Live requests returned k r → r.chain.idx0 ≠ i) :
    ks.length < NUM := by
  let head : Nat → Fin NUM := fun k => (requests[k]?.map fun r => r.chain.idx0).getD i
  have head_eq : ∀ k r, Live requests returned k r → head k = r.chain.idx0 := by
    intro k r live
    simp only [head, live.1, Option.map_some, Option.getD_some]
  have distinct : (i :: ks.map head).Nodup := by
    rw [List.nodup_cons]
    constructor
    · intro mem
      obtain ⟨k, listed, same⟩ := List.mem_map.mp mem
      obtain ⟨r, alive⟩ := live k listed
      rw [head_eq k r alive] at same
      exact other k listed r alive same
    · refine List.Nodup.map_on ?_ nodup
      intro k listed k' listed' same
      by_contra apart
      obtain ⟨r, alive⟩ := live k listed
      obtain ⟨r', alive'⟩ := live k' listed'
      rw [head_eq k r alive, head_eq k' r' alive'] at same
      exact ok.apart k r k' r' alive alive' apart _ r.chain.idx0_mem (same ▸ r'.chain.idx0_mem)
  have bound := distinct.length_le_card
  rw [List.length_cons, List.length_map, Fintype.card_fin] at bound
  exact bound

end

end Numbers

theorem Chains.congr {d d' : Disk B} {requests : List (Request P B)}
    (ok : Chains d requests returned) (desc : d'.desc = d.desc) (free : d'.free = d.free)
    (info : d'.infoB = d.infoB) : Chains d' requests returned where
  formatted := fun k r live => (ok.formatted k r live).congr (fun i _ => by rw [desc])
    (fun i _ => by rw [free]) (by rw [info])
  apart := ok.apart
  covered := fun i taken => ok.covered i (by rw [← free, taken])
  zero := fun i unused => by rw [desc, ok.zero i (by rw [← free, unused])]

/-! ## The device -/

section Device

variable {s : State P B}

theorem Invariant.take (inv : Invariant s) (available : s.seen ≠ s.disk.availIdx) :
    Invariant { s with
      seen := s.seen + 1
      taken := s.taken + 1
      jobs := s.jobs ++ [{
        request := s.taken
        head := s.disk.availRing (slot NUM s.seen)
        status := (s.disk.lastDesc NUM (s.disk.availRing (slot NUM s.seen))).addr
        written := false }] } := by
  have ring := inv.avail.ring
  rw [contents_take _ available] at ring
  obtain ⟨r, rest, untaken, head, tail⟩ := List.map_eq_cons_iff.mp ring.symm
  have request : s.requests[s.taken]? = some r := by
    rw [← List.head?_drop, untaken, List.head?_cons]
  have bound : s.taken < s.requests.length := (List.getElem?_eq_some_iff.mp request).1
  have waiting : s.taken ∉ s.completed.take s.cleared.length := fun early =>
    absurd (inv.jobs.completed_lt (List.mem_of_mem_take early)) (lt_irrefl _)
  have formatted := inv.chains.formatted _ _ (inv.live request waiting)
  refine ⟨inv.callers, inv.chains, ⟨bound, ?_⟩, ⟨?_, ?_⟩, inv.used, inv.returns⟩
  · change contents s.disk.availRing (s.seen + 1#16) s.disk.availIdx = _
    rw [← tail, ← List.drop_drop, untaken, List.drop_one, List.tail_cons]
  · rw [List.map_append, List.map_singleton, List.range_succ, List.append_assoc]
    refine List.Perm.trans ?_ (inv.jobs.order.append_right [s.taken])
    rw [List.append_assoc]
    exact List.perm_append_comm.append_left _
  · intro job mem
    rcases List.mem_append.mp mem with earlier | new
    · exact inv.jobs.each job earlier
    · rw [List.mem_singleton] at new
      subst new
      refine ⟨r, request, head.symm, ?_, nofun⟩
      rw [← head]
      exact formatted.lastDesc

section

variable (inv : Invariant s) {i : Nat} {job : Job B} (listed : s.jobs[i]? = some job)
include inv listed

theorem Invariant.status :
    Invariant { s with
      disk := s.writeStatus job.status
      jobs := s.jobs.set i { job with written := true } } := by
  obtain ⟨inside, here⟩ := List.getElem?_eq_some_iff.mp listed
  have mem : job ∈ s.jobs := here ▸ List.getElem_mem inside
  obtain ⟨r, request, head, address, -⟩ := inv.jobs.each job mem
  have disk : s.writeStatus job.status =
      { s.disk with infoStatus := update s.disk.infoStatus r.chain.idx0 0 } := by
    rw [address]
    rfl
  have zero : ∀ j, s.disk.infoStatus j = 0 → update s.disk.infoStatus r.chain.idx0 0 j = 0 := by
    intro j before
    rw [update_apply]
    split
    · rfl
    · exact before
  rw [disk]
  refine ⟨inv.callers, inv.chains.congr rfl rfl rfl, ⟨inv.avail.bound, inv.avail.ring⟩,
    ⟨?_, ?_⟩, ⟨inv.used.count, inv.used.ring, ?_, inv.used.cleared⟩, inv.returns⟩
  · have requests : (s.jobs.set i { job with written := true }).map Job.request =
        s.jobs.map Job.request := by
      rw [List.map_set]
      rw [← here, ← List.getElem_map Job.request, List.set_getElem_self]
      simpa using inside
    rw [requests]
    exact inv.jobs.order
  · intro other listed
    rcases List.mem_or_eq_of_mem_set listed with earlier | rfl
    · obtain ⟨r', request', head', address', written⟩ := inv.jobs.each other earlier
      exact ⟨r', request', head', address', fun done => zero _ (written done)⟩
    · exact ⟨r, request, head, address, fun _ => update_self ..⟩
  · intro k listed r' request'
    exact zero _ (inv.used.status k listed r' request')

theorem Invariant.append (written : job.written = true) :
    Invariant { s with
      disk := { s.disk with
        usedRing := update s.disk.usedRing (slot NUM s.disk.usedRingIdx) (job.head.setWidth 32)
        usedRingIdx := s.disk.usedRingIdx + 1 }
      jobs := s.jobs.eraseIdx i
      completed := s.completed ++ [job.request] } := by
  obtain ⟨inside, here⟩ := List.getElem?_eq_some_iff.mp listed
  have mem : job ∈ s.jobs := here ▸ List.getElem_mem inside
  obtain ⟨r, request, head, -, done⟩ := inv.jobs.each job mem
  have count := inv.used.count
  have early : (s.completed ++ [job.request]).take s.cleared.length =
      s.completed.take s.cleared.length := List.take_append_of_le_length count
  have late : (s.completed ++ [job.request]).drop s.cleared.length =
      s.completed.drop s.cleared.length ++ [job.request] :=
    List.drop_append_of_le_length count
  have pending : job.request ∉ s.completed := fun completed =>
    (List.nodup_append.mp inv.jobs.nodup).2.2 _ (List.mem_map_of_mem mem) _ completed rfl
  have room : RingBuffer.used s.disk.usedIdx s.disk.usedRingIdx < NUM := by
    have lengths := congrArg List.length inv.used.ring
    rw [List.length_map, List.length_map, length_contents] at lengths
    rw [lengths]
    have alive := inv.live request fun handled => pending (List.mem_of_mem_take handled)
    refine @length_lt_of_live _ _ _ _ _ inv.chains _
      ((List.drop_sublist _ _).nodup inv.completed_nodup) (fun k listed => ?_) r.chain.idx0
      (fun k listed r' alive' same => ?_)
    · obtain ⟨r', request'⟩ := inv.exists_request (List.mem_of_mem_drop listed)
      exact ⟨r', inv.live request' (inv.unhandled listed)⟩
    · have apart : k ≠ job.request := by
        rintro rfl
        exact pending (List.mem_of_mem_drop listed)
      exact inv.chains.apart k r' job.request r alive' alive apart _ r'.chain.idx0_mem
        (same ▸ r.chain.idx0_mem)
  refine ⟨inv.callers, inv.chains.congr rfl rfl rfl, ⟨inv.avail.bound, inv.avail.ring⟩,
    ⟨?_, ?_⟩, ⟨?_, ?_, ?_, ?_⟩, ?_⟩
  · refine List.Perm.trans ?_ inv.jobs.order
    have moved : (s.jobs.map Job.request).Perm
        (job.request :: (s.jobs.eraseIdx i).map Job.request) := by
      rw [← List.map_cons, ← here]
      exact (List.getElem_cons_eraseIdx_perm inside).symm.map _
    refine List.Perm.trans ?_ (moved.symm.append_right s.completed)
    rw [← List.append_assoc]
    exact List.perm_append_comm
  · intro other listed
    exact inv.jobs.each other (List.mem_of_mem_eraseIdx listed)
  · dsimp only
    rw [List.length_append]
    omega
  · change (contents _ s.disk.usedIdx (s.disk.usedRingIdx + 1#16)).map some = _
    rw [late, List.map_append, List.map_singleton, contents_store (by decide) (by decide) _ _ room,
      List.map_append, List.map_singleton, inv.used.ring, headOf, request, head]
    rfl
  · intro k listed r' request'
    rw [late] at listed
    rcases List.mem_append.mp listed with earlier | new
    · exact inv.used.status k earlier r' request'
    · rw [List.mem_singleton] at new
      subst new
      rw [request] at request'
      cases request'
      exact done written
  · rw [early]
    exact inv.used.cleared
  · refine ⟨?_, inv.returns.once, ?_⟩
    · rw [early]
      exact inv.returns.handled
    · rw [early]
      exact inv.returns.waiting

end

end Device

/-! ## The driver -/

section ChainSteps

variable {d : Disk B} {requests : List (Request P B)}

section

variable (ok : Chains d requests returned)
include ok

theorem Chains.not_mem (alive : Live requests returned k r) {i : Fin NUM} (free : d.free i = true) :
    i ∉ r.chain.all := by
  intro mem
  rw [(ok.formatted k r alive).taken i mem] at free
  cases free

theorem Chains.submit [DecidableEq B]
    (nodup : chain.all.Nodup) (free : ∀ i ∈ chain.all, d.free i = true)
    (fresh : requests.length ∉ returned) (p : P) (b : B) (blockno : BitVec 32) (write : Bool) :
    Chains ((d.allocated chain).submit chain b blockno write) (requests ++ [⟨p, b, chain⟩])
      returned := by
  have apart : ∀ k r, Live requests returned k r → ∀ i ∈ r.chain.all, i ∉ chain.all :=
    fun k r alive i mem new => ok.not_mem alive (free i new) mem
  constructor
  · intro k r alive
    rcases (live_append_iff fresh).mp alive with before | ⟨rfl, rfl⟩
    · have outside := apart k r before
      refine (ok.formatted k r before).congr (fun i mem => ?_) (fun i mem => ?_) ?_
      · exact Disk.submit_desc b blockno write (outside i mem)
      · exact if_neg (outside i mem)
      · refine update_of_ne (fun same => outside _ r.chain.idx0_mem ?_) ..
        rw [same]
        exact chain.idx0_mem
    · exact Disk.submit_formatted nodup (fun i mem => if_pos mem) b blockno write
  · intro k r k' r' alive alive' different i mem
    rcases (live_append_iff fresh).mp alive with before | ⟨rfl, rfl⟩ <;>
      rcases (live_append_iff fresh).mp alive' with before' | ⟨rfl, rfl⟩
    · exact ok.apart k r k' r' before before' different i mem
    · exact apart k r before i mem
    · exact fun other => apart k' r' before' i other mem
    · exact absurd rfl different
  · intro i taken
    by_cases new : i ∈ chain.all
    · exact ⟨_, _, (live_append_iff fresh).mpr (.inr ⟨rfl, rfl⟩), new⟩
    · have before : d.free i = false := (if_neg new).symm.trans taken
      obtain ⟨k, r, alive, mem⟩ := ok.covered i before
      exact ⟨k, r, (live_append_iff fresh).mpr (.inl alive), mem⟩
  · intro i unused
    have outside : i ∉ chain.all := by
      intro new
      have taken : (d.allocated chain).free i = false := if_pos new
      rw [show ((d.allocated chain).submit chain b blockno write).free i =
        (d.allocated chain).free i from rfl, taken] at unused
      cases unused
    rw [Disk.submit_desc b blockno write outside]
    exact ok.zero i ((if_neg outside).symm.trans unused)

theorem Chains.finish (alive : Live requests returned k ⟨p, b, chain⟩) :
    Chains (d.freed chain) requests (returned ++ [k]) := by
  constructor
  · intro k' r alive'
    obtain ⟨before, other⟩ := live_return_iff.mp alive'
    have outside := ok.apart k' r k _ before alive other
    refine (ok.formatted k' r before).congr (fun i mem => ?_) (fun i mem => ?_) ?_
    · exact if_neg (outside i mem)
    · exact if_neg (outside i mem)
    · refine update_of_ne (fun same => outside _ r.chain.idx0_mem ?_) ..
      rw [same]
      exact chain.idx0_mem
  · intro k' r k'' r' first second
    exact ok.apart k' r k'' r' (live_return_iff.mp first).1 (live_return_iff.mp second).1
  · intro i taken
    dsimp only [Disk.freed] at taken
    split at taken
    · cases taken
    · next outside =>
      obtain ⟨k', r, before, mem⟩ := ok.covered i taken
      refine ⟨k', r, live_return_iff.mpr ⟨before, ?_⟩, mem⟩
      rintro rfl
      have whose := before.1.symm.trans alive.1
      cases whose
      exact outside mem
  · intro i free
    dsimp only [Disk.freed] at free ⊢
    split
    · rfl
    · next outside =>
      rw [if_neg outside] at free
      exact ok.zero i free

end

end ChainSteps

section Driver

variable [DecidableEq P] [DecidableEq B] {s : State P B}

section CallerSteps

variable {calls : P → Call B} {busy : B → Bool} {requests : List (Request P B)}

section

variable (ok : Callers calls busy requests returned)
include ok

theorem Callers.call {p : P} {b : B}
    (idle : calls p = .idle) (unused : busy b = false) (blockno : BitVec 32) (write : Bool) :
    Callers (update calls p (.alloc b blockno write)) (update busy b true) requests returned := by
  -- A call for `b` would have made it busy.
  have other : ∀ q, (calls q).buf ≠ some b := by
    intro q here
    rw [ok.busy q b here] at unused
    cases unused
  constructor
  · intro q k c chain waiting
    by_cases same : q = p
    · subst same
      rw [update_self] at waiting
      cases waiting
    · rw [update_of_ne same] at waiting
      exact ok.waits q k c chain waiting
  · intro k r live
    have waiting := ok.live k r live
    have apart : r.p ≠ p := by
      intro same
      rw [same, idle] at waiting
      cases waiting
    rw [update_of_ne apart]
    exact waiting
  · intro q c here
    rw [update_apply] at here ⊢
    split
    · rfl
    · next apart =>
      split at here
      · exact absurd (Option.some.inj here).symm apart
      · exact ok.busy q c here
  · intro q q' c first second
    rw [update_apply] at first second
    split at first <;> split at second
    · next same same' => rw [same, same']
    · cases first
      exact absurd second (other q')
    · cases second
      exact absurd first (other q)
    · exact ok.single q q' c first second

omit [DecidableEq B] in
theorem Callers.submit (alloc : calls p = .alloc b blockno write)
    (fresh : requests.length ∉ returned)
    (chain : Chain) :
    Callers (update calls p (.wait requests.length b chain)) busy
      (requests ++ [⟨p, b, chain⟩]) returned := by
  have buf : ∀ q, (update calls p (.wait requests.length b chain) q).buf = (calls q).buf := by
    intro q
    by_cases same : q = p
    · subst same
      rw [update_self, alloc]
      rfl
    · rw [update_of_ne same]
  constructor
  · intro q k c chain' waiting
    rw [live_append_iff fresh]
    by_cases same : q = p
    · subst same
      rw [update_self] at waiting
      cases waiting
      exact .inr ⟨rfl, rfl⟩
    · rw [update_of_ne same] at waiting
      exact .inl (ok.waits q k c chain' waiting)
  · intro k r live
    rcases (live_append_iff fresh).mp live with before | ⟨rfl, rfl⟩
    · have waiting := ok.live k r before
      have apart : r.p ≠ p := by
        intro same
        rw [same, alloc] at waiting
        cases waiting
      rw [update_of_ne apart]
      exact waiting
    · exact update_self ..
  · intro q c here
    rw [buf] at here
    exact ok.busy q c here
  · intro q q' c first second
    rw [buf] at first second
    exact ok.single q q' c first second

theorem Callers.finish (waits : calls p = .wait k b chain) :
    Callers (update calls p .idle) (update busy b false) requests (returned ++ [k]) := by
  have alive := ok.waits p k b chain waits
  constructor
  · intro q k' c chain' waiting
    by_cases same : q = p
    · subst same
      rw [update_self] at waiting
      cases waiting
    · rw [update_of_ne same] at waiting
      have alive' := ok.waits q k' c chain' waiting
      refine live_return_iff.mpr ⟨alive', ?_⟩
      rintro rfl
      have whose := alive'.1.symm.trans alive.1
      cases whose
      exact same rfl
  · intro k' r alive'
    obtain ⟨before, other⟩ := live_return_iff.mp alive'
    have waiting := ok.live k' r before
    have apart : r.p ≠ p := by
      intro same
      rw [same, waits] at waiting
      cases waiting
      exact other rfl
    rw [update_of_ne apart]
    exact waiting
  · intro q c here
    by_cases same : q = p
    · subst same
      rw [update_self] at here
      cases here
    · rw [update_of_ne same] at here
      have apart : c ≠ b := by
        rintro rfl
        exact same (ok.single q p c here (by rw [waits]; rfl))
      rw [update_of_ne apart]
      exact ok.busy q c here
  · intro q q' c first second
    rw [update_apply] at first second
    split at first
    · cases first
    · split at second
      · cases second
      · exact ok.single q q' c first second

end

end CallerSteps

omit [DecidableEq P] in
/-- The round of `virtio_disk_intr` that handles the next entry of the used ring. -/
theorem Invariant.round (inv : Invariant s) (entry : s.disk.usedIdx ≠ s.disk.usedRingIdx) :
    ∃ k rest b d, s.completed.drop s.cleared.length = k :: rest ∧ bufOf s.requests k = some b ∧
      s.disk.bufDisk b = true ∧ d.bufDisk b = false ∧ s.disk.intrRound = .ok (some (b, d)) ∧
      Invariant { s with disk := d, cleared := s.cleared ++ [b] } := by
  have ring := inv.used.ring
  rw [contents_take _ entry, List.map_cons] at ring
  obtain ⟨k, rest, unhandled, head, tail⟩ := List.map_eq_cons_iff.mp ring.symm
  have listed : k ∈ s.completed.drop s.cleared.length := by
    rw [unhandled]
    exact List.mem_cons_self
  obtain ⟨r, request⟩ := inv.exists_request (List.mem_of_mem_drop listed)
  have waiting := inv.unhandled listed
  have alive := inv.live request waiting
  have info := (inv.chains.formatted k r alive).info
  have id : (s.disk.usedRing (slot NUM s.disk.usedIdx)).toNat = r.chain.idx0.val := by
    rw [headOf, request, Option.map_some, Option.some.injEq] at head
    rw [← head, BitVec.toNat_setWidth, number_toNat]
    exact Nat.mod_eq_of_lt (lt_trans r.chain.idx0.isLt (by decide))
  have status := inv.used.status k listed r request
  have next : s.completed.take (s.cleared.length + 1) =
      s.completed.take s.cleared.length ++ [k] := by
    rw [List.take_add_one, ← List.head?_drop, unhandled, List.head?_cons, Option.toList_some]
  have left : s.completed.drop (s.cleared.length + 1) = rest := by
    rw [← List.drop_drop, unhandled, List.drop_one, List.tail_cons]
  have bound : s.cleared.length < s.completed.length := by
    have lengths := congrArg List.length unhandled
    rw [List.length_drop, List.length_cons] at lengths
    omega
  have result : s.disk.intrRound = .ok (some (r.b, { s.disk with
      bufDisk := update s.disk.bufDisk r.b false
      usedIdx := s.disk.usedIdx + 1 })) := by
    rw [Disk.intrRound, if_neg entry]
    simp only [id, r.chain.idx0.isLt, dif_pos, Fin.eta, status, info, ne_eq, not_true_eq_false,
      if_false]
  refine ⟨k, rest, r.b, _, unhandled, by rw [bufOf, request, Option.map_some],
    (inv.returns.waiting k r alive).mpr waiting, update_self .., result, inv.callers,
    inv.chains.congr rfl rfl rfl, ⟨inv.avail.bound, inv.avail.ring⟩,
    ⟨inv.jobs.order, inv.jobs.each⟩, ⟨?_, ?_, ?_, ?_⟩, ⟨?_, inv.returns.once, ?_⟩⟩
  · rw [List.length_append]
    exact bound
  · rw [List.length_append, List.length_singleton, left, tail]
    rfl
  · intro k' listed'
    rw [List.length_append, List.length_singleton, left] at listed'
    exact inv.used.status k' (by rw [unhandled]; exact List.mem_cons_of_mem _ listed')
  · rw [List.length_append, List.length_singleton, next, List.map_append, List.map_append,
      inv.used.cleared, List.map_singleton, List.map_singleton, bufOf, request]
    rfl
  · intro k' returned
    rw [List.length_append, List.length_singleton, next]
    exact List.mem_append_left _ (inv.returns.handled k' returned)
  · intro k' r' alive'
    dsimp only
    rw [List.length_append, List.length_singleton, next, List.mem_append, List.mem_singleton,
      not_or]
    by_cases same : k' = k
    · subst same
      obtain rfl : r' = r := Option.some.inj (alive'.1.symm.trans request)
      simp
    · have apart : r'.b ≠ r.b := by
        intro shared
        have first := inv.callers.live k' r' alive'
        have second := inv.callers.live k r alive
        have process := inv.callers.single r'.p r.p r.b (by rw [first, ← shared]; rfl)
          (by rw [second]; rfl)
        rw [process, second] at first
        exact same (Call.wait.inj first).1.symm
      rw [update_of_ne apart, inv.returns.waiting k' r' alive']
      exact ⟨fun early => ⟨early, same⟩, fun both => both.1⟩

theorem Invariant.finish (inv : Invariant s)
    (waits : s.calls p = .wait k b chain) (handled : s.disk.bufDisk b = false) :
    s.disk.finish chain = .ok (s.disk.freed chain) ∧
      Invariant { s with
        disk := s.disk.freed chain
        calls := update s.calls p .idle
        busy := update s.busy b false
        returned := s.returned ++ [k] } := by
  have alive := inv.callers.waits p k b chain waits
  have done : k ∈ s.completed.take s.cleared.length := by
    by_contra waiting
    rw [(inv.returns.waiting k _ alive).mpr waiting] at handled
    cases handled
  refine ⟨Disk.finish_formatted (inv.chains.formatted k _ alive), inv.callers.finish waits,
    inv.chains.finish alive, ⟨inv.avail.bound, inv.avail.ring⟩, ⟨inv.jobs.order, inv.jobs.each⟩,
    ⟨inv.used.count, inv.used.ring, inv.used.status, inv.used.cleared⟩, ⟨?_, ?_, ?_⟩⟩
  · intro k' returned
    rcases List.mem_append.mp returned with earlier | now
    · exact inv.returns.handled k' earlier
    · rw [List.mem_singleton] at now
      subst now
      exact done
  · rw [List.nodup_append]
    refine ⟨inv.returns.once, List.nodup_singleton k, fun k' earlier k'' now => ?_⟩
    rw [List.mem_singleton] at now
    subst now
    rintro rfl
    exact alive.2 earlier
  · intro k' r alive'
    exact inv.returns.waiting k' r (live_return_iff.mp alive').1

/-- A caller that has got three descriptors. -/
theorem Invariant.submit (inv : Invariant s) (alloc : s.calls p = .alloc b blockno write)
    (nodup : chain.all.Nodup) (free : ∀ i ∈ chain.all, s.disk.free i = true) :
    Invariant { s with
      disk := (s.disk.allocated chain).submit chain b blockno write
      calls := update s.calls p (.wait s.requests.length b chain)
      requests := s.requests ++ [⟨p, b, chain⟩] } := by
  have handled_lt : ∀ k ∈ s.completed.take s.cleared.length, k < s.requests.length :=
    fun k mem => inv.completed_lt (List.mem_of_mem_take mem)
  have fresh : s.requests.length ∉ s.returned := fun returned =>
    absurd (handled_lt _ (inv.returns.handled _ returned)) (lt_irrefl _)
  have new : chain.idx0 ∈ chain.all := chain.idx0_mem
  have status : ∀ k r, Live s.requests s.returned k r → s.disk.infoStatus r.chain.idx0 = 0 →
      update s.disk.infoStatus chain.idx0 0xff r.chain.idx0 = 0 := by
    intro k r alive zero
    rw [update_of_ne, zero]
    intro same
    exact inv.chains.not_mem alive (free _ new) (same ▸ r.chain.idx0_mem)
  have heads : ∀ k ∈ s.completed, headOf (s.requests ++ [⟨p, b, chain⟩]) k =
      headOf s.requests k := by
    intro k mem
    rw [headOf, headOf, List.getElem?_append_left (inv.completed_lt mem)]
  have bufs : ∀ k ∈ s.completed, bufOf (s.requests ++ [⟨p, b, chain⟩]) k = bufOf s.requests k := by
    intro k mem
    rw [bufOf, bufOf, List.getElem?_append_left (inv.completed_lt mem)]
  -- The requests that the device has not taken leave room in the avail ring.
  have room : RingBuffer.used s.seen s.disk.availIdx < NUM := by
    have lengths := congrArg List.length inv.avail.ring
    rw [length_contents, List.length_map, List.length_drop] at lengths
    have numbers : (List.range' s.taken (s.requests.length - s.taken)).length =
        s.requests.length - s.taken := List.length_range'
    rw [lengths, ← numbers]
    have alive : ∀ k ∈ List.range' s.taken (s.requests.length - s.taken),
        ∃ r, Live s.requests s.returned k r := by
      intro k mem
      obtain ⟨above, below⟩ := List.mem_range'_1.mp mem
      refine ⟨_, inv.live (List.getElem?_eq_getElem (by omega)) fun early => ?_⟩
      have := inv.jobs.completed_lt (List.mem_of_mem_take early)
      omega
    refine @length_lt_of_live _ _ _ _ _ inv.chains _ List.nodup_range' alive chain.idx0
      fun k mem r alive same => inv.chains.not_mem alive (free _ new) ?_
    rw [← same]
    exact r.chain.idx0_mem
  refine ⟨inv.callers.submit alloc fresh chain,
    inv.chains.submit nodup free fresh p b blockno write, ⟨?_, ?_⟩, ⟨inv.jobs.order, ?_⟩,
    ⟨inv.used.count, ?_, ?_, ?_⟩, ⟨inv.returns.handled, inv.returns.once, ?_⟩⟩
  · rw [List.length_append]
    exact le_trans inv.avail.bound (Nat.le_add_right _ _)
  · rw [List.drop_append_of_le_length inv.avail.bound, List.map_append, ← inv.avail.ring]
    exact contents_store (by decide) (by decide) _ _ room
  · intro job mem
    obtain ⟨r, request, head, address, written⟩ := inv.jobs.each job mem
    refine ⟨r, getElem?_request _ request, head, address, fun done => ?_⟩
    refine status job.request r (inv.live request fun early => ?_) (written done)
    exact (List.nodup_append.mp inv.jobs.nodup).2.2 _ (List.mem_map_of_mem mem) _
      (List.mem_of_mem_take early) rfl
  · exact inv.used.ring.trans (List.map_congr_left fun k mem =>
      (heads k (List.mem_of_mem_drop mem)).symm)
  · intro k mem r request
    obtain ⟨r', request'⟩ := inv.exists_request (List.mem_of_mem_drop mem)
    have same := (getElem?_request ⟨p, b, chain⟩ request').symm.trans request
    cases same
    exact status k r (inv.live request' (inv.unhandled mem))
      (inv.used.status k mem r request')
  · exact inv.used.cleared.trans (List.map_congr_left fun k mem =>
      (bufs k (List.mem_of_mem_take mem)).symm)
  · intro k r alive
    change update s.disk.bufDisk b true r.b = true ↔ _
    rcases (live_append_iff fresh).mp alive with before | ⟨rfl, rfl⟩
    · have apart : r.b ≠ b := by
        intro same
        have waiting := inv.callers.live k r before
        have process := inv.callers.single r.p p b (by rw [waiting, ← same]; rfl)
          (by rw [alloc]; rfl)
        rw [process, alloc] at waiting
        cases waiting
      rw [update_of_ne apart]
      exact inv.returns.waiting k r before
    · rw [update_self]
      exact ⟨fun _ early => absurd (handled_lt _ early) (lt_irrefl _), fun _ => rfl⟩

/-! ## Runs -/

theorem Invariant.hold (inv : Invariant s) (p : P) : ∃ s', s.hold p = .ok s' ∧ Invariant s' := by
  unfold State.hold
  cases call : s.calls p with
  | idle => exact ⟨s, rfl, inv⟩
  | alloc b blockno write =>
    rcases Disk.alloc3Desc_spec inv.chains.zero with failed | ⟨chain, ok, nodup, free⟩
    · rw [failed]
      exact ⟨s, rfl, inv⟩
    · rw [ok]
      exact ⟨_, rfl, inv.submit call nodup free⟩
  | wait k b chain =>
    dsimp only
    cases waiting : s.disk.bufDisk b with
    | true => exact ⟨s, rfl, inv⟩
    | false =>
      obtain ⟨ok, inv'⟩ := inv.finish call waiting
      rw [ok]
      exact ⟨_, rfl, inv'⟩

theorem Invariant.step (inv : Invariant s) (event : Event P B) :
    ∃ s', s.step event = .ok s' ∧ Invariant s' := by
  unfold State.step
  cases event with
  | call p b blockno write =>
    cases call : s.calls p with
    | idle =>
      simp only [call]
      cases unused : s.busy b with
      | true => exact ⟨s, rfl, inv⟩
      | false =>
        exact ⟨_, rfl, inv.callers.call call unused blockno write, inv.chains, inv.avail,
          inv.jobs, inv.used, inv.returns⟩
    | alloc _ _ _ | wait _ _ _ =>
      simp only [call]
      exact ⟨s, rfl, inv⟩
  | hold p =>
    dsimp only
    split
    · exact ⟨s, rfl, inv⟩
    · exact inv.hold p
  | intr =>
    exact ⟨_, rfl, inv.callers, inv.chains, inv.avail, inv.jobs, inv.used, inv.returns⟩
  | round =>
    dsimp only
    split
    · by_cases entry : s.disk.usedIdx = s.disk.usedRingIdx
      · rw [Disk.intrRound, if_pos entry]
        exact ⟨_, rfl, inv.callers, inv.chains, inv.avail, inv.jobs, inv.used, inv.returns⟩
      · obtain ⟨-, -, b, d, -, -, -, -, ok, inv'⟩ := inv.round entry
        rw [ok]
        exact ⟨_, rfl, inv'⟩
    · exact ⟨s, rfl, inv⟩
  | take =>
    dsimp only
    split
    · exact ⟨s, rfl, inv⟩
    · next available => exact ⟨_, rfl, inv.take available⟩
  | status i =>
    cases job : s.jobs[i]? with
    | none =>
      simp only [job]
      exact ⟨s, rfl, inv⟩
    | some job' =>
      simp only [job]
      exact ⟨_, rfl, inv.status job⟩
  | append i =>
    cases job : s.jobs[i]? with
    | none =>
      simp only [job]
      exact ⟨s, rfl, inv⟩
    | some job' =>
      simp only [job]
      split
      · next written => exact ⟨_, rfl, inv.append job written⟩
      · exact ⟨s, rfl, inv⟩

theorem run_invariant (events : List (Event P B)) :
    ∃ s, State.run events = .ok s ∧ Invariant s := by
  have runs : ∀ s : State P B, Invariant s →
      ∃ s', events.foldlM State.step s = .ok s' ∧ Invariant s' := by
    induction events with
    | nil => exact fun s inv => ⟨s, rfl, inv⟩
    | cons event rest ih =>
      intro s inv
      obtain ⟨s₁, ok, inv₁⟩ := inv.step event
      obtain ⟨s₂, ok₂, inv₂⟩ := ih s₁ inv₁
      refine ⟨s₂, ?_, inv₂⟩
      rw [List.foldlM_cons, ok]
      exact ok₂
  exact runs .init init_invariant

/-! ## The protocol -/

def State.outstanding (s : State P B) : Finset Nat :=
  (Finset.range s.requests.length).filter (· ∉ s.returned)

omit [DecidableEq P] [DecidableEq B] in
theorem mem_outstanding : k ∈ s.outstanding ↔ ∃ r, Live s.requests s.returned k r := by
  rw [State.outstanding, Finset.mem_filter, Finset.mem_range]
  constructor
  · rintro ⟨below, waiting⟩
    exact ⟨_, List.getElem?_eq_getElem below, waiting⟩
  · rintro ⟨r, request, waiting⟩
    exact ⟨(List.getElem?_eq_some_iff.mp request).1, waiting⟩

def State.descriptors (s : State P B) (k : Nat) : Finset (Fin NUM) :=
  (s.requests[k]?.elim [] fun r => r.chain.all).toFinset

omit [DecidableEq P] [DecidableEq B] in
theorem mem_descriptors (request : s.requests[k]? = some r)
    {i : Fin NUM} : i ∈ s.descriptors k ↔ i ∈ r.chain.all := by
  rw [State.descriptors, request, List.mem_toFinset]
  rfl

omit [DecidableEq P] [DecidableEq B] in
theorem Invariant.card_taken (inv : Invariant s) :
    (Finset.univ.filter fun i => s.disk.free i = false).card = 3 * s.outstanding.card := by
  have taken : (Finset.univ.filter fun i => s.disk.free i = false) =
      s.outstanding.biUnion s.descriptors := by
    ext i
    rw [Finset.mem_filter, Finset.mem_biUnion]
    constructor
    · rintro ⟨-, here⟩
      obtain ⟨k, r, alive, mem⟩ := inv.chains.covered i here
      exact ⟨k, mem_outstanding.mpr ⟨r, alive⟩, (mem_descriptors alive.1).mpr mem⟩
    · rintro ⟨k, waiting, mem⟩
      obtain ⟨r, alive⟩ := mem_outstanding.mp waiting
      exact ⟨Finset.mem_univ i, (inv.chains.formatted k r alive).taken i
        ((mem_descriptors alive.1).mp mem)⟩
  rw [taken, Finset.card_biUnion]
  · rw [Finset.sum_const_nat (m := 3), Nat.mul_comm]
    intro k waiting
    obtain ⟨r, alive⟩ := mem_outstanding.mp waiting
    rw [State.descriptors, alive.1]
    exact List.toFinset_card_of_nodup (inv.chains.formatted k r alive).nodup
  · intro k waiting k' waiting' apart
    obtain ⟨r, alive⟩ := mem_outstanding.mp waiting
    obtain ⟨r', alive'⟩ := mem_outstanding.mp waiting'
    refine Finset.disjoint_left.mpr fun i mem mem' => ?_
    exact inv.chains.apart k r k' r' alive alive' apart i
      ((mem_descriptors alive.1).mp mem) ((mem_descriptors alive'.1).mp mem')

/-- A round of `virtio_disk_intr` clears the buffer of the next completed request, or there is none
and the loop ends. -/
theorem Invariant.step_round (inv : Invariant s) (handling : s.handling = true) :
    ∃ s', s.step .round = .ok s' ∧
      ((s.completed.drop s.cleared.length = [] ∧ s'.handling = false ∧ s'.cleared = s.cleared) ∨
        ∃ k rest b, s.completed.drop s.cleared.length = k :: rest ∧ bufOf s.requests k = some b ∧
          s.disk.bufDisk b = true ∧ s'.disk.bufDisk b = false ∧ s'.handling = true ∧
          s'.cleared = s.cleared ++ [b]) := by
  unfold State.step
  dsimp only
  rw [if_pos handling]
  by_cases entry : s.disk.usedIdx = s.disk.usedRingIdx
  · have ring := inv.used.ring
    rw [entry, contents_self] at ring
    rw [Disk.intrRound, if_pos entry]
    exact ⟨_, rfl, .inl ⟨List.map_eq_nil_iff.mp ring.symm, rfl, rfl⟩⟩
  · obtain ⟨k, rest, b, d, next, buf, set, clear, ok, -⟩ := inv.round entry
    rw [ok]
    exact ⟨_, rfl, .inr ⟨k, rest, b, next, buf, set, clear, handling, rfl⟩⟩

/-- Only a round of its loop ends `virtio_disk_intr`. -/
theorem round_of_handled {event : Event P B} {s' : State P B} (stepped : s.step event = .ok s')
    (handling : s.handling = true) (done : s'.handling = false) : event = .round := by
  cases event with
  | round => rfl
  | _ => grind [State.step]

/-- After any interleaving of calls, interrupts and steps of the device, without a panic: calls
return only after their requests were completed and handled; the entries of the used ring are
handled once each, in order, and the handler ends only when none is left; `b->disk` is set as
long as the request for `b` has not been handled; the taken descriptors are those of the
outstanding requests, three for each; and `alloc3_desc` changes nothing when it fails. -/
theorem virtio_request_protocol (events : List (Event P B)) : ∃ s, State.run events = .ok s ∧
      (∀ k ∈ s.returned, k ∈ s.completed.take s.cleared.length) ∧ s.returned.Nodup ∧
      (s.completed.Nodup ∧
        s.cleared.map some = (s.completed.take s.cleared.length).map (bufOf s.requests) ∧
        (contents s.disk.usedRing s.disk.usedIdx s.disk.usedRingIdx).map some =
          (s.completed.drop s.cleared.length).map (headOf s.requests)) ∧
      (s.handling = true → ∃ s', s.step .round = .ok s' ∧
        ((s.completed.drop s.cleared.length = [] ∧ s'.handling = false ∧ s'.cleared = s.cleared) ∨
          ∃ k rest b, s.completed.drop s.cleared.length = k :: rest ∧ bufOf s.requests k = some b ∧
            s.disk.bufDisk b = true ∧ s'.disk.bufDisk b = false ∧ s'.handling = true ∧
            s'.cleared = s.cleared ++ [b])) ∧
      (∀ event s', s.step event = .ok s' → s.handling = true → s'.handling = false →
        event = .round) ∧
      (∀ p k b chain, s.calls p = .wait k b chain → Live s.requests s.returned k ⟨p, b, chain⟩ ∧
        (s.disk.bufDisk b = true ↔ k ∉ s.completed.take s.cleared.length)) ∧
      (∀ i, s.disk.free i = true ↔ ∀ k r, Live s.requests s.returned k r → i ∉ r.chain.all) ∧
      (∀ k r k' r', Live s.requests s.returned k r → Live s.requests s.returned k' r' → k ≠ k' →
        ∀ i ∈ r.chain.all, i ∉ r'.chain.all) ∧
      (Finset.univ.filter fun i => s.disk.free i = false).card = 3 * s.outstanding.card ∧
      ∀ d, s.disk.alloc3Desc = .ok (none, d) → d = s.disk := by
  obtain ⟨s, ok, inv⟩ := run_invariant events
  refine ⟨s, ok, inv.returns.handled, inv.returns.once,
    ⟨inv.completed_nodup, inv.used.cleared, inv.used.ring⟩, inv.step_round,
    fun _ _ => round_of_handled, ?_, fun i => ⟨?_, ?_⟩,
    inv.chains.apart, inv.card_taken, ?_⟩
  · intro p k b chain waits
    have alive := inv.callers.waits p k b chain waits
    exact ⟨alive, inv.returns.waiting k _ alive⟩
  · intro free k r alive
    exact inv.chains.not_mem alive free
  · intro outside
    by_contra taken
    obtain ⟨k, r, alive, member⟩ := inv.chains.covered i (Bool.eq_false_of_not_eq_true taken)
    exact outside k r alive member
  · intro d failed
    rcases Disk.alloc3Desc_spec inv.chains.zero with same | ⟨chain, other, -⟩
    · rw [same] at failed
      cases failed
      rfl
    · rw [other] at failed
      cases failed

end Driver

set_option maxRecDepth 10000 in
/-- Two requests, completed in the other order, and a third call that finds two descriptors. -/
example : ((State.run (P := Fin 3) (B := Fin 3)
      [.call 0 0 5 false, .hold 0, .call 1 1 6 true, .hold 1, .call 2 2 7 true, .hold 2, .take,
        .take, .status 1, .append 1, .intr, .round, .round, .hold 0, .hold 1, .hold 2]).map
      fun s => (s.returned, s.cleared, s.requests.length)) = .ok ([1], [1], 3) := by
  decide

end Xv6.Virtio
