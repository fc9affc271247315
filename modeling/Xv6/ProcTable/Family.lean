import Xv6.ProcTable.Seats

/-!
# Parents and children

`parent` is a raw pointer to a slot, and slots are used again. It never dangles: a process
hands its children to the first process before it becomes a zombie, and only a zombie's slot is
freed.
-/

namespace Xv6.ProcTable

open Sched (ProcState)
open Function

variable {Mem : Type} {state : ProcState}

/-- The states as relatives see them. -/
inductive Kind where
  | unused
  | used
  | alive
  | zombie
  deriving DecidableEq

def kind : ProcState → Kind
  | .unused => .unused
  | .used => .used
  | .sleeping | .runnable | .running => .alive
  | .zombie => .zombie

theorem kind_eq_alive : kind state = .alive ↔ Alive state := by
  cases state <;> simp [kind, Alive]

theorem kind_eq_unused : kind state = .unused ↔ state = .unused := by
  cases state <;> simp [kind]

theorem kind_eq_used : kind state = .used ↔ state = .used := by
  cases state <;> simp [kind]

theorem kind_eq_zombie : kind state = .zombie ↔ state = .zombie := by
  cases state <;> simp [kind]

structure Relative where
  kind : Kind
  pid : Int
  parent : Option Slot
  xstate : BitVec 32
  position : Position

/-- The part of the table that the steps of `kfork`, `kexit` and `kwait` are about. -/
structure Kin where
  slot : Slot → Relative
  initproc : Slot
  nextPid : Int

def relative (p : Proc Mem) (position : Position) : Relative where
  kind := kind p.state
  pid := p.pid
  parent := p.parent
  xstate := p.xstate
  position := position

/-- After `reparent(p)`, called in `kexit` by `p`. -/
def Kin.reparent (kin : Kin) (p : Slot) : Kin :=
  { kin with
    slot := fun i =>
      { kin.slot i with
        parent :=
          if (kin.slot i).parent = some p then some kin.initproc else (kin.slot i).parent
        position := if i = p then .reparented else (kin.slot i).position } }

namespace Kernel

def kin (k : Kernel Mem) : Kin where
  slot := fun i => relative (k.proc i) (k.position i)
  initproc := k.initproc
  nextPid := k.nextPid

variable {k k' : Kernel Mem}

theorem Quiet.kin {e : Event Mem} (quiet : Quiet e k k') : k'.kin = k.kin := by
  have slots : k'.kin.slot = k.kin.slot := by
    funext i
    have family := quiet.family i
    have kinds : ProcTable.kind (k'.proc i).state = ProcTable.kind (k.proc i).state := by
      by_cases alive : Alive (k.proc i).state
      · rw [kind_eq_alive.mpr alive, kind_eq_alive.mpr ((quiet.moved i).alive_iff.mpr alive)]
      · rw [(quiet.moved i).state_of_not_alive alive]
    simp only [Kernel.kin, relative, family.pid, family.parent, family.xstate, kinds,
      quiet.position]
  have others : k'.initproc = k.initproc ∧ k'.nextPid = k.nextPid := ⟨quiet.initproc, quiet.nextPid⟩
  simp only [Kernel.kin] at slots ⊢
  rw [slots, others.1, others.2]

theorem Writes.kin {i : Slot} {q : Proc Mem} {position : Position} {nextPid : Int}
    (writes : Writes k k' i q position nextPid) :
    k'.kin = { k.kin with
      slot := update k.kin.slot i (relative q position)
      nextPid := nextPid } := by
  have slots : k'.kin.slot = update k.kin.slot i (relative q position) := by
    funext j
    by_cases same : j = i
    · subst same
      simp [Kernel.kin, writes.proc, writes.position]
    · simp [Kernel.kin, writes.proc, writes.position, update_of_ne same]
  simp only [Kernel.kin] at slots ⊢
  rw [slots, writes.initproc, writes.nextPid]

end Kernel

/-- A place outside `kfork` and `kexit`. -/
def Plain : Pc → Prop
  | .forked _ | .parented _ | .closed | .waking _ => False
  | .outside | .scan _ _ | .test _ | .passed _ | .asleep _ => True

theorem plain_start (loop : Loop) : Plain (Pc.start loop) := by
  cases loop <;> trivial

@[grind cases]
structure FamilyOk (kin : Kin) (pc : Slot → Pc) (forker : Slot → Int) : Prop where
  inside : ∀ p, pc p ≠ .outside → (kin.slot p).kind = .alive
  blank : ∀ i, (kin.slot i).kind = .unused →
    (kin.slot i).parent = none ∧ (kin.slot i).position = .normal
  unborn : ∀ i, Unborn (kin.slot i).position → (kin.slot i).kind = .used
  newborn : ∀ i p, (kin.slot i).position = .newborn p →
    pc p = .forked i ∧ (kin.slot i).parent = none
  forked : ∀ p i, pc p = .forked i →
    (kin.slot i).position = .newborn p ∧ forker i = (kin.slot p).pid
  parented : ∀ p i, pc p = .parented i →
    (kin.slot i).position = .parented ∧ (kin.slot i).parent = some p
  closed : ∀ p, pc p = .closed → p ≠ kin.initproc
  waking : ∀ p visits, pc p = .waking visits → p ≠ kin.initproc ∧ ∀ i, (kin.slot i).parent ≠ some p
  init : (kin.slot kin.initproc).kind = .alive ∧ (kin.slot kin.initproc).pid = 1 ∧
    (kin.slot kin.initproc).parent = none
  parent : ∀ i p, (kin.slot i).parent = some p →
    i ≠ p ∧ (kin.slot p).kind = .alive ∧ ((kin.slot p).pid = forker i ∨ p = kin.initproc)
  owned : ∀ i, (kin.slot i).kind ≠ .unused → (∀ p, (kin.slot i).position ≠ .newborn p) →
    i ≠ kin.initproc → ∃ p, (kin.slot i).parent = some p
  settled : ∀ p, (kin.slot p).kind = .alive → (kin.slot p).position = .normal ∨
    pc p = .closed ∨ ∃ visits, pc p = .waking visits

namespace FamilyOk

variable {kin : Kin} {pc : Slot → Pc} {forker : Slot → Int}

theorem goTo (ok : FamilyOk kin pc forker) {p : Slot} {place : Pc} (before : Plain (pc p))
    (after : Plain place) (alive : place ≠ .outside → (kin.slot p).kind = .alive) :
    FamilyOk kin (update pc p place) forker := by
  have here : ∀ q place', ¬Plain place' → update pc p place q = place' →
      pc q = place' := by
    intro q place' busy found
    by_cases same : q = p
    · subst same
      rw [update_self] at found
      exact absurd (found ▸ after) busy
    · rwa [update_of_ne same] at found
  exact
    { ok with
      inside := by
        intro q inside
        by_cases same : q = p
        · subst same
          rw [update_self] at inside
          exact alive inside
        · rw [update_of_ne same] at inside
          exact ok.inside q inside
      newborn := by
        intro i q position
        obtain ⟨place', parent⟩ := ok.newborn i q position
        have other : q ≠ p := by
          rintro rfl
          rw [place'] at before
          exact before
        exact ⟨by rw [update_of_ne other, place'], parent⟩
      forked := fun q i found => ok.forked q i (here q _ id found)
      parented := fun q i found => ok.parented q i (here q _ id found)
      closed := fun q found => ok.closed q (here q _ id found)
      waking := fun q visits found => ok.waking q visits (here q _ id found)
      settled := by
        intro q living
        rcases ok.settled q living with normal | closed | ⟨visits, waking⟩
        · exact Or.inl normal
        · have other : q ≠ p := by
            rintro rfl
            rw [closed] at before
            exact before
          exact Or.inr (Or.inl (by rw [update_of_ne other, closed]))
        · have other : q ≠ p := by
            rintro rfl
            rw [waking] at before
            exact before
          exact Or.inr (Or.inr ⟨visits, by rw [update_of_ne other, waking]⟩) }

/-! Each step changes one or two slots and one thread; the facts that make it safe are named
first, and what remains is a case distinction on the slots. -/

variable {child p : Slot} {r : Relative}

theorem not_parent (ok : FamilyOk kin pc forker) (dead : (kin.slot p).kind ≠ .alive) (i : Slot) :
    (kin.slot i).parent ≠ some p :=
  fun child => dead (ok.parent i p child).2.1

theorem forkFailed (ok : FamilyOk kin pc forker) (unused : (kin.slot child).kind = .unused)
    (kind : r.kind = .unused) (parent : r.parent = none)
    (position : r.position = (kin.slot child).position) (nextPid : Int) :
    FamilyOk { kin with slot := update kin.slot child r, nextPid := nextPid }
      pc forker := by
  have blank := ok.blank child unused
  have childless := ok.not_parent (p := child) (by simp [unused])
  have notInit : child ≠ kin.initproc := by
    rintro rfl
    simp [ok.init.1] at unused
  constructor <;> simp only [update_apply] <;> grind

section

variable (ok : FamilyOk kin pc forker)
include ok

theorem fork (unused : (kin.slot child).kind = .unused)
    (place : pc p = .outside) (alive : (kin.slot p).kind = .alive)
    (kind : r.kind = .used) (parent : r.parent = (kin.slot child).parent)
    (position : r.position = .newborn p) (nextPid : Int) :
    FamilyOk { kin with slot := update kin.slot child r, nextPid := nextPid }
      (update pc p (.forked child))
      (update forker child (kin.slot p).pid) := by
  have blank := ok.blank child unused
  have childless := ok.not_parent (p := child) (by simp [unused])
  have other : p ≠ child := by
    rintro rfl
    simp [alive] at unused
  have notInit : child ≠ kin.initproc := by
    rintro rfl
    simp [ok.init.1] at unused
  constructor <;> simp only [update_apply] <;> grind [Unborn]

theorem setParent (place : pc p = .forked child) : FamilyOk
      { kin with
        slot := update kin.slot child
          { kin.slot child with parent := some p, position := .parented } }
      (update pc p (.parented child)) forker := by
  have newborn := ok.forked p child place
  have used := ok.unborn child (by rw [newborn.1]; trivial)
  have alive := ok.inside p (by simp [place])
  have childless := ok.not_parent (p := child) (by simp [used])
  have notInit : child ≠ kin.initproc := by
    rintro rfl
    simp [ok.init.1] at used
  constructor <;> simp only [update_apply] <;> grind [Unborn]

theorem release (place : pc p = .parented child) : FamilyOk
      { kin with
        slot := update kin.slot child
          { kin.slot child with kind := .alive, position := .normal } }
      (update pc p .outside) forker := by
  have parent := ok.parented p child place
  have used := ok.unborn child (by rw [parent.1]; trivial)
  have childless := ok.not_parent (p := child) (by simp [used])
  constructor <;> simp only [update_apply] <;> grind [Unborn]

theorem close (place : pc p = .outside)
    (alive : (kin.slot p).kind = .alive) (other : p ≠ kin.initproc)
    (normal : (kin.slot p).position = .normal) :
    FamilyOk
      { kin with
        slot := update kin.slot p { kin.slot p with position := .closed } }
      (update pc p .closed) forker := by
  constructor <;> simp only [update_apply] <;> grind [Unborn]

theorem reparent (place : pc p = .closed) (visits : List (Slot × Nat)) :
    FamilyOk (kin.reparent p) (update pc p (.waking visits)) forker := by
  have other := ok.closed p place
  have alive := ok.inside p (by simp [place])
  have notOwn : (kin.slot p).parent ≠ some p := fun own => (ok.parent p p own).1 rfl
  constructor <;> simp only [update_apply, Kin.reparent] <;> grind [Unborn]

theorem wakeup {visits : List (Slot × Nat)}
    (place : pc p = .waking visits) (visits' : List (Slot × Nat)) :
    FamilyOk kin (update pc p (.waking visits')) forker := by
  refine ⟨?_, ok.blank, ok.unborn, ?_, ?_, ?_, ?_, ?_, ok.init, ok.parent, ok.owned, ?_⟩ <;>
    simp only [update_apply] <;> grind

theorem exit {visits : List (Slot × Nat)} (place : pc p = .waking visits) (status : BitVec 32) :
    FamilyOk
      { kin with
        slot := update kin.slot p
          { kin.slot p with kind := .zombie, xstate := status, position := .normal } }
      (update pc p .outside) forker := by
  have childless := (ok.waking p visits place).2
  have other := (ok.waking p visits place).1
  constructor <;> simp only [update_apply] <;> grind [Unborn]

theorem free (zombie : (kin.slot child).kind = .zombie)
    (kind : r.kind = .unused) (parent : r.parent = none)
    (position : r.position = .normal) :
    FamilyOk { kin with slot := update kin.slot child r } pc forker := by
  have childless := ok.not_parent (p := child) (by simp [zombie])
  constructor <;> simp only [update_apply] <;> grind [Unborn]

end

end FamilyOk

@[grind cases]
structure RecordOk (kin : Kin) (exits : List Exit) (reaps : List Reap) : Prop where
  pids : ∀ i, (kin.slot i).kind ≠ .unused → (kin.slot i).pid < kin.nextPid
  distinct : ∀ i j, (kin.slot i).kind ≠ .unused → (kin.slot j).kind ≠ .unused →
    (kin.slot i).pid = (kin.slot j).pid → i = j
  past : ∀ e ∈ exits, e.pid < kin.nextPid
  exitsOnce : (exits.map Exit.pid).Nodup
  zombie : ∀ i, (kin.slot i).kind = .zombie → ⟨(kin.slot i).pid, (kin.slot i).xstate⟩ ∈ exits
  running : ∀ i, (kin.slot i).kind ≠ .unused → (kin.slot i).kind ≠ .zombie →
    ∀ e ∈ exits, e.pid ≠ (kin.slot i).pid
  kept : ∀ e ∈ exits, (∃ r ∈ reaps, r.child = e) ∨
    ∃ i, (kin.slot i).kind = .zombie ∧ (kin.slot i).pid = e.pid ∧ (kin.slot i).xstate = e.xstate
  reaped : ∀ r ∈ reaps, r.child ∈ exits ∧ (r.caller = r.forker ∨ r.caller = 1) ∧
    ∀ i, (kin.slot i).kind ≠ .unused → (kin.slot i).pid ≠ r.child.pid
  reapsOnce : (reaps.map fun r => r.child.pid).Nodup

namespace RecordOk

variable {kin kin' : Kin} {exits : List Exit} {reaps : List Reap}

theorem congr (ok : RecordOk kin exits reaps)
    (unused : ∀ i, (kin'.slot i).kind = .unused ↔ (kin.slot i).kind = .unused)
    (zombie : ∀ i, (kin'.slot i).kind = .zombie ↔ (kin.slot i).kind = .zombie)
    (pid : ∀ i, (kin'.slot i).pid = (kin.slot i).pid)
    (xstate : ∀ i, (kin'.slot i).xstate = (kin.slot i).xstate)
    (nextPid : kin'.nextPid = kin.nextPid) : RecordOk kin' exits reaps := by
  obtain ⟨pids, distinct, past, exitsOnce, zombies, running, kept, reaped, reapsOnce⟩ := ok
  constructor <;> (try simp only [ne_eq, unused, zombie, pid, xstate, nextPid]) <;> assumption

theorem update (ok : RecordOk kin exits reaps) {i : Slot} {r : Relative}
    (unused : r.kind = .unused ↔ (kin.slot i).kind = .unused)
    (zombie : r.kind = .zombie ↔ (kin.slot i).kind = .zombie) (pid : r.pid = (kin.slot i).pid)
    (xstate : r.xstate = (kin.slot i).xstate) :
    RecordOk { kin with slot := Function.update kin.slot i r } exits reaps := by
  have each {β : Type} (read : Relative → β) (same : read r = read (kin.slot i)) (j : Slot) :
      read (Function.update kin.slot i r j) = read (kin.slot j) := by
    by_cases here : j = i
    · subst here
      rwa [update_self]
    · rw [update_of_ne here]
  exact ok.congr (fun j => iff_of_eq (each (·.kind = .unused) (propext unused) j))
    (fun j => iff_of_eq (each (·.kind = .zombie) (propext zombie) j))
    (each Relative.pid pid) (each Relative.xstate xstate) rfl

variable {child p : Slot} {r : Relative}

section

variable (ok : RecordOk kin exits reaps)
include ok

theorem forkFailed (unused : (kin.slot child).kind = .unused) (kind : r.kind = .unused) :
    RecordOk { kin with slot := Function.update kin.slot child r, nextPid := kin.nextPid + 1 }
      exits reaps := by
  constructor <;> (try simp only [update_apply]) <;> grind

theorem fork (unused : (kin.slot child).kind = .unused)
    (kind : r.kind = .used) (pid : r.pid = kin.nextPid) :
    RecordOk { kin with slot := Function.update kin.slot child r, nextPid := kin.nextPid + 1 }
      exits reaps := by
  constructor <;> (try simp only [update_apply]) <;> grind

theorem exit (alive : (kin.slot p).kind = .alive) (status : BitVec 32) (position : Position) :
    RecordOk
      { kin with
        slot := Function.update kin.slot p
          { kin.slot p with kind := .zombie, xstate := status, position := position } }
      (exits ++ [⟨(kin.slot p).pid, status⟩]) reaps := by
  have new := ok.running p (by simp [alive]) (by simp [alive])
  constructor <;> (try simp only [update_apply]) <;> grind

theorem reap (zombie : (kin.slot child).kind = .zombie)
    (kind : r.kind = .unused) {caller forker : Int} (family : caller = forker ∨ caller = 1) :
    RecordOk { kin with slot := Function.update kin.slot child r } exits
      (reaps ++ [⟨caller, forker, ⟨(kin.slot child).pid, (kin.slot child).xstate⟩⟩]) := by
  have recorded := ok.zombie child zombie
  have kept : ∀ e ∈ exits,
      (∃ r ∈ reaps ++ [⟨caller, forker, ⟨(kin.slot child).pid, (kin.slot child).xstate⟩⟩],
        r.child = e) ∨
      ∃ i, (Function.update kin.slot child r i).kind = .zombie ∧
        (Function.update kin.slot child r i).pid = e.pid ∧
        (Function.update kin.slot child r i).xstate = e.xstate := by
    intro e exited
    rcases ok.kept e exited with ⟨r, mem, here⟩ | ⟨i, stays, pid, xstate⟩
    · exact Or.inl ⟨r, List.mem_append_left _ mem, here⟩
    · by_cases same : i = child
      · subst same
        refine Or.inl ⟨_, List.mem_append_right _ (List.mem_singleton_self _), ?_⟩
        rw [pid, xstate]
      · exact Or.inr ⟨i, by simp [update_of_ne same, stays, pid, xstate]⟩
  obtain ⟨pids, distinct, past, exitsOnce, zombies, running, -, reaped, reapsOnce⟩ := ok
  refine ⟨?_, ?_, past, exitsOnce, ?_, ?_, kept, ?_, ?_⟩ <;>
    (try simp only [update_apply]) <;> grind

end

end RecordOk

end Xv6.ProcTable
