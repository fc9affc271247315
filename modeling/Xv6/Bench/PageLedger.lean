import Mathlib.Tactic

/-!
# The page ledger of the ownership experiment

`kernel/bench_resource_ledger.c`. What `kalloc` returns is an input, and the table is compared
with the history of the calls since `ledger_reset`.
-/

namespace Xv6.Bench

variable {Addr : Type} [DecidableEq Addr]

def LEDGER_MAX : Nat := 8

structure PageLedger (Addr : Type) where
  slots : List Addr := []
  dupOrUnowned : Bool := false
  failAtCall : Int := 0
  callCounter : Int := 0

namespace PageLedger

def injectFailAt (l : PageLedger Addr) (callIndex : Int) : PageLedger Addr :=
  { l with failAtCall := callIndex }

/-- `test_alloc_page`; null is `none`. -/
def testAllocPage (l : PageLedger Addr) (kalloc : Option Addr) : Option Addr × PageLedger Addr :=
  let l := { l with callCounter := l.callCounter + 1 }
  if l.failAtCall ≠ 0 ∧ l.callCounter = l.failAtCall then (none, l)
  else
    match kalloc with
    | none => (none, l)
    | some p =>
      (some p, if l.slots.length < LEDGER_MAX then { l with slots := l.slots ++ [p] } else l)

/-- The last slot takes the place of slot `idx`. -/
def removeSlot (slots : List Addr) (idx : Nat) : List Addr :=
  match slots.getLast? with
  | none => slots
  | some last => (slots.set idx last).dropLast

/-- `test_free_page`, with the page that it gives to `kfree`. -/
def testFreePage (l : PageLedger Addr) : Option Addr → Option Addr × PageLedger Addr
  | none => (none, l)
  | some p =>
    match l.slots.idxOf? p with
    | none => (none, { l with dupOrUnowned := true })
    | some idx => (some p, { l with slots := removeSlot l.slots idx })

def leakedCount (l : PageLedger Addr) : Nat := l.slots.length

end PageLedger

/-! ## The history of the calls -/

/-- A call of `test_alloc_page` that returned a page, or one of `test_free_page` with a
pointer that is not null. -/
inductive PageEvent (Addr : Type)
  | obtained (p : Addr)
  | freed (p : Addr)

/-- The pages obtained and not yet freed, from the history with the latest call first. -/
def live : List (PageEvent Addr) → Finset Addr
  | [] => ∅
  | .obtained p :: earlier => insert p (live earlier)
  | .freed p :: earlier => (live earlier).erase p

/-- Some call freed a pointer that was no page obtained and not yet freed. -/
def misused : List (PageEvent Addr) → Bool
  | [] => false
  | .obtained _ :: earlier => misused earlier
  | .freed p :: earlier => misused earlier || p ∉ live earlier

/-- The pages of the legitimate frees. -/
def returned : List (PageEvent Addr) → List Addr
  | [] => []
  | .obtained _ :: earlier => returned earlier
  | .freed p :: earlier => if p ∈ live earlier then p :: returned earlier else returned earlier

inductive LedgerCall (Addr : Type)
  | injectFailAt (callIndex : Int)
  | alloc (kalloc : Option Addr)
  | free (p : Option Addr)

/-- The ledger, the history, and the pages given to `kfree`. -/
structure Session (Addr : Type) where
  ledger : PageLedger Addr := {}
  history : List (PageEvent Addr) := []
  kfreed : List Addr := []

def Session.call (s : Session Addr) : LedgerCall Addr → Session Addr
  | .injectFailAt callIndex => { s with ledger := s.ledger.injectFailAt callIndex }
  | .alloc kalloc =>
    let result := s.ledger.testAllocPage kalloc
    { s with
      ledger := result.2
      history := (result.1.map PageEvent.obtained).toList ++ s.history }
  | .free p =>
    let result := s.ledger.testFreePage p
    { ledger := result.2
      history := (p.map PageEvent.freed).toList ++ s.history
      kfreed := result.1.toList ++ s.kfreed }

/-- `kalloc` returns null or a page that is not allocated, and the number of pages that are
out leaves room for one more. -/
def fresh (room : Nat → Bool) (s : Session Addr) : LedgerCall Addr → Bool
  | .alloc (some p) => p ∉ live s.history && room (live s.history).card
  | _ => true

def legal (room : Nat → Bool) : Session Addr → List (LedgerCall Addr) → Bool
  | _, [] => true
  | s, call :: rest => fresh room s call && legal room (s.call call) rest

def Session.run (s : Session Addr) (calls : List (LedgerCall Addr)) : Session Addr :=
  calls.foldl Session.call s

/-! ## The table is the set of live pages -/

omit [DecidableEq Addr] in
theorem removeSlot_perm {slots : List Addr} {idx : Nat} (inside : idx < slots.length) :
    (PageLedger.removeSlot slots idx).Perm (slots.eraseIdx idx) := by
  rcases slots.eq_nil_or_concat with rfl | ⟨init, last, rfl⟩
  · simp at inside
  · simp only [PageLedger.removeSlot, List.concat_eq_append, List.getLast?_concat]
    simp only [List.concat_eq_append, List.length_append, List.length_singleton] at inside
    rcases Nat.lt_or_ge idx init.length with before | here
    · rw [List.set_append_left _ _ before, List.dropLast_concat,
        List.eraseIdx_append_of_lt_length before]
      exact (List.set_perm_cons_eraseIdx before last).trans (List.perm_append_singleton ..).symm
    · obtain rfl : idx = init.length := by omega
      rw [List.set_append_right _ _ here, List.eraseIdx_append_of_length_le here]
      simp

structure Session.Exact (s : Session Addr) : Prop where
  nodup : s.ledger.slots.Nodup
  mem_iff : ∀ p, p ∈ s.ledger.slots ↔ p ∈ live s.history
  flag : s.ledger.dupOrUnowned = misused s.history
  kfreed : s.kfreed = returned s.history

section

variable {s : Session Addr} (exact : s.Exact)
include exact

theorem Session.Exact.length_eq : s.ledger.slots.length = (live s.history).card := by
  have same : live s.history = s.ledger.slots.toFinset := by
    ext p
    rw [List.mem_toFinset, exact.mem_iff]
  rw [same, List.toFinset_card_of_nodup exact.nodup]

theorem Session.Exact.alloc {kalloc : Option Addr}
    (new : fresh (· < LEDGER_MAX) s (.alloc kalloc) = true) : (s.call (.alloc kalloc)).Exact := by
  unfold Session.call PageLedger.testAllocPage
  dsimp only
  split
  · exact ⟨exact.nodup, exact.mem_iff, exact.flag, exact.kfreed⟩
  · cases kalloc with
    | none => exact ⟨exact.nodup, exact.mem_iff, exact.flag, exact.kfreed⟩
    | some p =>
      simp only [fresh, Bool.and_eq_true, decide_eq_true_eq] at new
      obtain ⟨new, room⟩ := new
      rw [← exact.length_eq] at room
      rw [← exact.mem_iff] at new
      dsimp only
      rw [if_pos room]
      refine ⟨?_, fun q => ?_, exact.flag, exact.kfreed⟩
      · exact (List.perm_append_singleton ..).nodup_iff.mpr (exact.nodup.cons new)
      · simp [live, exact.mem_iff, or_comm]

theorem Session.Exact.free (p : Option Addr) : (s.call (.free p)).Exact := by
  unfold Session.call
  cases p with
  | none => exact ⟨exact.nodup, exact.mem_iff, exact.flag, exact.kfreed⟩
  | some p =>
    dsimp only [PageLedger.testFreePage]
    cases found : s.ledger.slots.idxOf? p with
    | none =>
      have foreign : p ∉ live s.history := by
        rw [← exact.mem_iff]
        exact List.idxOf?_eq_none_iff.mp found
      refine ⟨exact.nodup, fun q => ?_, ?_, ?_⟩
      · simp [live, exact.mem_iff, foreign]
      · simp [misused, foreign]
      · simp [returned, foreign, exact.kfreed]
    | some idx =>
      obtain ⟨inside, here, -⟩ := List.idxOf?_eq_some_iff.mp found
      have mem : p ∈ live s.history := by
        rw [← exact.mem_iff, ← here]
        exact List.getElem_mem inside
      have perm := removeSlot_perm inside
      refine ⟨perm.nodup_iff.mpr (exact.nodup.sublist (List.eraseIdx_sublist ..)),
        fun q => ?_, ?_, ?_⟩
      · rw [perm.mem_iff, ← exact.nodup.erase_getElem idx inside, here,
          exact.nodup.mem_erase_iff, exact.mem_iff]
        exact Finset.mem_erase.symm
      · simp [misused, mem, exact.flag]
      · simp [returned, mem, exact.kfreed]

theorem Session.Exact.run {calls : List (LedgerCall Addr)}
    (legal : legal (· < LEDGER_MAX) s calls = true) : (s.run calls).Exact := by
  induction calls generalizing s with
  | nil => exact exact
  | cons call rest ih =>
    rw [Bench.legal, Bool.and_eq_true] at legal
    refine ih ?_ legal.2
    cases call with
    | injectFailAt => exact ⟨exact.nodup, exact.mem_iff, exact.flag, exact.kfreed⟩
    | alloc => exact exact.alloc legal.1
    | free p => exact exact.free p

/-- A full table has no slot for the next page, whose free is then flagged. -/
theorem Session.Exact.full {p : Addr}
    (new : p ∉ live s.history) (full : (live s.history).card = LEDGER_MAX) :
    (s.call (.alloc (some p))).ledger.leakedCount = LEDGER_MAX ∧
      ((s.call (.alloc (some p))).call (.free (some p))).ledger.dupOrUnowned = true ∧
      ((s.call (.alloc (some p))).call (.free (some p))).kfreed = s.kfreed := by
  rw [← exact.length_eq] at full
  rw [← exact.mem_iff] at new
  have kept : (s.call (.alloc (some p))).ledger.slots = s.ledger.slots := by
    dsimp only [Session.call, PageLedger.testAllocPage]
    split
    · rfl
    · rw [if_neg (by rw [full]; exact Nat.lt_irrefl _)]
  have refused : (s.call (.alloc (some p))).ledger.testFreePage (some p) =
      (none, { (s.call (.alloc (some p))).ledger with dupOrUnowned := true }) := by
    rw [← kept] at new
    simp only [PageLedger.testFreePage, List.idxOf?_eq_none_iff.mpr new]
  exact ⟨(congrArg List.length kept).trans full, congrArg (·.2.dupOrUnowned) refused,
    congrArg (fun freed : Option Addr × PageLedger Addr => freed.1.toList ++ s.kfreed) refused⟩

end

/-- The ledger is an exact oracle while no more pages are out than it has slots. A page obtained
while all slots are taken is not counted, and its free is flagged and not passed on. -/
theorem ledger_exact (calls : List (LedgerCall Addr))
    (legal : legal (· < LEDGER_MAX) {} calls = true) :
    (Session.run {} calls).ledger.dupOrUnowned = misused (Session.run {} calls).history ∧
      (Session.run {} calls).ledger.leakedCount = (live (Session.run {} calls).history).card ∧
      (Session.run {} calls).kfreed = returned (Session.run {} calls).history ∧
      ∀ p, p ∉ live (Session.run {} calls).history →
        (live (Session.run {} calls).history).card = LEDGER_MAX →
        ((Session.run {} calls).call (.alloc (some p))).ledger.leakedCount = LEDGER_MAX ∧
        (Session.run {} (calls ++ [.alloc (some p), .free (some p)])).ledger.dupOrUnowned = true ∧
        (Session.run {} (calls ++ [.alloc (some p), .free (some p)])).kfreed =
          (Session.run {} calls).kfreed := by
  have start : Session.Exact ({} : Session Addr) :=
    ⟨List.nodup_nil, fun _ => by simp [live], rfl, rfl⟩
  have exact := start.run legal
  refine ⟨exact.flag, exact.length_eq, exact.kfreed, fun p new full => ?_⟩
  simp only [Session.run, List.foldl_append]
  exact exact.full new full

/-- The calls of `mutation_duplicate_free`. -/
def duplicateFree : List (LedgerCall Nat) := [.alloc (some 1), .free (some 1), .free (some 1)]

theorem ledger_sees_duplicate_free : (Session.run {} duplicateFree).ledger.dupOrUnowned = true ∧
      (Session.run {} duplicateFree).kfreed = [1] := by
  obtain ⟨flag, -, kfreed, -⟩ := ledger_exact duplicateFree (by decide)
  exact ⟨flag.trans (by decide), kfreed.trans (by decide)⟩

/-- Nine pages are obtained, and the last of them is freed. -/
def ninePages : List (LedgerCall Nat) :=
  (List.range 9).map (fun p => .alloc (some p)) ++ [.free (some 8)]

theorem ledger_misses_ninth_page : legal (fun _ => true) {} ninePages = true ∧
      (Session.run {} ninePages).ledger.dupOrUnowned = true ∧
      misused (Session.run {} ninePages).history = false ∧
      (Session.run {} ninePages).kfreed = [] := by
  decide

end Xv6.Bench
