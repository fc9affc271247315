import Xv6.Bio.Cache

/-!
# The list of buffers

The links form a ring through the head and all buffers, so the two loops of `bget` end and look
at every buffer.
-/

namespace Xv6.Bio

open LinkedRing

variable {D : Type} {l : List BufId}

namespace Bcache

variable {c : Bcache D}

/-- The list is a ring through the head and all buffers, in the order of `l`. -/
structure Ringed (c : Bcache D) (l : List BufId) : Prop where
  ring : Ring c.links none (l.map some)
  all : ∀ b, b ∈ l

theorem Ringed.nodup (ringed : c.Ringed l) : l.Nodup :=
  List.Nodup.of_map _ (List.nodup_cons.mp ringed.ring.nodup).2

theorem Ringed.short (ringed : c.Ringed l) : (l.map some).length < NBUF + 1 := by
  have bound := ringed.nodup.length_le_card
  rw [Fintype.card_fin] at bound
  rw [List.length_map]
  omega

theorem search_of_walk {step : Node → Node} {test : Buf D → Bool}
    (walked : walk step none (c.nodeTest test) (NBUF + 1) (step none) =
      some ((l.map some).find? (c.nodeTest test))) :
    c.search step test = .ok (l.find? fun b => test (c.buf b)) := by
  unfold search
  rw [walked, List.find?_map]
  change Except.ok (Option.join (Option.map some (l.find? fun b => test (c.buf b)))) = _
  cases l.find? fun b => test (c.buf b) <;> rfl

theorem search_next (ringed : c.Ringed l) (test : Buf D → Bool) :
    c.search c.links.next test = .ok (l.find? fun b => test (c.buf b)) :=
  search_of_walk (walk_next ringed.ring _ ringed.short)

theorem search_prev (ringed : c.Ringed l) (test : Buf D → Bool) :
    c.search c.links.prev test = .ok (l.reverse.find? fun b => test (c.buf b)) := by
  apply search_of_walk
  rw [List.map_reverse]
  exact walk_prev ringed.ring _ ringed.short

inductive Got (c : Bcache D) (dev blockno : Nat) : Except Halt (BufId × Bool × Bcache D) → Prop
  | cached (b : BufId) (here : (c.buf b).block = (dev, blockno)) :
      Got c dev blockno (.ok (b, false, c.set b { c.buf b with refcnt := (c.buf b).refcnt + 1 }))
  | recycled (b : BufId) (missing : ∀ b', (c.buf b').block ≠ (dev, blockno))
      (free : (c.buf b).refcnt = 0) :
      Got c dev blockno (.ok (b, true,
          c.set b { c.buf b with dev := dev, blockno := blockno, valid := false, refcnt := 1 }))
  | noBuffers (missing : ∀ b', (c.buf b').block ≠ (dev, blockno))
      (busy : ∀ b', (c.buf b').refcnt ≠ 0) : Got c dev blockno (.error .noBuffers)

theorem got_bget (ringed : c.Ringed l) (dev blockno : Nat) :
    Got c dev blockno (c.bget dev blockno) := by
  unfold bget
  rw [search_next ringed]
  cases found : l.find? fun b => decide ((c.buf b).dev = dev ∧ (c.buf b).blockno = blockno) with
  | some b =>
    have here := List.find?_some found
    simp only [decide_eq_true_eq] at here
    exact .cached b (Prod.ext here.1 here.2)
  | none =>
    have missing : ∀ b, (c.buf b).block ≠ (dev, blockno) := by
      intro b same
      have absent := List.find?_eq_none.mp found b (ringed.all b)
      simp only [decide_eq_true_eq, not_and] at absent
      exact absent (congrArg Prod.fst same) (congrArg Prod.snd same)
    rw [search_prev ringed]
    cases found' : l.reverse.find? fun b => decide ((c.buf b).refcnt = 0) with
    | some b =>
      have free := List.find?_some found'
      simp only [decide_eq_true_eq] at free
      exact .recycled b missing free
    | none =>
      refine .noBuffers missing fun b free => ?_
      have absent := List.find?_eq_none.mp found' b (List.mem_reverse.mpr (ringed.all b))
      simp only [decide_eq_true_eq] at absent
      exact absent free

theorem Ringed.congr {c' : Bcache D} (ringed : c.Ringed l)
    (links : c'.links = c.links) : c'.Ringed l :=
  ⟨links ▸ ringed.ring, ringed.all⟩

theorem brelse_ringed (ringed : c.Ringed l) (b : BufId) : ∃ l', (c.brelse b).Ringed l' := by
  unfold brelse
  dsimp only
  split
  · obtain ⟨before, after, rfl⟩ := List.append_of_mem (ringed.all b)
    refine ⟨b :: (before ++ after), ?_, fun b' => ?_⟩
    · have ring := ringed.ring
      rw [List.map_append, List.map_cons] at ring
      have moved := ring.moveToFront
      rwa [← List.map_append, ← List.map_cons] at moved
    · have mem := ringed.all b'
      simp only [List.mem_append, List.mem_cons] at mem ⊢
      tauto
  · exact ⟨l, ringed.congr rfl⟩

theorem foldl_insertFront (l seen : List BufId) (links : Links Node)
    (ring : Ring links none (seen.map some)) (nodup : (l.reverse ++ seen).Nodup) :
    Ring (l.foldl (fun r b => r.insertFront none (some b)) links) none
      ((l.reverse ++ seen).map some) := by
  induction l generalizing seen links with
  | nil => exact ring
  | cons b rest ih =>
    rw [List.reverse_cons, List.append_assoc, List.singleton_append] at nodup ⊢
    have fresh : b ∉ seen := (List.nodup_cons.mp (List.nodup_append.mp nodup).2.1).1
    refine ih (b :: seen) _ ?_ nodup
    exact ring.insertFront (by simpa using fresh)

theorem binit_ringed (zero : D) : (binit zero).Ringed (List.finRange NBUF).reverse := by
  refine ⟨?_, fun b => List.mem_reverse.mpr (List.mem_finRange b)⟩
  have ring := foldl_insertFront (List.finRange NBUF) [] (Links.empty none) (Ring.empty none)
    (by simpa using List.nodup_finRange NBUF)
  rwa [List.append_nil] at ring

end Bcache

end Xv6.Bio
