import Xv6.Library.RedoLog

/-!
# The file-system log as a machine of single-block writes

`kernel/log.c` over a disk on which one block write is atomic; every step does at most one
`bwrite`. Three ghost fields record what has been asked of the log.
-/

namespace Xv6.Log

open RedoLog

variable {tail : Nat}

def MAXOPBLOCKS : Nat := 10

def LOGBLOCKS : Nat := MAXOPBLOCKS * 3

abbrev BlockNo := BitVec 32

/-- One disk block, as its array of 32-bit words. -/
abbrev Block := Nat → BitVec 32

abbrev Disk := BlockNo → Block

/-- Where `initlog` found the log: the header block is `start`, the copies
follow it, and none of their numbers wraps. -/
structure Geometry where
  start : BlockNo
  fits : start.toNat + LOGBLOCKS < 2 ^ 32

/-- The log of `mkfs`: blocks 2 to 32. -/
def mkfsGeometry : Geometry where
  start := 2
  fits := by decide

/-- The block `log.start+tail+1`. -/
def Geometry.copy (g : Geometry) (tail : Nat) : BlockNo := g.start + BitVec.ofNat 32 tail + 1

/-- The blocks outside the log area: the home locations. -/
def Geometry.Home (g : Geometry) (b : BlockNo) : Prop :=
  b.toNat < g.start.toNat ∨ g.start.toNat + LOGBLOCKS < b.toNat

/-- `read_head`'s view of the header block: `n` in word 0, `block[i]` in word
`i + 1`. `n` is an `int`, so a negative one names no block. -/
def readHead (block : Block) : List BlockNo :=
  (List.range (block 0).toInt.toNat).map fun i => block (i + 1)

/-- The header block after `write_head`: the words past `block[n-1]` keep what
the block held before. -/
def writeHead (old : Block) (lh : List BlockNo) : Block := fun word =>
  match word with
  | 0 => BitVec.ofNat 32 lh.length
  | i + 1 => lh.getD i (old (i + 1))

/-- The update of `log.lh` by `log_write`: a block that is already there is
absorbed. -/
def absorb (lh : List BlockNo) (b : BlockNo) : List BlockNo :=
  if b ∈ lh then lh else lh ++ [b]

/-- Where the kernel is: in `write_log` with `tail` copies written, in
`install_trans(recovering)` with `tail` blocks installed, about to `read_head`
after a reboot, or in none of them. -/
inductive Phase where
  | idle
  | writeLog (tail : Nat)
  | installTrans (recovering : Bool) (tail : Nat)
  | recoverFromLog
  deriving DecidableEq

structure LogState where
  disk : Disk
  /-- What `bread` returns: the cached block, or the disk's on a miss. -/
  buf : Disk
  lh : List BlockNo
  outstanding : Nat
  committing : Bool
  phase : Phase
  /-- The `log_write`s since the last commit, oldest first (ghost). -/
  current : Txn BlockNo Block
  /-- The transactions `commit` was entered for, without those a completed
  recovery has found not to be on the disk (ghost). -/
  started : List (Txn BlockNo Block)
  /-- How many of them had their header written by `write_head` (ghost). -/
  reached : Nat

namespace LogState

/-- `bwrite` of block `b` holding `contents`. -/
def bwrite (s : LogState) (b : BlockNo) (contents : Block) : LogState :=
  { s with
    disk := Function.update s.disk b contents
    buf := Function.update s.buf b contents }

/-- The blocks the log keeps pinned: `log_write` pins a block once, and
`install_trans(0)` unpins the blocks it has installed. -/
def pinned (s : LogState) : List BlockNo :=
  match s.phase with
  | .installTrans recovering tail => if recovering then [] else s.lh.drop tail
  | _ => s.lh

/-- A file system whose log header is empty, before its first operation. -/
def boot (disk : Disk) : LogState where
  disk := disk
  buf := disk
  lh := []
  outstanding := 0
  committing := false
  phase := .idle
  current := []
  started := []
  reached := 0

end LogState

/-- One step of the kernel, or a crash. -/
inductive Step (g : Geometry) : LogState → LogState → Prop
  | beginOp (s : LogState) (idle : s.phase = .idle)
      (free : s.committing = false)
      (room : s.lh.length + (s.outstanding + 1) * MAXOPBLOCKS ≤ LOGBLOCKS) :
      Step g s { s with outstanding := s.outstanding + 1 }
  -- an operation changes a block outside the log area and calls `log_write`
  | logWrite (s : LogState) (b : BlockNo) (contents : Block)
      (small : s.lh.length < LOGBLOCKS) (inside : 1 ≤ s.outstanding)
      (home : g.Home b) :
      Step g s
        { s with
          buf := Function.update s.buf b contents
          lh := absorb s.lh b
          current := s.current ++ [(b, contents)] }
  | endOp (s : LogState) (others : 1 < s.outstanding)
      (free : s.committing = false) :
      Step g s { s with outstanding := s.outstanding - 1 }
  | endLastOp (s : LogState) (last : s.outstanding = 1)
      (free : s.committing = false) (empty : s.lh = []) :
      Step g s { s with outstanding := 0, committing := true }
  | endLastOpCommit (s : LogState) (last : s.outstanding = 1)
      (free : s.committing = false) (pending : s.lh ≠ []) :
      Step g s
        { s with
          outstanding := 0
          committing := true
          phase := .writeLog 0
          current := []
          started := s.started ++ [s.current] }
  | endCommit (s : LogState) (idle : s.phase = .idle)
      (busy : s.committing = true) :
      Step g s { s with committing := false }
  | writeLog (s : LogState) (tail : Nat) (here : s.phase = .writeLog tail)
      (more : tail < s.lh.length) :
      Step g s
        { s.bwrite (g.copy tail) (s.buf s.lh[tail]) with
          phase := .writeLog (tail + 1) }
  | writeHead (s : LogState) (here : s.phase = .writeLog s.lh.length) :
      Step g s
        { s.bwrite g.start (writeHead (s.buf g.start) s.lh) with
          phase := .installTrans false 0
          reached := s.reached + 1 }
  | installTrans (s : LogState) (recovering : Bool) (tail : Nat)
      (here : s.phase = .installTrans recovering tail)
      (more : tail < s.lh.length) :
      Step g s
        { s.bwrite s.lh[tail] (s.buf (g.copy tail)) with
          phase := .installTrans recovering (tail + 1) }
  -- `log.lh.n = 0; write_head()`, the end of `commit` and of `recover_from_log`
  | clearHead (s : LogState) (recovering : Bool)
      (here : s.phase = .installTrans recovering s.lh.length) :
      Step g s
        { s.bwrite g.start (Log.writeHead (s.buf g.start) []) with
          lh := []
          phase := .idle
          started := s.started.take s.reached }
  | recoverFromLog (s : LogState) (here : s.phase = .recoverFromLog) :
      Step g s
        { s with
          lh := readHead (s.buf g.start)
          phase := .installTrans true 0 }
  -- the cache recycles a buffer that the log does not pin
  | evict (s : LogState) (b : BlockNo) (unpinned : b ∉ s.pinned) :
      Step g s { s with buf := Function.update s.buf b (s.disk b) }
  | crash (s : LogState) :
      Step g s
        { s with
          buf := s.disk
          lh := []
          outstanding := 0
          committing := false
          phase := .recoverFromLog
          current := [] }

/-- The states of the runs that start on `disk` with an empty log header. -/
inductive Reachable (g : Geometry) (disk : Disk) : LogState → Prop
  | boot (empty : readHead (disk g.start) = []) : Reachable g disk (.boot disk)
  | step {s s' : LogState} (before : Reachable g disk s) (step : Step g s s') :
      Reachable g disk s'

/-! ## Spec lemmas -/

theorem readHead_writeHead (old : Block) (lh : List BlockNo) (small : lh.length ≤ LOGBLOCKS) :
    readHead (writeHead old lh) = lh := by
  have bound : lh.length ≤ 30 := small
  have count : (BitVec.ofNat 32 lh.length).toInt.toNat = lh.length := by
    rw [BitVec.toInt_eq_toNat_of_lt] <;> simp <;> omega
  apply List.ext_getElem
  · simp [readHead, writeHead, count]
  · intro i _ inside
    simp [readHead, writeHead, inside]

theorem absorb_nodup {lh : List BlockNo} (distinct : lh.Nodup) (b : BlockNo) :
    (absorb lh b).Nodup := by
  unfold absorb
  split
  · exact distinct
  · next absent =>
    rw [← List.concat_eq_append]
    exact distinct.concat absent

variable {b : BlockNo}

theorem mem_absorb {lh : List BlockNo} {c : BlockNo} : c ∈ absorb lh b ↔ c ∈ lh ∨ c = b := by
  unfold absorb
  split
  · next present =>
    constructor
    · exact Or.inl
    · rintro (mem | rfl)
      · exact mem
      · exact present
  · simp

theorem length_absorb_le (lh : List BlockNo) (b : BlockNo) :
    (absorb lh b).length ≤ lh.length + 1 := by
  unfold absorb
  split <;> simp

namespace Geometry

variable (g : Geometry)

theorem copy_toNat (small : tail < LOGBLOCKS) : (g.copy tail).toNat = g.start.toNat + tail + 1 := by
  have := g.fits
  have one : (1 : BitVec 32).toNat = 1 := rfl
  simp only [copy, BitVec.toNat_add, BitVec.toNat_ofNat, one]
  omega

theorem copy_ne_start (small : tail < LOGBLOCKS) : g.copy tail ≠ g.start := by
  intro same
  have := g.copy_toNat small
  rw [same] at this
  omega

theorem copy_injective {i j : Nat} (small : i < LOGBLOCKS)
    (small' : j < LOGBLOCKS) (same : g.copy i = g.copy j) : i = j := by
  have left := g.copy_toNat small
  have right := g.copy_toNat small'
  rw [same] at left
  omega

variable {g}

theorem Home.ne_start (home : g.Home b) : b ≠ g.start := by
  rintro rfl
  rcases home with below | above <;> omega

theorem Home.ne_copy (home : g.Home b) (small : tail < LOGBLOCKS) : b ≠ g.copy tail := by
  rintro rfl
  have := g.copy_toNat small
  rcases home with below | above <;> omega

end Geometry

end Xv6.Log
