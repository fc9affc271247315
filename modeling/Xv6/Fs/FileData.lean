import Xv6.Fs.BlockLedger

/-!
# The data of files

`readi` and `writei` with the bytes that they move. A block is an array of 256 words in
little-endian order. Beside the blocks of the buffer cache stand those that the log will write
at the next commit, and those at home on the disk.
-/

namespace Xv6.Blocks

namespace Contents

def byte (c : Contents) (k : Nat) : UInt8 :=
  if inside : k / 4 < NINDIRECT then UInt8.ofNat (c ⟨k / 4, inside⟩ / 256 ^ (k % 4)) else 0

def ofBytes (bytes : Nat → UInt8) : Contents := fun j =>
  (bytes (4 * j)).toNat + 256 * (bytes (4 * j + 1)).toNat +
    256 ^ 2 * (bytes (4 * j + 2)).toNat + 256 ^ 3 * (bytes (4 * j + 3)).toNat

/-- `memmove` into a buffer. -/
def store (c : Contents) (start : Nat) (bytes : List UInt8) : Contents :=
  ofBytes fun k => if start ≤ k then (bytes[k - start]?).getD (c.byte k) else c.byte k

/-- `memmove` out of a buffer. -/
def load (c : Contents) (start len : Nat) : List UInt8 :=
  (List.range len).map fun i => c.byte (start + i)

def Same (c c' : Contents) : Prop := ∀ k < BSIZE, c.byte k = c'.byte k

end Contents

/-! ## User memory -/

def PGSIZE : Nat := 4096

theorem PGSIZE_eq : PGSIZE = 4096 := rfl

/-- The pages that `walkaddr` or `vmfault` finds, by their number, and the bytes in them. -/
structure UserMemory where
  accessible : Nat → Bool
  byte : Nat → UInt8

/-- `copyin`: what it has copied when it returns, and whether it succeeds. -/
def copyin (mem : UserMemory) : (rounds srcva len : Nat) → List UInt8 × Bool
  | 0, _, _ => ([], true)
  | rounds + 1, srcva, len =>
    if len = 0 then ([], true)
    else if mem.accessible (srcva / PGSIZE) then
      let va0 := srcva / PGSIZE * PGSIZE
      let n := min (PGSIZE - (srcva - va0)) len
      let rest := copyin mem rounds (va0 + PGSIZE) (len - n)
      ((List.range n).map (fun i => mem.byte (srcva + i)) ++ rest.1, rest.2)
    else ([], false)

/-- What `writei` copies from: `src` in user memory, or kernel memory from `src` on. -/
inductive Source where
  | user (mem : UserMemory) (src : Nat)
  | kernel (bytes : Nat → UInt8)

/-- The byte that is `i` bytes behind `src`. -/
def Source.byte : Source → Nat → UInt8
  | .user mem src, i => mem.byte (src + i)
  | .kernel bytes, i => bytes i

def Source.accessible : Source → Nat → Bool
  | .user mem src, i => mem.accessible ((src + i) / PGSIZE)
  | .kernel _, _ => true

/-- `either_copyin` of `len` bytes, `tot` bytes behind `src`. -/
def eitherCopyin (source : Source) (tot len : Nat) : List UInt8 × Bool :=
  match source with
  | .user mem src => copyin mem len (src + tot) len
  | .kernel bytes => ((List.range len).map fun i => bytes (tot + i), true)

/-! ## Buffers and the log -/

def BPB : Nat := BSIZE * 8

def IPB : Nat := 16

inductive BlockId where
  | bitmap (k : Nat)
  | inodes (k : Nat)
  | data (b : Nat)
  deriving DecidableEq, Repr

structure Buffers where
  cached : Disk
  logged : BlockId → Bool
  home : Disk

namespace Buffers

def logWrite (s : Buffers) (b : BlockId) : Buffers :=
  { s with logged := Function.update s.logged b true }

def postCommit (s : Buffers) : Disk where
  bitmap b := if s.logged (.bitmap (b / BPB)) then s.cached.bitmap b else s.home.bitmap b
  blocks b := if s.logged (.data b) then s.cached.blocks b else s.home.blocks b
  dinodes i := if s.logged (.inodes (i / IPB)) then s.cached.dinodes i else s.home.dinodes i

def balloc (sb : Superblock) (s : Buffers) : Nat × Buffers :=
  match s.cached.balloc sb with
  | (0, d) => (0, { s with cached := d })
  | (b + 1, d) =>
    (b + 1, ({ s with cached := d }.logWrite (.bitmap ((b + 1) / BPB))).logWrite (.data (b + 1)))

def iupdate (s : Buffers) (inum : Nat) (ip : Dinode) : Buffers :=
  { s with cached := s.cached.iupdate inum ip }.logWrite (.inodes (inum / IPB))

def setBlock (s : Buffers) (b : Nat) (c : Contents) : Buffers :=
  { s with cached := { s.cached with blocks := Function.update s.cached.blocks b c } }

end Buffers

namespace Logged

/-- `Blocks.bmapDirect` with its `log_write`s. -/
def bmapDirect (sb : Superblock) (ip : Dinode) (k : Fin (NDIRECT + 1)) (s : Buffers) :
    Nat × Dinode × Buffers :=
  if ip.addrs k = 0 then
    match s.balloc sb with
    | (0, s) => (0, ip, s)
    | (addr + 1, s) =>
      (addr + 1, { ip with addrs := Function.update ip.addrs k (addr + 1) }, s)
  else (ip.addrs k, ip, s)

def bmapEntry (sb : Superblock) (table : Nat) (j : Fin NINDIRECT) (s : Buffers) : Nat × Buffers :=
  if s.cached.blocks table j = 0 then
    match s.balloc sb with
    | (0, s) => (0, s)
    | (addr + 1, s) =>
      (addr + 1, (s.setBlock table (Function.update (s.cached.blocks table) j (addr + 1))).logWrite
          (.data table))
  else (s.cached.blocks table j, s)

def bmap (sb : Superblock) (ip : Dinode) (bn : Nat) (s : Buffers) :
    Except Panic (Nat × Dinode × Buffers) :=
  if direct : bn < NDIRECT then .ok (bmapDirect sb ip ⟨bn, Nat.lt_succ_of_lt direct⟩ s)
  else if inside : bn - NDIRECT < NINDIRECT then
    match bmapDirect sb ip indirect s with
    | (0, ip, s) => .ok (0, ip, s)
    | (table + 1, ip, s) =>
      match bmapEntry sb (table + 1) ⟨bn - NDIRECT, inside⟩ s with
      | (addr, s) => .ok (addr, ip, s)
  else .error .bmapOutOfRange

/-- How `writei` ends: refused, all written, no block left, or a failed `either_copyin`. -/
inductive Ending where
  | refused
  | done
  | full
  | fault
  deriving DecidableEq, Repr

structure Written where
  ending : Ending
  off : Nat
  tot : Nat
  ip : Dinode
  buffers : Buffers

/-- The loop of `writei` from `off` on, after `tot` of `n` bytes; a round moves at least one
byte. -/
def writeiLoop (sb : Superblock) (source : Source) (n : Nat) :
    (rounds off tot : Nat) → Dinode → Buffers → Except Panic Written
  | 0, off, tot, ip, s => .ok ⟨.done, off, tot, ip, s⟩
  | rounds + 1, off, tot, ip, s =>
    if tot < n then do
      let (addr, ip, s) ← bmap sb ip (off / BSIZE) s
      if addr = 0 then return ⟨.full, off, tot, ip, s⟩
      let m := min (n - tot) (BSIZE - off % BSIZE)
      let (bytes, ok) := eitherCopyin source tot m
      let s := s.setBlock addr ((s.cached.blocks addr).store (off % BSIZE) bytes)
      if ok then
        writeiLoop sb source n rounds (off + m) (tot + m) ip (s.logWrite (.data addr))
      else return ⟨.fault, off, tot, ip, s⟩
    else .ok ⟨.done, off, tot, ip, s⟩

/-- `writei`: its result, how it ended, the inode and the buffers. -/
def writei (sb : Superblock) (source : Source) (inum off n : Nat) (ip : Dinode) (s : Buffers) :
    Except Panic (Int × Ending × Dinode × Buffers) :=
  if ip.size < off ∨ (off + n) % 2 ^ 32 < off then .ok (-1, .refused, ip, s)
  else if MAXFILE * BSIZE < (off + n) % 2 ^ 32 then .ok (-1, .refused, ip, s)
  else do
    let w ← writeiLoop sb source n n off 0 ip s
    let ip := if w.ip.size < w.off then { w.ip with size := w.off } else w.ip
    .ok (w.tot, w.ending, ip, w.buffers.iupdate inum ip)

/-- The loop of `readi`; `ok` are the outcomes of `either_copyout`, and `out` is what has been
copied. -/
def readiLoop (sb : Superblock) (ok : Nat → Bool) (n : Nat) :
    (rounds off tot : Nat) → (out : List UInt8) → Dinode → Buffers →
      Except Panic (Option Nat × List UInt8 × Dinode × Buffers)
  | 0, _, tot, out, ip, s => .ok (some tot, out, ip, s)
  | rounds + 1, off, tot, out, ip, s =>
    if tot < n then do
      let (addr, ip, s) ← bmap sb ip (off / BSIZE) s
      if addr = 0 then return (some tot, out, ip, s)
      let m := min (n - tot) (BSIZE - off % BSIZE)
      if ok (off / BSIZE) then
        readiLoop sb ok n rounds (off + m) (tot + m)
          (out ++ (s.cached.blocks addr).load (off % BSIZE) m) ip s
      else return (none, out, ip, s)
    else .ok (some tot, out, ip, s)

/-- `readi`: its result, what it has copied, the inode and the buffers. -/
def readi (sb : Superblock) (ok : Nat → Bool) (off n : Nat) (ip : Dinode) (s : Buffers) :
    Except Panic (Int × List UInt8 × Dinode × Buffers) :=
  if ip.size < off ∨ (off + n) % 2 ^ 32 < off then .ok (0, [], ip, s)
  else do
    let n := if ip.size < (off + n) % 2 ^ 32 then ip.size - off else n
    let (tot, out, ip, s) ← readiLoop sb ok n n off 0 [] ip s
    .ok (match tot with | none => -1 | some tot => tot, out, ip, s)

end Logged

/-! ## The contents of a file -/

def Dinode.blockAt (ip : Dinode) (blocks : Nat → Contents) (bn : Nat) : Option Nat :=
  (dataSlot bn).bind (ip.slots blocks)

def Dinode.byteAt (ip : Dinode) (blocks : Nat → Contents) (p : Nat) : Option UInt8 :=
  (ip.blockAt blocks (p / BSIZE)).map fun b => (blocks b).byte (p % BSIZE)

end Xv6.Blocks
