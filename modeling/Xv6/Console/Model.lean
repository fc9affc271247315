import Xv6.Library.RingBuffer

/-!
# The console

A step is a section under `cons.lock`: a call of `consoleintr`, or `consoleread` from one
`sleep` to the next. A sleeping reader may go on at any time. What `killed` and
`either_copyout` return are inputs; the echo of the input is left out.
-/

namespace Xv6.Console

open RingBuffer Function

abbrev Byte := BitVec 8

abbrev INPUT_BUF_SIZE : Nat := 128

instance : NeZero INPUT_BUF_SIZE := ⟨by decide⟩

def C (x : Char) : Byte := BitVec.ofNat 8 (x.toNat - '@'.toNat)

def newline : Byte := 0x0a

def carriageReturn : Byte := 0x0d

def delete : Byte := 0x7f

/-- `cons`, without its lock. -/
structure Cons where
  buf : Fin INPUT_BUF_SIZE → Byte
  r : BitVec 32
  w : BitVec 32
  e : BitVec 32

def Cons.init : Cons := { buf := fun _ => 0, r := 0, w := 0, e := 0 }

/-! ## Input -/

/-- The loop of `^U`; `e` meets `w` after `e - w` rounds. -/
def killLoop : Nat → Cons → Cons
  | 0, cons => cons
  | rounds + 1, cons =>
    if cons.e ≠ cons.w ∧ cons.buf (slot INPUT_BUF_SIZE (cons.e - 1)) ≠ newline then
      killLoop rounds { cons with e := cons.e - 1 }
    else cons

def consoleintr (cons : Cons) (c : Byte) : Cons :=
  if c = C 'P' then cons
  else if c = C 'U' then killLoop (cons.e - cons.w).toNat cons
  else if c = C 'H' ∨ c = delete then
    if cons.e ≠ cons.w then { cons with e := cons.e - 1 } else cons
  else if c ≠ 0 ∧ (cons.e - cons.r).toNat < INPUT_BUF_SIZE then
    let c := if c = carriageReturn then newline else c
    let cons :=
      { cons with
        buf := update cons.buf (slot INPUT_BUF_SIZE cons.e) c
        e := cons.e + 1 }
    if c = newline ∨ c = C 'D' ∨ (cons.e - cons.r).toNat = INPUT_BUF_SIZE then
      { cons with w := cons.e }
    else cons
  else cons

/-! ## Reads -/

/-- How a section of `consoleread` ends. -/
inductive Ending where
  /-- At `sleep`: there is nothing to read. -/
  | asleep
  /-- There is nothing to read, and the process has been killed. -/
  | killed
  /-- At a `^D` that was the first byte. -/
  | eof
  /-- At a `^D` after other bytes, which stays in the buffer. -/
  | saved
  /-- `either_copyout` failed. -/
  | fault
  /-- At the end of a line. -/
  | line
  /-- With all the bytes that were asked for. -/
  | filled
  deriving DecidableEq, Repr

/-- The end of a section: the bytes still wanted, those copied out by the call, and those that
the section has taken from the buffer. -/
structure Section where
  ending : Ending
  cons : Cons
  n : Nat
  got : List Byte
  took : List Byte := []

/-- The loop of `consoleread`, from the test `n > 0` on. -/
def readLoop (killed : Bool) (copyout : Nat → Bool) (target : Nat) :
    Nat → Cons → List Byte → Section
  | 0, cons, got => { ending := .filled, cons, n := 0, got }
  | n + 1, cons, got =>
    if cons.r = cons.w then
      { ending := if killed then .killed else .asleep, cons, n := n + 1, got }
    else
      let c := cons.buf (slot INPUT_BUF_SIZE cons.r)
      let cons := { cons with r := cons.r + 1 }
      if c = C 'D' then
        if n + 1 < target then
          { ending := .saved, cons := { cons with r := cons.r - 1 }, n := n + 1, got }
        else { ending := .eof, cons, n := n + 1, got, took := [c] }
      else if !copyout (n + 1) then { ending := .fault, cons, n := n + 1, got, took := [c] }
      else if c = newline then
        { ending := .line, cons, n := n, got := got ++ [c], took := [c] }
      else
        let rest := readLoop killed copyout target n cons (got ++ [c])
        { rest with took := c :: rest.took }

/-! ## Interleavings -/

structure Call where
  target : Nat
  n : Nat
  got : List Byte := []

/-- A call of `consoleread` that has returned, and the committed bytes it left. -/
structure Return where
  target : Nat
  got : List Byte
  ending : Ending
  value : Int
  unread : List Byte

/-- The console, the calls of each process, and the bytes taken from the buffer so far. -/
structure State (P : Type) where
  cons : Cons
  calls : P → Option Call
  returned : P → List Return
  taken : List (P × Byte)

inductive Event (P : Type) where
  | intr (c : Byte)
  | call (p : P) (n : Int)
  /-- The process holds `cons.lock` until it sleeps or returns. -/
  | hold (p : P) (killed : Bool) (copyout : Nat → Bool)

def Cons.unread (cons : Cons) : List Byte := contents cons.buf cons.r cons.w

def Cons.pending (cons : Cons) : List Byte := contents cons.buf cons.w cons.e

namespace State

variable {P : Type}

def init : State P where
  cons := .init
  calls := fun _ => none
  returned := fun _ => []
  taken := []

variable [DecidableEq P]

def hold (s : State P) (p : P) (call : Call) (killed : Bool) (copyout : Nat → Bool) : State P :=
  let out := readLoop killed copyout call.target call.n s.cons call.got
  let s :=
    { s with
      cons := out.cons
      taken := s.taken ++ out.took.map fun c => (p, c) }
  if out.ending = .asleep then
    { s with calls := update s.calls p (some { call with n := out.n, got := out.got }) }
  else
    let value : Int := if out.ending = .killed then -1 else call.target - out.n
    let done : Return :=
      { target := call.target, got := out.got, ending := out.ending, value,
        unread := out.cons.unread }
    { s with
      calls := update s.calls p none
      returned := update s.returned p (s.returned p ++ [done]) }

/-- The step of an event; an event that does not apply changes nothing. -/
def step (s : State P) : Event P → State P
  | .intr c => { s with cons := consoleintr s.cons c }
  | .call p n =>
    match s.calls p with
    | some _ => s
    -- A call with `n <= 0` wants nothing, and returns `target - n`, which is 0.
    | none => { s with calls := update s.calls p (some { target := n.toNat, n := n.toNat }) }
  | .hold p killed copyout =>
    match s.calls p with
    | none => s
    | some call => s.hold p call killed copyout

end State

/-! ## The line discipline -/

/-- What the input amounts to: the committed bytes, and the line that is being edited. -/
structure Line where
  committed : List Byte := []
  pending : List Byte := []

/-- One input character, when `taken` of the committed bytes have been read. -/
def Line.key (taken : Nat) (line : Line) (c : Byte) : Line :=
  if c = C 'P' then line
  else if c = C 'U' then { line with pending := [] }
  else if c = C 'H' ∨ c = delete then { line with pending := line.pending.dropLast }
  else if c ≠ 0 ∧ line.committed.length - taken + line.pending.length < INPUT_BUF_SIZE then
    let c := if c = carriageReturn then newline else c
    let pending := line.pending ++ [c]
    if c = newline ∨ c = C 'D' ∨
        line.committed.length - taken + pending.length = INPUT_BUF_SIZE then
      { committed := line.committed ++ pending, pending := [] }
    else { line with pending }
  else line

/-- The console with the line discipline beside it. -/
structure Watched (P : Type) where
  state : State P
  line : Line

namespace Watched

variable {P : Type} [DecidableEq P]

def step (s : Watched P) (event : Event P) : Watched P where
  state := s.state.step event
  line :=
    match event with
    | .intr c => s.line.key s.state.taken.length c
    | _ => s.line

def run (events : List (Event P)) : Watched P := events.foldl step { state := .init, line := {} }

end Watched

end Xv6.Console
