import Xv6.Files.Contract

/-!
# Path lookup keeps what a call owns

A function that returns an inode returns a reference to it, and all other references that it
takes on the way are given back.
-/

namespace Xv6.Files

open Program hiding act
open Contract
open Directory (Name Path)
open Blocks (FileType)

variable {P : Type}
variable {α : Type} {Q : Unit → Local P → Prop} {name : Name} {path : Path} {type : FileType}

namespace Local

variable (l : Local P) (t u : Token) (ip dp : Ip)

def take : Local P := { l with held := more l.held t }

def drop : Local P := { l with held := less l.held t }

def lock : Local P := { l with locks := insert ip l.locks }

def unlock : Local P := { l with locks := l.locks.erase ip }

def found : Option Ip → Local P
  | none => l
  | some ip => l.take (.inode ip)

@[simp] theorem proc_take : (l.take t).proc = l.proc := rfl

@[simp] theorem proc_drop : (l.drop t).proc = l.proc := rfl

@[simp] theorem proc_lock : (l.lock ip).proc = l.proc := rfl

@[simp] theorem proc_unlock : (l.unlock ip).proc = l.proc := rfl

@[simp] theorem tx_take : (l.take t).tx = l.tx := rfl

@[simp] theorem tx_drop : (l.drop t).tx = l.tx := rfl

@[simp] theorem tx_lock : (l.lock ip).tx = l.tx := rfl

@[simp] theorem tx_unlock : (l.unlock ip).tx = l.tx := rfl

@[simp] theorem locks_take : (l.take t).locks = l.locks := rfl

@[simp] theorem locks_lock : (l.lock ip).locks = insert ip l.locks := rfl

@[simp] theorem held_take : (l.take t).held = more l.held t := rfl

@[simp] theorem held_lock : (l.lock ip).held = l.held := rfl

@[simp] theorem held_unlock : (l.unlock ip).held = l.held := rfl

@[simp] theorem take_lock : (l.lock ip).take t = (l.take t).lock ip := rfl

@[simp] theorem take_unlock : (l.unlock ip).take t = (l.take t).unlock ip := rfl

@[simp] theorem drop_lock : (l.lock ip).drop t = (l.drop t).lock ip := rfl

@[simp] theorem drop_unlock : (l.unlock ip).drop t = (l.drop t).unlock ip := rfl

@[simp]
theorem drop_take : (l.take t).drop t = l := by
  simp [take, drop]

@[simp]
theorem drop_take_take : ((l.take t).take u).drop t = l.take u := by
  simp [take, drop, less_more_more]

variable {l ip dp}

theorem unlock_lock (unlocked : ip ∉ l.locks) : (l.lock ip).unlock ip = l := by
  simp [lock, unlock, Finset.erase_insert unlocked]

theorem unlock_lock_lock (unlocked : dp ∉ l.locks) (apart : ip ≠ dp) :
    ((l.lock dp).lock ip).unlock dp = l.lock ip := by
  simp only [lock, unlock]
  rw [Finset.erase_insert_of_ne apart, Finset.erase_insert unlocked]

end Local

section Specs

variable {l : Local P} {ip dp : Ip} {R : Option Ip → Local P → Prop} {S : Bool → Local P → Prop}
  {T : Inode P → Local P → Prop} {nlink : BitVec 16} {dev : Nat}
  {panic : Panic} {U : α → Local P → Prop} {pointer : Option α} {question : Question} {inum : Nat}
  {V : Ip → Local P → Prop} {nameiparent : Bool} {names : List Name}
  {W : Option (Ip × Name) → Local P → Prop} (live : l.proc.status = .live)
include live

theorem wp_stop : contract.wp (stop panic) U l :=
  ⟨⟨live, trivial⟩, nofun⟩

theorem wp_never : contract.wp never U l :=
  ⟨⟨live, trivial⟩, nofun⟩

theorem wp_deref (holds : ∀ a, pointer = some a → U a l) :
    contract.wp (deref panic pointer) U l := by
  cases pointer with
  | none => exact wp_stop live
  | some a => exact holds a rfl

theorem wp_ask (holds : ∀ answer, S answer l) : contract.wp (ask question) S l := by
  refine wp_act ⟨live, trivial⟩ ?_
  rintro answer _ rfl
  exact holds answer

theorem wp_inode (holds : ∀ inode, T inode l) : contract.wp (act (.inode ip)) T l := by
  refine wp_act ⟨live, trivial⟩ ?_
  rintro inode _ rfl
  exact holds inode

theorem wp_setNlink (holds : Q () l) : contract.wp (act (.setNlink ip nlink)) Q l := by
  refine wp_act ⟨live, trivial⟩ ?_
  rintro reply _ rfl
  exact holds

theorem wp_ilock (holds : ∀ inode, ip ∉ l.locks → T inode (l.lock ip)) :
    contract.wp (act (.ilock ip)) T l := by
  refine wp_act ⟨live, trivial⟩ ?_
  rintro inode _ ⟨unlocked, rfl⟩
  exact holds inode unlocked

theorem wp_iunlock (locked : ip ∈ l.locks) (holds : Q () (l.unlock ip)) :
    contract.wp (act (.iunlock ip)) Q l := by
  refine wp_act ⟨live, locked⟩ ?_
  rintro reply _ rfl
  exact holds

theorem wp_iget (holds : ∀ ip, V ip (l.take (.inode ip))) :
    contract.wp (act (.iget dev inum)) V l := by
  refine wp_act ⟨live, trivial⟩ ?_
  rintro ip _ rfl
  exact holds ip

theorem wp_iput (tx : l.tx = true)
    (held : 1 ≤ l.held (.inode ip)) (holds : Q () (l.drop (.inode ip))) :
    contract.wp (iput ip) Q l := by
  refine wp_bind (wp_act ⟨live, held, tx⟩ ?_)
  intro freeing l' step
  cases freeing with
  | false =>
    cases step
    exact holds
  | true =>
    obtain ⟨unlocked, rfl⟩ := step
    refine wp_bind (wp_act ⟨live, Finset.mem_insert_self ip l.locks⟩ ?_)
    rintro reply _ rfl
    refine wp_act ⟨live, held⟩ ?_
    rintro reply' _ rfl
    rwa [Finset.erase_insert unlocked]

theorem wp_iunlockput (tx : l.tx = true) (locked : ip ∈ l.locks) (held : 1 ≤ l.held (.inode ip))
    (holds : Q () ((l.unlock ip).drop (.inode ip))) : contract.wp (iunlockput ip) Q l :=
  wp_bind (wp_iunlock live locked (wp_iput live tx held holds))

theorem wp_iunlockput_lock (tx : l.tx = true) (unlocked : ip ∉ l.locks) (holds : Q () l) :
    contract.wp (iunlockput ip) Q ((l.take (.inode ip)).lock ip) := by
  have outside : ip ∉ (l.take (.inode ip)).locks := unlocked
  refine wp_iunlockput live tx (Finset.mem_insert_self ip _) (more_pos l.held _) ?_
  rwa [Local.unlock_lock outside, Local.drop_take]

theorem wp_dirlookup (holds : ∀ r, R r (l.found r)) : contract.wp (dirlookup dp name) R l := by
  refine wp_bind (wp_inode live fun inode => ?_)
  split
  · exact wp_stop live
  · refine wp_bind (wp_act ⟨live, trivial⟩ ?_)
    rintro found _ rfl
    cases found with
    | none => exact holds none
    | some inum => exact wp_bind (wp_iget live fun ip => holds (some ip))

theorem wp_dirlink (tx : l.tx = true) (holds : ∀ r, S r l) : contract.wp (dirlink dp name) S l := by
  refine wp_bind (wp_dirlookup live fun r => ?_)
  cases r with
  | none => exact wp_ask live holds
  | some ip =>
    refine wp_bind (wp_iput live tx (more_pos l.held _) ?_)
    rw [Local.found, Local.drop_take]
    exact holds false

theorem wp_ialloc (holds : ∀ r, R r (l.found r)) : contract.wp (ialloc dev) R l := by
  refine wp_bind (wp_act ⟨live, trivial⟩ ?_)
  rintro found _ rfl
  cases found with
  | none => exact holds none
  | some inum => exact wp_bind (wp_iget live fun ip => holds (some ip))

theorem wp_namexLoop (tx : l.tx = true) (holds : ∀ r, W r (l.found (r.map (·.1)))) :
    contract.wp (namexLoop nameiparent names ip) W (l.take (.inode ip)) := by
  induction names generalizing ip with
  | nil =>
    rw [namexLoop]
    split
    · refine wp_bind (wp_iput live tx (more_pos l.held _) ?_)
      rw [Local.drop_take]
      exact holds none
    · exact holds (some (ip, []))
  | cons name rest ih =>
    refine wp_bind (wp_ilock live fun inode unlocked => ?_)
    split
    · exact wp_bind (wp_iunlockput_lock live tx unlocked (holds none))
    · split
      · refine wp_bind (wp_iunlock live (Finset.mem_insert_self ip _) ?_)
        rw [Local.unlock_lock unlocked]
        exact holds (some (ip, name))
      · refine wp_bind (wp_dirlookup live fun r => ?_)
        cases r with
        | none => exact wp_bind (wp_iunlockput_lock live tx unlocked (holds none))
        | some next =>
          have outside : ip ∉ ((l.take (.inode ip)).take (.inode next)).locks := unlocked
          refine wp_bind (wp_iunlockput live tx (Finset.mem_insert_self ip _) ?_ ?_)
          · exact (more_pos l.held _).trans (le_more _ _ _)
          · rw [Local.found, Local.take_lock, Local.unlock_lock outside, Local.drop_take_take]
            exact ih

section

variable (tx : l.tx = true) (cwd : ∀ ip, l.proc.cwd = some ip → 1 ≤ l.held (.inode ip))
include tx cwd

theorem wp_namex (holds : ∀ r, W r (l.found (r.map (·.1)))) :
    contract.wp (namex path nameiparent) W l := by
  rw [namex]
  split
  · exact wp_bind (wp_iget live fun ip => wp_namexLoop live tx holds)
  · refine wp_bind (wp_act ⟨live, trivial⟩ ?_)
    rintro pointer _ ⟨rfl, rfl⟩
    refine wp_bind (wp_deref live fun ip here => ?_)
    refine wp_bind (wp_act ⟨live, cwd ip here⟩ ?_)
    rintro reply _ rfl
    exact wp_namexLoop live tx holds

theorem wp_namei (holds : ∀ r, R r (l.found r)) : contract.wp (namei path) R l :=
  wp_bind (wp_namex live tx cwd fun _ => wp_pure (holds _))

end

theorem wp_makeDots (tx : l.tx = true) (holds : ∀ r, S r l) :
    contract.wp (makeDots type ip) S l := by
  rw [makeDots]
  split
  · refine wp_bind (wp_dirlink live tx fun made => ?_)
    split
    · exact wp_dirlink live tx holds
    · exact holds false
  · exact holds true

theorem wp_makeEntries (tx : l.tx = true) (holds : ∀ r, S r l) :
    contract.wp (makeEntries dp name type ip) S l := by
  refine wp_bind (wp_makeDots live tx fun dots => ?_)
  split
  · exact wp_dirlink live tx holds
  · exact holds false

theorem wp_countLink (holds : Q () l) : contract.wp (countLink dp type nlink) Q l := by
  rw [countLink]
  split
  · exact wp_bind (wp_inode live fun inode => wp_setNlink live holds)
  · exact holds

theorem wp_iunlockput_first (tx : l.tx = true) (unlocked : dp ∉ l.locks) (apart : ip ≠ dp)
    (holds : Q () ((l.take (.inode ip)).lock ip)) :
    contract.wp (iunlockput dp) Q ((((l.take (.inode dp)).take (.inode ip)).lock dp).lock ip) := by
  have outside : dp ∉ ((l.take (.inode dp)).take (.inode ip)).locks := unlocked
  refine wp_iunlockput live tx ?_ ?_ ?_
  · exact Finset.mem_insert_of_mem (Finset.mem_insert_self dp _)
  · exact (more_pos l.held _).trans (le_more _ _ _)
  · rwa [Local.unlock_lock_lock outside apart, Local.drop_lock, Local.drop_take_take]

theorem wp_iunlockput_second (tx : l.tx = true) (outside : ip ∉ insert dp l.locks)
    (holds : Q () ((l.take (.inode dp)).lock dp)) :
    contract.wp (iunlockput ip) Q ((((l.take (.inode dp)).take (.inode ip)).lock dp).lock ip) := by
  have outside' : ip ∉ (((l.take (.inode dp)).take (.inode ip)).lock dp).locks := outside
  refine wp_iunlockput live tx (Finset.mem_insert_self ip _) (more_pos _ _) ?_
  rwa [Local.unlock_lock outside', Local.drop_lock, Local.drop_take]

theorem wp_createInode (tx : l.tx = true) (unlocked : dp ∉ l.locks)
    (failed : R none l) (made : ip ∉ l.locks → R (some ip) ((l.take (.inode ip)).lock ip)) :
    contract.wp (createInode dp name type ip) R
      (((l.take (.inode dp)).take (.inode ip)).lock dp) := by
  refine wp_bind (wp_ilock live fun inode outside => ?_)
  refine wp_bind (wp_setNlink live ?_)
  refine wp_bind (wp_makeEntries live tx fun entered => ?_)
  obtain ⟨apart, free⟩ : ip ≠ dp ∧ ip ∉ l.locks := by
    simpa [not_or] using outside
  split
  · refine wp_bind (wp_countLink live ?_)
    exact wp_bind (wp_iunlockput_first live tx unlocked apart (made free))
  · refine wp_bind (wp_setNlink live ?_)
    refine wp_bind (wp_iunlockput_second live tx outside ?_)
    exact wp_bind (wp_iunlockput_lock live tx unlocked failed)

theorem wp_create (tx : l.tx = true)
    (cwd : ∀ ip, l.proc.cwd = some ip → 1 ≤ l.held (.inode ip)) (failed : R none l)
    (made : ∀ ip, ip ∉ l.locks → R (some ip) ((l.take (.inode ip)).lock ip)) :
    contract.wp (create path type) R l := by
  refine wp_bind (wp_namex live tx cwd fun r => ?_)
  match r with
  | none => exact failed
  | some (dp, name) =>
    refine wp_bind (wp_ilock live fun d unlocked => ?_)
    refine wp_bind (wp_dirlookup live fun found => ?_)
    cases found with
    | some ip =>
      have outside : dp ∉ ((l.take (.inode dp)).take (.inode ip)).locks := unlocked
      refine wp_bind (wp_iunlockput live tx (Finset.mem_insert_self dp _) ?_ ?_)
      · exact (more_pos l.held _).trans (le_more _ _ _)
      · change contract.wp _ R
          (((((l.take (.inode dp)).take (.inode ip)).lock dp).unlock dp).drop (.inode dp))
        rw [Local.unlock_lock outside, Local.drop_take_take]
        refine wp_bind (wp_ilock live fun inode free => ?_)
        split
        · exact made ip free
        · exact wp_bind (wp_iunlockput_lock live tx free failed)
    | none =>
      refine wp_bind (wp_ialloc live fun new => ?_)
      cases new with
      | none => exact wp_bind (wp_iunlockput_lock live tx unlocked failed)
      | some ip => exact wp_createInode live tx unlocked failed (made ip)

end Specs

end Xv6.Files
