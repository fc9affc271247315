import Xv6.Memory.Layout

/-!
# Page tables

The Sv39 functions of `kernel/vm.c` on a three-level tree. A leaf holds its flag bits together
with the page it maps, since no page is mapped twice. `kalloc` is a number of pages it will
still hand out.
-/

namespace Xv6.Memory

open Function

variable {vpn : Nat}

/-- How a kernel function may fail to return: one of the panics, `freewalk`
taking a user page for a page-table page, or a loop without end. -/
inductive Halt where
  | walk
  | mappagesNotAligned
  | mappagesRemap
  | uvmunmapNotAligned
  | freewalkLeaf
  | freewalkWild
  | uvmclear
  | loadsegNoPage
  | neverReturns
  deriving DecidableEq, Repr

abbrev Result := Except Halt

theorem bind_eq_ok {α β : Type} {result : Result α} {f : α → Result β} {b : β}
    (ok : result >>= f = .ok b) : ∃ a, result = .ok a ∧ f a = .ok b := by
  rcases result with halt | a
  · cases ok
  · exact ⟨a, rfl, ok⟩

theorem map_eq_ok {α β : Type} {result : Result α} {f : α → β} {b : β}
    (ok : result.map f = .ok b) : ∃ a, result = .ok a ∧ f a = b := by
  rcases result with halt | a
  · cases ok
  · exact ⟨a, rfl, Except.ok.inj ok⟩

/-- The bits `PTE_R`, `PTE_W`, `PTE_X` and `PTE_U`. -/
structure Perm where
  r : Bool := false
  w : Bool := false
  x : Bool := false
  u : Bool := false
  deriving DecidableEq, Repr

/-- A leaf entry: its permissions, `PTE_V`, and the page it points to. -/
structure Pte extends Perm where
  v : Bool := false
  page : Page := Page.zero

abbrev LeafTable := Fin 512 → Pte

abbrev MiddleTable := Fin 512 → Option LeafTable

abbrev PageTable := Fin 512 → Option MiddleTable

/-- `PX(level, va)` of an address on page `vpn`. -/
def px (level vpn : Nat) : Fin 512 := ⟨vpn / 512 ^ level % 512, Nat.mod_lt _ (by decide)⟩

/-- The number of leaves a table has room for; only the first half of them lie
below `MAXVA`. -/
def NVPN : Nat := 512 * 512 * 512

theorem NVPN_eq : NVPN = 134217728 := rfl

theorem eq_of_px_eq {v w : Nat} (small : v < NVPN) (small' : w < NVPN)
    (top : px 2 v = px 2 w) (middle : px 1 v = px 1 w) (leaf : px 0 v = px 0 w) :
    v = w := by
  simp only [px, Fin.mk.injEq, NVPN_eq] at top middle leaf small small'
  omega

namespace PageTable

/-- `walk(pagetable, va, 0)`: the leaf entry, if its table exists. -/
def lookup (pt : PageTable) (vpn : Nat) : Option Pte := (pt (px 2 vpn)).bind fun middle =>
    (middle (px 1 vpn)).map fun leaf => leaf (px 0 vpn)

/-- A store through the pointer that `walk` returned. -/
def store (pt : PageTable) (vpn : Nat) (pte : Pte) : PageTable :=
  match pt (px 2 vpn) with
  | none => pt
  | some middle =>
    match middle (px 1 vpn) with
    | none => pt
    | some leaf =>
      update pt (px 2 vpn) (some (update middle (px 1 vpn) (some (update leaf (px 0 vpn) pte))))

/-- The finite map a table stands for: its valid leaves, by page number. -/
def map (pt : PageTable) (vpn : Nat) : Option Pte :=
  if vpn < NVPN then (pt.lookup vpn).filter (fun pte => pte.v) else none

/-- `uvmcreate`, once its page is allocated. -/
def empty : PageTable := fun _ => none

/-- `walk(pagetable, va, 1)`: whether the leaf's table exists now, with the table
pages made on the way and the pages that `kalloc` has left. -/
def walkAlloc (pt : PageTable) (vpn avail : Nat) : Bool × PageTable × Nat :=
  match pt (px 2 vpn) with
  | some middle =>
    match middle (px 1 vpn) with
    | some _ => (true, pt, avail)
    | none =>
      match avail with
      | 0 => (false, pt, 0)
      | rest + 1 =>
        (true, update pt (px 2 vpn) (some (update middle (px 1 vpn) (some fun _ => {}))), rest)
  | none =>
    match avail with
    | 0 => (false, pt, 0)
    | 1 => (false, update pt (px 2 vpn) (some fun _ => none), 0)
    | rest + 2 =>
      (true, update pt (px 2 vpn) (some
        (update (fun _ => none) (px 1 vpn) (some fun _ => {}))), rest)

/-! ## The map -/

@[simp]
theorem map_empty : empty.map = fun _ => none := by
  funext vpn
  simp [map, lookup, empty]

variable {pt : PageTable}

theorem map_eq_some_iff {pte : Pte} :
    pt.map vpn = some pte ↔ vpn < NVPN ∧ pt.lookup vpn = some pte ∧ pte.v = true := by
  unfold map
  split
  · next small => simp [small, Option.filter_eq_some_iff]
  · next large => simp [large]

theorem map_eq_none_of_lookup (absent : pt.lookup vpn = none) : pt.map vpn = none := by
  unfold map
  split
  · rw [absent]
    rfl
  · rfl

theorem lookup_store_self {old : Pte} (present : pt.lookup vpn = some old) (pte : Pte) :
    (pt.store vpn pte).lookup vpn = some pte := by
  unfold lookup at present
  rcases top : pt (px 2 vpn) with _ | middle
  · simp [top] at present
  · rcases inner : middle (px 1 vpn) with _ | leaf
    · simp [top, inner] at present
    · simp [lookup, store, top, inner]

theorem lookup_store_of_ne {other : Nat}
    (small : vpn < NVPN) (small' : other < NVPN) (apart : other ≠ vpn) (pte : Pte) :
    (pt.store vpn pte).lookup other = pt.lookup other := by
  unfold lookup store
  rcases top : pt (px 2 vpn) with _ | middle
  · rfl
  · rcases inner : middle (px 1 vpn) with _ | leaf
    · simp [inner]
    · simp only [inner]
      by_cases first : px 2 other = px 2 vpn
      · by_cases second : px 1 other = px 1 vpn
        · have third : px 0 other ≠ px 0 vpn := fun third =>
            apart (eq_of_px_eq small' small first second third)
          simp [first, second, top, inner, update_of_ne third]
        · simp [first, top, update_of_ne second]
      · simp [update_of_ne first]

theorem map_store {old : Pte} (small : vpn < NVPN)
    (present : pt.lookup vpn = some old) (pte : Pte) :
    (pt.store vpn pte).map = update pt.map vpn (if pte.v then some pte else none) := by
  funext other
  by_cases same : other = vpn
  · subst same
    rw [update_self, map, if_pos small, lookup_store_self present]
    rfl
  · rw [update_of_ne same]
    unfold map
    split
    · next small' => rw [lookup_store_of_ne small small' same]
    · rfl

theorem map_walkAlloc (pt : PageTable) (vpn avail : Nat) :
    (pt.walkAlloc vpn avail).2.1.map = pt.map := by
  have unchanged : ∀ other, ((pt.walkAlloc vpn avail).2.1.lookup other).filter (fun pte => pte.v) =
        (pt.lookup other).filter (fun pte => pte.v) := by
    intro other
    unfold lookup walkAlloc
    rcases top : pt (px 2 vpn) with _ | middle
    · rcases avail with _ | _ | rest
      · rfl
      · by_cases first : px 2 other = px 2 vpn
        · simp [first, top]
        · simp [update_of_ne first]
      · by_cases first : px 2 other = px 2 vpn
        · by_cases second : px 1 other = px 1 vpn
          · simp [first, second, top]
          · simp [first, top, update_of_ne second]
        · simp [update_of_ne first]
    · rcases inner : middle (px 1 vpn) with _ | leaf
      · rcases avail with _ | rest
        · simp [inner]
        · by_cases first : px 2 other = px 2 vpn
          · by_cases second : px 1 other = px 1 vpn
            · simp [first, second, top, inner]
            · simp [inner, first, top, update_of_ne second]
          · simp [inner, update_of_ne first]
      · simp [inner]
  funext other
  unfold map
  rw [unchanged]

theorem lookup_walkAlloc {pt : PageTable} {vpn avail : Nat}
    (found : (pt.walkAlloc vpn avail).1 = true) :
    ∃ pte, (pt.walkAlloc vpn avail).2.1.lookup vpn = some pte := by
  unfold walkAlloc at found ⊢
  unfold lookup
  rcases top : pt (px 2 vpn) with _ | middle
  · rw [top] at found
    rcases avail with _ | _ | rest
    · cases found
    · cases found
    · simp
  · rw [top] at found
    rcases inner : middle (px 1 vpn) with _ | leaf
    · rcases avail with _ | rest
      · simp [inner] at found
      · simp [inner]
    · simp [inner, top]

/-! ## The functions of `vm.c` -/

/-- `walkaddr`: the page a user address is mapped to. -/
def walkaddr (pt : PageTable) (va : Nat) : Option Page :=
  if va < MAXVA then
    match pt.lookup (va / 4096) with
    | none => none
    | some pte => if pte.v && pte.u then some pte.page else none
  else none

def ismapped (pt : PageTable) (va : Nat) : Result Bool :=
  if va < MAXVA then
    .ok (match pt.lookup (va / 4096) with
      | none => false
      | some pte => pte.v)
  else .error .walk

/-- `mappages` of one page, the only size the user memory code asks for. The
flag is false if `walk` ran out of memory. -/
def mappages (pt : PageTable) (va : Nat) (page : Page) (perm : Perm) (avail : Nat) :
    Result (Bool × PageTable × Nat) :=
  if va % 4096 ≠ 0 then .error .mappagesNotAligned
  else if MAXVA ≤ va then .error .walk
  else
    match pt.walkAlloc (va / 4096) avail with
    | (false, pt, avail) => .ok (false, pt, avail)
    | (true, pt, avail) =>
      if (pt.lookup (va / 4096)).any (fun pte => pte.v) then .error .mappagesRemap
      else .ok (true, pt.store (va / 4096) { perm with v := true, page := page }, avail)

/-- The body of the loop of `uvmunmap`. -/
def unmapPage (pt : PageTable) (a : Nat) : Result PageTable :=
  if a < MAXVA then
    .ok (match pt.lookup (a / 4096) with
      | none => pt
      | some pte => if pte.v then pt.store (a / 4096) {} else pt)
  else .error .walk

def uvmunmap (pt : PageTable) (va npages : Nat) : Result PageTable :=
  if va % 4096 ≠ 0 then .error .uvmunmapNotAligned
  else (List.range npages).foldlM (fun pt k => pt.unmapPage (va + 4096 * k)) pt

/-- `PGROUNDUP` of a size, none of which comes near `2 ^ 64`. -/
def roundup (sz : Nat) : Nat := 4096 * ((sz + 4095) / 4096)

def uvmdealloc (pt : PageTable) (oldsz newsz : Nat) : Result (Nat × PageTable) :=
  if oldsz ≤ newsz then .ok (oldsz, pt)
  else if roundup newsz < roundup oldsz then do
    let pt ← pt.uvmunmap (roundup newsz) ((roundup oldsz - roundup newsz) / 4096)
    .ok (newsz, pt)
  else .ok (newsz, pt)

/-- The loop of `uvmalloc` from the address `a` on, with `count` pages to go. -/
def uvmallocLoop (oldsz : Nat) (perm : Perm) :
    (count a : Nat) → PageTable → (avail : Nat) → Result (Bool × PageTable × Nat)
  | 0, _, pt, avail => .ok (true, pt, avail)
  | _ + 1, a, pt, 0 => do
      let (_, pt) ← pt.uvmdealloc a oldsz
      .ok (false, pt, 0)
  | count + 1, a, pt, avail + 1 => do
      match ← pt.mappages a Page.zero perm avail with
      | (true, pt, avail) => uvmallocLoop oldsz perm count (a + 4096) pt avail
      | (false, pt, avail) => do
          let (_, pt) ← pt.uvmdealloc a oldsz
          .ok (false, pt, avail)

/-- `uvmalloc`; a result of 0 means failure. -/
def uvmalloc (pt : PageTable) (oldsz newsz : Nat) (xperm : Perm) (avail : Nat) :
    Result (Nat × PageTable × Nat) :=
  if newsz < oldsz then .ok (oldsz, pt, avail)
  else do
    let oldsz := roundup oldsz
    let perm := { xperm with r := true, u := true }
    let (done, pt, avail) ← uvmallocLoop oldsz perm ((newsz - oldsz + 4095) / 4096) oldsz pt avail
    .ok (if done then newsz else 0, pt, avail)

/-- The loop of `uvmcopy` from the address `i` on, with `count` pages to go. -/
def uvmcopyLoop (old : PageTable) :
    (count i : Nat) → PageTable → (avail : Nat) → Result (Bool × PageTable)
  | 0, _, new, _ => .ok (true, new)
  | count + 1, i, new, avail =>
    if MAXVA ≤ i then .error .walk
    else
      match old.lookup (i / 4096) with
      | none => uvmcopyLoop old count (i + 4096) new avail
      | some pte =>
        if pte.v then
          match avail with
          | 0 => do .ok (false, ← new.uvmunmap 0 (i / 4096))
          | avail + 1 => do
              match ← new.mappages i pte.page pte.toPerm avail with
              | (true, new, avail) => uvmcopyLoop old count (i + 4096) new avail
              | (false, new, _) => .ok (false, ← new.uvmunmap 0 (i / 4096))
        else uvmcopyLoop old count (i + 4096) new avail

def uvmcopy (old new : PageTable) (sz avail : Nat) : Result (Bool × PageTable) :=
  uvmcopyLoop old ((sz + 4095) / 4096) 0 new avail

def uvmclear (pt : PageTable) (va : Nat) : Result PageTable :=
  if va < MAXVA then
    match pt.lookup (va / 4096) with
    | none => .error .uvmclear
    | some pte => .ok (pt.store (va / 4096) { pte with u := false })
  else .error .walk

/-- What `freewalk` does with an entry of the lowest level. A valid one without
`R`, `W` and `X` looks like a pointer to a further table. -/
def freeEntry (pte : Pte) : Result Unit :=
  if pte.v then
    if pte.r || pte.w || pte.x then .error .freewalkLeaf else .error .freewalkWild
  else .ok ()

/-- `freewalk` of a table of the middle level. -/
def freeMiddle (middle : MiddleTable) : Result Unit := (List.finRange 512).forM fun j =>
    match middle j with
    | none => .ok ()
    | some leaf => (List.finRange 512).forM fun k => freeEntry (leaf k)

def freewalk (pt : PageTable) : Result Unit := (List.finRange 512).forM fun i =>
    match pt i with
    | none => .ok ()
    | some middle => freeMiddle middle

def uvmfree (pt : PageTable) (sz : Nat) : Result Unit :=
  (if 0 < sz then pt.uvmunmap 0 (roundup sz / 4096) else .ok pt) >>= freewalk

/-- `proc_pagetable`, with the trampoline's code and the new trapframe page. -/
def procPagetable (trampoline trapframe : Page) (avail : Nat) : Result (Option (PageTable × Nat)) :=
  match avail with
  | 0 => .ok none
  | avail + 1 => do
      let (mapped, pt, avail) ← empty.mappages TRAMPOLINE trampoline { r := true, x := true } avail
      if !mapped then
        pt.uvmfree 0
        return none
      let (mapped, pt, avail) ← pt.mappages TRAPFRAME trapframe { r := true, w := true } avail
      if !mapped then
        let pt ← pt.uvmunmap TRAMPOLINE 1
        pt.uvmfree 0
        return none
      return some (pt, avail)

def procFreepagetable (pt : PageTable) (sz : Nat) : Result Unit := do
  let pt ← pt.uvmunmap TRAMPOLINE 1
  let pt ← pt.uvmunmap TRAPFRAME 1
  pt.uvmfree sz

end PageTable

end Xv6.Memory
