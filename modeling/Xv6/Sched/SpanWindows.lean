import Xv6.Sched.Policy

/-!
# Spans cut into windows

`SpanWindowAccumulator` of `kernel/span_window_accumulator.hpp` is compared with the exact time
that the LatencySensitive segments spend in a window.
-/

namespace Xv6.Sched

open Function

variable {idx : Nat} {piece total width : Nat} {acc : SpanWindowAccumulator} {time : Nat → Nat}

def SPAN_MAX_WINDOWS : Nat := 32

/-- The two arrays have `windowCount` entries in use. The times are 64-bit numbers; the
number of dropped pieces is a C `int`, kept as a natural number. -/
structure SpanWindowAccumulator where
  windowIndex : Nat → Nat := fun _ => 0
  windowLsTime : Nat → Nat := fun _ => 0
  windowCount : Nat := 0
  totalAccounted : Nat := 0
  overflowCount : Nat := 0

namespace SpanWindowAccumulator

def findSlot (acc : SpanWindowAccumulator) (idx : Nat) : Option Nat :=
  (List.range acc.windowCount).find? (fun i => acc.windowIndex i = idx)

def findOrCreate (acc : SpanWindowAccumulator) (idx : Nat) : Option Nat × SpanWindowAccumulator :=
  match acc.findSlot idx with
  | some i => (some i, acc)
  | none =>
    if acc.windowCount < SPAN_MAX_WINDOWS then
      (some acc.windowCount,
        { acc with
          windowIndex := update acc.windowIndex acc.windowCount idx
          windowLsTime := update acc.windowLsTime acc.windowCount 0
          windowCount := acc.windowCount + 1 })
    else
      (none, acc)

/-- The LatencySensitive branch of the loop of `add_segment`. -/
def addLsTime (acc : SpanWindowAccumulator) (idx piece : Nat) : SpanWindowAccumulator :=
  match acc.findOrCreate idx with
  | (some slot, acc) =>
    { acc with
      windowLsTime :=
        update acc.windowLsTime slot ((acc.windowLsTime slot + piece) % 2 ^ 64) }
  | (none, acc) => { acc with overflowCount := acc.overflowCount + 1 }

/-- The body of the loop of `add_segment`, for the piece that lies in window `idx`. -/
def addPiece (acc : SpanWindowAccumulator) (isLs : Bool) (idx piece : Nat) :
    SpanWindowAccumulator :=
  let acc := { acc with totalAccounted := (acc.totalAccounted + piece) % 2 ^ 64 }
  if isLs then acc.addLsTime idx piece else acc

/-- The loop of `add_segment`, in 64-bit arithmetic, with a bound on its iterations: `none` if
it is still running then. -/
def addPieces (windowTimeTicks : Nat) (isLs : Bool) (segEnd : Nat) :
    Nat → Nat → SpanWindowAccumulator → Option SpanWindowAccumulator
  | 0, _, _ => none
  | fuel + 1, pos, acc =>
    if pos < segEnd then
      let idx := pos / windowTimeTicks
      let windowEnd := (idx + 1) * windowTimeTicks % 2 ^ 64
      let pieceEnd := if windowEnd < segEnd then windowEnd else segEnd
      let piece := (pieceEnd + (2 ^ 64 - pos)) % 2 ^ 64
      addPieces windowTimeTicks isLs segEnd fuel pieceEnd (acc.addPiece isLs idx piece)
    else
      some acc

def addSegment (acc : SpanWindowAccumulator) (segStart duration : Nat) (isLs : Bool)
    (windowTimeTicks : Nat) : Option SpanWindowAccumulator :=
  if duration = 0 ∨ windowTimeTicks = 0 then
    some acc
  else
    addPieces windowTimeTicks isLs ((segStart + duration) % 2 ^ 64) (2 ^ 64) segStart acc

def addSpan (acc : SpanWindowAccumulator) (tEnter tExit : Nat) (priorityBeforeIsLs : Bool)
    (changePresent : Bool) (changeTime : Nat) (priorityAfterIsLs : Bool)
    (windowTimeTicks : Nat) : Option SpanWindowAccumulator :=
  if tExit ≤ tEnter then
    some acc
  else if !changePresent || changeTime ≤ tEnter || changeTime ≥ tExit then
    acc.addSegment tEnter (tExit - tEnter) priorityBeforeIsLs windowTimeTicks
  else
    (acc.addSegment tEnter (changeTime - tEnter) priorityBeforeIsLs windowTimeTicks).bind
      (·.addSegment changeTime (tExit - changeTime) priorityAfterIsLs windowTimeTicks)

/-- The LatencySensitive time in the table for a window. -/
def lsTimeOf (acc : SpanWindowAccumulator) (idx : Nat) : Nat :=
  match acc.findSlot idx with
  | some i => acc.windowLsTime i
  | none => 0

end SpanWindowAccumulator

/-! ## Exact times -/

/-- The time that `[first, last)` spends in window `idx`. -/
def overlap (width first last idx : Nat) : Nat :=
  min last ((idx + 1) * width) - max first (idx * width)

theorem overlap_cut {width first middle last : Nat}
    (lower : first ≤ middle) (upper : middle ≤ last) (idx : Nat) :
    overlap width first middle idx + overlap width middle last idx =
      overlap width first last idx := by
  simp only [overlap]
  omega

theorem overlap_within {first last : Nat}
    (lower : idx * width ≤ first) (upper : last ≤ (idx + 1) * width) (other : Nat) :
    overlap width first last other = if other = idx then last - first else 0 := by
  rw [overlap]
  rcases Nat.lt_trichotomy other idx with before | rfl | after
  · have := Nat.mul_le_mul_right width (show other + 1 ≤ idx by omega)
    rw [if_neg (by omega)]
    omega
  · rw [if_pos rfl]
    omega
  · have := Nat.mul_le_mul_right width (show idx + 1 ≤ other by omega)
    rw [if_neg (by omega)]
    omega

namespace SpanWindowAccumulator

/-- The accumulator against the exact total time and the exact LatencySensitive time of
every window. -/
structure Records (acc : SpanWindowAccumulator) (total : Nat) (time : Nat → Nat) : Prop where
  total : acc.totalAccounted = total % 2 ^ 64
  unique : ∀ i j, i < acc.windowCount → j < acc.windowCount →
    acc.windowIndex i = acc.windowIndex j → i = j
  size : acc.windowCount ≤ SPAN_MAX_WINDOWS
  touched : ∀ i, i < acc.windowCount → 0 < time (acc.windowIndex i)
  exact : acc.overflowCount = 0 → ∀ i, i < acc.windowCount →
    acc.windowLsTime i = time (acc.windowIndex i) % 2 ^ 64
  present : acc.overflowCount = 0 → ∀ idx, 0 < time idx →
    ∃ i, i < acc.windowCount ∧ acc.windowIndex i = idx
  overflow : acc.overflowCount ≠ 0 →
    ∃ windows : Finset Nat, SPAN_MAX_WINDOWS < windows.card ∧ ∀ idx ∈ windows, 0 < time idx

theorem findSlot_eq_some {i : Nat} (found : acc.findSlot idx = some i) :
    i < acc.windowCount ∧ acc.windowIndex i = idx :=
  ⟨List.mem_range.mp (List.mem_of_find?_eq_some found), by simpa using List.find?_some found⟩

theorem findSlot_eq_none (missing : acc.findSlot idx = none) :
    ∀ i, i < acc.windowCount → acc.windowIndex i ≠ idx := by
  intro i inside
  simpa using List.find?_eq_none.mp missing i (List.mem_range.mpr inside)

theorem records_empty : Records {} 0 (fun _ => 0) where
  total := rfl
  unique _ _ absurd := nomatch absurd
  size := Nat.zero_le _
  touched _ absurd := nomatch absurd
  exact _ _ absurd := nomatch absurd
  present _ _ absurd := nomatch absurd
  overflow absurd := (absurd rfl).elim

section

variable (records : Records acc total time)
include records

theorem Records.grow {time' : Nat → Nat} (grown : ∀ idx, time idx ≤ time' idx)
    (dropped : acc.overflowCount ≠ 0) :
    ∃ windows : Finset Nat, SPAN_MAX_WINDOWS < windows.card ∧ ∀ idx ∈ windows, 0 < time' idx := by
  obtain ⟨windows, many, pos⟩ := records.overflow dropped
  exact ⟨windows, many, fun idx mem => (pos idx mem).trans_le (grown idx)⟩

theorem Records.addTotal (piece : Nat) :
    Records { acc with totalAccounted := (acc.totalAccounted + piece) % 2 ^ 64 }
      (total + piece) time :=
  { records with
    total := by
      rw [records.total]
      exact Nat.mod_add_mod total _ piece }

/-- One LatencySensitive piece: its window is in the table, or it is new and there is room,
or it is dropped and the windows of the table and its own are too many. -/
theorem Records.addLsTime (pos : 0 < piece) :
    Records (acc.addLsTime idx piece) total (fun i => time i + if i = idx then piece else 0) := by
  rw [SpanWindowAccumulator.addLsTime]
  simp only [findOrCreate]
  have grown : ∀ i, time i ≤ time i + if i = idx then piece else 0 := fun i => Nat.le_add_right _ _
  have touched : ∀ i, i < acc.windowCount →
      0 < time (acc.windowIndex i) + if acc.windowIndex i = idx then piece else 0 :=
    fun i inside => (records.touched i inside).trans_le (grown _)
  cases found : acc.findSlot idx with
  | some slot =>
    obtain ⟨slotInside, rfl⟩ := findSlot_eq_some found
    refine ⟨records.total, records.unique, records.size, touched, ?_, ?_, records.grow grown⟩
    · intro clean i inside
      have before := records.exact clean i inside
      by_cases same : i = slot
      · subst same
        simp only [update_self, ↓reduceIte, before]
        exact Nat.mod_add_mod _ _ piece
      · have other : acc.windowIndex i ≠ acc.windowIndex slot :=
          fun equal => same (records.unique i slot inside slotInside equal)
        simp only [update_of_ne same, other, ↓reduceIte, add_zero]
        exact before
    · intro clean i spends
      by_cases same : i = acc.windowIndex slot
      · exact ⟨slot, slotInside, same.symm⟩
      · exact records.present clean i (by simpa [same] using spends)
  | none =>
    have missing := findSlot_eq_none found
    by_cases room : acc.windowCount < SPAN_MAX_WINDOWS
    · simp only [room, ↓reduceIte, update_self]
      refine ⟨records.total, ?_, room, ?_, ?_, ?_, records.grow grown⟩
      · intro i j iInside jInside
        rcases Nat.lt_succ_iff_lt_or_eq.mp iInside with iOld | rfl <;>
          rcases Nat.lt_succ_iff_lt_or_eq.mp jInside with jOld | rfl
        · simp only [update_of_ne iOld.ne, update_of_ne jOld.ne]
          exact records.unique i j iOld jOld
        · simp only [update_of_ne iOld.ne, update_self]
          exact fun equal => absurd equal (missing i iOld)
        · simp only [update_of_ne jOld.ne, update_self]
          exact fun equal => absurd equal.symm (missing j jOld)
        · exact fun _ => rfl
      · intro i inside
        rcases Nat.lt_succ_iff_lt_or_eq.mp inside with old | rfl
        · simp only [update_of_ne old.ne]
          exact touched i old
        · simp only [update_self, ↓reduceIte]
          omega
      · intro clean i inside
        rcases Nat.lt_succ_iff_lt_or_eq.mp inside with old | rfl
        · simp only [update_of_ne old.ne, missing i old, ↓reduceIte, add_zero]
          exact records.exact clean i old
        · have absent : time idx = 0 := by
            by_contra spends
            obtain ⟨i, old, here⟩ := records.present clean idx (by omega)
            exact missing i old here
          simp only [update_self, ↓reduceIte, absent]
      · intro clean i spends
        by_cases same : i = idx
        · exact ⟨acc.windowCount, Nat.lt_succ_self _, by simp [same]⟩
        · obtain ⟨slot, old, here⟩ := records.present clean i (by simpa [same] using spends)
          exact ⟨slot, old.trans (Nat.lt_succ_self _), (update_of_ne old.ne _ _).trans here⟩
    · simp only [room, ↓reduceIte]
      refine ⟨records.total, records.unique, records.size, touched, nofun, nofun, fun _ => ?_⟩
      refine ⟨insert idx ((Finset.range acc.windowCount).image acc.windowIndex), ?_, ?_⟩
      · have fresh : idx ∉ (Finset.range acc.windowCount).image acc.windowIndex := by
          simp only [Finset.mem_image, Finset.mem_range, not_exists, not_and]
          exact missing
        rw [Finset.card_insert_of_notMem fresh, Finset.card_image_of_injOn, Finset.card_range]
        · omega
        · intro i iInside j jInside equal
          simp only [Finset.coe_range, Set.mem_Iio] at iInside jInside
          exact records.unique i j iInside jInside equal
      · intro i mem
        rcases Finset.mem_insert.mp mem with rfl | old
        · simp only [↓reduceIte]
          omega
        · obtain ⟨slot, inside, rfl⟩ := Finset.mem_image.mp old
          exact touched slot (Finset.mem_range.mp inside)

theorem Records.addPiece (isLs : Bool) (idx : Nat) (pos : 0 < piece) :
    Records (acc.addPiece isLs idx piece) (total + piece)
      (fun i => time i + if isLs then (if i = idx then piece else 0) else 0) := by
  cases isLs with
  | false => exact records.addTotal piece
  | true => exact (records.addTotal piece).addLsTime pos

end

theorem Records.addPieces {segEnd : Nat} (positive : 0 < width)
    (fits : segEnd + width < 2 ^ 64) (isLs : Bool) :
    ∀ (fuel remaining pos : Nat) (acc : SpanWindowAccumulator) (total : Nat) (time : Nat → Nat),
      remaining < fuel → pos + remaining = segEnd → Records acc total time →
      ∃ acc', addPieces width isLs segEnd fuel pos acc = some acc' ∧
        Records acc' (total + remaining)
          (fun i => time i + if isLs then overlap width pos segEnd i else 0)
  | 0, _, _, _, _, _, absurd, _, _ => nomatch absurd
  | fuel + 1, remaining, pos, acc, total, time, enough, rest, records => by
      rw [SpanWindowAccumulator.addPieces]
      by_cases running : pos < segEnd
      · have inside : pos < (pos / width + 1) * width := by
          rw [Nat.mul_comm]
          exact Nat.lt_mul_div_succ pos positive
        have start : pos / width * width ≤ pos := Nat.div_mul_le_self pos width
        have windowEnd : (pos / width + 1) * width % 2 ^ 64 = (pos / width + 1) * width := by
          apply Nat.mod_eq_of_lt
          rw [Nat.add_mul]
          omega
        simp only [running, ↓reduceIte, windowEnd]
        generalize ended :
          (if (pos / width + 1) * width < segEnd then (pos / width + 1) * width else segEnd) =
            pieceEnd
        have bounds :
            pos < pieceEnd ∧ pieceEnd ≤ segEnd ∧ pieceEnd ≤ (pos / width + 1) * width := by
          split at ended <;> omega
        have piece : (pieceEnd + (2 ^ 64 - pos)) % 2 ^ 64 = pieceEnd - pos := by omega
        rw [piece]
        have added := records.addPiece isLs (pos / width) (show 0 < pieceEnd - pos by omega)
        obtain ⟨acc', ends, after⟩ := Records.addPieces positive fits isLs fuel
          (segEnd - pieceEnd) pieceEnd _ _ _ (by omega) (by omega) added
        refine ⟨acc', ends, ?_⟩
        have length : total + (pieceEnd - pos) + (segEnd - pieceEnd) = total + remaining := by
          omega
        have spent : ∀ i, (time i + if isLs then
            (if i = pos / width then pieceEnd - pos else 0) else 0) +
              (if isLs then overlap width pieceEnd segEnd i else 0) =
            time i + if isLs then overlap width pos segEnd i else 0 := by
          intro i
          rw [← overlap_within start bounds.2.2 i, ← overlap_cut bounds.1.le bounds.2.1 i]
          cases isLs with
          | false => rfl
          | true => exact Nat.add_assoc _ _ _
        simpa only [length, spent] using after
      · have nothing : ∀ i, overlap width pos segEnd i = 0 := by
          intro i
          simp only [overlap]
          omega
        obtain rfl : remaining = 0 := by omega
        exact ⟨acc, if_neg running, by simpa [nothing] using records⟩

end SpanWindowAccumulator

/-! ## Sequences of calls -/

structure Segment where
  start : Nat
  duration : Nat
  isLs : Bool

inductive SpanCall where
  | addSegment (segStart duration : Nat) (isLs : Bool)
  | addSpan (tEnter tExit : Nat) (priorityBeforeIsLs changePresent : Bool) (changeTime : Nat)
      (priorityAfterIsLs : Bool)

namespace SpanCall

def run (width : Nat) (acc : SpanWindowAccumulator) : SpanCall → Option SpanWindowAccumulator
  | .addSegment segStart duration isLs => acc.addSegment segStart duration isLs width
  | .addSpan tEnter tExit before changePresent changeTime after =>
    acc.addSpan tEnter tExit before changePresent changeTime after width

def duration : SpanCall → Nat
  | .addSegment _ duration _ => duration
  | .addSpan tEnter tExit _ _ _ _ => tExit - tEnter

/-- A span is one segment, or two if the priority changes strictly inside it. -/
def segments : SpanCall → List Segment
  | .addSegment segStart duration isLs => [⟨segStart, duration, isLs⟩]
  | .addSpan tEnter tExit before changePresent changeTime after =>
    if tExit ≤ tEnter then
      []
    else if !changePresent || changeTime ≤ tEnter || changeTime ≥ tExit then
      [⟨tEnter, tExit - tEnter, before⟩]
    else
      [⟨tEnter, changeTime - tEnter, before⟩, ⟨changeTime, tExit - changeTime, after⟩]

end SpanCall

/-- Every segment ends at least one window before the end of the 64-bit range. -/
def Fits (width : Nat) (segments : List Segment) : Prop :=
  ∀ segment ∈ segments, segment.start + segment.duration + width < 2 ^ 64

/-- The LatencySensitive time that segments spend in a window. -/
def lsTime (width : Nat) (segments : List Segment) (idx : Nat) : Nat := (segments.map fun segment =>
    if segment.isLs then
      overlap width segment.start (segment.start + segment.duration) idx
    else
      0).sum

/-- A run over segments ends and leaves the exact records. -/
def RunsTo (run : SpanWindowAccumulator → Option SpanWindowAccumulator) (width duration : Nat)
    (segments : List Segment) : Prop :=
  ∀ (acc : SpanWindowAccumulator) (total : Nat) (time : Nat → Nat), acc.Records total time →
    ∃ acc', run acc = some acc' ∧
      acc'.Records (total + duration) (fun idx => time idx + lsTime width segments idx)

section Runs

theorem RunsTo.bind {first second : SpanWindowAccumulator → Option SpanWindowAccumulator}
    {firstTime secondTime : Nat} {before after : List Segment}
    (start : RunsTo first width firstTime before) (rest : RunsTo second width secondTime after) :
    RunsTo (fun acc => (first acc).bind second) width (firstTime + secondTime)
      (before ++ after) := by
  intro acc total time records
  obtain ⟨middle, ran, between⟩ := start acc total time records
  obtain ⟨final, ended, reached⟩ := rest middle _ _ between
  refine ⟨final, by simpa only [ran, Option.bind_some] using ended, ?_⟩
  simpa only [lsTime, List.map_append, List.sum_append, Nat.add_assoc] using reached

theorem runsTo_pure : RunsTo some width 0 [] :=
  fun acc _ _ records => ⟨acc, rfl, by simpa [lsTime] using records⟩

theorem runsTo_addSegment (pos : 0 < width) {segment : Segment}
    (fits : segment.start + segment.duration + width < 2 ^ 64) :
    RunsTo (·.addSegment segment.start segment.duration segment.isLs width) width
      segment.duration [segment] := by
  intro acc total time records
  have wrap : (segment.start + segment.duration) % 2 ^ 64 = segment.start + segment.duration :=
    Nat.mod_eq_of_lt (by omega)
  simp only [SpanWindowAccumulator.addSegment, wrap, lsTime, List.map_cons, List.map_nil,
    List.sum_cons, List.sum_nil, add_zero]
  split
  · have empty : segment.duration = 0 := by omega
    have nothing : ∀ idx, overlap width segment.start segment.start idx = 0 := by
      intro idx
      simp only [overlap]
      omega
    exact ⟨acc, rfl, by simpa [empty, nothing] using records⟩
  · exact SpanWindowAccumulator.Records.addPieces pos fits segment.isLs _ _ _ acc total time
      (by omega) rfl records

theorem SpanCall.runsTo (pos : 0 < width) (call : SpanCall) (fits : Fits width call.segments) :
    RunsTo (fun acc => call.run width acc) width call.duration call.segments := by
  cases call with
  | addSegment segStart duration isLs =>
    exact runsTo_addSegment pos (fits _ List.mem_cons_self)
  | addSpan tEnter tExit before changePresent changeTime after =>
    simp only [run, SpanWindowAccumulator.addSpan, duration, segments] at fits ⊢
    by_cases empty : tExit ≤ tEnter
    · simp only [empty, ↓reduceIte, Nat.sub_eq_zero_of_le empty]
      exact runsTo_pure
    · simp only [empty, ↓reduceIte] at fits ⊢
      split at fits
      · rename_i outside
        simp only [outside, ↓reduceIte]
        exact runsTo_addSegment pos (fits _ List.mem_cons_self)
      · rename_i inside
        have length : tExit - tEnter = changeTime - tEnter + (tExit - changeTime) := by
          simp at inside
          omega
        simp only [inside]
        rw [length]
        exact (runsTo_addSegment pos (fits _ List.mem_cons_self)).bind
          (runsTo_addSegment pos (fits _ (List.mem_cons_of_mem _ List.mem_cons_self)))

theorem runsTo_calls (pos : 0 < width) :
    ∀ calls : List SpanCall, Fits width (calls.flatMap SpanCall.segments) →
      RunsTo (fun acc => calls.foldlM (SpanCall.run width) acc) width
        (calls.map SpanCall.duration).sum (calls.flatMap SpanCall.segments)
  | [], _ => runsTo_pure
  | call :: rest, fits => by
      have now := call.runsTo pos fun segment mem =>
        fits segment (List.mem_flatMap.mpr ⟨call, List.mem_cons_self, mem⟩)
      have later := runsTo_calls pos rest fun segment mem => by
        obtain ⟨found, inside, of⟩ := List.mem_flatMap.mp mem
        exact fits segment (List.mem_flatMap.mpr ⟨found, List.mem_cons_of_mem call inside, of⟩)
      exact now.bind later

theorem SpanWindowAccumulator.Records.lsTimeOf (records : acc.Records total time)
    (clean : acc.overflowCount = 0) (idx : Nat) : acc.lsTimeOf idx = time idx % 2 ^ 64 := by
  rw [SpanWindowAccumulator.lsTimeOf]
  cases found : acc.findSlot idx with
  | some slot =>
    obtain ⟨inside, rfl⟩ := findSlot_eq_some found
    exact records.exact clean slot inside
  | none =>
    have absent : time idx = 0 := by
      by_contra spends
      obtain ⟨slot, inside, here⟩ := records.present clean idx (by omega)
      exact findSlot_eq_none found slot inside here
    rw [absent]
    rfl

theorem SpanWindowAccumulator.Records.overflow_iff (records : acc.Records total time) :
    acc.overflowCount ≠ 0 ↔ ∃ windows : Finset Nat, SPAN_MAX_WINDOWS < windows.card ∧
        ∀ idx ∈ windows, 0 < time idx := by
  constructor
  · exact records.overflow
  · rintro ⟨windows, many, pos⟩ clean
    have covered : windows ⊆ (Finset.range acc.windowCount).image acc.windowIndex := by
      intro idx mem
      obtain ⟨slot, inside, here⟩ := records.present clean idx (pos idx mem)
      exact Finset.mem_image.mpr ⟨slot, Finset.mem_range.mpr inside, here⟩
    have few := (Finset.card_le_card covered).trans Finset.card_image_le
    rw [Finset.card_range] at few
    have size := records.size
    omega

theorem lsTime_pos_iff {segments : List Segment} : 0 < lsTime width segments idx ↔
      ∃ segment ∈ segments, segment.isLs = true ∧
        0 < overlap width segment.start (segment.start + segment.duration) idx := by
  rw [Nat.pos_iff_ne_zero, Ne, lsTime, List.sum_eq_zero_iff]
  simp [Nat.pos_iff_ne_zero]

theorem lsTime_cut (before after : List Segment) (start first second : Nat) (isLs : Bool)
    (idx : Nat) :
    lsTime width (before ++ ⟨start, first, isLs⟩ :: ⟨start + first, second, isLs⟩ :: after) idx =
      lsTime width (before ++ ⟨start, first + second, isLs⟩ :: after) idx := by
  have cut := @overlap_cut width start (start + first) (start + first + second) (by omega)
    (by omega) idx
  simp only [lsTime, List.map_append, List.map_cons, List.sum_append, List.sum_cons,
    ← Nat.add_assoc start]
  cases isLs with
  | false => simp
  | true =>
    simp only [↓reduceIte]
    omega

end Runs

/-- The segments of one sequence of calls in another order, or with one of them cut in two. -/
inductive Rearranged (segments : List Segment) : List Segment → Prop
  | perm {segments' : List Segment} (perm : segments'.Perm segments) : Rearranged segments segments'
  | cut (before after : List Segment) (start first second : Nat) (isLs : Bool)
      (whole : segments = before ++ ⟨start, first + second, isLs⟩ :: after) :
      Rearranged segments (before ++ ⟨start, first, isLs⟩ :: ⟨start + first, second, isLs⟩ :: after)

theorem Rearranged.lsTime_eq {segments segments' : List Segment}
    (rearranged : Rearranged segments segments') (idx : Nat) :
    lsTime width segments' idx = lsTime width segments idx := by
  cases rearranged with
  | perm perm => exact (perm.map _).sum_eq
  | cut before after start first second isLs whole =>
    rw [whole]
    exact lsTime_cut before after start first second isLs idx

/-- Every sequence of calls ends. The total and the LatencySensitive time of every window are
exact as 64-bit numbers, a window has at most one entry, pieces are dropped exactly if the
LatencySensitive segments touch more windows than the table has room for, and neither the
order of the segments nor a cut changes the times. -/
theorem span_accumulation_modulo (width : Nat) (positive : 0 < width) (calls : List SpanCall)
    (fits : Fits width (calls.flatMap SpanCall.segments)) :
    ∃ acc, calls.foldlM (SpanCall.run width) {} = some acc ∧
      acc.totalAccounted = (calls.map SpanCall.duration).sum % 2 ^ 64 ∧
      (∀ i j, i < acc.windowCount → j < acc.windowCount →
        acc.windowIndex i = acc.windowIndex j → i = j) ∧
      (acc.overflowCount = 0 → ∀ idx,
        acc.lsTimeOf idx = lsTime width (calls.flatMap SpanCall.segments) idx % 2 ^ 64) ∧
      (acc.overflowCount ≠ 0 ↔
        ∃ windows : Finset Nat, SPAN_MAX_WINDOWS < windows.card ∧ ∀ idx ∈ windows,
          ∃ segment ∈ calls.flatMap SpanCall.segments, segment.isLs = true ∧
            0 < overlap width segment.start (segment.start + segment.duration) idx) ∧
      ∀ (calls' : List SpanCall) (acc' : SpanWindowAccumulator),
        Fits width (calls'.flatMap SpanCall.segments) →
        Rearranged (calls.flatMap SpanCall.segments) (calls'.flatMap SpanCall.segments) →
        calls'.foldlM (SpanCall.run width) {} = some acc' →
        (acc'.overflowCount = 0 ↔ acc.overflowCount = 0) ∧
          (acc.overflowCount = 0 → ∀ idx, acc'.lsTimeOf idx = acc.lsTimeOf idx) := by
  obtain ⟨acc, ran, records⟩ := runsTo_calls positive calls fits {} 0 _
    SpanWindowAccumulator.records_empty
  simp only [Nat.zero_add] at records
  refine ⟨acc, ran, records.total, records.unique, records.lsTimeOf, ?_, ?_⟩
  · rw [records.overflow_iff]
    simp only [lsTime_pos_iff]
  · intro calls' acc' fits' rearranged ran'
    obtain ⟨found, same, records'⟩ := runsTo_calls positive calls' fits' {} 0 _
      SpanWindowAccumulator.records_empty
    simp only [Nat.zero_add] at records'
    obtain rfl : found = acc' := Option.some.inj (same.symm.trans ran')
    have times : ∀ idx, lsTime width (calls'.flatMap SpanCall.segments) idx =
        lsTime width (calls.flatMap SpanCall.segments) idx :=
      fun idx => rearranged.lsTime_eq idx
    have drops : found.overflowCount ≠ 0 ↔ acc.overflowCount ≠ 0 := by
      rw [records.overflow_iff, records'.overflow_iff]
      simp only [times]
    refine ⟨not_iff_not.mp drops, fun clean idx => ?_⟩
    rw [records.lsTimeOf clean, records'.lsTimeOf ((not_iff_not.mp drops).mpr clean), times]

theorem span_accumulation_two_windows :
    ∃ acc, [SpanCall.addSpan 1050 1150 true true 1090 false].foldlM (SpanCall.run 100) {} =
      some acc ∧ acc.totalAccounted = 100 := by
  obtain ⟨acc, ran, total, _⟩ := span_accumulation_modulo 100 (by decide)
    [.addSpan 1050 1150 true true 1090 false] (by simp [Fits, SpanCall.segments])
  exact ⟨acc, ran, total⟩

/-- Two segments of half the 64-bit range each: the total is back at zero. -/
def halves : List SpanCall := [.addSegment 0 (2 ^ 63) false, .addSegment 0 (2 ^ 63) false]

theorem span_total_wraps : Fits (2 ^ 62) (halves.flatMap SpanCall.segments) ∧
      ∃ acc, halves.foldlM (SpanCall.run (2 ^ 62)) {} = some acc ∧
        acc.totalAccounted = 0 ∧ (halves.map SpanCall.duration).sum = 2 ^ 64 := by
  have fits : Fits (2 ^ 62) (halves.flatMap SpanCall.segments) := by
    simp [Fits, halves, SpanCall.segments]
  obtain ⟨acc, ran, records⟩ := runsTo_calls (by decide) halves fits {} 0 _
    SpanWindowAccumulator.records_empty
  exact ⟨fits, acc, ran, records.total, rfl⟩

end Xv6.Sched
