import Mathlib.Data.List.TakeWhile

/-!
# Captured ranges of a stream

`cap_ranges` of a stream context: the ranges of the file whose original is taken to be in the
store.  File offsets are below `2 ^ 63`, so positions are naturals.
-/

namespace SemanticsAr

open List

variable {b : Nat}

/-- `SAR_CAPTURED_RANGE`. -/
structure CapRange where
  start : Nat
  stop : Nat
  start_le : start ≤ stop
deriving DecidableEq, Repr

variable {ranges rs ss : List CapRange} {r : CapRange}

def CapRange.Has (r : CapRange) (b : Nat) : Prop := r.start ≤ b ∧ b < r.stop

def InRanges (ranges : List CapRange) (b : Nat) : Prop := ∃ r ∈ ranges, r.Has b

def StartOrder (r s : CapRange) : Prop := r.start ≤ s.start

/-- `cap_ranges` with `cap_capacity`; the ranges are kept in the order of their starts. -/
structure CapTable where
  ranges : List CapRange
  capacity : Nat
  sorted : ranges.Pairwise StartOrder

def CapTable.empty : CapTable := ⟨[], 0, List.Pairwise.nil⟩

def CapTable.Has (T : CapTable) (b : Nat) : Prop := InRanges T.ranges b

@[simp] theorem inRanges_nil : InRanges [] b ↔ False := by simp [InRanges]

@[simp] theorem inRanges_cons : InRanges (r :: rs) b ↔ r.Has b ∨ InRanges rs b := by simp [InRanges]

@[simp] theorem inRanges_append : InRanges (rs ++ ss) b ↔ InRanges rs b ∨ InRanges ss b := by
  simp [InRanges, or_and_right, exists_or]

@[simp] theorem inRanges_reverse : InRanges rs.reverse b ↔ InRanges rs b := by simp [InRanges]

/-! ### Insertion -/

/-- The first loops of `SarCapRangeInsert`: the new range goes in front of the first one that
    does not start before it. -/
def insertByStart (r : CapRange) (ranges : List CapRange) : List CapRange :=
  ranges.takeWhile (fun s => decide (s.start < r.start)) ++
    r :: ranges.dropWhile (fun s => decide (s.start < r.start))

/-- One turn of the merging loop; the output is kept in reverse, so that its head is
    `arr[w - 1]`. -/
def mergeInto (out : List CapRange) (r : CapRange) : List CapRange :=
  match out with
  | [] => [r]
  | last :: rest =>
    if r.start ≤ last.stop then
      if h : last.stop < r.stop then
        ⟨last.start, r.stop, last.start_le.trans (Nat.le_of_lt h)⟩ :: rest
      else last :: rest
    else r :: last :: rest

def mergeRanges (ranges : List CapRange) : List CapRange := (ranges.foldl mergeInto []).reverse

theorem sorted_insertByStart (h : ranges.Pairwise StartOrder) :
    (insertByStart r ranges).Pairwise StartOrder := by
  induction ranges with
  | nil => simp [insertByStart]
  | cons s ranges ih =>
    obtain ⟨hs, htail⟩ := pairwise_cons.mp h
    by_cases hlt : s.start < r.start
    · have hcons : insertByStart r (s :: ranges) = s :: insertByStart r ranges := by
        simp [insertByStart, hlt]
      rw [hcons]
      refine pairwise_cons.mpr ⟨fun q hq => ?_, ih htail⟩
      rcases mem_append.mp hq with hq | hq
      · exact hs q ((takeWhile_sublist _).subset hq)
      · rcases mem_cons.mp hq with rfl | hq
        · exact Nat.le_of_lt hlt
        · exact hs q ((dropWhile_sublist _).subset hq)
    · have hcons : insertByStart r (s :: ranges) = r :: s :: ranges := by
        simp [insertByStart, hlt]
      rw [hcons]
      refine pairwise_cons.mpr ⟨fun q hq => ?_, h⟩
      rcases mem_cons.mp hq with rfl | hq
      · exact Nat.not_lt.mp hlt
      · exact (Nat.not_lt.mp hlt).trans (hs q hq)

@[simp] theorem inRanges_insertByStart :
    InRanges (insertByStart r ranges) b ↔ r.Has b ∨ InRanges ranges b := by
  have hsplit : InRanges ranges b ↔
      InRanges (ranges.takeWhile (fun s => decide (s.start < r.start)) ++
        ranges.dropWhile (fun s => decide (s.start < r.start))) b := by
    rw [takeWhile_append_dropWhile]
  rw [hsplit]
  simp only [insertByStart, inRanges_append, inRanges_cons]
  exact or_left_comm

theorem mergeInto_spec {out : List CapRange} (hle : ∀ o ∈ out, o.start ≤ r.start)
    (hout : out.reverse.Pairwise StartOrder) :
    (mergeInto out r).reverse.Pairwise StartOrder ∧ (∀ o ∈ mergeInto out r, o.start ≤ r.start) ∧
      ∀ b, InRanges (mergeInto out r) b ↔ InRanges out b ∨ r.Has b := by
  cases out with
  | nil => simp [mergeInto]
  | cons last rest =>
    have hlast := hle last mem_cons_self
    have hrest : ∀ o ∈ rest, o.start ≤ r.start := fun o ho => hle o (mem_cons_of_mem _ ho)
    simp only [reverse_cons, pairwise_append] at hout
    simp only [mergeInto]
    split
    next htouch =>
      split
      next hgrow =>
        refine ⟨?_, ?_, fun b => ?_⟩
        · simpa [pairwise_append, StartOrder] using hout
        · simpa using ⟨hlast, hrest⟩
        · rw [inRanges_cons, inRanges_cons, or_right_comm]
          refine or_congr_left ?_
          simp only [CapRange.Has]
          omega
      next hin =>
        refine ⟨by simpa [pairwise_append] using hout, hle, fun b => ?_⟩
        rw [inRanges_cons, or_right_comm]
        refine or_congr_left ?_
        simp only [CapRange.Has]
        omega
    · refine ⟨?_, ?_, fun b => ?_⟩
      · simp only [reverse_cons]
        refine pairwise_append.mpr ⟨?_, pairwise_singleton _ _, ?_⟩
        · simpa [pairwise_append] using hout
        · intro o ho q hq
          rw [mem_singleton.mp hq]
          exact hle o (by simpa [or_comm] using ho)
      · intro o ho
        rcases mem_cons.mp ho with rfl | ho
        · exact Nat.le_refl _
        · exact hle o ho
      · rw [inRanges_cons, or_comm]

theorem foldl_mergeInto_spec {out : List CapRange} (hranges : ranges.Pairwise StartOrder)
    (hle : ∀ o ∈ out, ∀ r ∈ ranges, o.start ≤ r.start) (hout : out.reverse.Pairwise StartOrder) :
    (ranges.foldl mergeInto out).reverse.Pairwise StartOrder ∧
      ∀ b, InRanges (ranges.foldl mergeInto out) b ↔ InRanges out b ∨ InRanges ranges b := by
  induction ranges generalizing out with
  | nil => simpa using hout
  | cons r ranges ih =>
    obtain ⟨hr, htail⟩ := pairwise_cons.mp hranges
    obtain ⟨hsorted, hstart, hmem⟩ :=
      mergeInto_spec (fun o ho => hle o ho r mem_cons_self) hout
    obtain ⟨hsorted', hmem'⟩ :=
      ih htail (fun o ho q hq => (hstart o ho).trans (hr q hq)) hsorted
    refine ⟨hsorted', fun b => ?_⟩
    rw [foldl_cons, hmem', hmem, inRanges_cons, or_assoc]

theorem mergeRanges_spec (h : ranges.Pairwise StartOrder) :
    (mergeRanges ranges).Pairwise StartOrder ∧
      ∀ b, InRanges (mergeRanges ranges) b ↔ InRanges ranges b := by
  have hfold : (ranges.foldl mergeInto []).reverse.Pairwise StartOrder ∧
      ∀ b, InRanges (ranges.foldl mergeInto []) b ↔ InRanges [] b ∨ InRanges ranges b :=
    foldl_mergeInto_spec h (forall_mem_nil _) List.Pairwise.nil
  refine ⟨hfold.1, fun b => ?_⟩
  rw [mergeRanges, inRanges_reverse, hfold.2, inRanges_nil, false_or]

/-- `SarCapRangeInsert`; `pool` is the answer of the allocation, should the array be full. -/
def sarCapRangeInsert (T : CapTable) (r : CapRange) (pool : Bool) : Option CapTable :=
  if T.ranges.length + 1 > T.capacity ∧ pool = false then none
  else
    some {
      ranges := mergeRanges (insertByStart r T.ranges)
      capacity :=
        if T.ranges.length + 1 > T.capacity then
          if T.capacity = 0 then 8 else T.capacity * 2
        else T.capacity
      sorted := (mergeRanges_spec (sorted_insertByStart T.sorted)).1 }

theorem sarCapRangeInsert_has {T T' : CapTable} {pool : Bool}
    (h : sarCapRangeInsert T r pool = some T') : T'.Has b ↔ r.Has b ∨ T.Has b := by
  unfold sarCapRangeInsert at h
  split at h
  · cases h
  · cases h
    exact ((mergeRanges_spec (sorted_insertByStart T.sorted)).2 b).trans
      inRanges_insertByStart

theorem has_of_getD_insert {T : CapTable} {pool : Bool} {b : Nat}
    (h : ((sarCapRangeInsert T r pool).getD T).Has b) : r.Has b ∨ T.Has b := by
  cases hins : sarCapRangeInsert T r pool with
  | none =>
    rw [hins] at h
    exact .inr h
  | some T' =>
    rw [hins] at h
    exact (sarCapRangeInsert_has hins).mp h

end SemanticsAr
