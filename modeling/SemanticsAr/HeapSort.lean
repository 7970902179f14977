import Mathlib.Data.List.Basic
import Mathlib.Data.List.Sort
import Mathlib.Data.Vector.Basic
import Mathlib.Order.Basic

/-!
# In-place heap sort

Heap sort as it is written over an array: sift every inner node down, from the
last one to the root, then repeatedly swap the root behind the shrinking heap
and sift the new root down.  Elements are compared by a numeric key.  The sort
permutes its input (`heapSort_perm`) and orders it by key (`heapSort_sorted`).
-/

namespace SemanticsAr

variable {root last i j k : Nat}

namespace HeapSort

variable {α : Type} {n : Nat} (key : α → Nat) {v : Vector α n}

/-- The key at index `i`, zero outside the array. -/
def keyAt (v : Vector α n) (i : Nat) : Nat := (v[i]?.map key).getD 0

/-- The index the root is swapped with: its larger child inside the heap, or the
    root itself when no child is larger. -/
def swapTarget (v : Vector α n) (root last : Nat) : Nat :=
  let child := 2 * root + 1
  let s := if child < last ∧ keyAt key v root < keyAt key v child then child else root
  if child + 1 < last ∧ keyAt key v s < keyAt key v (child + 1) then child + 1 else s

theorem swapTarget_cases (v : Vector α n) (root last : Nat) : (swapTarget key v root last = root ∨
      (swapTarget key v root last < last ∧
        (swapTarget key v root last = 2 * root + 1 ∨ swapTarget key v root last = 2 * root + 2) ∧
        keyAt key v root < keyAt key v (swapTarget key v root last))) ∧
    (∀ c, c = 2 * root + 1 ∨ c = 2 * root + 2 → c < last →
      keyAt key v c ≤ keyAt key v (swapTarget key v root last)) := by
  unfold swapTarget
  dsimp only
  by_cases hleft : 2 * root + 1 < last ∧ keyAt key v root < keyAt key v (2 * root + 1)
  · rw [if_pos hleft]
    split
    next hright =>
      refine ⟨.inr ⟨hright.1, .inr rfl, lt_trans hleft.2 hright.2⟩, ?_⟩
      rintro c (rfl | rfl) hc
      · exact le_of_lt hright.2
      · exact le_refl _
    next hright =>
      refine ⟨.inr ⟨hleft.1, .inl rfl, hleft.2⟩, ?_⟩
      rintro c (rfl | rfl) hc
      · exact le_refl _
      · exact not_lt.mp fun h => hright ⟨hc, h⟩
  · rw [if_neg hleft]
    split
    next hright =>
      refine ⟨.inr ⟨hright.1, .inr rfl, hright.2⟩, ?_⟩
      rintro c (rfl | rfl) hc
      · exact le_trans (not_lt.mp fun h => hleft ⟨hc, h⟩) (le_of_lt hright.2)
      · exact le_refl _
    next hright =>
      refine ⟨.inl rfl, ?_⟩
      rintro c (rfl | rfl) hc
      · exact not_lt.mp fun h => hleft ⟨hc, h⟩
      · exact not_lt.mp fun h => hright ⟨hc, h⟩

theorem swapTarget_lt {v : Vector α n} (hroot : root < last) :
    swapTarget key v root last < last := by
  rcases (swapTarget_cases key v root last).1 with h | h
  · omega
  · exact h.1

theorem lt_swapTarget {v : Vector α n} (h : swapTarget key v root last ≠ root) :
    root < swapTarget key v root last := by
  rcases (swapTarget_cases key v root last).1 with h' | ⟨-, h', -⟩
  · exact absurd h' h
  · omega

def siftDown (v : Vector α n) (root last : Nat) (hlast : last ≤ n) (hroot : root < last) :
    Vector α n :=
  if h : swapTarget key v root last = root then v
  else
    siftDown
      (v.swap root (swapTarget key v root last) (by omega)
        (lt_of_lt_of_le (swapTarget_lt key hroot) hlast))
      (swapTarget key v root last) last hlast (swapTarget_lt key hroot)
termination_by last - root
decreasing_by
  have hlt := lt_swapTarget key h
  have hin := swapTarget_lt key (v := v) hroot
  omega

/-- The first loop: `i = k - 1` down to `0`. -/
def buildHeap (v : Vector α n) : (k : Nat) → k ≤ n / 2 → Vector α n
  | 0, _ => v
  | k + 1, hk =>
    buildHeap (siftDown key v k n (le_refl n) (by omega)) k (by omega)

/-- The second loop: `i` down to `1`. -/
def extractAll (v : Vector α n) : (i : Nat) → i < n → Vector α n
  | 0, _ => v
  | i + 1, hi =>
    extractAll
      (siftDown key (v.swap 0 (i + 1) (by omega) hi) 0 (i + 1) (by omega) (by omega))
      i (by omega)

def heapSort (v : Vector α n) : Vector α n :=
  if h : 0 < n then
    extractAll key (buildHeap key v (n / 2) (le_refl _)) (n - 1) (by omega)
  else v

/-! ### Permutation -/

theorem siftDown_perm (v : Vector α n) (root last : Nat) (hlast : last ≤ n) (hroot : root < last) :
    (siftDown key v root last hlast hroot).Perm v := by
  fun_induction siftDown key v root last hlast hroot with
  | case1 v root hroot h => exact .refl v
  | case2 v root hroot h ih => exact ih.trans (Vector.swap_perm _ _)

theorem buildHeap_perm (v : Vector α n) (k : Nat) (hk : k ≤ n / 2) :
    (buildHeap key v k hk).Perm v := by
  induction k generalizing v with
  | zero => exact Vector.Perm.refl _
  | succ k ih => exact (ih _ _).trans (siftDown_perm key v k n _ _)

theorem extractAll_perm (v : Vector α n) (i : Nat) (hi : i < n) :
    (extractAll key v i hi).Perm v := by
  induction i generalizing v with
  | zero => exact Vector.Perm.refl _
  | succ i ih =>
    exact ((ih _ _).trans (siftDown_perm key _ 0 (i + 1) _ _)).trans (Vector.swap_perm _ _)

theorem heapSort_perm : (heapSort key v).toList.Perm v.toList := by
  unfold heapSort
  split
  · exact ((extractAll_perm key _ _ _).trans (buildHeap_perm key v _ _)).toList
  · exact List.Perm.refl _

/-! ### Order -/

theorem keyAt_swap (hi : i < n) (hj : j < n) : keyAt key (v.swap i j hi hj) k =
      if j = k then keyAt key v i else if i = k then keyAt key v j else keyAt key v k := by
  unfold keyAt
  rw [Vector.getElem?_swap]
  split
  · simp [hi]
  · split
    · simp [hj]
    · rfl

theorem keyAt_swap_left (hi : i < n) (hj : j < n) :
    keyAt key (v.swap i j hi hj) i = keyAt key v j := by
  rw [keyAt_swap, if_pos rfl]
  split
  · rename_i h; rw [h]
  · rfl

theorem keyAt_swap_right (v : Vector α n) (hi : i < n) (hj : j < n) :
    keyAt key (v.swap i j hi hj) j = keyAt key v i := by
  rw [keyAt_swap, if_pos rfl]

theorem keyAt_swap_of_ne (v : Vector α n) {k : Nat} (hi : i < n) (hj : j < n) (hki : k ≠ i)
    (hkj : k ≠ j) : keyAt key (v.swap i j hi hj) k = keyAt key v k := by
  rw [keyAt_swap, if_neg (Ne.symm hkj), if_neg (Ne.symm hki)]

/-- The children of `i` inside the heap are not larger than `i`. -/
def HeapAt (v : Vector α n) (last i : Nat) : Prop :=
  ∀ c, c = 2 * i + 1 ∨ c = 2 * i + 2 → c < last → keyAt key v c ≤ keyAt key v i

/-- From `lo` on the array is a heap except at `root`, whose children are bounded
    by its parent, so that either of them can take its place. -/
structure HeapExcept (v : Vector α n) (lo last root : Nat) : Prop where
  heapAt : ∀ i, lo ≤ i → i ≠ root → HeapAt key v last i
  below_parent : ∀ p, lo ≤ p → root = 2 * p + 1 ∨ root = 2 * p + 2 →
    ∀ c, c = 2 * root + 1 ∨ c = 2 * root + 2 → c < last → keyAt key v c ≤ keyAt key v p

theorem HeapExcept.swap {v : Vector α n} {lo t : Nat} (hv : HeapExcept key v lo last root)
    (hr : root < n) (htn : t < n) (htl : t < last) (hlo : lo ≤ root)
    (hchild : t = 2 * root + 1 ∨ t = 2 * root + 2) (hlt : keyAt key v root < keyAt key v t)
    (hmax : ∀ c, c = 2 * root + 1 ∨ c = 2 * root + 2 → c < last → keyAt key v c ≤ keyAt key v t) :
    HeapExcept key (v.swap root t hr htn) lo last t := by
  constructor
  · intro i hi hit c hc hcl
    by_cases hir : i = root
    · -- the old root has taken the key of the larger child
      rw [hir] at hc ⊢
      rw [keyAt_swap_left]
      by_cases hct : c = t
      · rw [hct, keyAt_swap_right]
        exact le_of_lt hlt
      · rw [keyAt_swap_of_ne key v hr htn (by omega) hct]
        exact hmax c hc hcl
    · rw [keyAt_swap_of_ne key v hr htn hir hit]
      by_cases hcr : c = root
      · rw [hcr, keyAt_swap_left]
        exact hv.below_parent i hi (by omega) t hchild htl
      · -- `t` is a child of the root only
        rw [keyAt_swap_of_ne key v hr htn hcr (by omega)]
        exact hv.heapAt i hi hir c hc hcl
  · intro p hp hpt c hc hcl
    have hpr : p = root := by omega
    rw [hpr, keyAt_swap_left, keyAt_swap_of_ne key v hr htn (by omega) (by omega)]
    exact hv.heapAt t (by omega) (by omega) c hc hcl

theorem siftDown_heapAt {lo : Nat} (v : Vector α n) (root last : Nat) (hlast : last ≤ n)
    (hroot : root < last) (hlo : lo ≤ root) (hv : HeapExcept key v lo last root) :
    ∀ i, lo ≤ i → HeapAt key (siftDown key v root last hlast hroot) last i := by
  fun_induction siftDown key v root last hlast hroot with
  | case1 v root hroot h =>
    intro i hi
    by_cases hir : i = root
    · intro c hc hcl
      rw [hir] at hc ⊢
      have hmax := (swapTarget_cases key v root last).2 c hc hcl
      rwa [h] at hmax
    · exact hv.heapAt i hi hir
  | case2 v root hroot h ih =>
    obtain ⟨hcase, hmax⟩ := swapTarget_cases key v root last
    obtain ⟨htl, hchild, hlt⟩ := hcase.resolve_left h
    exact ih (by omega) (hv.swap key _ _ htl hlo hchild hlt hmax)

theorem siftDown_frame (v : Vector α n) (root last : Nat) (hlast : last ≤ n) (hroot : root < last)
    {k : Nat} (hk : last ≤ k) :
    keyAt key (siftDown key v root last hlast hroot) k = keyAt key v k := by
  fun_induction siftDown key v root last hlast hroot with
  | case1 v root hroot h => rfl
  | case2 v root hroot h ih =>
    have htl := swapTarget_lt key (v := v) hroot
    rw [ih, keyAt_swap_of_ne key v _ _ (by omega) (by omega)]

theorem siftDown_bound (v : Vector α n) (root last : Nat) (hlast : last ≤ n) (hroot : root < last)
    {bound : Nat} (hv : ∀ j, j < last → keyAt key v j ≤ bound) :
    ∀ j, j < last → keyAt key (siftDown key v root last hlast hroot) j ≤ bound := by
  fun_induction siftDown key v root last hlast hroot with
  | case1 v root hroot h => exact hv
  | case2 v root hroot h ih =>
    apply ih
    intro j hj
    rw [keyAt_swap]
    split
    · exact hv root hroot
    · split
      · exact hv _ (swapTarget_lt key hroot)
      · exact hv j hj

theorem buildHeap_heapAt (v : Vector α n) (k : Nat) (hk : k ≤ n / 2)
    (hv : ∀ i, k ≤ i → HeapAt key v n i) :
    ∀ i, HeapAt key (buildHeap key v k hk) n i := by
  induction k generalizing v with
  | zero => exact fun i => hv i (Nat.zero_le i)
  | succ k ih =>
    refine ih _ _ (siftDown_heapAt key v k n _ _ (le_refl k) ⟨?_, ?_⟩)
    · intro i hi hik
      exact hv i (by omega)
    · intro p hp hpk
      omega

theorem keyAt_le_root {v : Vector α n} (hv : ∀ i, HeapAt key v last i) :
    ∀ j, j < last → keyAt key v j ≤ keyAt key v 0 := by
  intro j
  induction j using Nat.strong_induction_on with
  | _ j ih =>
    intro hj
    by_cases h0 : j = 0
    · rw [h0]
    · have hparent := hv ((j - 1) / 2) j (by omega) hj
      exact le_trans hparent (ih ((j - 1) / 2) (by omega) (by omega))

/-- What the second loop keeps: a heap in front, and behind it a sorted part that
    is nowhere below the heap. -/
structure Extracting (v : Vector α n) (last : Nat) : Prop where
  heapAt : ∀ i, HeapAt key v last i
  sorted : ∀ i j, last ≤ i → i ≤ j → j < n → keyAt key v i ≤ keyAt key v j
  below : ∀ i j, i < last → last ≤ j → j < n → keyAt key v i ≤ keyAt key v j

theorem Extracting.step {v : Vector α n} (hi : i + 1 < n) (hv : Extracting key v (i + 2)) :
    Extracting key
      (siftDown key (v.swap 0 (i + 1) (by omega) hi) 0 (i + 1) (by omega) (by omega)) (i + 1) := by
  have h0 : 0 < n := by omega
  have hroot := keyAt_le_root key hv.heapAt
  set w := v.swap 0 (i + 1) h0 hi with hw
  -- the old root now stands at `i + 1`, and bounds what is left of the heap
  have hlast : keyAt key w (i + 1) = keyAt key v 0 := keyAt_swap_right key v h0 hi
  have hbehind : ∀ k, i + 2 ≤ k → keyAt key w k = keyAt key v k := fun k hk =>
    keyAt_swap_of_ne key v h0 hi (by omega) (by omega)
  have hfront : ∀ k, k < i + 1 → keyAt key w k ≤ keyAt key v 0 := by
    intro k hk
    rw [hw, keyAt_swap]
    split
    · exact le_refl _
    · split
      · exact hroot (i + 1) (by omega)
      · exact hroot k (by omega)
  have hsift := siftDown_bound key w 0 (i + 1) (by omega) (by omega) hfront
  have hframe : ∀ k, i + 1 ≤ k →
      keyAt key (siftDown key w 0 (i + 1) (by omega) (by omega)) k = keyAt key w k := fun k hk =>
    siftDown_frame key w 0 (i + 1) (by omega) (by omega) hk
  constructor
  · intro k
    refine siftDown_heapAt key w 0 (i + 1) _ _ (le_refl 0) ⟨?_, ?_⟩ k (Nat.zero_le k)
    · intro k _ hk c hc hcl
      rw [keyAt_swap_of_ne key v h0 hi (by omega) (by omega),
        keyAt_swap_of_ne key v h0 hi hk (by omega)]
      exact hv.heapAt k c hc (by omega)
    · intro p _ hp
      omega
  · intro a b ha hab hb
    rw [hframe a ha, hframe b (by omega)]
    by_cases hai : a = i + 1
    · by_cases hbi : b = i + 1
      · rw [hai, hbi]
      · rw [hai, hlast, hbehind b (by omega)]
        exact hv.below 0 b (by omega) (by omega) hb
    · rw [hbehind a (by omega), hbehind b (by omega)]
      exact hv.sorted a b (by omega) hab hb
  · intro a b ha hb hbn
    rw [hframe b hb]
    by_cases hbi : b = i + 1
    · rw [hbi, hlast]
      exact hsift a ha
    · rw [hbehind b (by omega)]
      exact le_trans (hsift a ha) (hv.below 0 b (by omega) (by omega) hbn)

theorem extractAll_sorted (v : Vector α n) (i : Nat) (hi : i < n)
    (hv : Extracting key v (i + 1)) :
    ∀ a b, a ≤ b → b < n → keyAt key (extractAll key v i hi) a ≤
      keyAt key (extractAll key v i hi) b := by
  induction i generalizing v with
  | zero =>
    intro a b hab hb
    by_cases ha : a = 0
    · by_cases hb0 : b = 0
      · rw [extractAll, ha, hb0]
      · exact hv.below a b (by omega) (by omega) hb
    · exact hv.sorted a b (by omega) hab hb
  | succ i ih => exact ih _ _ (hv.step key hi)

theorem heapSort_keyAt_le (v : Vector α n) {a b : Nat} (hab : a ≤ b) (hb : b < n) :
    keyAt key (heapSort key v) a ≤ keyAt key (heapSort key v) b := by
  have hn : 0 < n := by omega
  rw [heapSort, dif_pos hn]
  refine extractAll_sorted key _ (n - 1) _ ⟨?_, ?_, ?_⟩ a b hab hb
  · rw [Nat.sub_add_cancel hn]
    refine buildHeap_heapAt key v (n / 2) _ ?_
    intro i hi c hc hcl
    omega
  · intro i j hi hij hj
    omega
  · intro i j hi hj hjn
    omega

/-- **The sort orders its input by key.** -/
theorem heapSort_sorted : (heapSort key v).toList.Pairwise fun x y => key x ≤ key y := by
  rw [List.pairwise_iff_getElem]
  intro i j hi hj hij
  rw [Vector.length_toList] at hi hj
  have h := heapSort_keyAt_le key v (le_of_lt hij) hj
  simpa [keyAt, hi, hj] using h

end HeapSort

end SemanticsAr
