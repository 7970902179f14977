import Mathlib.Data.List.Perm.Basic
import Mathlib.Data.List.GetD
import Mathlib.Data.List.Pairwise

/-!
# Overlays

A sequence with another one written over it from some position on.  The result reaches as
far as the longer of the two, and a hole between them is filled up.  Overlays that do not
meet can be made in any order.
-/

namespace SemanticsAr

open List

variable {α : Type*} {xs : List α}

structure Patch (α : Type*) where
  offset : Nat
  content : List α

namespace Patch

def last (p : Patch α) : Nat := p.offset + p.content.length

def Has (p : Patch α) (i : Nat) : Prop := p.offset ≤ i ∧ i < p.last

instance (p : Patch α) (i : Nat) : Decidable (p.Has i) := inferInstanceAs (Decidable (_ ∧ _))

def Apart (p q : Patch α) : Prop := p.last ≤ q.offset ∨ q.last ≤ p.offset

theorem Apart.symm {p q : Patch α} (h : p.Apart q) : q.Apart p := Or.symm h

theorem Apart.not_has {p q : Patch α} (h : p.Apart q) {i : Nat} (hp : p.Has i) : ¬ q.Has i := by
  intro hq
  obtain ⟨hlo, hhi⟩ := hp
  obtain ⟨hlo', hhi'⟩ := hq
  rcases h with h | h
  · omega
  · omega

end Patch

section

variable (z : α)

/-- `xs` with a patch over it; `z` fills a hole. -/
def overlay (xs : List α) (p : Patch α) : List α :=
  (List.range (max xs.length p.last)).map fun i =>
    if p.Has i then p.content.getD (i - p.offset) z else xs.getD i z

@[simp] theorem length_overlay (p : Patch α) : (overlay z xs p).length = max xs.length p.last := by
  simp [overlay]

theorem getD_overlay (xs : List α) (p : Patch α) (i : Nat) : (overlay z xs p).getD i z =
      if p.Has i then p.content.getD (i - p.offset) z else xs.getD i z := by
  by_cases hi : i < max xs.length p.last
  · simp [overlay, getD_eq_getElem?_getD, hi]
  · -- behind the end neither of the two has a value
    have hnot : ¬ p.Has i := fun h => hi (Nat.lt_of_lt_of_le h.2 (Nat.le_max_right _ _))
    rw [if_neg hnot, getD_eq_default _ _ (by simpa using hi),
      getD_eq_default _ _ (by omega)]

theorem eq_of_getD {xs ys : List α} (hlen : xs.length = ys.length)
    (h : ∀ i < xs.length, xs.getD i z = ys.getD i z) : xs = ys := by
  apply ext_getElem hlen
  intro i hi hi'
  have heq := h i hi
  rwa [getD_eq_getElem _ _ hi, getD_eq_getElem _ _ hi'] at heq

theorem overlay_nil (p : Patch α) : overlay z [] p = List.replicate p.offset z ++ p.content := by
  apply eq_of_getD z
  · simp [Patch.last]
  · intro i hi
    rw [getD_overlay, getD_nil]
    rw [length_overlay, length_nil, Nat.zero_max] at hi
    by_cases hlo : p.offset ≤ i
    · rw [if_pos ⟨hlo, hi⟩, getD_append_right _ _ _ _ (by simpa using hlo),
        length_replicate]
    · rw [if_neg (fun h => hlo h.1), getD_append _ _ _ _ (by simpa using hlo)]
      simp

/-- **Patches that do not meet** can be made in either order. -/
theorem overlay_comm (xs : List α) {p q : Patch α} (h : p.Apart q) :
    overlay z (overlay z xs p) q = overlay z (overlay z xs q) p := by
  apply eq_of_getD z
  · simp [Nat.max_assoc, Nat.max_comm p.last]
  · intro i _
    simp only [getD_overlay]
    by_cases hp : p.Has i
    · rw [if_neg (h.not_has hp), if_pos hp, if_pos hp]
    · rw [if_neg hp, if_neg hp]

def overlays (xs : List α) (ps : List (Patch α)) : List α := ps.foldl (overlay z) xs

@[simp] theorem overlays_cons (p : Patch α) (ps : List (Patch α)) :
    overlays z xs (p :: ps) = overlays z (overlay z xs p) ps := rfl

/-- **The order of patches** that do not meet does not matter. -/
theorem overlays_perm (xs : List α) {ps qs : List (Patch α)} (hperm : ps.Perm qs)
    (hapart : ps.Pairwise Patch.Apart) : overlays z xs ps = overlays z xs qs := by
  have hsymm : Std.Symm (Patch.Apart : Patch α → Patch α → Prop) := ⟨fun _ _ h => h.symm⟩
  apply hperm.foldl_eq'
  intro p hp q hq xs
  by_cases heq : p = q
  · rw [heq]
  · exact overlay_comm z xs (hapart.forall hp hq heq)

end

end SemanticsAr
