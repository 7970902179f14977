import Mathlib.Data.List.Basic

/-!
# Tilings of an interval

Elements of any type that lie one behind the other, each from its lower to its upper end, and
the search for the one at a position.
-/

namespace SemanticsAr.Tiling

section

variable {α : Type} (lo hi : α → Nat)

/-- The elements lie one behind the other from `s` to `e`, and none is empty. -/
def Tiles : Nat → List α → Nat → Prop
  | s, [], e => s = e
  | s, x :: xs, e => lo x = s ∧ lo x < hi x ∧ Tiles (hi x) xs e

def tileAt (xs : List α) (p : Nat) : Option α :=
  xs.find? fun x => decide (lo x ≤ p ∧ p < hi x)

variable {lo hi} {xs : List α} {s e p : Nat} {x : α}

theorem Tiles.le (h : Tiles lo hi s xs e) : s ≤ e := by
  induction xs generalizing s with
  | nil => exact Nat.le_of_eq h
  | cons x xs ih =>
    obtain ⟨hlo, hlt, htail⟩ := h
    have hle := ih htail
    omega

theorem Tiles.bounds (h : Tiles lo hi s xs e) (hx : x ∈ xs) : s ≤ lo x ∧ hi x ≤ e := by
  induction xs generalizing s with
  | nil => exact absurd hx List.not_mem_nil
  | cons y xs ih =>
    obtain ⟨hlo, hlt, htail⟩ := h
    rcases List.mem_cons.mp hx with rfl | hx
    · exact ⟨Nat.le_of_eq hlo.symm, htail.le⟩
    · obtain ⟨hfrom, hto⟩ := ih htail hx
      exact ⟨by omega, hto⟩

theorem tileAt_spec (h : tileAt lo hi xs p = some x) : x ∈ xs ∧ lo x ≤ p ∧ p < hi x := by
  exact ⟨List.mem_of_find?_eq_some h, by simpa using List.find?_some h⟩

theorem tileAt_cons_of_has (h : lo x ≤ p ∧ p < hi x) : tileAt lo hi (x :: xs) p = some x := by
  simp [tileAt, h]

theorem tileAt_cons_of_not (h : ¬ (lo x ≤ p ∧ p < hi x)) :
    tileAt lo hi (x :: xs) p = tileAt lo hi xs p := by
  exact List.find?_cons_of_neg (by simpa using h)

theorem Tiles.tileAt_eq (h : Tiles lo hi s xs e) (hx : x ∈ xs) (hlo : lo x ≤ p) (hhi : p < hi x) :
    tileAt lo hi xs p = some x := by
  induction xs generalizing s with
  | nil => exact absurd hx List.not_mem_nil
  | cons y xs ih =>
    obtain ⟨hy, hlt, htail⟩ := h
    rcases List.mem_cons.mp hx with rfl | hx
    · exact tileAt_cons_of_has ⟨hlo, hhi⟩
    · have hbehind := (htail.bounds hx).1
      rw [tileAt_cons_of_not (by omega)]
      exact ih htail hx

theorem Tiles.exists_tileAt (h : Tiles lo hi s xs e) (hs : s ≤ p) (he : p < e) :
    ∃ x, tileAt lo hi xs p = some x := by
  induction xs generalizing s with
  | nil =>
    have hempty : s = e := h
    omega
  | cons y xs ih =>
    obtain ⟨hy, hlt, htail⟩ := h
    by_cases hin : p < hi y
    · exact ⟨y, tileAt_cons_of_has ⟨by omega, hin⟩⟩
    · rw [tileAt_cons_of_not fun hhas => hin hhas.2]
      exact ih htail (Nat.not_lt.mp hin)

end

end SemanticsAr.Tiling
