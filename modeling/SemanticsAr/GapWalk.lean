import Mathlib.Data.List.Basic
import Mathlib.Order.Basic

/-!
# Filling the gaps of an interval

A range of positions is partly covered.  A procedure walks it from left to
right, finds the next uncovered interval, which it may cut short at a marked
position, and fills it.  `GapWalk` describes such a walk over arbitrary
predicates on the naturals: it leaves nothing uncovered behind it, and what it
fills are the maximal gaps of the range exactly when no mark lies inside a gap.
-/

namespace SemanticsAr

open List

/-- `[g, h)` is a maximal uncovered interval of `[lo, hi)`: the positions just
    outside it are covered or outside the range. -/
structure IsMaximalGap (cov : Nat → Prop) (lo hi g h : Nat) : Prop where
  lo_le : lo ≤ g
  lt : g < h
  le_hi : h ≤ hi
  uncovered : ∀ b, g ≤ b → b < h → ¬ cov b
  left_end : g = lo ∨ cov (g - 1)
  right_end : h = hi ∨ cov h

def SplitsGap (cov mark : Nat → Prop) (lo hi : Nat) : Prop :=
  ∃ b, lo < b ∧ b < hi ∧ mark b ∧ ¬ cov (b - 1) ∧ ¬ cov b

/-- The intervals that a walk over `[lo, hi)` has filled when it stands at a position. -/
inductive GapWalk (cov mark : Nat → Prop) (lo hi : Nat) : Nat → List (Nat × Nat) → Prop where
  | start : GapWalk cov mark lo hi lo []
  | fill {c g h : Nat} {filled : List (Nat × Nat)} (hwalk : GapWalk cov mark lo hi c filled)
      (hcg : c ≤ g) (hgh : g < h) (hhi : h ≤ hi)
      (hbefore : ∀ b, c ≤ b → b < g → cov b)
      (hgap : ∀ b, g ≤ b → b < h → ¬ cov b)
      (hunmarked : ∀ b, g < b → b < h → ¬ mark b)
      (hafter : h = hi ∨ mark h) : GapWalk cov mark lo hi h (filled ++ [(g, h)])

namespace GapWalk

variable {cov mark : Nat → Prop} {lo hi c : Nat} {filled : List (Nat × Nat)}

section

variable (hw : GapWalk cov mark lo hi c filled)

include hw

theorem lo_le : lo ≤ c := by
  induction hw with
  | start => exact Nat.le_refl lo
  | fill _ hcg hgh _ _ _ _ _ ih => omega

theorem bounds : ∀ p ∈ filled, p.1 < p.2 ∧ p.2 ≤ c := by
  induction hw with
  | start => intro p hp; exact absurd hp not_mem_nil
  | fill _ hcg hgh _ _ _ _ _ ih =>
    intro p hp
    rcases mem_append.mp hp with hp | hp
    · have := ih p hp
      omega
    · rw [mem_singleton.mp hp]
      exact ⟨hgh, Nat.le_refl _⟩

theorem uncovered : ∀ p ∈ filled, ∀ b, p.1 ≤ b → b < p.2 → lo ≤ b ∧ b < hi ∧ ¬ cov b := by
  induction hw with
  | start => intro p hp; exact absurd hp not_mem_nil
  | fill hwalk hcg _ hhi _ hgap _ _ ih =>
    intro p hp b hlo hlt
    rcases mem_append.mp hp with hp | hp
    · exact ih p hp b hlo hlt
    · rw [mem_singleton.mp hp] at hlo hlt
      have hstart := hwalk.lo_le
      exact ⟨by omega, by omega, hgap b hlo hlt⟩

theorem covers {b : Nat} (hlo : lo ≤ b) (hb : b < c) : cov b ∨ ∃ p ∈ filled, p.1 ≤ b ∧ b < p.2 := by
  induction hw with
  | start => omega
  | @fill c g h filled _ hcg hgh _ hbefore _ _ _ ih =>
    by_cases hg : b < g
    · by_cases hc : b < c
      · rcases ih hc with hcov | ⟨p, hp, hpb⟩
        · exact .inl hcov
        · exact .inr ⟨p, mem_append_left _ hp, hpb⟩
      · exact .inl (hbefore b (by omega) hg)
    · exact .inr ⟨(g, h), mem_append_right _ mem_cons_self, by omega, hb⟩

theorem pairwise : filled.Pairwise fun p q => p.2 ≤ q.1 := by
  induction hw with
  | start => exact List.Pairwise.nil
  | fill hwalk hcg _ _ _ _ _ _ ih =>
    refine pairwise_append.mpr ⟨ih, pairwise_singleton _ _, ?_⟩
    intro p hp q hq
    rw [mem_singleton.mp hq]
    exact Nat.le_trans (hwalk.bounds p hp).2 hcg

theorem eq_of_mem {p q : Nat × Nat} {b : Nat} (hp : p ∈ filled) (hq : q ∈ filled)
    (hpb : p.1 ≤ b ∧ b < p.2) (hqb : q.1 ≤ b ∧ b < q.2) : p = q := by
  induction hw with
  | start => cases hp
  | fill hwalk hcg _ _ _ _ _ _ ih =>
    rcases mem_append.mp hp with hp | hp
    · have hpc := (hwalk.bounds p hp).2
      rcases mem_append.mp hq with hq | hq
      · exact ih hp hq
      · rw [mem_singleton.mp hq] at hqb
        exact absurd hpb.2 (by omega)
    · rcases mem_append.mp hq with hq | hq
      · have hqc := (hwalk.bounds q hq).2
        rw [mem_singleton.mp hp] at hpb
        exact absurd hqb.2 (by omega)
      · rw [mem_singleton.mp hp, mem_singleton.mp hq]

theorem unmarked : ∀ p ∈ filled, ∀ b, p.1 < b → b < p.2 → ¬ mark b := by
  induction hw with
  | start => intro p hp; exact absurd hp not_mem_nil
  | fill _ _ _ _ _ _ hunmarked _ ih =>
    intro p hp
    rcases mem_append.mp hp with hp | hp
    · exact ih p hp
    · rw [mem_singleton.mp hp]
      exact hunmarked

theorem at_end : c = lo ∨ c = hi ∨ mark c := by
  cases hw with
  | start => exact .inl rfl
  | fill _ _ _ _ _ _ _ hafter => exact .inr hafter

/-- What a walk fills are maximal gaps also of a wider coverage that leaves them free, if no mark
    lies inside one. -/
theorem isMaximalGap {cov' : Nat → Prop} (hmono : ∀ b, cov b → cov' b)
    (hsplit : ¬ SplitsGap cov' mark lo hi) :
    ∀ p ∈ filled, (∀ b, p.1 ≤ b → b < p.2 → ¬ cov' b) → IsMaximalGap cov' lo hi p.1 p.2 := by
  induction hw with
  | start => intro p hp; exact absurd hp not_mem_nil
  | @fill c g h filled hwalk hcg hgh hhi hbefore hgap hunmarked hafter ih =>
    intro p hp hfree
    rcases mem_append.mp hp with hp | hp
    · exact ih p hp hfree
    rw [mem_singleton.mp hp] at hfree ⊢
    have hlo := hwalk.lo_le
    refine ⟨Nat.le_trans hlo hcg, hgh, hhi, hfree, ?_, ?_⟩
    · -- a gap right behind an interval that ended at a mark would be split by it
      by_cases hc : c = g
      · subst hc
        by_contra hleft
        rw [not_or] at hleft
        rcases hwalk.at_end with hc | hc | hc
        · exact hleft.1 hc
        · omega
        · exact hsplit ⟨c, by omega, by omega, hc, hleft.2, hfree c (Nat.le_refl c) hgh⟩
      · exact .inr (hmono _ (hbefore (g - 1) (by omega) (by omega)))
    · rcases hafter with hafter | hafter
      · exact .inl hafter
      · by_contra hright
        rw [not_or] at hright
        exact hsplit ⟨h, by omega, by omega, hafter, hfree (h - 1) (by omega) (by omega), hright.2⟩

theorem not_splitsGap {cov' : Nat → Prop} (hmono : ∀ b, cov b → cov' b)
    (hrest : ∀ b, c ≤ b → b < hi → cov b)
    (hfilled : ∀ p ∈ filled, (∀ b, p.1 ≤ b → b < p.2 → cov' b) ∨ IsMaximalGap cov' lo hi p.1 p.2) :
    ¬ SplitsGap cov' mark lo hi := by
  rintro ⟨b, hlo, hhi, hmark, hleft, hright⟩
  have hbc : b - 1 < c := by
    by_contra hbc
    exact hleft (hmono _ (hrest (b - 1) (by omega) (by omega)))
  rcases hw.covers (by omega) hbc with hcov | ⟨p, hp, hpb⟩
  · exact hleft (hmono _ hcov)
  -- the interval that fills the position before the mark cannot end at it
  have hend : p.2 ≠ b := by
    intro hend
    rcases hfilled p hp with hcov | hmax
    · exact hleft (hcov _ hpb.1 hpb.2)
    · rcases hmax.right_end with h | h
      · omega
      · rw [hend] at h
        exact hright h
  exact hw.unmarked p hp b (by omega) (by omega) hmark

end

end GapWalk

end SemanticsAr
