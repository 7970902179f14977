import Mathlib.Data.Set.Basic
import SemanticsAr.Runs

/-!
# Copies that expire

A position is held by copies, each known by the time it was taken.  A visit to the position
drops the copies that have expired by then and, if it is made for this position and none is
left, takes a new one.  The lemmas say what is left of the copies behind a series of visits of
which at most one is made for the position.
-/

namespace SemanticsAr.HoldTimes

open Runs List

variable {τ : Type*}

structure Visit (τ : Type*) where
  now : τ
  inside : Prop

/-- The copies that a visit leaves; `expired now t` says that a copy of time `t` has expired. -/
def visit (expired : τ → τ → Prop) (copies : Set τ) (p : Visit τ) : Set τ :=
  {t | t ∈ copies ∧ ¬ expired p.now t} ∪
    {t | t = p.now ∧ p.inside ∧ ∀ s ∈ copies, expired p.now s}

variable {expired : τ → τ → Prop} {copies : Set τ} {t : τ}

theorem mem_visit {p : Visit τ} : t ∈ visit expired copies p ↔ (t ∈ copies ∧ ¬ expired p.now t) ∨
        (t = p.now ∧ p.inside ∧ ∀ s ∈ copies, expired p.now s) := Iff.rfl

theorem mem_visit_of_not_inside {p : Visit τ} (hp : ¬ p.inside) :
    t ∈ visit expired copies p ↔ t ∈ copies ∧ ¬ expired p.now t := by
  simp [mem_visit, hp]

theorem mem_run_outside {ps : List (Visit τ)} (hps : ∀ p ∈ ps, ¬ p.inside) :
    t ∈ run (visit expired) copies ps ↔ t ∈ copies ∧ ∀ p ∈ ps, ¬ expired p.now t := by
  induction ps generalizing copies with
  | nil => simp
  | cons p ps ih =>
    rw [run_cons, ih fun q hq => hps q (mem_cons_of_mem _ hq),
      mem_visit_of_not_inside (hps p mem_cons_self)]
    simp [and_assoc]

def Outlives (expired : τ → τ → Prop) (copies : Set τ) (ps : List (Visit τ)) : Prop :=
  ∃ t ∈ copies, ∀ p ∈ ps, ¬ expired p.now t

theorem nonempty_run_outside {ps : List (Visit τ)} (hps : ∀ p ∈ ps, ¬ p.inside) :
    (run (visit expired) copies ps).Nonempty ↔ Outlives expired copies ps := by
  simp only [Set.Nonempty, mem_run_outside hps, Outlives]

/-- **One visit for the position.**  A copy is left exactly when one that was there at first
    outlives the visits, or none outlived the visit for the position and the copy taken there
    outlives the rest. -/
theorem nonempty_run_inside {front back : List (Visit τ)} {p : Visit τ} (hp : p.inside)
    (hfront : ∀ q ∈ front, ¬ q.inside) (hback : ∀ q ∈ back, ¬ q.inside) :
    (run (visit expired) copies (front ++ p :: back)).Nonempty ↔
      Outlives expired copies (front ++ p :: back) ∨
        (¬ Outlives expired copies (front ++ [p]) ∧ ∀ q ∈ back, ¬ expired q.now p.now) := by
  rw [run_append, run_cons]
  simp only [Set.Nonempty, mem_run_outside hback, mem_visit, mem_run_outside hfront, Outlives,
    forall_mem_append, forall_mem_cons]
  constructor
  · rintro ⟨t, ⟨⟨hcopy, hlive⟩, hnow⟩ | ⟨rfl, -, hdead⟩, hrest⟩
    · exact .inl ⟨t, hcopy, hlive, hnow, hrest⟩
    · refine .inr ⟨?_, hrest⟩
      rintro ⟨s, hcopy, hlive, hnow, -⟩
      exact hnow (hdead s ⟨hcopy, hlive⟩)
  · rintro (⟨t, hcopy, hlive, hnow, hrest⟩ | ⟨hdead, hrest⟩)
    · exact ⟨t, .inl ⟨⟨hcopy, hlive⟩, hnow⟩, hrest⟩
    · refine ⟨p.now, .inr ⟨rfl, hp, fun s hs => ?_⟩, hrest⟩
      by_contra hnow
      exact hdead ⟨s, hs.1, hs.2, hnow, forall_mem_nil _⟩

/-- A copy that was there at first outlives the visits, or none outlived some visit for the
    position and the copy taken there outlives the rest. -/
def StaysHeld (expired : τ → τ → Prop) (copies : Set τ) (ps : List (Visit τ)) : Prop :=
  Outlives expired copies ps ∨ ∃ front p back, ps = front ++ p :: back ∧ p.inside ∧
      ¬ Outlives expired copies (front ++ [p]) ∧ ∀ q ∈ back, ¬ expired q.now p.now

/-- **At most one visit for the position.** -/
theorem nonempty_run_iff {ps : List (Visit τ)}
    (hps : ps.Pairwise fun p q => ¬ (p.inside ∧ q.inside)) :
    (run (visit expired) copies ps).Nonempty ↔ StaysHeld expired copies ps := by
  -- the visits around one for the position are for others
  have haround {front back : List (Visit τ)} {p : Visit τ} (hsplit : ps = front ++ p :: back)
      (hp : p.inside) : (∀ q ∈ front, ¬ q.inside) ∧ ∀ q ∈ back, ¬ q.inside := by
    subst hsplit
    obtain ⟨-, hback, hcross⟩ := pairwise_append.mp hps
    exact ⟨fun q hq hin => hcross q hq p mem_cons_self ⟨hin, hp⟩,
      fun q hq hin => (pairwise_cons.mp hback).1 q hq ⟨hp, hin⟩⟩
  constructor
  · intro h
    by_cases hinside : ∃ p ∈ ps, p.inside
    · obtain ⟨p, hmem, hp⟩ := hinside
      obtain ⟨front, back, hsplit⟩ := append_of_mem hmem
      obtain ⟨hfront, hback⟩ := haround hsplit hp
      rw [hsplit] at h ⊢
      rcases (nonempty_run_inside hp hfront hback).mp h with hout | ⟨hdead, hrest⟩
      · exact .inl hout
      · exact .inr ⟨front, p, back, rfl, hp, hdead, hrest⟩
    · exact .inl ((nonempty_run_outside fun p hp hin => hinside ⟨p, hp, hin⟩).mp h)
  · rintro (⟨t, hcopy, hlive⟩ | ⟨front, p, back, hsplit, hp, hdead, hrest⟩)
    · by_cases hinside : ∃ p ∈ ps, p.inside
      · obtain ⟨p, hmem, hp⟩ := hinside
        obtain ⟨front, back, hsplit⟩ := append_of_mem hmem
        obtain ⟨hfront, hback⟩ := haround hsplit hp
        subst hsplit
        exact (nonempty_run_inside hp hfront hback).mpr (.inl ⟨t, hcopy, hlive⟩)
      · exact (nonempty_run_outside fun p hp hin => hinside ⟨p, hp, hin⟩).mpr ⟨t, hcopy, hlive⟩
    · obtain ⟨hfront, hback⟩ := haround hsplit hp
      subst hsplit
      exact (nonempty_run_inside hp hfront hback).mpr (.inr ⟨hdead, hrest⟩)

/-- Where nothing expires, one copy at first or one visit for the position is enough. -/
theorem staysHeld_iff_of_fresh {ps : List (Visit τ)}
    (hold : ∀ v ∈ ps, ∀ t ∈ copies, ¬ expired v.now t)
    (hnew : ∀ v ∈ ps, ∀ w ∈ ps, ¬ expired v.now w.now) :
    StaysHeld expired copies ps ↔ copies.Nonempty ∨ ∃ p ∈ ps, p.inside := by
  constructor
  · rintro (⟨t, ht, -⟩ | ⟨front, p, back, rfl, hin, -⟩)
    · exact .inl ⟨t, ht⟩
    · exact .inr ⟨p, by simp, hin⟩
  · intro h
    by_cases hne : copies.Nonempty
    · obtain ⟨t, ht⟩ := hne
      exact .inl ⟨t, ht, fun v hv => hold v hv t ht⟩
    obtain ⟨p, hp, hin⟩ := h.resolve_left hne
    obtain ⟨front, back, rfl⟩ := append_of_mem hp
    exact .inr ⟨front, p, back, rfl, hin, fun ⟨t, ht, _⟩ => hne ⟨t, ht⟩,
      fun q hq => hnew q (by simp [hq]) p hp⟩

end SemanticsAr.HoldTimes
