import Mathlib.Data.List.Basic
import Mathlib.Data.List.Pairwise
import Mathlib.Data.List.Perm.Basic

/-!
# Allocating spans of an address space

A span is a half-open interval `[lo, hi)` of naturals.  An allocator holds the
spans in use, a list of free ones and a mark above which nothing is in use.  It
is `Packed` when all of them lie below the mark and no two overlap.  Taking a
free span, cutting a piece off one, moving the mark up and giving spans back
all keep that; `Packed.skip` rebuilds the free list from the spans in use, taken
in order.
-/

namespace SemanticsAr

open List

variable {mark' : Nat}

abbrev Span := Nat × Nat

variable {p q : Span}

def Apart (p q : Span) : Prop := p.2 ≤ q.1 ∨ q.2 ≤ p.1

theorem Apart.symm (h : Apart p q) : Apart q p := Or.symm h

theorem Apart.of_le {p' : Span} (h : Apart p q) (hlo : p.1 ≤ p'.1) (hhi : p'.2 ≤ p.2) :
    Apart p' q := by
  rcases h with h | h
  · exact Or.inl (Nat.le_trans hhi h)
  · exact Or.inr (Nat.le_trans h hlo)

theorem Apart.not_mem_both (h : Apart p q) {b : Nat} (hp : p.1 ≤ b ∧ b < p.2)
    (hq : q.1 ≤ b ∧ b < q.2) : False := by
  rcases h with h | h <;> omega

def Span.Has (p : Span) (b : Nat) : Prop := p.1 ≤ b ∧ b < p.2

theorem apart_iff (hp : p.1 < p.2) (hq : q.1 < q.2) :
    Apart p q ↔ ∀ b, ¬ (Span.Has p b ∧ Span.Has q b) := by
  constructor
  · exact fun h b hb => h.not_mem_both hb.1 hb.2
  · intro h
    by_contra hnot
    rw [Apart, not_or, Nat.not_le, Nat.not_le] at hnot
    exact h (max p.1 q.1)
      ⟨⟨Nat.le_max_left .., by omega⟩, Nat.le_max_right .., by omega⟩

structure Packed (live free : List Span) (mark : Nat) : Prop where
  le_mark : ∀ p ∈ live ++ free, p.2 ≤ mark
  apart : (live ++ free).Pairwise Apart

namespace Packed

variable {live free : List Span} {mark : Nat}

theorem live_apart (h : Packed live free mark) : live.Pairwise Apart :=
  (pairwise_append.mp h.apart).1

theorem live_le (h : Packed live free mark) : ∀ p ∈ live, p.2 ≤ mark := fun p hp =>
  h.le_mark p (mem_append_left _ hp)

theorem perm {live' free' : List Span} (h : Packed live free mark)
    (hperm : (live ++ free).Perm (live' ++ free')) : Packed live' free' mark := by
  constructor
  · intro p hp
    exact h.le_mark p (hperm.mem_iff.mpr hp)
  · exact (hperm.pairwise_iff Apart.symm).mp h.apart

theorem sublist {live' free' : List Span} (h : Packed live free mark) (hlive : live'.Sublist live)
    (hfree : free'.Sublist free) : Packed live' free' mark := by
  have hsub := hlive.append hfree
  exact ⟨fun p hp => h.le_mark p (hsub.subset hp), h.apart.sublist hsub⟩

theorem of_live (hlive : live.Pairwise Apart) (hle : ∀ p ∈ live, p.2 ≤ mark) :
    Packed live [] mark := by
  constructor
  · rwa [append_nil]
  · rwa [append_nil]

theorem take (h : Packed live (p :: free) mark) : Packed (p :: live) free mark :=
  h.perm perm_middle

theorem cut {lo mid hi : Nat} (h : Packed live ((lo, hi) :: free) mark) (hlo : lo ≤ mid)
    (hhi : mid ≤ hi) : Packed ((lo, mid) :: live) ((mid, hi) :: free) mark := by
  have htake := h.take
  obtain ⟨hfront, hrest⟩ := pairwise_cons.mp htake.apart
  have hmark := htake.le_mark (lo, hi) mem_cons_self
  -- the two pieces in front of everything else
  have hpieces : Packed ((lo, mid) :: (mid, hi) :: live) free mark := by
    constructor
    · refine forall_mem_cons.mpr ⟨Nat.le_trans hhi hmark, forall_mem_cons.mpr ⟨hmark, ?_⟩⟩
      exact fun p hp => htake.le_mark p (mem_cons_of_mem _ hp)
    · refine pairwise_cons.mpr ⟨?_, pairwise_cons.mpr ⟨?_, hrest⟩⟩
      · refine forall_mem_cons.mpr ⟨.inl (Nat.le_refl mid), ?_⟩
        exact fun q hq => (hfront q hq).of_le (Nat.le_refl lo) hhi
      · intro q hq
        exact (hfront q hq).of_le hlo (Nat.le_refl hi)
  refine hpieces.perm ?_
  exact (perm_middle.symm).cons (lo, mid)

section

variable (h : Packed live free mark) (hle : mark ≤ mark')

include h hle

theorem bump : Packed ((mark, mark') :: live) free mark' := by
  constructor
  · intro p hp
    rcases mem_cons.mp hp with rfl | hp
    · exact Nat.le_refl mark'
    · exact Nat.le_trans (h.le_mark p hp) hle
  · refine pairwise_cons.mpr ⟨?_, h.apart⟩
    intro q hq
    exact .inr (h.le_mark q hq)

theorem mono : Packed live free mark' :=
  ⟨fun p hp => Nat.le_trans (h.le_mark p hp) hle, h.apart⟩

theorem skip : Packed live (free ++ [(mark, mark')]) mark' := by
  refine (h.bump hle).perm ?_
  rw [← append_assoc]
  exact (perm_append_singleton _ _).symm

end

end Packed

end SemanticsAr
