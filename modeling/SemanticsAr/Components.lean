import Mathlib.Data.List.Infix

/-!
# The components of a path

A path is cut at its separators by `List.splitOn`.  What a path holds is settled by its
components: they can be cut off at the front (`splitOn_eq_append_iff`), renamed one by one
(`splitOn_map`), and a word without a separator that occurs in the path occurs in one of them
(`infix_iff_mem_splitOn`).
-/

namespace SemanticsAr.Components

open List

variable {α : Type*} [DecidableEq α] {sep : α} {xs : List α}

theorem splitOn_injective : Function.Injective (splitOn sep) := by
  intro xs ys h
  have hxs : [sep].intercalate (splitOn sep xs) = xs := intercalate_splitOn sep
  rw [← hxs, h, intercalate_splitOn]

theorem splitOn_cons_of_ne {c : α} (hc : c ≠ sep) : ∃ first rest, splitOn sep xs = first :: rest ∧
      splitOn sep (c :: xs) = (c :: first) :: rest := by
  obtain ⟨first, rest, h⟩ := exists_cons_of_ne_nil (splitOn_ne_nil sep xs)
  refine ⟨first, rest, h, ?_⟩
  rw [splitOn_cons_eq_if_modifyHead, if_neg (by simpa using hc), h, modifyHead_cons]

theorem splitOn_cons_self (xs : List α) : splitOn sep (sep :: xs) = [] :: splitOn sep xs := by
  rw [splitOn_cons_eq_if_modifyHead, if_pos (beq_self_eq_true sep)]

theorem length_splitOn : (splitOn sep xs).length = xs.count sep + 1 := by
  induction xs with
  | nil => simp
  | cons c xs ih =>
    by_cases hc : c = sep
    · subst hc
      rw [splitOn_cons_self, length_cons, ih, count_cons_self]
    · obtain ⟨first, rest, hxs, hcons⟩ := splitOn_cons_of_ne hc
      rw [hxs, length_cons] at ih
      rw [hcons, length_cons, ih, count_cons_of_ne hc]

theorem splitOn_map {f : α → α} (hf : ∀ c, f c = sep ↔ c = sep) :
    splitOn sep (xs.map f) = (splitOn sep xs).map (map f) := by
  induction xs with
  | nil => simp
  | cons c xs ih =>
    by_cases hc : c = sep
    · subst hc
      rw [map_cons, (hf c).mpr rfl, splitOn_cons_self, splitOn_cons_self, ih]
      rfl
    · obtain ⟨first, rest, hxs, hcons⟩ := splitOn_cons_of_ne hc
      obtain ⟨first', rest', hxs', hcons'⟩ :=
        splitOn_cons_of_ne (mt (hf c).mp hc)
      rw [ih, hxs, map_cons] at hxs'
      rw [map_cons, hcons, hcons', map_cons, map_cons, ← (cons.inj hxs').1, ← (cons.inj hxs').2]

theorem splitOn_append_sep (ys : List α) :
    splitOn sep (xs ++ sep :: ys) = splitOn sep xs ++ splitOn sep ys :=
  splitOn_append_cons_self _ _

theorem splitOn_eq_append_iff {xs : List α} {front back : List (List α)} (hfront : front ≠ [])
    (hback : back ≠ []) :
    splitOn sep xs = front ++ back ↔
      ∃ a b, xs = a ++ sep :: b ∧ splitOn sep a = front ∧ splitOn sep b = back := by
  constructor
  · intro h
    induction xs generalizing front with
    | nil =>
      obtain ⟨first, rest, rfl⟩ := exists_cons_of_ne_nil hfront
      simp [hback] at h
    | cons c xs ih =>
      obtain ⟨first, rest, rfl⟩ := exists_cons_of_ne_nil hfront
      by_cases hc : c = sep
      · subst hc
        rw [splitOn_cons_self, cons_append, cons.injEq] at h
        obtain ⟨rfl, h⟩ := h
        cases rest with
        | nil => exact ⟨[], xs, rfl, by simp, h⟩
        | cons second rest =>
          obtain ⟨a, b, rfl, ha, hb⟩ := ih (cons_ne_nil _ _) h
          exact ⟨c :: a, b, rfl, by rw [splitOn_cons_self, ha], hb⟩
      · obtain ⟨head, tail, hxs, hcons⟩ := splitOn_cons_of_ne hc
        rw [hcons, cons_append, cons.injEq] at h
        obtain ⟨rfl, rfl⟩ := h
        obtain ⟨a, b, rfl, ha, hb⟩ := ih (cons_ne_nil head rest) hxs
        refine ⟨c :: a, b, rfl, ?_, hb⟩
        obtain ⟨head', tail', ha', hcons'⟩ := splitOn_cons_of_ne hc
        rw [ha, cons.injEq] at ha'
        rw [hcons', ha'.1, ha'.2]
  · rintro ⟨a, b, rfl, rfl, rfl⟩
    exact splitOn_append_sep b

theorem isPrefix_iff_first {w xs first : List α} {rest : List (List α)} (hw : sep ∉ w)
    (h : splitOn sep xs = first :: rest) : w <+: xs ↔ w <+: first := by
  induction xs generalizing w first with
  | nil =>
    simp only [splitOn_nil, cons.injEq] at h
    rw [← h.1]
  | cons c xs ih =>
    cases w with
    | nil => simp
    | cons d w =>
      have hd : d ≠ sep := fun hd => hw (hd ▸ mem_cons_self)
      by_cases hc : c = sep
      · subst hc
        rw [splitOn_cons_self, cons.injEq] at h
        rw [← h.1]
        simp [cons_prefix_cons, hd]
      · obtain ⟨head, tail, hxs, hcons⟩ := splitOn_cons_of_ne hc
        rw [hcons, cons.injEq] at h
        rw [← h.1, cons_prefix_cons, cons_prefix_cons,
          ih (fun hmem => hw (mem_cons_of_mem _ hmem)) (hxs.trans (by rw [h.2]))]

/-- **A word lies within one component.** -/
theorem infix_iff_mem_splitOn {w xs : List α} (hw : sep ∉ w) (hne : w ≠ []) :
    w <:+: xs ↔ ∃ c ∈ splitOn sep xs, w <:+: c := by
  induction xs with
  | nil => simp
  | cons c xs ih =>
    rw [infix_cons_iff, ih]
    by_cases hc : c = sep
    · subst hc
      have hfirst := isPrefix_iff_first hw (splitOn_cons_self xs)
      rw [splitOn_cons_self, hfirst]
      simp [hne]
    · obtain ⟨head, tail, hxs, hcons⟩ := splitOn_cons_of_ne hc
      rw [isPrefix_iff_first hw hcons, hcons, hxs]
      simp only [mem_cons, exists_eq_or_imp, infix_cons_iff, or_assoc]

end SemanticsAr.Components
