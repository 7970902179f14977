import Mathlib.Data.List.Basic
import Mathlib.Data.Option.Basic

/-!
# What a search can find

A search that tries one thing after another and stops at the first success is an
`Option` built from alternatives, loops and guards.  `Finds P` says that whatever
it stops at satisfies `P`; the rules below take a search apart.
-/

namespace SemanticsAr

universe u v

/-- Whatever the search stops at satisfies `P`. -/
def Finds {α : Type u} (P : α → Prop) (o : Option α) : Prop := ∀ a, o = some a → P a

namespace Finds

variable {α : Type u} {β : Type v} {P : α → Prop}

theorem none : Finds P Option.none := by
  intro a h
  cases h

theorem some {a : α} (h : P a) : Finds P (Option.some a) := by
  intro b hb
  cases hb
  exact h

theorem orElse {o o' : Option α} (h : Finds P o) (h' : Finds P o') : Finds P (o <|> o') := by
  cases o with
  | none => exact h'
  | some a => exact h

theorem ite {c : Prop} [Decidable c] {o o' : Option α} (h : c → Finds P o)
    (h' : ¬ c → Finds P o') : Finds P (if c then o else o') := by
  split
  · exact h ‹c›
  · exact h' ‹¬ c›

theorem guard {c : Prop} [Decidable c] {o : Option α} (h : c → Finds P o) :
    Finds P (if c then o else Option.none) :=
  ite h fun _ => none

theorem findSome {l : List β} {f : β → Option α} (h : ∀ b ∈ l, Finds P (f b)) :
    Finds P (l.findSome? f) := by
  intro a ha
  obtain ⟨b, hb, hf⟩ := List.exists_of_findSome?_eq_some ha
  exact h b hb a hf

theorem select {l : List β} {c : β → Prop} [DecidablePred c] {f : β → Option α}
    (h : ∀ b ∈ l, c b → Finds P (f b)) :
    Finds P (l.findSome? fun b => if c b then f b else Option.none) :=
  findSome fun b hb => guard (h b hb)

theorem map {o : Option β} {f : β → α} {Q : β → Prop} (h : Finds Q o) (hf : ∀ b, Q b → P (f b)) :
    Finds P (o.map f) := by
  intro a ha
  obtain ⟨b, hb, rfl⟩ := Option.map_eq_some_iff.mp ha
  exact hf b (h b hb)

theorem bind {o : Option β} {f : β → Option α} {Q : β → Prop} (h : Finds Q o)
    (hf : ∀ b, Q b → Finds P (f b)) : Finds P (o.bind f) := by
  intro a ha
  obtain ⟨b, hb, hfb⟩ := Option.bind_eq_some_iff.mp ha
  exact hf b (h b hb) a hfb

end Finds

theorem findSome_zipIdx_first {α : Type u} {β : Type v} {l : List α} {f : α × Nat → Option β}
    {t : Nat} {a : α} {b : β} (ha : l[t]? = some a) (hf : f (a, t) = some b)
    (hbefore : ∀ j < t, ∀ x, l[j]? = some x → f (x, j) = none) :
    l.zipIdx.findSome? f = some b := by
  have ht : t < l.length := (List.getElem?_eq_some_iff.mp ha).1
  have hlen : t < l.zipIdx.length := by simpa using ht
  have hat : l.zipIdx[t] = (a, t) := by
    have hget := (List.getElem?_eq_some_iff.mp ha).2
    simp [hget]
  refine List.findSome?_eq_some_iff.mpr
    ⟨l.zipIdx.take t, (a, t), l.zipIdx.drop (t + 1), ?_, hf, ?_⟩
  · rw [← hat, List.getElem_cons_drop, List.take_append_drop]
  · rintro ⟨x, j⟩ hx
    obtain ⟨i, hi, hxi⟩ := List.mem_iff_getElem.mp hx
    have hit : i < t := by
      simp only [List.length_take] at hi
      omega
    simp only [List.getElem_take, List.getElem_zipIdx, Nat.zero_add, Prod.mk.injEq] at hxi
    obtain ⟨rfl, rfl⟩ := hxi
    exact hbefore i hit _ (List.getElem?_eq_getElem _)

end SemanticsAr
