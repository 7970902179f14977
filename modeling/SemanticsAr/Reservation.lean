import Mathlib.Algebra.BigOperators.Group.Finset.Piecewise
import Mathlib.Algebra.GroupWithZero.Nat
import Mathlib.Algebra.Order.BigOperators.Group.Finset
import Mathlib.Data.Fintype.BigOperators

/-!
# Reservations against one capacity

An amount in use and an amount reserved share a capacity.  The reserved amount belongs to
accounts, and it is taken, entered in an account, drawn on, deducted and given back in
separate steps, so that operations of several parties are under way at once.  A ledger is
`Balanced` when what is reserved is what the accounts and the operations under way hold,
and when nothing but drawn amounts that are still to be given back exceeds the capacity.
Accounts are drawn on only below a limit, from which on a machine number may stand for
something else.
Every step keeps the balance (`Step.balanced`), and a balanced ledger with no operation
under way is within its capacity (`Balanced.of_quiet`).
-/

namespace SemanticsAr

namespace Reservation

/-- An operation between two of its steps: an amount is reserved and not yet in its account; it is
    in use and not yet deducted; it is deducted and not yet given back. -/
inductive Pending (σ : Type) where
  | opening (s : σ) (n : Nat)
  | drawn (s : σ) (n : Nat)
  | returning (n : Nat)

structure Ledger (σ : Type) where
  capacity : Nat
  used : Nat
  reserved : Nat
  account : σ → Nat
  pending : List (Pending σ)

variable {σ : Type} [DecidableEq σ] {limit : Nat} {f : Pending σ → Nat}

def Pending.held : Pending σ → Nat
  | opening _ n => n
  | drawn _ _ => 0
  | returning n => n

def Pending.owed : Pending σ → Nat
  | opening _ _ => 0
  | drawn _ n => n
  | returning n => n

def Pending.drawnOn (s : σ) : Pending σ → Nat
  | drawn s' n => if s' = s then n else 0
  | _ => 0

def total (f : Pending σ → Nat) (pending : List (Pending σ)) : Nat := (pending.map f).sum

omit [DecidableEq σ] in
@[simp] theorem total_nil : total f [] = 0 := by simp [total]

omit [DecidableEq σ] in
@[simp] theorem total_cons (p : Pending σ) (pending : List (Pending σ)) :
    total f (p :: pending) = f p + total f pending := by
  simp [total]

omit [DecidableEq σ] in
@[simp] theorem total_append (front back : List (Pending σ)) :
    total f (front ++ back) = total f front + total f back := by
  simp [total]

inductive Step (limit : Nat) : Ledger σ → Ledger σ → Prop where
  /-- The used amount shrinks, or grows within the capacity that is left. -/
  | use {L : Ledger σ} {used : Nat} (h : used ≤ L.used ∨ used + L.reserved ≤ L.capacity) :
      Step limit L { L with used := used }
  | reserve {L : Ledger σ} {s : σ} {n : Nat} (h : L.used + L.reserved + n ≤ L.capacity) :
      Step limit L { L with reserved := L.reserved + n, pending := L.pending ++ [.opening s n] }
  | enter {L : Ledger σ} {front back : List (Pending σ)} {s : σ} {n : Nat}
      (h : L.pending = front ++ .opening s n :: back) (hfree : L.account s = 0) :
      Step limit L { L with account := Function.update L.account s n, pending := front ++ back }
  | refuse {L : Ledger σ} {front back : List (Pending σ)} {s : σ} {n : Nat}
      (h : L.pending = front ++ .opening s n :: back) :
      Step limit L { L with pending := front ++ .returning n :: back }
  /-- An amount is used against an account that still covers it. -/
  | draw {L : Ledger σ} {s : σ} {n used : Nat} (h : used ≤ L.used + n)
      (hcover : total (Pending.drawnOn s) L.pending + n ≤ L.account s)
      (hlimit : L.account s < limit) :
      Step limit L { L with used := used, pending := L.pending ++ [.drawn s n] }
  | deduct {L : Ledger σ} {front back : List (Pending σ)} {s : σ} {n : Nat}
      (h : L.pending = front ++ .drawn s n :: back) :
      Step limit L
        { L with
          account := Function.update L.account s (L.account s - n)
          pending := front ++ .returning n :: back }
  /-- Nothing was drawn, so nothing is deducted. -/
  | forget {L : Ledger σ} {front back : List (Pending σ)} {s : σ}
      (h : L.pending = front ++ .drawn s 0 :: back) :
      Step limit L { L with pending := front ++ back }
  | giveBack {L : Ledger σ} {front back : List (Pending σ)} {n : Nat}
      (h : L.pending = front ++ .returning n :: back) :
      Step limit L { L with reserved := L.reserved - n, pending := front ++ back }
  | close {L : Ledger σ} {s : σ} (h : total (Pending.drawnOn s) L.pending = 0) :
      Step limit L
        { L with
          reserved := L.reserved - L.account s
          account := Function.update L.account s 0 }

theorem Step.capacity_eq {L L' : Ledger σ} (h : Step limit L L') : L'.capacity = L.capacity := by
  cases h <;> rfl

/-- The reserved amount is accounted for, the capacity is exceeded by no more than what will
    be given back, and every account covers what was drawn on it, below the limit. -/
structure Balanced [Fintype σ] (limit : Nat) (L : Ledger σ) : Prop where
  reserved_eq : L.reserved = ∑ s, L.account s + total Pending.held L.pending
  budget : L.used + L.reserved ≤ L.capacity + total Pending.owed L.pending
  covered : ∀ s, total (Pending.drawnOn s) L.pending ≤ L.account s
  limited : ∀ s, 0 < total (Pending.drawnOn s) L.pending → L.account s < limit

section

variable [Fintype σ]

theorem Balanced.of_quiet {L : Ledger σ} (h : Balanced limit L) (hquiet : L.pending = []) :
    L.used + L.reserved ≤ L.capacity ∧ L.reserved = ∑ s, L.account s := by
  have hreserved := h.reserved_eq
  have hbudget := h.budget
  rw [hquiet] at hreserved hbudget
  exact ⟨hbudget, hreserved⟩

theorem sum_update (f : σ → Nat) (s : σ) (n : Nat) :
    ∑ t, Function.update f s n t + f s = ∑ t, f t + n := by
  rw [Finset.sum_update_of_mem (Finset.mem_univ s),
    Finset.sum_eq_add_sum_sdiff_singleton_of_mem (Finset.mem_univ s) f]
  omega

theorem Balanced.of_accounts {L : Ledger σ}
    (hreserved : L.reserved = ∑ s, L.account s + total Pending.held L.pending)
    (hbudget : L.used + L.reserved ≤ L.capacity + total Pending.owed L.pending)
    (hok : ∀ s, total (Pending.drawnOn s) L.pending ≤ L.account s ∧
      (0 < total (Pending.drawnOn s) L.pending → L.account s < limit)) : Balanced limit L :=
  ⟨hreserved, hbudget, fun s => (hok s).1, fun s => (hok s).2⟩

attribute [local simp] Pending.held Pending.owed Pending.drawnOn

/-- **Every step keeps the balance.** -/
theorem Step.balanced {L L' : Ledger σ} (h : Step limit L L') (hL : Balanced limit L) :
    Balanced limit L' := by
  have hreserved := hL.reserved_eq
  have hbudget := hL.budget
  have hok := fun s => And.intro (hL.covered s) (hL.limited s)
  cases h with
  | use huse =>
    refine .of_accounts hreserved ?_ hok
    dsimp only
    omega
  | reserve hfits => exact .of_accounts (by simp; omega) (by simp; omega) (by simpa using hok)
  | @enter front back s n hpending hfree =>
    have hsum := sum_update L.account s n
    simp [hpending] at hreserved hbudget hok
    have hs := hok s
    refine .of_accounts (by simp; omega) (by simp; omega) fun t => ?_
    rcases eq_or_ne t s with rfl | hts
    · simp
      omega
    · simpa [hts] using hok t
  | refuse hpending =>
    simp [hpending] at hreserved hbudget hok
    exact .of_accounts (by simpa using hreserved) (by simp; omega) (by simpa using hok)
  | @draw s n used hused hcover hlimit =>
    refine .of_accounts (by simpa using hreserved) (by simp; omega) fun t => ?_
    have ht := hok t
    rcases eq_or_ne s t with rfl | hts
    · simp
      omega
    · simpa [hts] using ht
  | @deduct front back s n hpending =>
    have hsum := sum_update L.account s (L.account s - n)
    simp [hpending] at hreserved hbudget hok
    have hs := hok s
    rw [if_pos rfl] at hs
    refine .of_accounts (by simp; omega) (by simp; omega) fun t => ?_
    rcases eq_or_ne t s with rfl | hts
    · simp
      omega
    · simpa [hts, hts.symm] using hok t
  | forget hpending =>
    simp [hpending] at hreserved hbudget hok
    exact .of_accounts (by simpa using hreserved) (by simpa using hbudget) (by simpa using hok)
  | giveBack hpending =>
    simp [hpending] at hreserved hbudget hok
    exact .of_accounts (by simp; omega) (by simp; omega) (by simpa using hok)
  | @close s hnone =>
    have hsum := sum_update L.account s 0
    refine .of_accounts (by dsimp only; omega) (by dsimp only; omega) fun t => ?_
    rcases eq_or_ne t s with rfl | hts
    · simp [hnone]
    · simpa [hts] using hok t

end

end Reservation

end SemanticsAr
