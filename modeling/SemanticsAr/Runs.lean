import Mathlib.Data.List.Basic
import Mathlib.Order.Basic

/-!
# Runs of a state machine

A machine is a function from a state and an action to the next state.  `run` is the state
behind a list of actions and `Each` says that every action of the list meets a condition in
the state it is made in.  The rules carry an invariant along a run and turn what is known of
one step into what is known of every run.
-/

namespace SemanticsAr.Runs

variable {S A : Type*} (step : S → A → S) {a : A}

def run (s : S) (acts : List A) : S := acts.foldl step s

def Each (p : S → A → Prop) : S → List A → Prop
  | _, [] => True
  | s, a :: acts => p s a ∧ Each p (step s a) acts

@[simp] theorem run_nil (s : S) : run step s [] = s := rfl

@[simp] theorem run_cons (s : S) (acts : List A) :
    run step s (a :: acts) = run step (step s a) acts := rfl

@[simp] theorem run_append (s : S) (front back : List A) :
    run step s (front ++ back) = run step (run step s front) back := List.foldl_append

@[simp] theorem each_nil (p : S → A → Prop) (s : S) : Each step p s [] ↔ True := Iff.rfl

@[simp] theorem each_cons (p : S → A → Prop) (s : S) (acts : List A) :
    Each step p s (a :: acts) ↔ p s a ∧ Each step p (step s a) acts := Iff.rfl

variable {step} {Inv : S → Prop} {p q : S → A → Prop} {s : S} {acts : List A}

/-- **The run rule.**  What holds at first and is kept by every action that meets the
    condition holds behind every run of such actions. -/
theorem run_rule (hstep : ∀ s a, Inv s → p s a → Inv (step s a)) (hinv : Inv s)
    (hacts : Each step p s acts) : Inv (run step s acts) := by
  induction acts generalizing s with
  | nil => exact hinv
  | cons a acts ih => exact ih (hstep s a hinv hacts.1) hacts.2

theorem run_inv_mem (hstep : ∀ s, ∀ a ∈ acts, Inv s → Inv (step s a)) (hinv : Inv s) :
    Inv (run step s acts) := by
  induction acts generalizing s with
  | nil => exact hinv
  | cons a acts ih =>
    exact ih (fun s a ha => hstep s a (List.mem_cons_of_mem _ ha))
      (hstep s a List.mem_cons_self hinv)

theorem run_inv (hstep : ∀ s a, Inv s → Inv (step s a)) (hinv : Inv s) :
    Inv (run step s acts) := run_inv_mem (fun s a _ => hstep s a) hinv

theorem Each.imp_inv (hstep : ∀ s a, Inv s → p s a → Inv (step s a) ∧ q s a) (hinv : Inv s)
    (hacts : Each step p s acts) : Each step q s acts := by
  induction acts generalizing s with
  | nil => trivial
  | cons a acts ih =>
    obtain ⟨hnext, hq⟩ := hstep s a hinv hacts.1
    exact ⟨hq, ih hnext hacts.2⟩

theorem each_congr_inv (hkeep : ∀ s a, Inv s → Inv (step s a))
    (hiff : ∀ s a, Inv s → (p s a ↔ q s a)) (hinv : Inv s) :
    Each step p s acts ↔ Each step q s acts :=
  ⟨Each.imp_inv (fun s a hs hp => ⟨hkeep s a hs, (hiff s a hs).mp hp⟩) hinv,
    Each.imp_inv (fun s a hs hq => ⟨hkeep s a hs, (hiff s a hs).mpr hq⟩) hinv⟩

theorem each_append {front back : List A} :
    Each step p s (front ++ back) ↔ Each step p s front ∧ Each step p (run step s front) back := by
  induction front generalizing s with
  | nil => simp
  | cons a front ih => simp [ih, and_assoc]

section Prefixes

variable {P : S → Prop}

theorem prefixes_iff : (∀ front back, acts = front ++ back → P (run step s front)) ↔
      P s ∧ Each step (fun s a => P (step s a)) s acts := by
  induction acts generalizing s with
  | nil =>
    constructor
    · intro h
      exact ⟨h [] [] rfl, trivial⟩
    · rintro ⟨hs, -⟩ front back h
      rw [(List.append_eq_nil_iff.mp h.symm).1]
      exact hs
  | cons a acts ih =>
    constructor
    · intro h
      have hrest := ih.mp fun front back heq => h (a :: front) back (by rw [heq]; rfl)
      exact ⟨h [] (a :: acts) rfl, hrest.1, hrest.2⟩
    · rintro ⟨hs, hnext, hacts⟩ front back h
      cases front with
      | nil => exact hs
      | cons first front =>
        obtain ⟨rfl, htail⟩ := List.cons_eq_cons.mp h
        exact ih.mpr ⟨hnext, hacts⟩ front back htail

/-- **The prefix rule.**  Where one step keeps `P` exactly under a condition, the points of a
    run all have `P` exactly if every step meets the condition. -/
theorem prefixes_iff_each (hkeep : ∀ s a, Inv s → Inv (step s a))
    (hiff : ∀ s a, Inv s → P s → (P (step s a) ↔ q s a)) (hinv : Inv s) (hs : P s) :
    (∀ front back, acts = front ++ back → P (run step s front)) ↔ Each step q s acts := by
  rw [prefixes_iff, and_iff_right hs]
  constructor
  · refine Each.imp_inv (fun s a (hboth : Inv s ∧ P s) hnext => ?_) ⟨hinv, hs⟩
    exact ⟨⟨hkeep s a hboth.1, hnext⟩, (hiff s a hboth.1 hboth.2).mp hnext⟩
  · refine Each.imp_inv (fun s a (hboth : Inv s ∧ P s) hq => ?_) ⟨hinv, hs⟩
    have hnext := (hiff s a hboth.1 hboth.2).mpr hq
    exact ⟨⟨hkeep s a hboth.1, hnext⟩, hnext⟩

end Prefixes

section Monotone

variable {β : Type*} [Preorder β] {f : S → β}

theorem Each.le_run (hacts : Each step (fun s a => f s ≤ f (step s a)) s acts) :
    f s ≤ f (run step s acts) := by
  induction acts generalizing s with
  | nil => exact le_rfl
  | cons a acts ih => exact le_trans hacts.1 (ih hacts.2)

theorem each_le_iff : Each step (fun s a => f s ≤ f (step s a)) s acts ↔
      ∀ front mid back, acts = front ++ (mid ++ back) →
        f (run step s front) ≤ f (run step s (front ++ mid)) := by
  constructor
  · rintro hacts front mid back rfl
    rw [run_append]
    exact (each_append.mp (each_append.mp hacts).2).1.le_run
  · intro hpoints
    induction acts generalizing s with
    | nil => trivial
    | cons a acts ih =>
      refine ⟨hpoints [] [a] acts rfl, ih fun front mid back h => ?_⟩
      exact hpoints (a :: front) mid back (congrArg (a :: ·) h)

end Monotone

section Outputs

variable {R : Type*}

def outputs (serve : S → A → S × R) : S → List A → List R
  | _, [] => []
  | s, a :: acts => (serve s a).2 :: outputs serve (serve s a).1 acts

/-- **The comparison rule.**  Two machines that go to the same state wherever they answer the
    same give the same answers along a run exactly if they do so at every step. -/
theorem outputs_eq_iff {serve serve' : S → A → S × R}
    (hsame : ∀ s a, (serve s a).2 = (serve' s a).2 → (serve s a).1 = (serve' s a).1) :
    outputs serve s acts = outputs serve' s acts ↔
      Each (fun s a => (serve' s a).1) (fun s a => (serve s a).2 = (serve' s a).2) s acts := by
  induction acts generalizing s with
  | nil => simp [outputs]
  | cons a acts ih =>
    simp only [outputs, List.cons.injEq, each_cons]
    refine and_congr_right fun hanswer => ?_
    rw [hsame s a hanswer]
    exact ih

end Outputs

end SemanticsAr.Runs
