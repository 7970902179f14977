import Mathlib.Data.List.Induction
import SemanticsAr.Runs

/-!
# Verdicts for launched processes

`service/autoverdict.c`: a thread looks at the processes every quarter of a second and asks for a
verdict on those it did not see the last time, if their image is in its own list of paths.  The
list is kept beside the whitelist of the driver by `sar_control_apply` and begins anew with the
service.
-/

namespace SemanticsAr

open List

def SAR_AV_MAX_PATHS : Nat := 256
def SAR_AV_MAX_PIDS : Nat := 4096

/-- The list of paths, the flag `g_av_rescan`, and the process ids of the last poll. -/
structure AutoVerdict where
  paths : List (List UInt16)
  rescan : Bool
  prev : List UInt32

variable (fold : List UInt16 → List UInt16)

/-- `sar_autoverdict_note`; `fold` takes the case out of a name as `_wcsicmp` does. -/
def sarAutoverdictNote (S : AutoVerdict) (path : List UInt16) (add : Bool) : AutoVerdict :=
  let same := fun p => fold p == fold path
  if path = [] then S
  else if add then
    if S.paths.any same = false ∧ S.paths.length < SAR_AV_MAX_PATHS then
      { S with paths := S.paths ++ [path], rescan := true }
    else S
  else { S with paths := S.paths.eraseP same }

/-- `sar_av_path_is_candidate` of the image of a process, if it has a name. -/
def isCandidate (S : AutoVerdict) : Option (List UInt16) → Bool
  | none | some [] => false
  | some image => S.paths.any (fold · == fold image)

/-- A turn of `sar_av_thread`, with the processes of the snapshot, if there is one: the verdicts
    that it asks for. -/
def sarAvPoll (S : AutoVerdict) (snapshot : Option (List (UInt32 × Option (List UInt16)))) :
    AutoVerdict × List (UInt32 × Option (List UInt16)) :=
  let prev := if S.rescan then [] else S.prev
  match snapshot with
  | none => ({ S with rescan := false, prev := prev }, [])
  | some all =>
    let listed := all.filter (·.1 != 0)
    ({ S with rescan := false, prev := (listed.map (·.1)).take SAR_AV_MAX_PIDS },
      listed.filter fun p => !prev.contains p.1 && isCandidate fold S p.2)

/-- `whitelist` has the paths for which the driver holds an identity; `requested` are the verdicts
    asked for. -/
structure VerdictWorld where
  service : AutoVerdict
  whitelist : List (List UInt16)
  running : List (UInt32 × Option (List UInt16))
  requested : List (UInt32 × Option (List UInt16))

/-- A command that the identity check and the driver accept or not (a file without a name is not
    accepted), a restart of the service, a process that starts or exits, and a poll with or without
    a snapshot. -/
inductive VerdictAct where
  | command (path : List UInt16) (add accepted : Bool)
  | restart
  | start (pid : UInt32) (image : Option (List UInt16))
  | exit (pid : UInt32)
  | poll (snapshot : Bool)
deriving DecidableEq

def serviceStarted : AutoVerdict := ⟨[], false, []⟩

def VerdictWorld.step (W : VerdictWorld) : VerdictAct → VerdictWorld
  | .command path add accepted =>
    if accepted = true ∧ path ≠ [] then
      { W with
        service := sarAutoverdictNote fold W.service path add
        whitelist := if add then path :: W.whitelist else W.whitelist.filter (fold · != fold path) }
    else W
  | .restart => { W with service := serviceStarted }
  | .start pid image => { W with running := W.running ++ [(pid, image)] }
  | .exit pid => { W with running := W.running.filter (·.1 != pid) }
  | .poll snapshot =>
    let r := sarAvPoll fold W.service (if snapshot then some W.running else none)
    { W with service := r.1, requested := W.requested ++ r.2 }

def verdictRun (acts : List VerdictAct) : VerdictWorld :=
  Runs.run (VerdictWorld.step fold) ⟨serviceStarted, [], [], []⟩ acts

/-- The path is in the list, but for its case. -/
def AutoVerdict.Lists (S : AutoVerdict) (path : List UInt16) : Prop :=
  ∃ p ∈ S.paths, fold p = fold path

/-- The ids that a poll takes over from its snapshot. -/
def polledIds (running : List (UInt32 × Option (List UInt16))) : List UInt32 :=
  ((running.filter (·.1 != 0)).map (·.1)).take SAR_AV_MAX_PIDS

/-- The thread forgets what it saw: the service restarts, a path is new to the list, or the next
    snapshot is taken. -/
def Renews (W : VerdictWorld) : VerdictAct → Prop
  | .poll snapshot => snapshot = true
  | .restart => True
  | .command path add accepted => accepted = true ∧ add = true ∧ path ≠ [] ∧
      ¬ W.service.Lists fold path ∧ W.service.paths.length < SAR_AV_MAX_PATHS
  | _ => False

/-- The process id was running at the last poll, and nothing has made the thread forget it. -/
def Seen (acts : List VerdictAct) (pid : UInt32) : Prop :=
  ∃ before after, acts = before ++ .poll true :: after ∧
    pid ∈ polledIds (verdictRun fold before).running ∧
    Runs.Each (VerdictWorld.step fold) (fun W a => ¬ Renews fold W a)
      (verdictRun fold (before ++ [.poll true])) after

/-- Neither the service restarts nor the path is removed. -/
def LeavesPath (path : List UInt16) (a : VerdictAct) : Prop :=
  a ≠ .restart ∧ ∀ p, fold p = fold path → a ≠ .command p false true

/-- The list has each path once, and only paths of the whitelist. -/
structure ListOk (W : VerdictWorld) : Prop where
  once : W.service.paths.Pairwise fun p q => fold p ≠ fold q
  whitelisted : ∀ p ∈ W.service.paths, p ∈ W.whitelist

variable {fold} {W : VerdictWorld} {paths : List (List UInt16)} {path p : List UInt16}

theorem fold_ne_of_mem_eraseP (hpaths : paths.Pairwise fun p q => fold p ≠ fold q)
    (hp : p ∈ paths.eraseP (fold · == fold path)) : fold p ≠ fold path := by
  induction paths with
  | nil => exact absurd hp not_mem_nil
  | cons q paths ih =>
    obtain ⟨hq, hpaths⟩ := pairwise_cons.mp hpaths
    by_cases hsame : fold q = fold path
    · rw [eraseP_cons_of_pos (by simpa using hsame)] at hp
      exact hsame ▸ (hq p hp).symm
    · rw [eraseP_cons_of_neg (by simpa using hsame)] at hp
      rcases mem_cons.mp hp with rfl | hp
      · exact hsame
      · exact ih hpaths hp

theorem paths_command (hpath : path ≠ []) (add : Bool) :
    (W.step fold (.command path add true)).service.paths =
      if add then
        if W.service.paths.any (fold · == fold path) = false ∧
            W.service.paths.length < SAR_AV_MAX_PATHS then
          W.service.paths ++ [path]
        else W.service.paths
      else W.service.paths.eraseP (fold · == fold path) := by
  have hstep : (W.step fold (.command path add true)).service =
      sarAutoverdictNote fold W.service path add :=
    congrArg VerdictWorld.service (if_pos ⟨rfl, hpath⟩)
  rw [hstep, sarAutoverdictNote, if_neg hpath]
  split
  · split <;> rfl
  · rfl

theorem ListOk.step (W : VerdictWorld) (a : VerdictAct) (h : ListOk fold W) :
    ListOk fold (W.step fold a) := by
  cases a with
  | command path add accepted =>
    by_cases hdone : accepted = true ∧ path ≠ []
    · obtain ⟨rfl, hpath⟩ := hdone
      have hpaths := @paths_command fold W path hpath add
      have hwhitelist : (W.step fold (.command path add true)).whitelist = _ :=
        congrArg VerdictWorld.whitelist (if_pos ⟨rfl, hpath⟩)
      cases add with
      | true =>
        rw [if_pos rfl] at hpaths hwhitelist
        split at hpaths
        next hnew =>
          refine ⟨?_, fun p hp => ?_⟩
          · rw [hpaths]
            exact pairwise_append.mpr
              ⟨h.once, pairwise_singleton _ _, by simpa using hnew.1⟩
          · rw [hwhitelist]
            rcases mem_append.mp (hpaths ▸ hp) with hp | hp
            · exact mem_cons_of_mem _ (h.whitelisted p hp)
            · exact mem_singleton.mp hp ▸ mem_cons_self
        · refine ⟨hpaths ▸ h.once, fun p hp => ?_⟩
          exact hwhitelist ▸ mem_cons_of_mem _ (h.whitelisted p (hpaths ▸ hp))
      | false =>
        rw [if_neg Bool.false_ne_true] at hpaths hwhitelist
        refine ⟨hpaths ▸ h.once.sublist eraseP_sublist, fun p hp => ?_⟩
        rw [hpaths] at hp
        refine hwhitelist ▸ mem_filter.mpr ⟨h.whitelisted p (mem_of_mem_eraseP hp), ?_⟩
        simpa using fold_ne_of_mem_eraseP h.once hp
    · rwa [show W.step fold (.command path add accepted) = W from if_neg hdone]
  | restart => exact ⟨List.Pairwise.nil, fun p hp => absurd hp not_mem_nil⟩
  | poll snapshot => cases snapshot <;> exact ⟨h.once, h.whitelisted⟩
  | _ => exact ⟨h.once, h.whitelisted⟩

theorem lists_command (hpath : path ≠ []) (hroom : W.service.Lists fold path ∨
      W.service.paths.length < SAR_AV_MAX_PATHS) :
    (W.step fold (.command path true true)).service.Lists fold path := by
  unfold AutoVerdict.Lists at hroom ⊢
  rw [paths_command hpath, if_pos rfl]
  split
  · exact ⟨path, by simp, rfl⟩
  next hfull =>
    by_contra hnone
    exact hfull ⟨by simpa using hnone, hroom.resolve_left hnone⟩

theorem lists_step (h : W.service.Lists fold path) {a : VerdictAct} (ha : LeavesPath fold path a) :
    (W.step fold a).service.Lists fold path := by
  cases a with
  | command q add accepted =>
    by_cases hdone : accepted = true ∧ q ≠ []
    · obtain ⟨rfl, hq⟩ := hdone
      obtain ⟨p, hp, hsame⟩ := h
      refine ⟨p, ?_, hsame⟩
      rw [paths_command hq]
      cases add with
      | true =>
        rw [if_pos rfl]
        split
        · exact mem_append_left _ hp
        · exact hp
      | false =>
        refine (mem_eraseP_of_neg ?_).mpr hp
        simpa [hsame] using fun heq : fold path = fold q => ha.2 q heq.symm rfl
    · rwa [show W.step fold (.command q add accepted) = W from if_neg hdone]
  | restart => exact absurd rfl ha.1
  | poll snapshot => cases snapshot <;> exact h
  | _ => exact h

theorem Seen.step {acts : List VerdictAct} {pid : UInt32} (h : Seen fold acts pid) {a : VerdictAct}
    (ha : ¬ Renews fold (verdictRun fold acts) a) : Seen fold (acts ++ [a]) pid := by
  obtain ⟨before, after, rfl, hpid, heach⟩ := h
  refine ⟨before, after ++ [a], by simp, hpid, Runs.each_append.mpr ⟨heach, ?_, trivial⟩⟩
  simpa [verdictRun] using ha

/-- What the thread remembers was running at the last poll. -/
theorem seen_of_prev {acts : List VerdictAct} {pid : UInt32}
    (hprev : pid ∈ (verdictRun fold acts).service.prev)
    (hrescan : (verdictRun fold acts).service.rescan = false) : Seen fold acts pid := by
  induction acts using List.reverseRecOn with
  | nil => exact absurd hprev not_mem_nil
  | append_singleton acts a ih =>
    have hrun : verdictRun fold (acts ++ [a]) = (verdictRun fold acts).step fold a := by
      simp [verdictRun]
    rw [hrun] at hprev hrescan
    cases a with
    | poll snapshot =>
      cases snapshot with
      | true => exact ⟨acts, [], rfl, hprev, trivial⟩
      | false =>
        simp only [VerdictWorld.step, sarAvPoll] at hprev
        cases hold : (verdictRun fold acts).service.rescan with
        | true => simp [hold] at hprev
        | false => exact (ih (by simpa [hold] using hprev) hold).step Bool.false_ne_true
    | restart => exact absurd hprev not_mem_nil
    | start pid image => exact (ih hprev hrescan).step not_false
    | exit pid => exact (ih hprev hrescan).step not_false
    | command path add accepted =>
      simp only [VerdictWorld.step] at hprev hrescan
      split at hprev
      next hdone =>
        rw [if_pos hdone] at hrescan
        simp only [sarAutoverdictNote, if_neg hdone.2] at hprev hrescan
        cases add with
        | false => exact (ih hprev hrescan).step fun h => absurd h.2.1 Bool.false_ne_true
        | true =>
          simp only [if_true] at hprev hrescan
          split at hprev
          next hnew => simp [hnew] at hrescan
          next hold =>
            rw [if_neg hold] at hrescan
            refine (ih hprev hrescan).step fun h => hold ⟨?_, h.2.2.2.2⟩
            simpa [AutoVerdict.Lists] using h.2.2.2.1
      next hnot =>
        rw [if_neg hnot] at hrescan
        exact (ih hprev hrescan).step fun h => hnot ⟨h.1, h.2.2.1⟩

end SemanticsAr
