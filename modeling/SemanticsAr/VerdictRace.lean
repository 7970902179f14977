import SemanticsAr.Exemption

/-!
# Verdicts against processes and files that change

`sar_verdict_pid` of `service/autoverdict.c` checks a process in several steps: it opens the
process and reads the path of its image, asks the driver for the start key of the process id,
hashes and verifies the file at the path, and sends the verdict.  Between the steps processes
exit, their ids are given to others, and files are replaced.  A version of a file is a value
of an arbitrary type, of which the service sees a hash and, if the signature is valid, the
signer.
-/

namespace SemanticsAr

open Option

/-- What `sar_identity_evaluate` sees of a version of a file. -/
structure ImageView (F : Type) where
  contentHash : F → Vector UInt8 SEMANTICS_AR_CONTENT_HASH_SIZE
  signer : F → Option (List UInt16)

/-- `sar_identity_evaluate` of the file at a path; `none` for every verdict but
    `SAR_IDENTITY_VERDICT_VERIFIED`. -/
def sarIdentityEvaluate {F : Type} (view : ImageView F) (path : List UInt16) (file : F) :
    Option SarIdentity :=
  (view.signer file).map fun subject =>
    { imagePath := copyWide _ path
      certSubject := copyWide _ subject
      contentHash := view.contentHash file }

/-- A process: its start key, the path of its image and the version it was created from. -/
structure Running (F : Type) where
  startKey : UInt64
  path : List UInt16
  image : F

/-- How far a call of `sar_verdict_pid` has come. -/
inductive VerdictCall (F : Type) where
  | idle
  /-- The process is open. -/
  | opened (processId : UInt64) (process : Running F)
  /-- The path is read and the handle closed. -/
  | named (processId : UInt64) (path : List UInt16)
  /-- The driver has answered with a start key. -/
  | keyed (processId startKey : UInt64) (path : List UInt16)
  /-- The file at the path has been verified. -/
  | evaluated (processId startKey : UInt64) (file : F) (id : SarIdentity)

/-- Files, processes, the driver, and `n` calls of `sar_verdict_pid` on their way.  `used` are the
    start keys given away, `checked` the versions evaluated for the verdicts applied to a process
    since its creation. -/
structure RaceWorld (F : Type) (n : Nat) where
  files : List UInt16 → Option F
  processes : UInt64 → Option (Running F)
  used : List UInt64
  driver : DriverState
  calls : Fin n → VerdictCall F
  checked : UInt64 → List F

inductive RaceEvent (F : Type) (n : Nat) where
  | createProcess (processId startKey : UInt64) (path : List UInt16)
      (name : Option (List UInt16)) (protectedTrusted pool : Bool)
  | exitProcess (processId : UInt64)
  | replaceFile (path : List UInt16) (file : Option F)
  | whitelistAdd (id : SarIdentity) (now : UInt64)
  | whitelistRemove (id : SarIdentity)
  | openProcess (call : Fin n) (processId : UInt64)
  | readPath (call : Fin n) (ok : Bool)
  | queryKey (call : Fin n) (ok : Bool)
  | evaluate (call : Fin n) (ok : Bool)
  | send (call : Fin n) (ok : Bool)

def VerdictCall.holds {F : Type} (processId : UInt64) : VerdictCall F → Bool
  | .opened p _ => p == processId
  | _ => false

namespace RaceWorld

variable {F : Type} {n : Nat} {event : RaceEvent F n} {call : Fin n} {file : F}

def Free (W : RaceWorld F n) (processId startKey : UInt64) : Prop :=
  (W.processes processId).isNone = true ∧ (∀ call, (W.calls call).holds processId = false) ∧
    startKey ∉ W.used

instance (W : RaceWorld F n) (processId startKey : UInt64) :
    Decidable (W.Free processId startKey) := inferInstanceAs (Decidable (_ ∧ _ ∧ _))

def setCall (W : RaceWorld F n) (call : Fin n) (c : VerdictCall F) : RaceWorld F n :=
  { W with calls := Function.update W.calls call c }

def createProcess (W : RaceWorld F n) (processId startKey : UInt64) (path : List UInt16)
    (name : Option (List UInt16)) (protectedTrusted pool : Bool) (image : F) : RaceWorld F n :=
  { W with
    processes := Function.update W.processes processId (some ⟨startKey, path, image⟩)
    used := startKey :: W.used
    driver := W.driver.createProcess processId startKey name protectedTrusted pool
    checked := Function.update W.checked processId [] }

/-- The last step of a call: `SEMANTICS_AR_MSG_IDENTITY_VERDICT`. -/
def sendVerdict (W : RaceWorld F n) (processId startKey : UInt64) (file : F) (id : SarIdentity) :
    RaceWorld F n :=
  { W with
    driver := W.driver.applyVerdict processId startKey id
    checked :=
      if W.driver.verdictApplied processId startKey id then
        Function.update W.checked processId (file :: W.checked processId)
      else W.checked }

def step (view : ImageView F) (W : RaceWorld F n) : RaceEvent F n → RaceWorld F n
  | .createProcess processId startKey path name protectedTrusted pool =>
    match W.files path with
    | none => W
    | some image =>
      if W.Free processId startKey then
        W.createProcess processId startKey path name protectedTrusted pool image
      else W
  | .exitProcess processId =>
    { W with
      processes := Function.update W.processes processId none
      driver.table := sarStateIdentityRemove W.driver.table processId }
  | .replaceFile path file => { W with files := Function.update W.files path file }
  | .whitelistAdd id now =>
    { W with driver.whitelist := (sarWhitelistAdd W.driver.whitelist id now).2 }
  | .whitelistRemove id =>
    { W with driver.whitelist := (sarWhitelistRemove W.driver.whitelist id).2 }
  | .openProcess call processId =>
    match W.processes processId with
    | none => W.setCall call .idle
    | some process => W.setCall call (.opened processId process)
  | .readPath call ok =>
    match W.calls call with
    | .opened processId process =>
      if ok then W.setCall call (.named processId process.path) else W.setCall call .idle
    | _ => W
  | .queryKey call ok =>
    match W.calls call with
    | .named processId path =>
      match sarIdentityFindLocked W.driver.table processId with
      | some e =>
        if ok = true ∧ e.startKey ≠ 0 then W.setCall call (.keyed processId e.startKey path)
        else W.setCall call .idle
      | none => W.setCall call .idle
    | _ => W
  | .evaluate call ok =>
    match W.calls call with
    | .keyed processId startKey path =>
      match W.files path with
      | some file =>
        match sarIdentityEvaluate view path file with
        | some id =>
          if ok then W.setCall call (.evaluated processId startKey file id)
          else W.setCall call .idle
        | none => W.setCall call .idle
      | none => W.setCall call .idle
    | _ => W
  | .send call ok =>
    match W.calls call with
    | .evaluated processId startKey file id =>
      if ok then (W.sendVerdict processId startKey file id).setCall call .idle
      else W.setCall call .idle
    | _ => W

def start (files : List UInt16 → Option F) (whitelist : Whitelist) : RaceWorld F n where
  files := files
  processes := fun _ => none
  used := []
  driver := ⟨whitelist, sarStateCreate⟩
  calls := fun _ => .idle
  checked := fun _ => []

/-- **Every exempt process was created from a file that was evaluated for it**, but for those
    that the system protects. -/
def AllBound (W : RaceWorld F n) : Prop :=
  ∀ processId e process, sarIdentityFindLocked W.driver.table processId = some e →
    W.processes processId = some process → e.idState = .exempt →
    e.protectedTrusted = true ∨ process.image ∈ W.checked processId

/-- A verdict that is applied fits the image of the process, and no process is exempt from
    its creation on through an entry without hash and signer. -/
def Fits (W : RaceWorld F n) : RaceEvent F n → Prop
  | .createProcess processId startKey path name protectedTrusted pool =>
    (W.files path).isSome = true → W.Free processId startKey → pool = true →
      protectedTrusted = false →
      ∀ m, name = some m → W.driver.whitelist.lists (canonicalIdentity m) = false
  | .send call ok =>
    ok = true → ∀ processId startKey file id, W.calls call = .evaluated processId startKey file id →
      W.driver.verdictApplied processId startKey id = true →
      ∀ e process, sarIdentityFindLocked W.driver.table processId = some e →
        W.processes processId = some process →
        e.protectedTrusted = true ∨ process.image = file ∨ process.image ∈ W.checked processId
  | _ => True

/-- A process id is not given away again between the reading of a path and the query for the
    start key, and the file of a running process is not replaced. -/
def Undisturbed (W : RaceWorld F n) : RaceEvent F n → Prop
  | .createProcess processId startKey path name protectedTrusted pool =>
    Fits W (.createProcess processId startKey path name protectedTrusted pool) ∧
      ∀ call path, W.calls call ≠ .named processId path
  | .replaceFile path _ =>
    ∀ processId process, W.processes processId = some process → process.path ≠ path
  | _ => True

variable {view : ImageView F} {W : RaceWorld F n} {processId : UInt64}

/-! ### One event -/

structure Synced (W : RaceWorld F n) : Prop where
  oneEntry : OneEntry W.driver.table
  running : ∀ processId e, sarIdentityFindLocked W.driver.table processId = some e →
    ∃ process, W.processes processId = some process ∧ process.startKey = e.startKey

theorem AllBound.congr (W' : RaceWorld F n) (htable : W'.driver.table = W.driver.table)
    (hprocesses : W'.processes = W.processes) (hchecked : W'.checked = W.checked) :
    AllBound W' ↔ AllBound W := by
  simp only [AllBound, htable, hprocesses, hchecked]

theorem Synced.congr {W' : RaceWorld F n} (h : Synced W)
    (htable : W'.driver.table = W.driver.table) (hprocesses : W'.processes = W.processes) :
    Synced W' := by
  refine ⟨?_, ?_⟩
  · rw [htable]
    exact h.oneEntry
  · rw [htable, hprocesses]
    exact h.running

theorem allBound_iff_at (h : AllBound W) (W' : RaceWorld F n) (processId : UInt64)
    (htable : ∀ other, other ≠ processId →
      sarIdentityFindLocked W'.driver.table other = sarIdentityFindLocked W.driver.table other)
    (hprocesses : ∀ other, other ≠ processId → W'.processes other = W.processes other)
    (hchecked : ∀ other, other ≠ processId → W'.checked other = W.checked other) :
    AllBound W' ↔ ∀ e process, sarIdentityFindLocked W'.driver.table processId = some e →
      W'.processes processId = some process → e.idState = .exempt →
      e.protectedTrusted = true ∨ process.image ∈ W'.checked processId := by
  constructor
  · intro hall e process
    exact hall processId e process
  · intro hself other e process he hprocess hexempt
    by_cases ho : other = processId
    · subst ho
      exact hself e process he hprocess hexempt
    · rw [htable other ho] at he
      rw [hprocesses other ho] at hprocess
      rw [hchecked other ho]
      exact h other e process he hprocess hexempt

theorem Synced.find_none (h : Synced W) (hnone : W.processes processId = none) :
    sarIdentityFindLocked W.driver.table processId = none := by
  cases hfind : sarIdentityFindLocked W.driver.table processId with
  | none => rfl
  | some e =>
    obtain ⟨process, hprocess, -⟩ := h.running processId e hfind
    cases hnone.symm.trans hprocess

theorem allBound_createProcess (hsync : Synced W) (h : AllBound W)
    (hnone : W.processes processId = none) (startKey : UInt64) (path : List UInt16)
    (name : Option (List UInt16)) (protectedTrusted pool : Bool) (image : F) :
    AllBound (W.createProcess processId startKey path name protectedTrusted pool image) ↔
      (pool = true → protectedTrusted = false →
        ∀ m, name = some m → W.driver.whitelist.lists (canonicalIdentity m) = false) := by
  have hfind := hsync.find_none hnone
  rw [allBound_iff_at h _ processId (fun other ho => find_insert_other ho)
    (fun other ho => by simp [createProcess, ho])
    (fun other ho => by simp [createProcess, ho])]
  cases pool with
  | false =>
    refine iff_of_true ?_ (fun h => by cases h)
    intro e process he
    have htable : (W.driver.createProcess processId startKey name protectedTrusted
        false).table = W.driver.table := rfl
    cases hfind.symm.trans (htable ▸ he)
  | true =>
    have hself := find_insert_self hfind startKey name.isSome
      (name.any fun m => W.driver.whitelist.lists (canonicalIdentity m)) protectedTrusted
    rw [eq_self, true_implies, ← ExemptionLog.deserved_fresh_iff startKey]
    simp only [createProcess, DriverState.createProcess, hself, Function.update_self,
      Option.some.injEq, List.not_mem_nil, or_false]
    constructor
    · intro hexempt
      refine ⟨fun hyes => Or.inl (hexempt _ _ rfl rfl hyes), fun hprotected => ?_,
        fun h => by cases h⟩
      have hflag : protectedTrusted = true := hprotected
      simp [freshEntry, hflag]
    · rintro hdeserved e process rfl - hexempt
      exact (hdeserved.earned hexempt).resolve_right (fun h => by cases h)

theorem allBound_sendVerdict (h : AllBound W) (startKey : UInt64) (id : SarIdentity) :
    AllBound (W.sendVerdict processId startKey file id) ↔
      (W.driver.verdictApplied processId startKey id = true →
        ∀ e process, sarIdentityFindLocked W.driver.table processId = some e →
          W.processes processId = some process →
          e.protectedTrusted = true ∨ process.image = file ∨
            process.image ∈ W.checked processId) := by
  cases happlied : W.driver.verdictApplied processId startKey id with
  | false =>
    refine iff_of_true ?_ nofun
    refine (AllBound.congr (W := W) (W.sendVerdict processId startKey file id) ?_ rfl ?_).mpr h
    · exact applyVerdict_refused happlied
    · simp [sendVerdict, happlied]
  | true =>
    have hkeeps : KeepsId fun e => { e with idState := .exempt } := fun _ => rfl
    have htable : (W.sendVerdict processId startKey file id).driver.table =
        updateProcess W.driver.table processId fun e => { e with idState := .exempt } :=
      applyVerdict_table happlied
    have hchecked : (W.sendVerdict processId startKey file id).checked =
        Function.update W.checked processId (file :: W.checked processId) := by
      simp [sendVerdict, happlied]
    rw [allBound_iff_at h (W.sendVerdict processId startKey file id) processId
      (fun other ho => by rw [htable, find_updateProcess_other hkeeps ho])
      (fun _ _ => rfl)
      (fun other ho => by rw [hchecked, Function.update_of_ne ho])]
    simp only [htable, hchecked, find_updateProcess_self hkeeps, Function.update_self,
      List.mem_cons]
    constructor
    · intro hall _ e process he hprocess
      exact hall { e with idState := .exempt } process (by rw [he]; rfl) hprocess rfl
    · intro hfits e' process he' hprocess _
      obtain ⟨e, he, rfl⟩ := map_eq_some_iff.mp he'
      exact hfits trivial e process he hprocess

inductive Inquiry : RaceEvent F n → Prop
  | openProcess (call : Fin n) (processId : UInt64) : Inquiry (.openProcess call processId)
  | readPath (call : Fin n) (ok : Bool) : Inquiry (.readPath call ok)
  | queryKey (call : Fin n) (ok : Bool) : Inquiry (.queryKey call ok)
  | evaluate (call : Fin n) (ok : Bool) : Inquiry (.evaluate call ok)

theorem Inquiry.step {event : RaceEvent F n} (h : Inquiry event) :
    ∃ calls, W.step view event = { W with calls := calls } := by
  cases h <;> simp only [RaceWorld.step] <;> repeat' split
  all_goals exact ⟨_, rfl⟩

theorem AllBound.inquiry (h : AllBound W) {event : RaceEvent F n} (hevent : Inquiry event) :
    AllBound (W.step view event) := by
  obtain ⟨calls, hstep⟩ := hevent.step
  rw [hstep]
  exact h

theorem AllBound.exitProcess (hsync : Synced W) (h : AllBound W) :
    AllBound (W.step view (.exitProcess processId)) := by
  refine (allBound_iff_at h (W.step view (.exitProcess processId)) processId ?_ ?_ ?_).mpr ?_
  · intro other ho
    exact find_remove_other ho
  · intro other ho
    simp [step, ho]
  · intro other _
    rfl
  · intro e process he
    cases (find_remove_self hsync.oneEntry).symm.trans he

/-- **One event.** -/
theorem allBound_step_iff (hsync : Synced W) (h : AllBound W) :
    AllBound (W.step view event) ↔ Fits W event := by
  cases event with
  | createProcess processId startKey path name protectedTrusted pool =>
    simp only [step, Fits]
    cases hfile : W.files path with
    | none => exact iff_of_true h nofun
    | some image =>
      by_cases hfree : W.Free processId startKey
      · simp only [isSome_some, hfree, true_implies]
        exact allBound_createProcess hsync h (isNone_iff_eq_none.mp hfree.1) startKey
          path name protectedTrusted pool image
      · simp only [if_neg hfree]
        exact iff_of_true h fun _ hyes => absurd hyes hfree
  | exitProcess processId => exact iff_of_true (h.exitProcess hsync) trivial
  | replaceFile path file => exact iff_of_true h trivial
  | whitelistAdd id now => exact iff_of_true h trivial
  | whitelistRemove id => exact iff_of_true h trivial
  | send call ok =>
    simp only [step, Fits]
    cases hcall : W.calls call with
    | evaluated processId startKey file id =>
      cases ok with
      | false => exact iff_of_true h nofun
      | true =>
        have hsent : AllBound (W.sendVerdict processId startKey file id) ↔ _ :=
          allBound_sendVerdict h startKey id
        simp only [if_true, true_implies, VerdictCall.evaluated.injEq, and_imp]
        constructor
        · rintro hall _ _ _ _ rfl rfl rfl rfl
          exact hsent.mp hall
        · intro hfits
          exact hsent.mpr (hfits _ _ _ _ rfl rfl rfl rfl)
    | _ => exact iff_of_true h nofun
  | _ => exact iff_of_true (h.inquiry (by constructor)) trivial

theorem Synced.step (h : Synced W) : Synced (W.step view event) := by
  have hinquiry : ∀ {event : RaceEvent F n}, Inquiry event → Synced (W.step view event) := by
    intro event hevent
    obtain ⟨calls, hstep⟩ := hevent.step
    rw [hstep]
    exact h.congr rfl rfl
  cases event with
  | createProcess processId startKey path name protectedTrusted pool =>
    simp only [RaceWorld.step]
    split
    · exact h
    rename_i image _
    split
    next hfree =>
      refine ⟨h.oneEntry.insert, fun other e he => ?_⟩
      by_cases ho : other = processId
      · subst ho
        refine ⟨⟨startKey, path, image⟩, Function.update_self .., ?_⟩
        have hfind := h.find_none (isNone_iff_eq_none.mp hfree.1)
        cases pool with
        | false => cases hfind.symm.trans he
        | true =>
          cases (find_insert_self hfind _ _ _ _).symm.trans he
          rfl
      · obtain ⟨process, hprocess, hkey⟩ :=
          h.running other e ((find_insert_other ho).symm.trans he)
        exact ⟨process, by simpa [createProcess, ho] using hprocess, hkey⟩
    · exact h
  | exitProcess processId =>
    refine ⟨h.oneEntry.remove, fun other e he => ?_⟩
    by_cases ho : other = processId
    · subst ho
      cases (find_remove_self h.oneEntry).symm.trans he
    · obtain ⟨process, hprocess, hkey⟩ :=
        h.running other e ((find_remove_other ho).symm.trans he)
      exact ⟨process, by simpa [RaceWorld.step, ho] using hprocess, hkey⟩
  | replaceFile path file => exact h.congr rfl rfl
  | whitelistAdd id now => exact h.congr rfl rfl
  | whitelistRemove id => exact h.congr rfl rfl
  | send call ok =>
    simp only [RaceWorld.step]
    split
    next processId startKey file id _ =>
      split
      · cases happlied : W.driver.verdictApplied processId startKey id with
        | false => exact h.congr (applyVerdict_refused happlied) rfl
        | true =>
          have hkeeps : KeepsId fun e => { e with idState := .exempt } := fun _ => rfl
          have htable := applyVerdict_table happlied
          refine ⟨?_, fun other e he => ?_⟩
          · simp only [setCall, sendVerdict, htable]
            exact h.oneEntry.updateProcess hkeeps
          · simp only [setCall, sendVerdict, htable] at he
            by_cases ho : other = processId
            · subst ho
              rw [find_updateProcess_self hkeeps, map_eq_some_iff] at he
              obtain ⟨e', he', rfl⟩ := he
              exact h.running other e' he'
            · rw [find_updateProcess_other hkeeps ho] at he
              exact h.running other e he
      · exact h.congr rfl rfl
    · exact h
  | _ => exact hinquiry (by constructor)

/-! ### Undisturbed schedules -/

def CallRight (W : RaceWorld F n) : VerdictCall F → Prop
  | .idle => True
  | .opened processId opened => ∀ process, W.processes processId = some process → process = opened
  | .named processId path =>
    ∀ process, W.processes processId = some process → process.path = path
  | .keyed processId startKey path =>
    startKey ∈ W.used ∧ ∀ process, W.processes processId = some process →
      process.startKey = startKey → process.path = path
  | .evaluated processId startKey file _ =>
    startKey ∈ W.used ∧ ∀ process, W.processes processId = some process →
      process.startKey = startKey → process.image = file

/-- The invariant of undisturbed schedules: running processes have their files at their
    paths, and the calls know what is right. -/
structure Tracks (W : RaceWorld F n) : Prop where
  synced : Synced W
  files : ∀ processId process, W.processes processId = some process →
    W.files process.path = some process.image
  used : ∀ processId process, W.processes processId = some process → process.startKey ∈ W.used
  calls : ∀ call, CallRight W (W.calls call)

theorem CallRight.mono {W' : RaceWorld F n} {c : VerdictCall F} (h : CallRight W c)
    (hprocesses : ∀ processId process, W'.processes processId = some process →
      W.processes processId = some process)
    (hused : ∀ startKey ∈ W.used, startKey ∈ W'.used) : CallRight W' c := by
  cases c with
  | idle => trivial
  | opened processId opened => exact fun process hp => h process (hprocesses _ _ hp)
  | named processId path => exact fun process hp => h process (hprocesses _ _ hp)
  | keyed processId startKey path =>
    exact ⟨hused _ h.1, fun process hp => h.2 process (hprocesses _ _ hp)⟩
  | evaluated processId startKey file id =>
    exact ⟨hused _ h.1, fun process hp => h.2 process (hprocesses _ _ hp)⟩

theorem CallRight.congr {W' : RaceWorld F n} {c : VerdictCall F} (h : CallRight W c)
    (hprocesses : W'.processes = W.processes) (hused : W'.used = W.used) : CallRight W' c :=
  h.mono (fun _ _ hp => hprocesses ▸ hp) fun _ hk => hused ▸ hk

theorem Tracks.setCall (h : Tracks W) {c : VerdictCall F} (hc : CallRight W c) :
    Tracks (W.setCall call c) where
  synced := h.synced.congr rfl rfl
  files := h.files
  used := h.used
  calls other := by
    by_cases ho : other = call
    · subst ho
      have hset : (W.setCall other c).calls other = c := Function.update_self ..
      rw [hset]
      exact hc.congr rfl rfl
    · have hother : (W.setCall call c).calls other = W.calls other := Function.update_of_ne ho ..
      rw [hother]
      exact (h.calls other).congr rfl rfl

section

variable {startKey : UInt64} {path : List UInt16} {name : Option (List UInt16)}
  {protectedTrusted pool : Bool} {image : F}

theorem processes_createProcess {other : UInt64} {process : Running F}
    (hp : (W.createProcess processId startKey path name protectedTrusted pool image).processes
      other = some process) :
    (other = processId ∧ process = ⟨startKey, path, image⟩) ∨
      (other ≠ processId ∧ W.processes other = some process) := by
  by_cases ho : other = processId
  · subst ho
    simp only [RaceWorld.createProcess, Function.update_self, Option.some.injEq] at hp
    exact .inl ⟨rfl, hp.symm⟩
  · exact .inr ⟨ho, by simpa [RaceWorld.createProcess, ho] using hp⟩

/-- A creation with a start key never given away, for an id that no call has just read the
    path of, leaves what the calls know right. -/
theorem CallRight.createProcess {c : VerdictCall F} (h : CallRight W c)
    (hfresh : startKey ∉ W.used) (hheld : c.holds processId = false)
    (hnamed : ∀ path, c ≠ .named processId path) :
    CallRight (W.createProcess processId startKey path name protectedTrusted pool image) c := by
  have hknown {other otherKey : UInt64} {process : Running F} (hused : otherKey ∈ W.used)
      (hp : (W.createProcess processId startKey path name protectedTrusted pool image).processes
        other = some process) (hkey : process.startKey = otherKey) :
      W.processes other = some process := by
    rcases processes_createProcess hp with ⟨-, rfl⟩ | ⟨-, hold⟩
    · subst hkey
      exact absurd hused hfresh
    · exact hold
  cases c with
  | idle => trivial
  | opened other opened =>
    have hother : other ≠ processId := by simpa [VerdictCall.holds] using hheld
    exact fun process hp => h process ((processes_createProcess hp).resolve_left (hother ·.1)).2
  | named other otherPath =>
    have hother : other ≠ processId := by
      rintro rfl
      exact hnamed otherPath rfl
    exact fun process hp => h process ((processes_createProcess hp).resolve_left (hother ·.1)).2
  | keyed other otherKey otherPath =>
    exact ⟨List.mem_cons_of_mem _ h.1, fun process hp hkey => h.2 process (hknown h.1 hp hkey) hkey⟩
  | evaluated other otherKey file id =>
    exact ⟨List.mem_cons_of_mem _ h.1, fun process hp hkey => h.2 process (hknown h.1 hp hkey) hkey⟩

theorem Tracks.createProcess (h : Tracks W)
    (hsynced : Synced (W.createProcess processId startKey path name protectedTrusted pool image))
    (hfile : W.files path = some image) (hfree : W.Free processId startKey)
    (hnamed : ∀ call path, W.calls call ≠ .named processId path) :
    Tracks (W.createProcess processId startKey path name protectedTrusted pool image) := by
  refine ⟨hsynced, fun other process hp => ?_, fun other process hp => ?_, fun call => ?_⟩
  · rcases processes_createProcess hp with ⟨-, rfl⟩ | ⟨-, hold⟩
    · exact hfile
    · exact h.files other process hold
  · rcases processes_createProcess hp with ⟨-, rfl⟩ | ⟨-, hold⟩
    · exact List.mem_cons_self
    · exact List.mem_cons_of_mem _ (h.used other process hold)
  · exact (h.calls call).createProcess hfree.2.2 (hfree.2.1 call) (hnamed call)

end

theorem Tracks.inquiry (h : Tracks W) {event : RaceEvent F n} (hevent : Inquiry event) :
    Tracks (W.step view event) := by
  cases hevent with
  | openProcess call processId =>
    simp only [RaceWorld.step]
    split
    · exact h.setCall trivial
    next process hprocess =>
      refine h.setCall fun other hother => ?_
      cases hprocess.symm.trans hother
      rfl
  | readPath call ok =>
    simp only [RaceWorld.step]
    have hcall := h.calls call
    split
    next processId process hc =>
      rw [hc] at hcall
      split
      · refine h.setCall fun other hother => ?_
        rw [hcall other hother]
      · exact h.setCall trivial
    · exact h
  | queryKey call ok =>
    simp only [RaceWorld.step]
    have hcall := h.calls call
    split
    next processId path hc =>
      rw [hc] at hcall
      split
      next e he =>
        split
        · obtain ⟨process, hprocess, hkey⟩ := h.synced.running processId e he
          refine h.setCall ⟨?_, fun other hother _ => hcall other hother⟩
          rw [← hkey]
          exact h.used processId process hprocess
        · exact h.setCall trivial
      · exact h.setCall trivial
    · exact h
  | evaluate call ok =>
    simp only [RaceWorld.step]
    have hcall := h.calls call
    split
    next processId startKey path hc =>
      rw [hc] at hcall
      split
      next file hfile =>
        split
        · split
          · refine h.setCall ⟨hcall.1, fun process hprocess hkey => ?_⟩
            -- the file at the path is still the one that the process was created from
            have hown := h.files processId process hprocess
            rw [hcall.2 process hprocess hkey, hfile] at hown
            exact (Option.some.inj hown).symm
          · exact h.setCall trivial
        · exact h.setCall trivial
      · exact h.setCall trivial
    · exact h

theorem Tracks.step (h : Tracks W) {event : RaceEvent F n} (hevent : Undisturbed W event) :
    Tracks (W.step view event) := by
  have hsynced : Synced (W.step view event) := h.synced.step
  cases event with
  | createProcess processId startKey path name protectedTrusted pool =>
    simp only [RaceWorld.step] at hsynced ⊢
    cases hfile : W.files path with
    | none => exact h
    | some image =>
      simp only [hfile] at hsynced ⊢
      by_cases hfree : W.Free processId startKey
      · rw [if_pos hfree] at hsynced ⊢
        exact h.createProcess hsynced hfile hfree hevent.2
      · rw [if_neg hfree]
        exact h
  | exitProcess processId =>
    have hfewer : ∀ other process, (W.step view (.exitProcess processId)).processes other =
        some process → W.processes other = some process := by
      intro other process hp
      by_cases ho : other = processId
      · subst ho
        simp [RaceWorld.step] at hp
      · simpa [RaceWorld.step, ho] using hp
    exact ⟨hsynced, fun other process hp => h.files other process (hfewer _ _ hp),
      fun other process hp => h.used other process (hfewer _ _ hp),
      fun call => (h.calls call).mono hfewer fun _ hk => hk⟩
  | replaceFile path file =>
    refine ⟨hsynced, fun other process hp => ?_, h.used, fun call => (h.calls call).congr rfl rfl⟩
    have hne := hevent other process hp
    simpa [RaceWorld.step, hne] using h.files other process hp
  | whitelistAdd id now =>
    exact ⟨hsynced, h.files, h.used, fun call => (h.calls call).congr rfl rfl⟩
  | whitelistRemove id =>
    exact ⟨hsynced, h.files, h.used, fun call => (h.calls call).congr rfl rfl⟩
  | send call ok =>
    simp only [RaceWorld.step] at hsynced ⊢
    split at hsynced
    · split at hsynced
      next processId startKey file id _ hok =>
        rw [if_pos hok]
        have hsent : Tracks (W.sendVerdict processId startKey file id) :=
          ⟨hsynced.congr rfl rfl, h.files, h.used, fun other => (h.calls other).congr rfl rfl⟩
        exact hsent.setCall trivial
      next hok =>
        rw [if_neg hok]
        exact h.setCall trivial
    · exact h
  | _ => exact h.inquiry (by constructor)

theorem Tracks.fits (h : Tracks W) {event : RaceEvent F n} (hevent : Undisturbed W event) :
    Fits W event := by
  cases event with
  | createProcess processId startKey path name protectedTrusted pool => exact hevent.1
  | send call ok =>
    intro _ processId startKey file id hcall happlied e process he hprocess
    have hright := h.calls call
    rw [hcall] at hright
    obtain ⟨e', he', hkey⟩ := (any_eq_true _ _).mp (Bool.and_eq_true_iff.mp happlied).2
    cases he.symm.trans he'
    obtain ⟨running, hrunning, hsame⟩ := h.synced.running processId e he
    cases hprocess.symm.trans hrunning
    exact .inr (.inl (hright.2 process hprocess (hsame.trans (beq_iff_eq.mp hkey))))
  | _ => trivial

theorem tracks_start (files : List UInt16 → Option F) (whitelist : Whitelist) :
    Tracks (start files whitelist : RaceWorld F n) where
  synced := by
    refine ⟨oneEntry_sarStateCreate, fun processId e he => ?_⟩
    simp [start, sarStateCreate, sarIdentityFindLocked, IdentityTable.bucket] at he
  files := nofun
  used := nofun
  calls _ := trivial

/-- **When verdicts bind.**  Every exempt process that the system does not protect was created from
    a file evaluated for it, exactly if every verdict applied fits the image of its process and no
    creation meets an entry without hash and signer.  So it is along every run in which no id is
    given away between the reading of a path and the query for the start key and no file of a
    running process is replaced. -/
theorem verdict_binding_iff (view : ImageView F) (files : List UInt16 → Option F)
    (whitelist : Whitelist) (events : List (RaceEvent F n)) :
    ((∀ front back, events = front ++ back →
        AllBound (Runs.run (step view) (start files whitelist) front)) ↔
      Runs.Each (step view) Fits (start files whitelist) events) ∧
    (Runs.Each (step view) Undisturbed (start files whitelist) events →
      Runs.Each (step view) Fits (start files whitelist) events) := by
  have hstart := tracks_start (n := n) files whitelist
  constructor
  · refine Runs.prefixes_iff_each (fun W event (hsync : Synced W) => hsync.step)
      (fun W event hsync h => allBound_step_iff hsync h) hstart.synced ?_
    intro processId e process _ hprocess
    cases hprocess
  · exact Runs.Each.imp_inv
      (fun W event (h : Tracks W) hevent => ⟨h.step hevent, h.fits hevent⟩) hstart

/-! ### The two races -/

/-- Two versions of files; only `true` is signed. -/
def twoImages : ImageView Bool where
  contentHash file := Vector.replicate _ (if file then 1 else 2)
  signer file := if file then some [83] else none

def twoFiles : List UInt16 → Option Bool := fun path => some (path == [97])

def signedIdentity : SarIdentity where
  imagePath := copyWide _ [97]
  certSubject := copyWide _ [83]
  contentHash := Vector.replicate _ 1

/-- The call of `sar_verdict_pid` behind the reading of the path. -/
def restOfCall : List (RaceEvent Bool 1) := [.queryKey 0 true, .evaluate 0 true, .send 0 true]

/-- The process exits after its path is read and its id goes to a process of another image; or the
    image of a process is replaced by a signed one before the evaluation. -/
theorem verdict_for_another_image :
    ¬ AllBound (Runs.run (step twoImages) (start twoFiles sarWhitelistInit)
        (.whitelistAdd signedIdentity 1 :: .createProcess 8 1 [97] none false true ::
          .openProcess 0 8 :: .readPath 0 true :: .exitProcess 8 ::
          .createProcess 8 2 [98] none false true :: restOfCall)) ∧
      ¬ AllBound (Runs.run (step twoImages) (start twoFiles sarWhitelistInit)
        (.whitelistAdd signedIdentity 1 :: .createProcess 8 1 [98] none false true ::
          .replaceFile [98] (some true) :: .openProcess 0 8 :: .readPath 0 true ::
          restOfCall)) := by
  have hbad : ∀ W : RaceWorld Bool 1,
      ((sarIdentityFindLocked W.driver.table 8).any fun e =>
        decide (e.idState = .exempt) && !e.protectedTrusted &&
          (W.processes 8).any fun process => !(W.checked 8).contains process.image) = true →
      ¬ AllBound W := by
    intro W hentry hall
    obtain ⟨e, he, hboth⟩ := (any_eq_true _ _).mp hentry
    obtain ⟨hexempt, hprocess⟩ := Bool.and_eq_true_iff.mp hboth
    obtain ⟨process, hp, hother⟩ := (any_eq_true _ _).mp hprocess
    simp only [Bool.and_eq_true, decide_eq_true_eq, Bool.not_eq_eq_eq_not, Bool.not_true]
      at hexempt
    rcases hall 8 e process he hp hexempt.1 with hprotected | hmem
    · cases hexempt.2.symm.trans hprotected
    · simp [hmem] at hother
  exact ⟨hbad _ (by decide +kernel), hbad _ (by decide +kernel)⟩

end RaceWorld

end SemanticsAr
