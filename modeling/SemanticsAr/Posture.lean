import Mathlib.Algebra.GroupWithZero.Nat
import Mathlib.Data.List.Basic

/-!
# The posture light

`PostureEvaluator` turns one read of the service's posture into a verdict; `PostureService`
polls and, for a few failed reads in a row, goes on showing the last good verdict, marked stale.
The polls so far are listed latest first.

A failure that is not transient clears the counter and keeps the remembered verdict
(`stale_green_after_untrusted`), so the light can be stale across it; apart from that, and from
the counter's wrap, a stale light is licensed (`stale_licensed_iff`).
-/

namespace SemanticsAr

inductive PostureLevel where
  | green | amber | red
deriving DecidableEq, Repr

inductive PostureMode where
  | unknown | audit | enforce
deriving DecidableEq, Repr

inductive PostureReason where
  | protected_ | integrityHalt | auditMode | auditAcknowledged | driverDisconnected
  | serviceNotRunning | serviceUnreachable | serverUntrusted | versionMismatch | accessDenied
deriving DecidableEq, Repr

inductive SarApiResult where
  | ok | invalidArg | pipeUnavailable | accessDenied | serverUntrusted | versionMismatch
  | transportError
deriving DecidableEq, Repr

/-- The fields of a posture frame that the evaluator reads. -/
structure SarApiPosture where
  serviceRunning : UInt32 := 0
  driverConnected : UInt32 := 0
  integrityHalt : UInt32 := 0
  mode : UInt32 := 0
  capturedKeyCount : UInt64 := 0
  descents : UInt32 := 0
  preserveHealth : UInt32 := 0
  oldestExpiryBucket : UInt32 := 0

structure PostureVerdict where
  level : PostureLevel
  reason : PostureReason
  mode : PostureMode := .unknown
  managementAvailable : Bool := false
  capturedKeyCount : UInt64 := 0
  isStale : Bool := false
  descents : UInt32 := 0
  preserveHealth : UInt32 := 0
  oldestProtectedExpiry : UInt32 := 0
  integrityHalt : Bool := false
deriving DecidableEq, Repr

/-! ### One read -/

namespace PostureEvaluator

def evaluateFrame (p : SarApiPosture) (auditAcknowledged : Bool) : PostureVerdict :=
  let mode := if p.mode = 0 then .audit else if p.mode = 1 then .enforce else .unknown
  let verdict (level : PostureLevel) (reason : PostureReason) (management : Bool) :
      PostureVerdict :=
    ⟨level, reason, mode, management, p.capturedKeyCount, false, p.descents, p.preserveHealth,
      p.oldestExpiryBucket, false⟩
  if p.integrityHalt ≠ 0 then { verdict .red .integrityHalt true with integrityHalt := true }
  else if p.serviceRunning = 0 then verdict .red .serviceNotRunning true
  else if p.driverConnected = 0 then verdict .red .driverDisconnected true
  else match mode with
    | .enforce => verdict .green .protected_ true
    | .audit =>
      if auditAcknowledged then verdict .green .auditAcknowledged true
      else verdict .amber .auditMode true
    | .unknown => verdict .amber .versionMismatch false

def evaluate (result : SarApiResult) (posture : SarApiPosture) (auditAcknowledged : Bool) :
    PostureVerdict :=
  match result with
  | .ok => evaluateFrame posture auditAcknowledged
  | .serverUntrusted => { level := .red, reason := .serverUntrusted }
  | .versionMismatch => { level := .amber, reason := .versionMismatch }
  | .accessDenied => { level := .red, reason := .accessDenied }
  | _ => { level := .red, reason := .serviceUnreachable }

/-- Only the service marks a verdict stale. -/
theorem evaluate_isStale (result : SarApiResult) (posture : SarApiPosture) (ack : Bool) :
    (evaluate result posture ack).isStale = false := by
  cases result with
  | ok =>
    simp only [evaluate, evaluateFrame]
    split_ifs <;> rfl
  | _ => rfl

end PostureEvaluator

/-! ### The service -/

structure PostureService where
  lastGood : Option PostureVerdict := none
  current : Option PostureVerdict := none
  consecutiveTransientFailures : Int32 := 0
  auditAcknowledged : Bool := false

/-- A poll: by the timer, or because the user set the acknowledgement.  `read = none` is a read
    that throws. -/
structure PosturePoll where
  setAcknowledged : Option Bool := none
  read : Option (SarApiResult × SarApiPosture)

def PosturePoll.result (e : PosturePoll) : SarApiResult :=
  (e.read.map Prod.fst).getD .transportError

def PosturePoll.posture (e : PosturePoll) : SarApiPosture := (e.read.map Prod.snd).getD {}

def PosturePoll.transient (e : PosturePoll) : Bool :=
  e.result = .pipeUnavailable || e.result = .transportError

namespace PostureService

def resolve (staleTolerance : Int32) (S : PostureService) (e : PosturePoll) :
    PostureService × PostureVerdict :=
  let verdict := PostureEvaluator.evaluate e.result e.posture S.auditAcknowledged
  if e.result = .ok then
    ({ S with consecutiveTransientFailures := 0, lastGood := some verdict }, verdict)
  else if !e.transient then ({ S with consecutiveTransientFailures := 0 }, verdict)
  else
    let S := { S with consecutiveTransientFailures := S.consecutiveTransientFailures + 1 }
    match S.lastGood with
    | some good =>
      if S.consecutiveTransientFailures < staleTolerance then (S, { good with isStale := true })
      else (S, verdict)
    | none => (S, verdict)

/-- `Poll`, after the setter of `AuditAcknowledged` where that made it; the flag says whether
    `PostureChanged` is raised. -/
def poll (staleTolerance : Int32) (S : PostureService) (e : PosturePoll) : PostureService × Bool :=
  let S := { S with auditAcknowledged := e.setAcknowledged.getD S.auditAcknowledged }
  let (S, verdict) := S.resolve staleTolerance e
  ({ S with current := some verdict }, S.current != some verdict)

def after (staleTolerance : Int32) : List PosturePoll → PostureService
  | [] => {}
  | e :: older => ((after staleTolerance older).poll staleTolerance e).1

/-! ### What a history of polls fixes -/

def acknowledged : List PosturePoll → Bool
  | [] => false
  | e :: older => e.setAcknowledged.getD (acknowledged older)

/-- The verdict of the latest successful read. -/
def goodVerdict : List PosturePoll → Option PostureVerdict
  | [] => none
  | e :: older =>
    if e.result = .ok then
      some (PostureEvaluator.evaluate e.result e.posture (acknowledged (e :: older)))
    else goodVerdict older

theorem ok_not_transient {e : PosturePoll} (h : e.result = .ok) : e.transient = false := by
  simp [PosturePoll.transient, h]

theorem goodVerdict_isSome (polls : List PosturePoll) :
    (goodVerdict polls).isSome = true ↔ ∃ e ∈ polls, e.result = .ok := by
  induction polls with
  | nil => simp [goodVerdict]
  | cons e older ih => by_cases hok : e.result = .ok <;> simp [goodVerdict, hok, ih]

/-- By the polls, the service shows a stale verdict: the latest poll was a transient failure, the
    counter of such failures is below the tolerance, and there was a successful read. -/
structure StaleShown (tolerance : Int32) (polls : List PosturePoll) : Prop where
  latest : ∃ e ∈ polls.head?, e.transient = true
  tolerated : Int32.ofNat (polls.takeWhile (·.transient)).length < tolerance
  read : ∃ e ∈ polls, e.result = .ok

/-- One poll: the memory is the history's. -/
theorem after_eq (tolerance : Int32) (polls : List PosturePoll) :
    (after tolerance polls).auditAcknowledged = acknowledged polls ∧
      (after tolerance polls).lastGood = goodVerdict polls ∧
      (after tolerance polls).consecutiveTransientFailures =
        Int32.ofNat (polls.takeWhile (·.transient)).length := by
  induction polls with
  | nil => exact ⟨rfl, rfl, rfl⟩
  | cons e older ih =>
    obtain ⟨hack, hgood, hfailures⟩ := ih
    simp only [after, poll, resolve, acknowledged, goodVerdict, List.takeWhile_cons, hack]
    by_cases hok : e.result = .ok
    · simp [hok, ok_not_transient hok]
    by_cases ht : e.transient
    · cases hlast : goodVerdict older with
      | none => simp [hok, ht, hgood, hfailures, hlast]
      | some good =>
        by_cases hlt : Int32.ofNat (older.takeWhile (·.transient)).length + 1 < tolerance <;>
          simp [hok, ht, hgood, hfailures, hlast, hlt]
    · simp [hok, ht, hgood]

theorem current_cons (tolerance : Int32) (e : PosturePoll) (older : List PosturePoll) :
    (after tolerance (e :: older)).current =
      let fresh := PostureEvaluator.evaluate e.result e.posture (acknowledged (e :: older))
      if e.transient = true ∧
          Int32.ofNat ((e :: older).takeWhile (·.transient)).length < tolerance then
        some (((goodVerdict older).map fun good => { good with isStale := true }).getD fresh)
      else some fresh := by
  obtain ⟨hack, hgood, hfailures⟩ := after_eq tolerance older
  simp only [after, poll, resolve, acknowledged, List.takeWhile_cons, hack]
  by_cases hok : e.result = .ok
  · simp [hok, ok_not_transient hok]
  by_cases ht : e.transient
  · cases hlast : goodVerdict older with
    | none => simp [hok, ht, hgood, hlast]
    | some good =>
      by_cases hlt : Int32.ofNat (older.takeWhile (·.transient)).length + 1 < tolerance <;>
        simp [hok, ht, hgood, hfailures, hlast, hlt]
  · simp [hok, ht]

/-- A verdict is shown stale only by a transient failure within the tolerance, and it is then the
    one of the latest successful read. -/
theorem current_stale_iff (tolerance : Int32) (polls : List PosturePoll) (v : PostureVerdict) :
    ((after tolerance polls).current = some v ∧ v.isStale = true) ↔
      StaleShown tolerance polls ∧
        ∃ good, goodVerdict polls = some good ∧ v = { good with isStale := true } := by
  cases polls with
  | nil => simp [after, goodVerdict]
  | cons e older =>
    have hfresh := PostureEvaluator.evaluate_isStale e.result e.posture (acknowledged (e :: older))
    rw [current_cons]
    dsimp only
    by_cases hstale : e.transient = true ∧
        Int32.ofNat ((e :: older).takeWhile (·.transient)).length < tolerance
    · have hlast : goodVerdict (e :: older) = goodVerdict older := by
        rw [goodVerdict, if_neg fun hok => by simp [ok_not_transient hok] at hstale]
      have hshown : StaleShown tolerance (e :: older) ↔ (goodVerdict older).isSome = true := by
        rw [← hlast, goodVerdict_isSome]
        exact ⟨fun h => h.read, fun h => ⟨⟨e, rfl, hstale.1⟩, hstale.2, h⟩⟩
      rw [if_pos hstale, hshown, hlast]
      cases goodVerdict older with
      | none =>
        simp only [Option.map_none, Option.getD_none, Option.isSome_none, Bool.false_eq_true,
          false_and, iff_false]
        rintro ⟨h, hv⟩
        cases h
        simp [hfresh] at hv
      | some good =>
        constructor
        · rintro ⟨h, -⟩
          cases h
          exact ⟨rfl, good, rfl, rfl⟩
        · rintro ⟨-, _, h, rfl⟩
          cases h
          exact ⟨rfl, rfl⟩
    · have hshown : ¬ StaleShown tolerance (e :: older) := by
        rintro ⟨⟨_, he, ht⟩, hlt, -⟩
        cases he
        exact hstale ⟨ht, hlt⟩
      rw [if_neg hstale]
      simp only [hshown, false_and, iff_false]
      rintro ⟨h, hv⟩
      cases h
      simp [hfresh] at hv

theorem goodVerdict_dropWhile (polls : List PosturePoll) :
    goodVerdict (polls.dropWhile (·.transient)) = goodVerdict polls := by
  induction polls with
  | nil => rfl
  | cons e older ih =>
    by_cases ht : e.transient
    · have hok : e.result ≠ .ok := fun hok => by simp [ok_not_transient hok] at ht
      simpa [ht, goodVerdict, hok] using ih
    · simp [ht]

/-- A stale verdict within its licence: fewer transient failures than the tolerance came after
    a successful read, nothing else did, and the verdict is that read's. -/
def Licensed (tolerance : Int32) (polls : List PosturePoll) (v : PostureVerdict) : Prop :=
  ∃ since e older, polls = since ++ e :: older ∧ e.result = .ok ∧
    (∀ x ∈ since, x.transient = true) ∧ (since.length : Int) < tolerance.toInt ∧
    v = { PostureEvaluator.evaluate e.result e.posture (acknowledged (e :: older)) with
      isStale := true }

theorem takeWhile_licensed {since : List PosturePoll} {e : PosturePoll} (older : List PosturePoll)
    (hok : e.result = .ok) (hsince : ∀ x ∈ since, x.transient = true) :
    (since ++ e :: older).takeWhile (·.transient) = since ∧
      (since ++ e :: older).dropWhile (·.transient) = e :: older := by
  have he := ok_not_transient hok
  constructor
  · rw [List.takeWhile_append_of_pos hsince, List.takeWhile_cons_of_neg (by simp [he]),
      List.append_nil]
  · rw [List.dropWhile_append_of_pos hsince, List.dropWhile_cons_of_neg (by simp [he])]

/-- **When a stale light is licensed.**  Where the polls make the service show a stale verdict, it
    is within its licence exactly if the transient failures at the end are fewer than the tolerance
    (the counter has not wrapped) and the poll before them was a successful read. -/
theorem stale_licensed_iff (tolerance : Int32) (polls : List PosturePoll) :
    (∀ v, (after tolerance polls).current = some v → v.isStale = true →
        Licensed tolerance polls v) ↔
      (StaleShown tolerance polls →
        ((polls.takeWhile (·.transient)).length : Int) < tolerance.toInt ∧
          ∀ e ∈ (polls.dropWhile (·.transient)).head?, e.result = .ok) := by
  constructor
  · intro hlicensed hshown
    obtain ⟨good, hgood⟩ := Option.isSome_iff_exists.mp ((goodVerdict_isSome polls).mpr hshown.read)
    obtain ⟨hcurrent, hstale⟩ :=
      (current_stale_iff tolerance polls _).mpr ⟨hshown, good, hgood, rfl⟩
    obtain ⟨since, e, older, rfl, hok, hsince, hlt, -⟩ := hlicensed _ hcurrent hstale
    obtain ⟨htake, hdrop⟩ := takeWhile_licensed older hok hsince
    rw [htake, hdrop]
    refine ⟨hlt, ?_⟩
    intro x hx
    cases hx
    exact hok
  · intro hpolls v hcurrent hstale
    obtain ⟨hshown, good, hgood, rfl⟩ := (current_stale_iff tolerance polls v).mp ⟨hcurrent, hstale⟩
    obtain ⟨hlt, hother⟩ := hpolls hshown
    have hsplit := List.takeWhile_append_dropWhile (l := polls) (p := (·.transient))
    rw [← goodVerdict_dropWhile] at hgood
    cases hrest : polls.dropWhile (·.transient) with
    | nil =>
      rw [hrest] at hgood
      cases hgood
    | cons e older =>
      rw [hrest] at hgood hother hsplit
      have hok := hother e rfl
      refine ⟨polls.takeWhile (·.transient), e, older, hsplit.symm, hok,
        List.all_eq_true.mp List.all_takeWhile, hlt, ?_⟩
      rw [goodVerdict, if_pos hok] at hgood
      cases hgood
      rfl

private def enforcing : PosturePoll :=
  { read := some (.ok, { serviceRunning := 1, driverConnected := 1, mode := 1 }) }

/-- The pipe fails once after the server was found untrusted: green again. -/
theorem stale_green_after_untrusted :
    (after 3 [{ read := some (.pipeUnavailable, {}) }, { read := some (.serverUntrusted, {}) },
        enforcing]).current.map (fun v => (v.level, v.isStale)) = some (.green, true) ∧
      (after 3 [{ read := some (.serverUntrusted, {}) }, enforcing]).current.map
        (fun v => (v.level, v.reason)) = some (.red, .serverUntrusted) := by
  decide

end PostureService

end SemanticsAr
