import SemanticsAr.Whitelist

/-!
# Earning an exemption

The whitelist and the identity table of the driver under the events that change them: the
operator's additions and removals, process creations and exits, the verdicts of the service
and the images a process loads.  Beside the two stands what each process has to show since
its entry was made, so that every point of a run can be asked whether its exempt entries
have earned the state (`exemption_earned_iff`).
-/

namespace SemanticsAr

open Option

/-- The part of `SAR_STATE` that exemptions depend on. -/
structure DriverState where
  whitelist : Whitelist
  table : IdentityTable

/-- `SarCaptureCanonicalIdentity`: the name of the image, cut to the buffer.  Hash and signer
    are still zero. -/
def canonicalIdentity (name : List UInt16) : SarIdentity where
  imagePath := copyWide _ name
  certSubject := Vector.replicate _ 0
  contentHash := Vector.replicate _ 0

namespace DriverState

variable (S : DriverState)

/-- `SarCreateProcessNotifyEx` of a new process; `name` is there if the name of its image
    could be found. -/
def createProcess (processId startKey : UInt64) (name : Option (List UInt16))
    (protectedTrusted pool : Bool) : DriverState :=
  { S with
    table := sarStateIdentityInsert S.table processId startKey name.isSome
      (name.any fun n => S.whitelist.lists (canonicalIdentity n)) protectedTrusted pool }

/-- `SarStateIdentityApplyVerdict`. -/
def applyVerdict (processId startKey : UInt64) (id : SarIdentity) : DriverState :=
  { S with
    table := sarStateIdentityApplyVerdict S.table processId startKey (S.whitelist.lists id)
      (sarIdentityIsInterpreter id.imagePath) }

/-- What `SarStateIdentityApplyVerdict` returns. -/
def verdictApplied (processId startKey : UInt64) (id : SarIdentity) : Bool :=
  startKey != 0 && S.whitelist.lists id && !sarIdentityIsInterpreter id.imagePath &&
    (sarIdentityFindLocked S.table processId).any fun e => e.startKey == startKey

/-- What `SarStateRevokeExemption` returns. -/
def revokes (processId : UInt64) : Bool :=
  (sarIdentityFindLocked S.table processId).any fun e =>
    e.idState == .exempt && !e.protectedTrusted

end DriverState

/-! ### What verdicts and revocations do to the entries -/

section

variable {S : DriverState} {processId startKey : UInt64} {id : SarIdentity}

theorem applyVerdict_table (h : S.verdictApplied processId startKey id = true) :
    (S.applyVerdict processId startKey id).table =
      updateProcess S.table processId fun e => { e with idState := .exempt } := by
  simp only [DriverState.verdictApplied, Bool.and_eq_true, bne_iff_ne, ne_eq,
    Bool.not_eq_eq_eq_not, Bool.not_true, any_eq_true, beq_iff_eq] at h
  obtain ⟨⟨⟨hkey, hlisted⟩, hplain⟩, e, hfind, hsame⟩ := h
  simp [DriverState.applyVerdict, sarStateIdentityApplyVerdict, hkey, hlisted, hplain, hfind, hsame]

theorem applyVerdict_refused (h : S.verdictApplied processId startKey id = false) :
    (S.applyVerdict processId startKey id).table = S.table := by
  simp only [DriverState.applyVerdict, sarStateIdentityApplyVerdict]
  split
  · rfl
  next hpass =>
    simp only [not_or, Bool.not_eq_false, Bool.not_eq_true] at hpass
    obtain ⟨hkey, hlisted, hplain⟩ := hpass
    cases hfind : sarIdentityFindLocked S.table processId with
    | none => rfl
    | some e =>
      have hother : e.startKey ≠ startKey := by
        simpa [DriverState.verdictApplied, hkey, hlisted, hplain, hfind] using h
      exact if_neg hother

theorem revoke_table (h : S.revokes processId = true) : sarStateRevokeExemption S.table processId =
      updateProcess S.table processId fun e => { e with idState := .observe } := by
  simp only [DriverState.revokes, any_eq_true, Bool.and_eq_true, beq_iff_eq,
    Bool.not_eq_eq_eq_not, Bool.not_true] at h
  obtain ⟨e, hfind, hexempt, hplain⟩ := h
  simp [sarStateRevokeExemption, hfind, hexempt, hplain]

theorem revoke_refused (h : S.revokes processId = false) :
    sarStateRevokeExemption S.table processId = S.table := by
  unfold sarStateRevokeExemption
  cases hfind : sarIdentityFindLocked S.table processId with
  | none => rfl
  | some e =>
    have hkept : ¬ (e.idState = .exempt ∧ e.protectedTrusted = false) := by
      simpa [DriverState.revokes, hfind] using h
    exact if_neg hkept

end

/-- The signature level of an image, from the properties of `IMAGE_INFO`. -/
def signatureLevel (properties : UInt32) : UInt32 := (properties >>> 12) &&& 0xF

/-- `SarPhantomLoadImageNotify` goes on to revoke: the image is one of user mode and not
    signed well enough. -/
def loadsUntrusted (processId : UInt64) (systemMode : Bool) (properties : UInt32) : Bool :=
  !systemMode && processId != 0 && decide (signatureLevel properties < 4)

/-! ### Runs -/

/-- What a process has to show since its entry was made: a verdict was applied to it for an
    identity with a hash, and an exemption of it was revoked. -/
structure Standing where
  earned : Bool
  revoked : Bool

structure ExemptionLog where
  state : DriverState
  standing : UInt64 → Standing

inductive ExemptionEvent where
  | whitelistAdd (id : SarIdentity) (now : UInt64)
  | whitelistRemove (id : SarIdentity)
  | createProcess (processId startKey : UInt64) (name : Option (List UInt16))
      (protectedTrusted pool : Bool)
  | exitProcess (processId : UInt64)
  | verdict (processId startKey : UInt64) (id : SarIdentity)
  | loadImage (processId : UInt64) (systemMode : Bool) (properties : UInt32)

def SarIdentity.hashed (id : SarIdentity) : Bool := id.contentHash.toList.any (· != 0)

namespace ExemptionLog

def start (whitelist : Whitelist) : ExemptionLog :=
  ⟨⟨whitelist, sarStateCreate⟩, fun _ => ⟨false, false⟩⟩

def inserts (L : ExemptionLog) (processId : UInt64) (pool : Bool) : Bool :=
  pool && (sarIdentityFindLocked L.state.table processId).isNone

def step (L : ExemptionLog) : ExemptionEvent → ExemptionLog
  | .whitelistAdd id now =>
    { L with state.whitelist := (sarWhitelistAdd L.state.whitelist id now).2 }
  | .whitelistRemove id =>
    { L with state.whitelist := (sarWhitelistRemove L.state.whitelist id).2 }
  | .createProcess processId startKey name protectedTrusted pool =>
    { L with
      state := L.state.createProcess processId startKey name protectedTrusted pool
      standing :=
        if L.inserts processId pool then
          Function.update L.standing processId ⟨false, false⟩
        else L.standing }
  | .exitProcess processId =>
    { L with state.table := sarStateIdentityRemove L.state.table processId }
  | .verdict processId startKey id =>
    { L with
      state := L.state.applyVerdict processId startKey id
      standing :=
        if L.state.verdictApplied processId startKey id then
          Function.update L.standing processId
            { L.standing processId with
              earned := (L.standing processId).earned || id.hashed }
        else L.standing }
  | .loadImage processId systemMode properties =>
    if loadsUntrusted processId systemMode properties then
      { L with
        state.table := sarStateRevokeExemption L.state.table processId
        standing :=
          if L.state.revokes processId then
            Function.update L.standing processId
              { L.standing processId with revoked := true }
          else L.standing }
    else L

structure Deserved (e : IdentityEntry) (standing : Standing) : Prop where
  earned : e.idState = .exempt → e.protectedTrusted = true ∨ standing.earned = true
  lasting : e.protectedTrusted = true → e.idState = .exempt
  final : standing.revoked = true → e.idState ≠ .exempt

def AllDeserved (L : ExemptionLog) : Prop :=
  ∀ processId e, sarIdentityFindLocked L.state.table processId = some e →
    Deserved e (L.standing processId)

/-- An event that gives no undeserved exemption: no unprotected process is created while the
    whitelist has an entry without hash and signer, and no verdict is applied to a process whose
    exemption was revoked, nor one without a hash to a process that has not earned it otherwise. -/
def Harmless (L : ExemptionLog) : ExemptionEvent → Prop
  | .createProcess processId _ name protectedTrusted pool =>
    L.inserts processId pool = true → protectedTrusted = false →
      ∀ n, name = some n → L.state.whitelist.lists (canonicalIdentity n) = false
  | .verdict processId startKey id =>
    L.state.verdictApplied processId startKey id = true → (L.standing processId).revoked = false ∧
        ∀ e, sarIdentityFindLocked L.state.table processId = some e →
          e.protectedTrusted = true ∨ (L.standing processId).earned = true ∨ id.hashed = true
  | _ => True

variable {L : ExemptionLog} {processId : UInt64}

theorem allDeserved_iff_at (h : AllDeserved L) (L' : ExemptionLog) (processId : UInt64)
    (htable : ∀ other, other ≠ processId →
      sarIdentityFindLocked L'.state.table other = sarIdentityFindLocked L.state.table other)
    (hstanding : ∀ other, other ≠ processId → L'.standing other = L.standing other) :
    AllDeserved L' ↔ ∀ e, sarIdentityFindLocked L'.state.table processId = some e →
      Deserved e (L'.standing processId) := by
  constructor
  · intro hall e he
    exact hall processId e he
  · intro hself other e he
    by_cases ho : other = processId
    · subst ho
      exact hself e he
    · rw [htable other ho] at he
      rw [hstanding other ho]
      exact h other e he

theorem deserved_fresh_iff (startKey : UInt64) (name : Option (List UInt16))
    (hit : List UInt16 → Bool) (protectedTrusted : Bool) :
    Deserved (freshEntry processId startKey name.isSome (name.any hit) protectedTrusted)
        ⟨false, false⟩ ↔
      (protectedTrusted = false → ∀ n, name = some n → hit n = false) := by
  constructor
  · intro hdeserved hprotected n hname
    subst hprotected hname
    by_contra hhit
    have hexempt : (freshEntry processId startKey (some n).isSome ((some n).any hit)
        false).idState = .exempt := by
      simp [freshEntry, sarIdentityResolve, Bool.eq_false_iff.not_left.mp hhit]
    rcases hdeserved.earned hexempt with h | h <;> cases h
  · intro hblank
    refine ⟨fun hexempt => ?_, fun hprotected => ?_, fun h => by cases h⟩
    · by_contra hnone
      simp only [not_or, Bool.not_eq_true] at hnone
      have hprotected : protectedTrusted = false := hnone.1
      subst hprotected
      cases name with
      | none => cases hexempt
      | some n =>
        have hhit := hblank rfl n rfl
        simp [freshEntry, sarIdentityResolve, hhit] at hexempt
    · have : protectedTrusted = true := hprotected
      simp [freshEntry, this]

theorem allDeserved_createProcess (h : AllDeserved L) (startKey : UInt64)
    (name : Option (List UInt16)) (protectedTrusted pool : Bool) :
    AllDeserved (L.step (.createProcess processId startKey name protectedTrusted pool)) ↔
      Harmless L (.createProcess processId startKey name protectedTrusted pool) := by
  cases hinserts : L.inserts processId pool with
  | false =>
    have hsame : L.step (.createProcess processId startKey name protectedTrusted pool) = L := by
      have htable : L.state.createProcess processId startKey name protectedTrusted pool =
          L.state := by
        rcases sarStateIdentityInsert_cases L.state.table processId startKey name.isSome
          (name.any fun n => L.state.whitelist.lists (canonicalIdentity n)) protectedTrusted
          pool with ⟨-, htable⟩ | ⟨hyes, -⟩
        · simp only [DriverState.createProcess, htable]
        · cases hinserts.symm.trans hyes
      simp only [step, hinserts, htable]
      rfl
    rw [hsame]
    refine iff_of_true h fun hyes => ?_
    cases hinserts.symm.trans hyes
  | true =>
    obtain ⟨rfl, hnone⟩ := Bool.and_eq_true_iff.mp hinserts
    rw [allDeserved_iff_at h _ processId (fun other ho => find_insert_other ho)
      (fun other ho => by simp [step, hinserts, ho])]
    have hself := find_insert_self (isNone_iff_eq_none.mp hnone) startKey name.isSome
      (name.any fun n => L.state.whitelist.lists (canonicalIdentity n)) protectedTrusted
    simp only [step, DriverState.createProcess, hself, hinserts, if_true, Function.update_self,
      Option.some.injEq, forall_eq', deserved_fresh_iff, Harmless, true_implies]

theorem allDeserved_verdict (h : AllDeserved L) (startKey : UInt64) (id : SarIdentity) :
    AllDeserved (L.step (.verdict processId startKey id)) ↔
      Harmless L (.verdict processId startKey id) := by
  cases happlied : L.state.verdictApplied processId startKey id with
  | false =>
    have hsame : AllDeserved (L.step (.verdict processId startKey id)) ↔ AllDeserved L := by
      simp only [AllDeserved, step, applyVerdict_refused happlied, happlied]
      rfl
    rw [hsame]
    refine iff_of_true h fun hyes => ?_
    cases happlied.symm.trans hyes
  | true =>
    have hkeeps : KeepsId fun e => { e with idState := .exempt } := fun _ => rfl
    rw [allDeserved_iff_at h _ processId (fun other ho => by
        simp only [step, applyVerdict_table happlied]
        exact find_updateProcess_other hkeeps ho)
      (fun other ho => by simp [step, happlied, ho])]
    simp only [step, applyVerdict_table happlied, find_updateProcess_self hkeeps, happlied,
      if_true, Function.update_self, Harmless, true_implies]
    constructor
    · intro hall
      have hentry : ∀ e, sarIdentityFindLocked L.state.table processId = some e →
          (L.standing processId).revoked = false ∧
            (e.protectedTrusted = true ∨ (L.standing processId).earned = true ∨
              id.hashed = true) := by
        intro e he
        have hdeserved := hall _ (by rw [he]; rfl)
        refine ⟨Bool.eq_false_iff.mpr fun hrevoked => hdeserved.final hrevoked rfl, ?_⟩
        rcases hdeserved.earned rfl with hprotected | hearned
        · exact .inl hprotected
        · exact .inr (Bool.or_eq_true_iff.mp hearned)
      obtain ⟨e, he, -⟩ := any_eq_true _ _ |>.mp (Bool.and_eq_true_iff.mp happlied).2
      exact ⟨(hentry e he).1, fun e he => (hentry e he).2⟩
    · rintro ⟨hrevoked, hearned⟩ e' he'
      obtain ⟨e, he, rfl⟩ := map_eq_some_iff.mp he'
      refine ⟨fun _ => ?_, fun _ => rfl, fun hyes => ?_⟩
      · rcases hearned e he with hprotected | hby
        · exact .inl hprotected
        · exact .inr (Bool.or_eq_true_iff.mpr hby)
      · cases hrevoked.symm.trans hyes

theorem AllDeserved.loadImage (h : AllDeserved L) (systemMode : Bool) (properties : UInt32) :
    AllDeserved (L.step (.loadImage processId systemMode properties)) := by
  simp only [step]
  split
  · cases hrevokes : L.state.revokes processId with
    | false =>
      intro other e he
      rw [revoke_refused hrevokes] at he
      exact h other e he
    | true =>
      have hkeeps : KeepsId fun e => { e with idState := .observe } := fun _ => rfl
      refine (allDeserved_iff_at h _ processId ?_ ?_).mpr ?_
      · intro other ho
        simp only [revoke_table hrevokes]
        exact find_updateProcess_other hkeeps ho
      · intro other ho
        simp [ho]
      · intro e' he'
        simp only [revoke_table hrevokes, find_updateProcess_self hkeeps] at he'
        obtain ⟨e, he, rfl⟩ := map_eq_some_iff.mp he'
        obtain ⟨e₀, he₀, hplain⟩ := any_eq_true _ _ |>.mp hrevokes
        cases he.symm.trans he₀
        simp only [Bool.and_eq_true, beq_iff_eq, Bool.not_eq_eq_eq_not, Bool.not_true] at hplain
        refine ⟨nofun, fun hprotected => ?_, fun _ => nofun⟩
        cases hplain.2.symm.trans hprotected
  · exact h

/-- **One event.**  Every entry has what it deserves behind an event exactly if the event is
    harmless. -/
theorem allDeserved_step_iff (hone : OneEntry L.state.table) (h : AllDeserved L)
    (event : ExemptionEvent) : AllDeserved (L.step event) ↔ Harmless L event := by
  cases event with
  | whitelistAdd id now => exact iff_of_true h trivial
  | whitelistRemove id => exact iff_of_true h trivial
  | createProcess processId startKey name protectedTrusted pool =>
    exact allDeserved_createProcess h startKey name protectedTrusted pool
  | exitProcess processId =>
    refine iff_of_true ?_ trivial
    refine (allDeserved_iff_at h (L.step (.exitProcess processId)) processId ?_ fun _ _ =>
      rfl).mpr ?_
    · intro other ho
      exact find_remove_other ho
    intro e he
    cases (find_remove_self hone).symm.trans he
  | verdict processId startKey id => exact allDeserved_verdict h startKey id
  | loadImage processId systemMode properties =>
    exact iff_of_true (h.loadImage systemMode properties) trivial

theorem oneEntry_step (hone : OneEntry L.state.table) (event : ExemptionEvent) :
    OneEntry (L.step event).state.table := by
  cases event with
  | whitelistAdd id now => exact hone
  | whitelistRemove id => exact hone
  | createProcess processId startKey name protectedTrusted pool => exact hone.insert
  | exitProcess processId => exact hone.remove
  | verdict processId startKey id =>
    cases happlied : L.state.verdictApplied processId startKey id with
    | false => simpa only [step, applyVerdict_refused happlied] using hone
    | true =>
      simp only [step, applyVerdict_table happlied]
      exact hone.updateProcess fun _ => rfl
  | loadImage processId systemMode properties =>
    simp only [step]
    split
    · cases hrevokes : L.state.revokes processId with
      | false => simpa only [revoke_refused hrevokes] using hone
      | true =>
        simp only [revoke_table hrevokes]
        exact hone.updateProcess fun _ => rfl
    · exact hone

/-- **When exemptions are earned.**  From any whitelist on, exempt entries are protected or were
    given a verdict for an identity with a hash, protected entries are exempt, and revoked
    exemptions stay revoked, at every point of a run, exactly if every event is harmless. -/
theorem exemption_earned_iff (whitelist : Whitelist) (events : List ExemptionEvent) :
    (∀ front back, events = front ++ back → AllDeserved (Runs.run step (start whitelist) front)) ↔
      Runs.Each step Harmless (start whitelist) events := by
  refine Runs.prefixes_iff_each
    (fun (L : ExemptionLog) event (hone : OneEntry L.state.table) => oneEntry_step hone event)
    (fun L event hone h => allDeserved_step_iff hone h event) oneEntry_sarStateCreate ?_
  intro processId e he
  cases (sarStateCreate_find processId).symm.trans he

def blankIdentity : SarIdentity := canonicalIdentity (wideUnits "a.exe")

def hashedIdentity : SarIdentity := { blankIdentity with contentHash := Vector.replicate _ 1 }

/-- A blank entry of the whitelist exempts the next process with a name; a verdict may be for
    a blank identity; and a verdict gives back what was revoked. -/
theorem exemption_undeserved : ¬ AllDeserved (Runs.run step (start sarWhitelistInit)
        [.whitelistAdd blankIdentity 1,
          .createProcess 8 5 (some (wideUnits "b.exe")) false true]) ∧
      ¬ AllDeserved (Runs.run step (start sarWhitelistInit)
        [.createProcess 8 5 none false true, .whitelistAdd blankIdentity 1,
          .verdict 8 5 blankIdentity]) ∧
      ¬ AllDeserved (Runs.run step (start sarWhitelistInit)
        [.createProcess 8 5 none false true, .whitelistAdd hashedIdentity 1,
          .verdict 8 5 hashedIdentity, .loadImage 8 false 0, .verdict 8 5 hashedIdentity]) := by
  have hbad : ∀ L : ExemptionLog, (sarIdentityFindLocked L.state.table 8).any (fun e =>
      decide (e.idState = .exempt) && !e.protectedTrusted &&
        (!(L.standing 8).earned || (L.standing 8).revoked)) = true → ¬ AllDeserved L := by
    intro L hany hall
    obtain ⟨e, he, hentry⟩ := (any_eq_true _ _).mp hany
    simp only [Bool.and_eq_true, Bool.or_eq_true, decide_eq_true_eq, Bool.not_eq_eq_eq_not,
      Bool.not_true] at hentry
    obtain ⟨⟨hexempt, hplain⟩, hunearned | hrevoked⟩ := hentry
    · rcases (hall 8 e he).earned hexempt with h | h
      · cases hplain.symm.trans h
      · cases hunearned.symm.trans h
    · exact (hall 8 e he).final hrevoked hexempt
  refine ⟨hbad _ ?_, hbad _ ?_, hbad _ ?_⟩ <;> decide +kernel

end ExemptionLog

end SemanticsAr
