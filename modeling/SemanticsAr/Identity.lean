import Mathlib.Data.Finset.Card
import Mathlib.Tactic.IntervalCases
import SemanticsAr.Runs

/-!
# Process identities and phantom evidence

The identity table of `driver/state.c` and the evidence counter that
`SarPhantomEvidenceConvicts` of `driver/phantom.c` keeps in its entries.  An entry lives from
the creation of a process to its end.  `TouchLog` records beside the table what each process
touched since its entry was inserted, so that a run can be asked whether a conviction rests
on three different phantoms (`phantom_conviction_iff`).
-/

namespace SemanticsAr

variable {processId startKey : UInt64}
  {identityValid whitelistHit protectedTrusted pool : Bool}

def SAR_IDENTITY_BUCKET_COUNT : Nat := 1024
def SAR_PHANTOM_K_THRESHOLD : Int32 := 3

variable {i : Fin SAR_IDENTITY_BUCKET_COUNT}

/-- `sar_id_state_t`. -/
inductive IdState where
  | observePending
  | observe
  | exempt
deriving DecidableEq, Repr

def sarIdentityResolve (verified whitelistHit : Bool) : IdState :=
  if verified = false then .observePending
  else if whitelistHit then .exempt
  else .observe

/-- The part of `SAR_IDENTITY_ENTRY` that states and evidence depend on. -/
structure IdentityEntry where
  processId : UInt64
  startKey : UInt64
  idState : IdState
  protectedTrusted : Bool
  phantomEvidence : Int32
deriving DecidableEq, Repr

variable {es : List IdentityEntry} {f : IdentityEntry → IdentityEntry}

/-- The buckets of `SAR_STATE`. -/
structure IdentityTable where
  buckets : Vector (List IdentityEntry) SAR_IDENTITY_BUCKET_COUNT

variable {T : IdentityTable}

/-- The table `SarStateCreate` leaves behind. -/
def sarStateCreate : IdentityTable := ⟨Vector.replicate _ []⟩

/-- `ULONG_PTR value` of the hash, before it is reduced. -/
def identityMix (processId : UInt64) : UInt64 := (processId ^^^ (processId >>> 13)) * 0x9E3779B1

def sarIdentityHash (processId : UInt64) : Fin SAR_IDENTITY_BUCKET_COUNT :=
  ⟨(identityMix processId).toNat % SAR_IDENTITY_BUCKET_COUNT, Nat.mod_lt _ (by decide)⟩

/-- The bucket that `SarPhantomEvidenceConvicts` looks in: it cuts the product to 32 bits
    before it reduces it. -/
def evidenceBucket (processId : UInt64) : Fin SAR_IDENTITY_BUCKET_COUNT :=
  ⟨(identityMix processId).toNat % 2 ^ 32 % SAR_IDENTITY_BUCKET_COUNT, Nat.mod_lt _ (by decide)⟩

/-- The number of buckets divides `2 ^ 32`, so both functions look in one bucket. -/
theorem evidenceBucket_eq : evidenceBucket processId = sarIdentityHash processId :=
  Fin.ext (Nat.mod_mod_of_dvd _ (by decide))

/-! ### The operations of the table -/

def isProcess (processId : UInt64) (e : IdentityEntry) : Bool := e.processId == processId

namespace IdentityTable

def bucket (T : IdentityTable) (i : Fin SAR_IDENTITY_BUCKET_COUNT) : List IdentityEntry :=
  T.buckets[i]

def setBucket (T : IdentityTable) (i : Fin SAR_IDENTITY_BUCKET_COUNT) (es : List IdentityEntry) :
    IdentityTable :=
  ⟨T.buckets.set i es⟩

end IdentityTable

def sarIdentityFindLocked (T : IdentityTable) (processId : UInt64) : Option IdentityEntry :=
  (T.bucket (sarIdentityHash processId)).find? (isProcess processId)

def updateEntry (processId : UInt64) (f : IdentityEntry → IdentityEntry) :
    List IdentityEntry → List IdentityEntry
  | [] => []
  | e :: es => if isProcess processId e then f e :: es else e :: updateEntry processId f es

def updateProcess (T : IdentityTable) (processId : UInt64) (f : IdentityEntry → IdentityEntry) :
    IdentityTable :=
  T.setBucket (sarIdentityHash processId)
    (updateEntry processId f (T.bucket (sarIdentityHash processId)))

def freshEntry (processId startKey : UInt64) (identityValid whitelistHit protectedTrusted : Bool) :
    IdentityEntry where
  processId := processId
  startKey := startKey
  idState := if protectedTrusted then .exempt
    else sarIdentityResolve identityValid (identityValid && whitelistHit)
  protectedTrusted := protectedTrusted
  phantomEvidence := 0

/-- `SarStateIdentityInsert`; `pool` is the outcome of its allocation and `whitelistHit` that
    of the whitelist lookup. -/
def sarStateIdentityInsert (T : IdentityTable) (processId startKey : UInt64)
    (identityValid whitelistHit protectedTrusted pool : Bool) : IdentityTable :=
  if pool = false then T
  else if (sarIdentityFindLocked T processId).isSome then T
  else
    T.setBucket (sarIdentityHash processId)
      (freshEntry processId startKey identityValid whitelistHit protectedTrusted ::
        T.bucket (sarIdentityHash processId))

def sarStateIdentityRemove (T : IdentityTable) (processId : UInt64) : IdentityTable :=
  T.setBucket (sarIdentityHash processId)
    ((T.bucket (sarIdentityHash processId)).eraseP (isProcess processId))

def sarStateIdentityLookup (T : IdentityTable) (processId : UInt64) : IdState :=
  match sarIdentityFindLocked T processId with
  | some e => e.idState
  | none => .observePending

/-- `SarStateIdentityApplyVerdict`; `listed` says that the verified identity is on the
    whitelist, `interpreter` that it is one of the interpreters. -/
def sarStateIdentityApplyVerdict (T : IdentityTable) (processId startKey : UInt64)
    (listed interpreter : Bool) : IdentityTable :=
  if startKey = 0 ∨ listed = false ∨ interpreter = true then T
  else
    match sarIdentityFindLocked T processId with
    | none => T
    | some e =>
      if e.startKey = startKey then
        updateProcess T processId fun e => { e with idState := .exempt }
      else T

def sarStateRevokeExemption (T : IdentityTable) (processId : UInt64) : IdentityTable :=
  match sarIdentityFindLocked T processId with
  | none => T
  | some e =>
    if e.idState = .exempt ∧ e.protectedTrusted = false then
      updateProcess T processId fun e => { e with idState := .observe }
    else T

def raiseEvidence (e : IdentityEntry) : IdentityEntry :=
  { e with phantomEvidence := e.phantomEvidence + 1 }

/-- `SarPhantomEvidenceConvicts`: the table with the evidence raised, and whether it has
    reached the threshold. -/
def sarPhantomEvidenceConvicts (T : IdentityTable) (processId : UInt64) : IdentityTable × Bool :=
  match (T.bucket (evidenceBucket processId)).find? (isProcess processId) with
  | none => (T, false)
  | some e =>
    if e.idState = .exempt then (T, false)
    else
      (T.setBucket (evidenceBucket processId)
          (updateEntry processId raiseEvidence (T.bucket (evidenceBucket processId))),
        decide (SAR_PHANTOM_K_THRESHOLD ≤ (raiseEvidence e).phantomEvidence))

/-! ### What the operations do to the entry of a process -/

section

variable {other : UInt64}

theorem bucket_setBucket_self : (T.setBucket i es).bucket i = es := by
  simp [IdentityTable.bucket, IdentityTable.setBucket]

theorem bucket_setBucket_ne {j : Fin SAR_IDENTITY_BUCKET_COUNT} (h : i ≠ j) :
    (T.setBucket i es).bucket j = T.bucket j := by
  have hval : i.val ≠ j.val := fun heq => h (Fin.ext heq)
  simp [IdentityTable.bucket, IdentityTable.setBucket, Vector.getElem_set_ne, hval]

theorem find_setBucket_other
    (hes : es.find? (isProcess other) = (T.bucket i).find? (isProcess other)) :
    sarIdentityFindLocked (T.setBucket i es) other = sarIdentityFindLocked T other := by
  unfold sarIdentityFindLocked
  by_cases hi : i = sarIdentityHash other
  · rw [← hi, bucket_setBucket_self, hes]
  · rw [bucket_setBucket_ne hi]

theorem isProcess_eq_false (h : other ≠ processId) {e : IdentityEntry}
    (he : isProcess processId e = true) : isProcess other e = false := by
  rw [isProcess, beq_eq_false_iff_ne]
  rw [isProcess, beq_iff_eq] at he
  rw [he]
  exact h.symm

def KeepsId (f : IdentityEntry → IdentityEntry) : Prop := ∀ e, (f e).processId = e.processId

theorem isProcess_apply (hf : KeepsId f) (other : UInt64) (e : IdentityEntry) :
    isProcess other (f e) = isProcess other e := by
  rw [isProcess, hf e, isProcess]

theorem find_updateEntry_self (hf : KeepsId f) :
    (updateEntry processId f es).find? (isProcess processId) =
      (es.find? (isProcess processId)).map f := by
  induction es with
  | nil => rfl
  | cons e es ih =>
    unfold updateEntry
    cases he : isProcess processId e with
    | true => simp [isProcess_apply hf, he]
    | false => simp [he, ih]

theorem find_updateEntry_other (hf : KeepsId f) (h : other ≠ processId) :
    (updateEntry processId f es).find? (isProcess other) = es.find? (isProcess other) := by
  induction es with
  | nil => rfl
  | cons e es ih =>
    unfold updateEntry
    cases he : isProcess processId e with
    | true => simp [isProcess_apply hf, isProcess_eq_false h he]
    | false => cases ho : isProcess other e <;> simp [ho, ih]

theorem find_updateProcess_self (hf : KeepsId f) :
    sarIdentityFindLocked (updateProcess T processId f) processId =
      (sarIdentityFindLocked T processId).map f := by
  unfold updateProcess sarIdentityFindLocked
  rw [bucket_setBucket_self, find_updateEntry_self hf]

theorem find_updateProcess_other (hf : KeepsId f) (h : other ≠ processId) :
    sarIdentityFindLocked (updateProcess T processId f) other = sarIdentityFindLocked T other :=
  find_setBucket_other (find_updateEntry_other hf h)

theorem find_remove_other (h : other ≠ processId) :
    sarIdentityFindLocked (sarStateIdentityRemove T processId) other =
      sarIdentityFindLocked T other := by
  refine find_setBucket_other ?_
  induction T.bucket (sarIdentityHash processId) with
  | nil => rfl
  | cons e es ih =>
    cases he : isProcess processId e with
    | true => simp [he, isProcess_eq_false h he]
    | false => cases ho : isProcess other e <;> simp [he, ho, ih]

theorem sarPhantomEvidenceConvicts_eq : sarPhantomEvidenceConvicts T processId =
      match sarIdentityFindLocked T processId with
      | none => (T, false)
      | some e =>
        if e.idState = .exempt then (T, false)
        else (updateProcess T processId raiseEvidence,
          decide (SAR_PHANTOM_K_THRESHOLD ≤ (raiseEvidence e).phantomEvidence)) := by
  unfold sarPhantomEvidenceConvicts
  rw [evidenceBucket_eq]
  rfl

theorem sarPhantomEvidenceConvicts_of_exempt
    (h : sarStateIdentityLookup T processId = .exempt) :
    sarPhantomEvidenceConvicts T processId = (T, false) := by
  rw [sarPhantomEvidenceConvicts_eq]
  unfold sarStateIdentityLookup at h
  cases hfind : sarIdentityFindLocked T processId with
  | none => rfl
  | some e =>
    rw [hfind] at h
    exact if_pos h

end

/-! ### One entry for each process -/

def OneEntry (T : IdentityTable) : Prop := ∀ i, ((T.bucket i).map (·.processId)).Nodup

theorem oneEntry_sarStateCreate : OneEntry sarStateCreate := by
  intro i
  simp [sarStateCreate, IdentityTable.bucket]

theorem sarStateCreate_find (processId : UInt64) :
    sarIdentityFindLocked sarStateCreate processId = none := by
  simp [sarStateCreate, sarIdentityFindLocked, IdentityTable.bucket]

theorem OneEntry.setBucket (h : OneEntry T) (hes : (es.map (·.processId)).Nodup) :
    OneEntry (T.setBucket i es) := by
  intro j
  by_cases hij : i = j
  · rw [← hij, bucket_setBucket_self]
    exact hes
  · rw [bucket_setBucket_ne hij]
    exact h j

theorem map_updateEntry (hf : KeepsId f) :
    (updateEntry processId f es).map (·.processId) = es.map (·.processId) := by
  induction es with
  | nil => rfl
  | cons e es ih =>
    unfold updateEntry
    split
    · simp [hf e]
    · simp [ih]

theorem OneEntry.updateProcess (h : OneEntry T) (hf : KeepsId f) :
    OneEntry (updateProcess T processId f) :=
  h.setBucket (by rw [map_updateEntry hf]; exact h _)

theorem OneEntry.remove (h : OneEntry T) : OneEntry (sarStateIdentityRemove T processId) :=
  h.setBucket ((h _).sublist (List.eraseP_sublist.map _))

theorem OneEntry.insert (h : OneEntry T) :
    OneEntry (sarStateIdentityInsert T processId startKey identityValid whitelistHit
      protectedTrusted pool) := by
  unfold sarStateIdentityInsert
  split
  · exact h
  · split
    · exact h
    next hfind =>
      refine h.setBucket (List.nodup_cons.mpr ⟨?_, h _⟩)
      intro hmem
      obtain ⟨e, he, hid⟩ := List.mem_map.mp hmem
      refine hfind (List.find?_isSome.mpr ⟨e, he, ?_⟩)
      exact beq_iff_eq.mpr hid

theorem find_remove_self (h : OneEntry T) :
    sarIdentityFindLocked (sarStateIdentityRemove T processId) processId = none := by
  unfold sarIdentityFindLocked sarStateIdentityRemove
  rw [bucket_setBucket_self]
  have hnodup := h (sarIdentityHash processId)
  generalize T.bucket (sarIdentityHash processId) = es at hnodup ⊢
  induction es with
  | nil => rfl
  | cons e es ih =>
    obtain ⟨hnew, hrest⟩ := List.nodup_cons.mp hnodup
    cases he : isProcess processId e with
    | true =>
      rw [List.eraseP_cons_of_pos he, List.find?_eq_none]
      intro e' he' hproc
      have hsame : e'.processId = e.processId :=
        (beq_iff_eq.mp hproc).trans (beq_iff_eq.mp he).symm
      exact hnew (List.mem_map.mpr ⟨e', he', hsame⟩)
    | false =>
      rw [List.eraseP_cons_of_neg (by simp [he]), List.find?_cons_of_neg (by simp [he])]
      exact ih hrest

theorem find_insert_self (hnone : sarIdentityFindLocked T processId = none) (startKey : UInt64)
    (identityValid whitelistHit protectedTrusted : Bool) :
    sarIdentityFindLocked (sarStateIdentityInsert T processId startKey identityValid whitelistHit
      protectedTrusted true) processId =
      some (freshEntry processId startKey identityValid whitelistHit protectedTrusted) := by
  simp only [sarStateIdentityInsert, hnone, Option.isSome_none, Bool.false_eq_true, if_false,
    Bool.true_eq_false]
  simp only [sarIdentityFindLocked, bucket_setBucket_self]
  exact List.find?_cons_of_pos (by simp [isProcess, freshEntry])

theorem find_insert_other {other : UInt64} (hother : other ≠ processId) :
    sarIdentityFindLocked (sarStateIdentityInsert T processId startKey identityValid whitelistHit
      protectedTrusted pool) other = sarIdentityFindLocked T other := by
  unfold sarStateIdentityInsert
  split
  · rfl
  split
  · rfl
  · exact find_setBucket_other
      (List.find?_cons_of_neg (by simp [isProcess, freshEntry, hother.symm]))

theorem sarStateIdentityInsert_cases (T : IdentityTable) (processId startKey : UInt64)
    (identityValid whitelistHit protectedTrusted pool : Bool) :
    let T' := sarStateIdentityInsert T processId startKey identityValid whitelistHit
      protectedTrusted pool
    let inserts := pool && (sarIdentityFindLocked T processId).isNone
    (inserts = false ∧ T' = T) ∨
    (inserts = true ∧ (∃ e, sarIdentityFindLocked T' processId = some e ∧ e.phantomEvidence = 0) ∧
      ∀ other, other ≠ processId →
        sarIdentityFindLocked T' other = sarIdentityFindLocked T other) := by
  cases pool with
  | false => exact .inl ⟨rfl, rfl⟩
  | true =>
    cases hfind : sarIdentityFindLocked T processId with
    | some e =>
      refine .inl ⟨rfl, ?_⟩
      simp [sarStateIdentityInsert, hfind]
    | none =>
      exact .inr ⟨rfl, ⟨_, find_insert_self hfind _ _ _ _, rfl⟩,
        fun other hother => find_insert_other hother⟩

/-! ### Runs of touches -/

/-- A touch of a phantom that counts, by a write onto its backing or by a reparse. -/
structure Touch (ι : Type) where
  write : Bool
  phantom : ι
deriving DecidableEq

/-- The table, and for each process the touches since its entry was inserted that it made while
    it was not exempt, latest first. -/
structure TouchLog (ι : Type) where
  table : IdentityTable
  touches : UInt64 → List (Touch ι)

inductive TouchEvent (ι : Type) where
  | insert (processId startKey : UInt64)
      (identityValid whitelistHit protectedTrusted pool : Bool)
  | remove (processId : UInt64)
  | applyVerdict (processId startKey : UInt64) (listed interpreter : Bool)
  | revoke (processId : UInt64)
  | reparse (processId : UInt64) (phantom : ι)
  | write (processId : UInt64) (phantom : ι)

def watched (T : IdentityTable) (processId : UInt64) : Bool :=
  match sarIdentityFindLocked T processId with
  | some e => decide (e.idState ≠ .exempt)
  | none => false

def writeCount {ι : Type} (touches : List (Touch ι)) : Nat := touches.countP (·.write)

def phantomsOf {ι : Type} [DecidableEq ι] (touches : List (Touch ι)) : Finset ι :=
  (touches.map (·.phantom)).toFinset

namespace TouchLog

variable {ι : Type} {event : TouchEvent ι} {phantom : ι}

def start : TouchLog ι := ⟨sarStateCreate, fun _ => []⟩

def touch (L : TouchLog ι) (processId : UInt64) (t : Touch ι) : TouchLog ι :=
  if watched L.table processId then
    { L with touches := Function.update L.touches processId (t :: L.touches processId) }
  else L

def step (L : TouchLog ι) : TouchEvent ι → TouchLog ι
  | .insert processId startKey identityValid whitelistHit protectedTrusted pool =>
    { table := sarStateIdentityInsert L.table processId startKey identityValid whitelistHit
        protectedTrusted pool
      touches :=
        if pool && (sarIdentityFindLocked L.table processId).isNone then
          Function.update L.touches processId []
        else L.touches }
  | .remove processId => { L with table := sarStateIdentityRemove L.table processId }
  | .applyVerdict processId startKey listed interpreter =>
    { L with
      table := sarStateIdentityApplyVerdict L.table processId startKey listed interpreter }
  | .revoke processId => { L with table := sarStateRevokeExemption L.table processId }
  | .reparse processId phantom => L.touch processId ⟨false, phantom⟩
  | .write processId phantom =>
    { L.touch processId ⟨true, phantom⟩ with
      table := (sarPhantomEvidenceConvicts L.table processId).1 }

/-- The touches that count of a process, over the events of a run. -/
def accrued (events : List (TouchEvent ι)) (processId : UInt64) : List (Touch ι) :=
  (Runs.run step start events).touches processId

/-- A conviction is of a process that has touched three different phantoms. -/
def ConvictionRight [DecidableEq ι] (L : TouchLog ι) : TouchEvent ι → Prop
  | .write processId phantom =>
    (sarPhantomEvidenceConvicts L.table processId).2 = true →
      3 ≤ (phantomsOf (⟨true, phantom⟩ :: L.touches processId)).card
  | _ => True

instance [DecidableEq ι] (L : TouchLog ι) (event : TouchEvent ι) :
    Decidable (ConvictionRight L event) :=
  match event with
  | .write _ _ => inferInstanceAs (Decidable (_ = true → 3 ≤ _))
  | .insert .. | .remove _ | .applyVerdict .. | .revoke _ | .reparse _ _ => .isTrue trivial

structure Counts (L : TouchLog ι) : Prop where
  oneEntry : OneEntry L.table
  evidence_eq : ∀ processId e, sarIdentityFindLocked L.table processId = some e →
    e.phantomEvidence = Int32.ofNat (writeCount (L.touches processId))

theorem counts_start : Counts (start : TouchLog ι) where
  oneEntry := oneEntry_sarStateCreate
  evidence_eq processId e h := by
    cases (sarStateCreate_find processId).symm.trans h

variable {L : TouchLog ι}

theorem touch_table (t : Touch ι) : (L.touch processId t).table = L.table := by
  rw [touch]
  split <;> rfl

theorem touch_other {other : UInt64} (h : other ≠ processId) (t : Touch ι) :
    (L.touch processId t).touches other = L.touches other := by
  rw [touch]
  split
  · exact Function.update_of_ne h _ _
  · rfl

theorem touch_self (hw : watched L.table processId = true) (t : Touch ι) :
    (L.touch processId t).touches processId = t :: L.touches processId := by
  rw [touch, if_pos hw]
  exact Function.update_self ..

theorem Counts.reparse (h : Counts L) : Counts (L.step (.reparse processId phantom)) where
  oneEntry := by
    simpa only [TouchLog.step, touch_table] using h.oneEntry
  evidence_eq other e he := by
    simp only [TouchLog.step, touch_table] at he ⊢
    rw [h.evidence_eq other e he, touch]
    split
    · by_cases ho : other = processId
      · subst ho
        simp [writeCount]
      · simp [ho]
    · rfl

theorem Counts.update (h : Counts L) (hf : KeepsId f)
    (hevidence : ∀ e, (f e).phantomEvidence = e.phantomEvidence) :
    Counts { L with table := updateProcess L.table processId f } where
  oneEntry := h.oneEntry.updateProcess hf
  evidence_eq other e he := by
    by_cases ho : other = processId
    · subst ho
      rw [find_updateProcess_self hf, Option.map_eq_some_iff] at he
      obtain ⟨e', he', rfl⟩ := he
      rw [hevidence]
      exact h.evidence_eq other e' he'
    · change sarIdentityFindLocked (updateProcess L.table processId f) other = some e at he
      rw [find_updateProcess_other hf ho] at he
      exact h.evidence_eq other e he

theorem keepsId_raiseEvidence : KeepsId raiseEvidence := fun _ => rfl

theorem phantomEvidence_raiseEvidence (e : IdentityEntry) :
    (raiseEvidence e).phantomEvidence = e.phantomEvidence + 1 := rfl

theorem write_cases (L : TouchLog ι) (processId : UInt64) : (watched L.table processId = false ∧
      sarPhantomEvidenceConvicts L.table processId = (L.table, false)) ∨
    ∃ e, watched L.table processId = true ∧ sarIdentityFindLocked L.table processId = some e ∧
      sarPhantomEvidenceConvicts L.table processId = (updateProcess L.table processId raiseEvidence,
          decide (SAR_PHANTOM_K_THRESHOLD ≤ (raiseEvidence e).phantomEvidence)) := by
  rw [sarPhantomEvidenceConvicts_eq]
  unfold watched
  cases hfind : sarIdentityFindLocked L.table processId with
  | none => exact .inl ⟨rfl, rfl⟩
  | some e =>
    by_cases he : e.idState = .exempt
    · exact .inl ⟨decide_eq_false (not_not.mpr he), if_pos he⟩
    · exact .inr ⟨e, decide_eq_true he, rfl, if_neg he⟩

theorem step_write_unwatched (hw : watched L.table processId = false)
    (hconvicts : sarPhantomEvidenceConvicts L.table processId = (L.table, false)) :
    L.step (.write processId phantom) = L := by
  simp [step, touch, hw, hconvicts]

theorem Counts.write (h : Counts L) : Counts (L.step (.write processId phantom)) := by
  rcases write_cases L processId with ⟨hw, hconvicts⟩ | ⟨e₀, hw, hfind, hconvicts⟩
  · rw [step_write_unwatched hw hconvicts]
    exact h
  · refine ⟨?_, fun other e he => ?_⟩
    · simp only [TouchLog.step, hconvicts]
      exact h.oneEntry.updateProcess keepsId_raiseEvidence
    simp only [TouchLog.step, hconvicts] at he ⊢
    by_cases ho : other = processId
    · subst ho
      rw [find_updateProcess_self keepsId_raiseEvidence, hfind] at he
      cases he
      have hevidence := h.evidence_eq other e₀ hfind
      simp [touch_self hw, writeCount, raiseEvidence, hevidence, Int32.ofNat_add]
    · rw [find_updateProcess_other keepsId_raiseEvidence ho] at he
      rw [h.evidence_eq other e he, touch_other ho]

theorem Counts.step (h : Counts L) : Counts (L.step event) := by
  cases event with
  | insert processId startKey identityValid whitelistHit protectedTrusted pool =>
    rcases sarStateIdentityInsert_cases L.table processId startKey identityValid whitelistHit
      protectedTrusted pool with ⟨hno, htable⟩ | ⟨hyes, ⟨e₀, hfind, hzero⟩, hother⟩
    · simp only [TouchLog.step, hno, htable]
      exact h
    · refine ⟨h.oneEntry.insert, fun other e he => ?_⟩
      by_cases ho : other = processId
      · subst ho
        cases hfind.symm.trans he
        simp [TouchLog.step, hyes, hzero, writeCount]
      · rw [h.evidence_eq other e ((hother other ho).symm.trans he)]
        simp [TouchLog.step, hyes, ho]
  | remove processId =>
    refine ⟨h.oneEntry.remove, fun other e he => ?_⟩
    by_cases ho : other = processId
    · subst ho
      cases (find_remove_self h.oneEntry).symm.trans he
    · exact h.evidence_eq other e ((find_remove_other ho).symm.trans he)
  | applyVerdict processId startKey listed interpreter =>
    simp only [TouchLog.step]
    unfold sarStateIdentityApplyVerdict
    split
    · exact h
    · split
      · exact h
      · split
        · exact h.update (fun _ => rfl) fun _ => rfl
        · exact h
  | revoke processId =>
    simp only [TouchLog.step]
    unfold sarStateRevokeExemption
    split
    · exact h
    · split
      · exact h.update (fun _ => rfl) fun _ => rfl
      · exact h
  | reparse processId phantom => exact h.reparse
  | write processId phantom => exact h.write

/-- With fewer than three writes that count there is no conviction, and with three there is
    one. -/
theorem convicts_cases (h : Counts L) {e : IdentityEntry}
    (hfind : sarIdentityFindLocked L.table processId = some e) :
    (writeCount (L.touches processId) < 2 →
        ¬ SAR_PHANTOM_K_THRESHOLD ≤ (raiseEvidence e).phantomEvidence) ∧
      (writeCount (L.touches processId) = 2 →
        SAR_PHANTOM_K_THRESHOLD ≤ (raiseEvidence e).phantomEvidence) := by
  rw [phantomEvidence_raiseEvidence, h.evidence_eq processId e hfind]
  refine ⟨fun hlt => ?_, fun htwo => ?_⟩
  · interval_cases writeCount (L.touches processId) <;> decide
  · rw [htwo]
    decide

variable [DecidableEq ι]

/-- No process has made three writes that count onto fewer than three phantoms. -/
def Spread (L : TouchLog ι) : Prop :=
  ∀ processId, 3 ≤ writeCount (L.touches processId) →
    3 ≤ (phantomsOf (L.touches processId)).card

theorem card_phantomsOf_le (t : Touch ι) (touches : List (Touch ι)) :
    (phantomsOf touches).card ≤ (phantomsOf (t :: touches)).card := by
  simp only [phantomsOf, List.map_cons, List.toFinset_cons]
  exact Finset.card_le_card (Finset.subset_insert _ _)

/-- A change of the touches of one process decides whether it is spread. -/
theorem Spread.update_iff (hspread : Spread L) (processId : UInt64) (L' : TouchLog ι)
    (hother : ∀ other, other ≠ processId → L'.touches other = L.touches other) :
    Spread L' ↔ (3 ≤ writeCount (L'.touches processId) →
      3 ≤ (phantomsOf (L'.touches processId)).card) := by
  refine ⟨fun h => h processId, fun h other => ?_⟩
  by_cases ho : other = processId
  · exact ho ▸ h
  · rw [hother other ho]
    exact hspread other

theorem spread_write_iff (h : Counts L) (hspread : Spread L) :
    Spread (L.step (.write processId phantom)) ↔ ConvictionRight L (.write processId phantom) := by
  rcases write_cases L processId with ⟨hw, hconvicts⟩ | ⟨e, hw, hfind, hconvicts⟩
  · rw [step_write_unwatched hw hconvicts]
    exact iff_of_true hspread fun h => by rw [hconvicts] at h; cases h
  · have hself : (L.step (.write processId phantom)).touches processId =
        ⟨true, phantom⟩ :: L.touches processId := touch_self hw _
    have hcount : writeCount (⟨true, phantom⟩ :: L.touches processId) =
        writeCount (L.touches processId) + 1 := by simp [writeCount]
    rw [hspread.update_iff processId (L.step (.write processId phantom))
      fun other ho => touch_other ho _, hself, hcount]
    simp only [ConvictionRight, hconvicts, decide_eq_true_eq]
    obtain ⟨hfew, htwo⟩ := convicts_cases h hfind
    rcases lt_trichotomy (writeCount (L.touches processId)) 2 with hlt | heq | hgt
    · exact iff_of_true (fun hle => absurd hle (by omega)) fun h => absurd h (hfew hlt)
    · exact ⟨fun h _ => h (by omega), fun h _ => h (htwo heq)⟩
    · have hthree := (hspread processId hgt).trans (card_phantomsOf_le ⟨true, phantom⟩ _)
      exact iff_of_true (fun _ => hthree) fun _ => hthree

theorem spread_step_iff (h : Counts L) (hspread : Spread L) :
    Spread (L.step event) ↔ ConvictionRight L event := by
  cases event with
  | insert processId startKey identityValid whitelistHit protectedTrusted pool =>
    refine iff_of_true ?_ trivial
    by_cases hinserts : (pool && (sarIdentityFindLocked L.table processId).isNone) = true
    · refine (hspread.update_iff processId _ ?_).mpr ?_
      · intro other ho
        simp [TouchLog.step, hinserts, ho]
      · simp [TouchLog.step, hinserts, writeCount]
    · simpa [Spread, TouchLog.step, hinserts] using hspread
  | remove processId => exact iff_of_true hspread trivial
  | applyVerdict processId startKey listed interpreter => exact iff_of_true hspread trivial
  | revoke processId => exact iff_of_true hspread trivial
  | reparse processId phantom =>
    refine iff_of_true ((hspread.update_iff processId _ fun other ho => touch_other ho _).mpr ?_)
      trivial
    simp only [touch]
    split
    · intro hcount
      simp only [Function.update_self] at hcount ⊢
      exact (hspread processId (by simpa [writeCount] using hcount)).trans (card_phantomsOf_le _ _)
    · exact hspread processId
  | write processId phantom => exact spread_write_iff h hspread

/-- **When phantom convictions rest on three phantoms.**  In a run of process notifications, changes
    of exemptions, writes and reparses, every conviction is of a process that touched three
    different phantoms since it was inserted and while it was not exempt, exactly if at no point of
    the run a process has made three such writes and touched fewer phantoms.  An exempt process is
    not convicted. -/
theorem phantom_conviction_iff (events : List (TouchEvent ι)) :
    (Runs.Each step ConvictionRight start events ↔
      ∀ front back, events = front ++ back → ∀ processId,
        3 ≤ writeCount (accrued front processId) →
          3 ≤ (phantomsOf (accrued front processId)).card) ∧
    ∀ T processId, sarStateIdentityLookup T processId = .exempt →
      sarPhantomEvidenceConvicts T processId = (T, false) := by
  refine ⟨?_, fun T processId => sarPhantomEvidenceConvicts_of_exempt⟩
  have hstart : Spread (start : TouchLog ι) := fun processId h => by simp [start, writeCount] at h
  exact (Runs.prefixes_iff_each (fun L event (h : Counts L) => h.step)
    (fun L event h hspread => spread_step_iff h hspread) counts_start hstart).symm

def threeWrites : List (TouchEvent Nat) :=
  [.insert 4 9 true false false true, .write 4 0, .write 4 1, .write 4 2]

def exemptTable : IdentityTable := sarStateIdentityInsert sarStateCreate 4 9 true true false true

/-- Three writes onto three phantoms, and a process that is exempt. -/
theorem phantom_conviction_three :
    3 ≤ (phantomsOf (accrued threeWrites 4)).card ∧
      sarPhantomEvidenceConvicts exemptTable 4 = (exemptTable, false) := by
  have hright : Runs.Each step ConvictionRight start threeWrites :=
    ⟨trivial, by decide +kernel, by decide +kernel, by decide +kernel, trivial⟩
  obtain ⟨hiff, hexempt⟩ := phantom_conviction_iff threeWrites
  exact ⟨hiff.mp hright threeWrites [] (List.append_nil _).symm 4 (by decide +kernel),
    hexempt _ _ (by decide +kernel)⟩

/-- Three writes onto one phantom convict a process. -/
theorem one_phantom_convicts :
    let events : List (TouchEvent Nat) :=
      [.insert 4 9 true false false true, .write 4 0, .write 4 0]
    let L := Runs.run step start events
    (sarPhantomEvidenceConvicts L.table 4).2 = true ∧
      (phantomsOf (⟨true, 0⟩ :: L.touches 4)).card = 1 := by
  decide +kernel

end TouchLog

end SemanticsAr
