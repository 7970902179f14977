import SemanticsAr.PreserveHolds

/-!
# Lock sections of the store

Most calls take the lock once.  Reconciling and maintenance take it several times: each
turn of `SarPresReapNamespace` is a section of its own and so is the pass over the table,
and other calls run in between.  Every call is a run of such sections, and a state is
reachable if sections lead to it from a start of the driver, whose index an earlier
reachable state left behind.
-/

namespace SemanticsAr

variable {op : StoreOp} {P P' : Preserve} {bc : BCrypt} {path causingPath : ProvPath}

def StoreOp.OneLock : StoreOp → Prop
  | .load _ => False
  | .reconcile _ _ _ => False
  | .maintain _ => False
  | _ => True

/-- What `SarPresReapNamespace` looks for: records past a retention time, or records inside
    a range of a path. -/
inductive Reaped where
  | aged (now retention : UInt64)
  | inside (path : ProvPath) (keyOffset keyLength : UInt64)

def Reaped.test : Reaped → PreserveRecord → Bool
  | aged now retention => agedOut now retention
  | inside path keyOffset keyLength => reconcileRemoves path keyOffset keyLength

def Reaped.namespaceMatch (why : Reaped) (r : PreserveRecord) : Bool :=
  r.kind == SAR_PRESERVE_KIND_NAMESPACE && why.test r

/-- One turn of `SarPresReapNamespace`: the first namespace record that matches goes. -/
def reapOne (why : Reaped) (P : Preserve) : Preserve :=
  { P with
    records := P.records.eraseP why.namespaceMatch
    dirty := P.dirty || P.records.any why.namespaceMatch }

/-- The pass of `SarPreserveReconcile` over the table. -/
def reconcileTable (path : ProvPath) (keyOffset keyLength : UInt64) (P : Preserve) : Preserve :=
  let reconciled := sarPreserveReconcile P.records path keyOffset keyLength
  { P with
    records := reconciled.1
    freeDirty := P.freeDirty || decide (reconciled.2 > 0)
    dirty := P.dirty || decide (reconciled.2 > 0) }

/-- The pass of `SarPresMaintain` over the table. -/
def evictTable (now : UInt64) (P : Preserve) : Preserve :=
  let evicted := sarPreserveEvictAged P.records now P.retention100ns
  { P with
    records := evicted.1
    freeDirty := P.freeDirty || decide (evicted.2 > 0)
    dirty := P.dirty || decide (evicted.2 > 0) }

inductive StoreSection where
  | call (op : StoreOp) (hop : op.OneLock)
  | reap (why : Reaped)
  | reconcile (path : ProvPath) (keyOffset keyLength : UInt64)
  | evict (now : UInt64)

variable {sections : List StoreSection}

def StoreSection.apply (bc : BCrypt) (P : Preserve) : StoreSection → Preserve
  | call op _ => op.apply bc P
  | reap why => reapOne why P
  | reconcile path keyOffset keyLength => reconcileTable path keyOffset keyLength P
  | evict now => evictTable now P

def runSections (bc : BCrypt) (P : Preserve) (sections : List StoreSection) : Preserve :=
  sections.foldl (fun P sec => sec.apply bc P) P

/-! ### A call is a run of sections -/

theorem runSections_append (front back : List StoreSection) :
    runSections bc P (front ++ back) = runSections bc (runSections bc P front) back :=
  List.foldl_append

theorem sarPresReapNamespace_eq (why : Reaped) : sarPresReapNamespace P why.test =
      { P with
        records := reapLoop why.namespaceMatch P.records
        dirty := P.dirty || P.records.any why.namespaceMatch } := rfl

/-- The loop of `SarPresReapNamespace` is a run of its turns. -/
theorem sarPresReapNamespace_sections (bc : BCrypt) (why : Reaped) (P : Preserve) :
    ∃ sections, sarPresReapNamespace P why.test = runSections bc P sections := by
  generalize hrecords : P.records = records
  induction records using reapLoop.induct why.namespaceMatch generalizing P with
  | case1 records hany ih =>
    obtain ⟨sections, hsections⟩ := ih (reapOne why P) (by rw [reapOne, hrecords])
    refine ⟨.reap why :: sections, ?_⟩
    show _ = runSections bc (reapOne why P) sections
    rw [← hsections, sarPresReapNamespace_eq, sarPresReapNamespace_eq, hrecords, reapLoop,
      if_pos hany]
    unfold reapOne
    rw [hrecords, hany, Bool.or_true, Bool.true_or]
  | case2 records hnone =>
    refine ⟨[], ?_⟩
    show _ = P
    rw [sarPresReapNamespace_eq, hrecords, reapLoop, if_neg hnone, Bool.eq_false_iff.mpr hnone,
      Bool.or_false, ← hrecords]

/-- **Every call on a loaded store is a run of sections.** -/
theorem StoreOp.apply_sections (hop : op.Loaded) :
    ∃ sections, op.apply bc P = runSections bc P sections := by
  cases op with
  | load env => exact absurd hop id
  | reconcile path keyOffset keyLength =>
    show ∃ sections, sarPreserveReconcileRange path keyOffset keyLength P = _
    unfold sarPreserveReconcileRange
    split
    · exact ⟨[], rfl⟩
    · obtain ⟨sections, hsections⟩ :=
        sarPresReapNamespace_sections bc (.inside path keyOffset keyLength) P
      refine ⟨sections ++ [.reconcile path keyOffset keyLength], ?_⟩
      rw [runSections_append, ← hsections]
      rfl
  | maintain now =>
    obtain ⟨sections, hsections⟩ :=
      sarPresReapNamespace_sections bc (.aged now P.retention100ns) P
    refine ⟨sections ++ [.evict now], ?_⟩
    rw [runSections_append, ← hsections]
    rfl
  | stage args env => exact ⟨[.call (.stage args env) trivial], rfl⟩
  | stageLink path fileSize actorId linkId now causingPath =>
    exact ⟨[.call (.stageLink path fileSize actorId linkId now causingPath) trivial], rfl⟩
  | promote actorId => exact ⟨[.call (.promote actorId) trivial], rfl⟩
  | rename oldPath newPath => exact ⟨[.call (.rename oldPath newPath) trivial], rfl⟩
  | reserve bytes => exact ⟨[.call (.reserve bytes) trivial], rfl⟩
  | release bytes => exact ⟨[.call (.release bytes) trivial], rfl⟩
  | setBudget retention capacity => exact ⟨[.call (.setBudget retention capacity) trivial], rfl⟩
  | restore path offset length outCap env => exact ⟨[], rfl⟩

/-! ### What every section leaves alone -/

/-- The second store differs from the first in its table, its payload, its allocation and its
    budget at most: keys, generation, anchor and readiness are the same. -/
def CallFrame (P P' : Preserve) : Prop :=
  ∃ Q retention capacity reserved, TableFrame P Q ∧ P' =
    { Q with
      retention100ns := retention, capacityBytes := capacity, reservedBytes := reserved }

theorem TableFrame.callFrame (h : TableFrame P P') : CallFrame P P' :=
  ⟨P', _, _, _, h, rfl⟩

theorem CallFrame.anchor_eq (h : CallFrame P P') : P'.anchor = P.anchor := by
  obtain ⟨_, _, _, _, ⟨_, _, _, _, _, _, rfl⟩, rfl⟩ := h
  rfl

theorem CallFrame.ready_eq (h : CallFrame P P') : P'.ready = P.ready := by
  obtain ⟨_, _, _, _, ⟨_, _, _, _, _, _, rfl⟩, rfl⟩ := h
  rfl

theorem sarPreserveStageLink_frame (fileSize actorId linkId now : UInt64) :
    TableFrame P (sarPreserveStageLink path fileSize actorId linkId now causingPath P).1 := by
  generalize hcall : sarPreserveStageLink path fileSize actorId linkId now causingPath P = call
  obtain ⟨P', status⟩ := call
  rcases sarPreserveStageLink_cases hcall with ⟨_, -, rfl | rfl⟩ | ⟨-, -, rfl⟩
  · exact TableFrame.refl
  · exact evictAged_frame
  · exact evictAged_frame.trans appendRecord_frame

theorem StoreOp.Loaded.frame (hop : op.Loaded) (bc : BCrypt) (P : Preserve) :
    CallFrame P (op.apply bc P) := by
  have hsame : CallFrame P P := TableFrame.refl.callFrame
  by_cases hbudgets : op.Budgets
  · obtain ⟨_, _, _, heq⟩ := hbudgets.apply_eq bc P
    exact ⟨P, _, _, _, TableFrame.refl, heq⟩
  cases op with
  | reserve _ | release _ | setBudget _ _ | restore _ _ _ _ _ => exact absurd trivial hbudgets
  | load env => exact absurd hop id
  | stage args env =>
    have hframe : TableFrame P (sarPreserveStage bc args env P).1 := sarPreserveStage_frame
    exact hframe.callFrame
  | stageLink path fileSize actorId linkId now causingPath =>
    exact (sarPreserveStageLink_frame fileSize actorId linkId now).callFrame
  | promote actorId =>
    simp only [apply, sarPreservePromoteActor]
    split
    · exact hsame
    · exact TableFrame.callFrame ⟨_, _, _, _, _, _, rfl⟩
  | reconcile path keyOffset keyLength =>
    simp only [apply, sarPreserveReconcileRange]
    split
    · exact hsame
    · exact TableFrame.callFrame ⟨_, _, _, _, _, _, rfl⟩
  | maintain now => exact TableFrame.callFrame ⟨_, _, _, _, _, _, rfl⟩
  | rename oldPath newPath =>
    simp only [apply, sarPreserveRename]
    split
    · exact hsame
    · exact TableFrame.callFrame ⟨_, _, _, _, _, _, rfl⟩

theorem StoreOp.OneLock.loaded (hop : op.OneLock) : op.Loaded := by
  cases op with
  | load env => exact hop
  | _ => trivial

theorem StoreSection.frame (sec : StoreSection) : CallFrame P (sec.apply bc P) := by
  cases sec with
  | call op hop => exact hop.loaded.frame bc P
  | reap why => exact TableFrame.callFrame ⟨_, _, _, _, _, _, rfl⟩
  | reconcile path keyOffset keyLength => exact TableFrame.callFrame ⟨_, _, _, _, _, _, rfl⟩
  | evict now => exact TableFrame.callFrame ⟨_, _, _, _, _, _, rfl⟩

/-! ### Reachable states -/

def keyedStore (env : LoadEnv) : Preserve :=
  (ensureKeys env (loadKeyFile env.keyFile sarPreserveCreate)).1

/-- The states of the store over any number of starts of the driver: an index that a load
    accepts was written from the table of an earlier state. -/
inductive Reachable (bc : BCrypt) : Preserve → Prop where
  | create : Reachable bc sarPreserveCreate
  | boot {P : Preserve} (hbefore : Reachable bc P) (env : LoadEnv)
      (hindex : ∀ buf count, env.indexFile = some buf →
        sarPreserveVerify buf (keyedStore env).macKey
            (if (keyedStore env).anchor.present then some (keyedStore env).anchor else none) =
          .ok (.ok count) →
        ∃ macKey generation, buf = indexBytes macKey P.records generation) :
      Reachable bc (sarPreserveLoad env sarPreserveCreate)
  | next {P : Preserve} (hbefore : Reachable bc P) (sec : StoreSection) :
      Reachable bc (sec.apply bc P)

theorem Reachable.runSections {bc : BCrypt} (h : Reachable bc P) :
    Reachable bc (runSections bc P sections) :=
  Runs.run_inv (fun _ sec hP => Reachable.next hP sec) h

theorem Reachable.runStore {bc : BCrypt} (h : Reachable bc P) {ops : List StoreOp}
    (hops : ∀ op ∈ ops, op.Loaded) : Reachable bc (runStore bc P ops) := by
  induction ops generalizing P with
  | nil => exact h
  | cons op ops ih =>
    obtain ⟨sections, hsections⟩ := StoreOp.apply_sections (hops op List.mem_cons_self)
    have hnext : Reachable bc (op.apply bc P) := hsections ▸ h.runSections
    exact ih hnext fun op' hop => hops op' (List.mem_cons_of_mem _ hop)

end SemanticsAr
