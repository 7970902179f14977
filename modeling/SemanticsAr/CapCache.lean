import Mathlib.Data.UInt
import SemanticsAr.FailClosed
import SemanticsAr.MappedWrites
import SemanticsAr.PreserveBudget

/-!
# The cache of captured ranges

`cap_ranges` of a stream says which ranges need not be captured again.  It is filled by
captures in place and by mapped writes, whose stages are still in the queue of the worker at
that time, and it is never taken back, whatever happens to the records in the store.  The
machine of this module has one file with its stream, the store, the queue and the ranges of
the captured keys; `cache_tells_truth` gives the steps after which every byte that the cache
lets a capture skip is held, will be, or can be computed from a key.

Whether a queued stage will succeed is fixed when it is queued (`succeeds`), and the step of
the worker has to bear it out (`Conforms`).
-/

namespace SemanticsAr

open Runs List

variable {env : CaptureEnv} {P : Preserve} {r : PreserveRecord} {file : FileContent} {c : Caller}
  {offset length : UInt64} {b i : Nat} {disk : Nat → UInt8} {mode : Mode} {S : MmapStream}

/-! ### The machine -/

structure QueuedStage where
  stage : DeferredStage
  len_lt : stage.bytes.length < 2 ^ 32
  succeeds : Bool

variable {e : QueuedStage}

namespace QueuedStage

def Has (e : QueuedStage) (b : Nat) : Prop :=
  e.stage.offset ≤ b ∧ b < e.stage.offset + e.stage.bytes.length

def args (e : QueuedStage) : StageArgs where
  path := e.stage.path
  offset := UInt64.ofNat e.stage.offset
  length := UInt64.ofNat e.stage.bytes.length
  actorId := e.stage.actor
  plaintext := e.stage.bytes
  againstReservation := e.stage.backed
  plaintext_lt := e.len_lt

end QueuedStage

/-- A file's stream with the store, the queue of the worker and the ranges of the file for
    which a key was captured. -/
structure CacheState where
  store : Preserve
  stream : MmapStream
  queue : List QueuedStage
  keys : List (UInt64 × UInt64)

/-- `SarCapturePreserveDestruction` for a deferred stage. -/
def sarCapturePreserveDestruction (bc : BCrypt) (e : QueuedStage) (env : StageEnv)
    (P : Preserve) : Preserve :=
  if P.ready = false ∨ pathText e.stage.path = [] ∨ e.stage.bytes = [] then P
  else (sarPreserveStage bc e.args env P).1

def sarMmapReleaseStaged (bytes reserved : UInt64) (P : Preserve) : UInt64 × Preserve :=
  if reserved.toInt64 ≤ 0 then (reserved, P)
  else
    (reserved - settledBytes reserved bytes, sarPreserveRelease (settledBytes reserved bytes) P)

/-- A write captured in place, a mapped write with the outcomes of its chunks' stages, the worker at
    an item, a captured key, or a lock section of the store for any file. -/
inductive CacheAct where
  | inPlace (env : CaptureEnv) (file : FileContent) (named : Bool) (c : Caller)
      (offset length : UInt64)
  | mapped (env : MmapEnv) (disk : Nat → UInt8) (mode : Mode) (actor offset : UInt64)
      (length : UInt32) (outcome : Nat → Bool)
  | work (i : Nat) (env : StageEnv)
  | keyCaptured (offset length : UInt64)
  | store (sec : StoreSection)

variable {act : CacheAct}

section

variable (bc : BCrypt) (name : NormalizedName)

def enqueue (outcome : Nat → Bool) (deferred : List DeferredStage) : List QueuedStage :=
  deferred.filterMap fun d =>
    if h : d.bytes.length < 2 ^ 32 then some ⟨d, h, outcome d.offset⟩ else none

/-- `SarCaptureWorker` for a deferred stage. -/
def workOne (s : CacheState) (i : Nat) (env : StageEnv) (e : QueuedStage) : CacheState :=
  let P := sarCapturePreserveDestruction bc e env s.store
  let r :=
    if e.stage.backed then
      sarMmapReleaseStaged (sarPresRound16 (UInt64.ofNat e.stage.bytes.length)) s.stream.reserved P
    else (s.stream.reserved, P)
  { s with
    store := r.2
    stream := { s.stream with reserved := r.1 }
    queue := s.queue.eraseIdx i }

def CacheAct.apply (s : CacheState) : CacheAct → CacheState
  | inPlace env file named c offset length =>
    let info := if named then some name else none
    let r := sarCaptureInPlaceRegion bc env file info c offset length s.stream.cap s.store
    { s with store := r.store, stream := { s.stream with cap := r.cap } }
  | mapped env disk mode actor offset length outcome =>
    let r := sarMmapCaptureInline env disk mode actor offset length s.stream s.store
    { s with
      store := r.store
      stream := r.stream
      queue := s.queue ++ enqueue outcome r.deferred }
  | work i env =>
    match s.queue[i]? with
    | none => s
    | some e => workOne bc s i env e
  | keyCaptured offset length => { s with keys := (offset, length) :: s.keys }
  | store sec => { s with store := sec.apply bc s.store }

/-! ### What the cache promises -/

variable (gives : UInt64 × UInt64 → Nat → Prop)

def Expected (s : CacheState) (b : Nat) : Prop :=
  (∃ e ∈ s.queue, e.succeeds = true ∧ e.Has b) ∨ ∃ k ∈ s.keys, gives k b

/-- A live record covers the byte, a queued stage will, or a captured key gives it back. -/
def Accounted (s : CacheState) (b : Nat) : Prop :=
  CoveredBy s.store.records (copyName name) b ∨ Expected gives s b

def CacheAct.Skips (s : CacheState) : CacheAct → Nat → Prop
  | inPlace env file named c offset length, b =>
    InPlaceReached env file (if named then some name else none) c offset length s.store ∧
      offset.toNat ≤ b ∧ b < min (offset + length).toNat file.size ∧ s.stream.cap.Has b
  | mapped _ _ _ _ offset length _, b =>
    sarMmapRangeCovered s.stream.cap offset length = true ∧ offset.toNat ≤ b ∧
      b < (offset + length.toUInt64).toNat
  | _, _ => False

def CacheAct.Conforms (s : CacheState) : CacheAct → Prop
  | work i env =>
    ∀ e, s.queue[i]? = some e → (e.succeeds = true ↔
        ∀ b, e.Has b → CoveredBy (workOne bc s i env e).store.records (copyName name) b)
  | _ => True

/-- The step does not take the record away: it does not expire, is not evicted for room, lies in no
    range of a key, and keeps its path. -/
def CacheAct.Spares (s : CacheState) : CacheAct → PreserveRecord → Prop
  | inPlace env _ _ _ _ _, r =>
    (∀ n k, ((env.stage n).turn k).mode = .enforce) ∧
      ∀ n, ¬ Expired s.store.retention100ns (env.stage n).now r.captureTime
  | work _ env, r =>
    (∀ k, (env.turn k).mode = .enforce) ∧ ¬ Expired s.store.retention100ns env.now r.captureTime
  | store sec, r =>
    (sec.Enforced ∨ r.state = SAR_PRESERVE_PROTECTED) ∧ ¬ sec.Removable s.store r ∧
      ∀ old new h, sec = .call (.rename old new) h → old ≠ r.provenancePath
  | _, _ => True

/-- What a step enters in the cache is held: the bytes of a capture in place until it ends, those of
    a mapped write in queued chunks whose stages succeed. -/
def CacheAct.Fills (s : CacheState) : CacheAct → Prop
  | inPlace env file _ _ offset length =>
    (∀ n k, ((env.stage n).turn k).mode = .enforce) ∧
      ∀ b, offset.toNat ≤ b → b < min (offset + length).toNat file.size → ¬ s.stream.cap.Has b →
          StaysCovered env (copyName name) s.store
            (uncapturedChunks (min (offset + length).toNat file.size) s.stream.cap.ranges
              offset.toNat) b
  | mapped env _ _ _ offset length outcome =>
    ∀ b, WriteHas offset length b → ¬ s.stream.cap.Has b →
      env.Defers ((b - offset.toNat) / SAR_RAW_CHUNK) ∧
        outcome (offset.toNat + (b - offset.toNat) / SAR_RAW_CHUNK * SAR_RAW_CHUNK) = true
  | _ => True

/-- **The condition.**  A step takes away no last record of a cached byte that neither the queue nor
    a key accounts for, and enters in the cache what is held. -/
def CacheMet (s : CacheState) (act : CacheAct) : Prop :=
  (∀ b, s.stream.cap.Has b → CoveredBy s.store.records (copyName name) b → ¬ Expected gives s b →
      ∃ r ∈ s.store.records, RecCovers (copyName name) r b ∧ act.Spares s r) ∧
    act.Fills name s

end

/-! ### What staging keeps -/

section

variable {bc : BCrypt}

theorem mem_stage {args : StageArgs} {env : StageEnv} (hmode : ∀ n, (env.turn n).mode = .enforce)
    (hr : r ∈ P.records) (hfresh : ¬ Expired P.retention100ns env.now r.captureTime) :
    r ∈ (sarPreserveStage bc args env P).1.records := by
  unfold sarPreserveStage
  split
  · exact hr
  split
  · exact hr
  split
  · exact hr
  · exact stageLoop_keeps hmode (mem_liveRecords.mpr ⟨hr, hfresh⟩)

structure KeptByStaging (bc : BCrypt) (env : CaptureEnv) (Inv : Preserve → Prop) : Prop where
  stage : ∀ n Q args, Inv Q → Inv (sarPreserveStage bc args (env.stage n) Q).1
  evictAged : ∀ n Q, Inv Q → Inv (SemanticsAr.evictAged Q (env.stage n).now)

variable {path : ProvPath} {actor : UInt64} {Inv : Preserve → Prop}

variable (file path actor) in
theorem KeptByStaging.stageChunk (h : KeptByStaging bc env Inv) (n off len : Nat) (hP : Inv P) :
    Inv (SemanticsAr.stageChunk bc env file path actor n off len P).1 := by
  unfold SemanticsAr.stageChunk
  dsimp only
  split
  · exact h.evictAged n P hP
  · exact h.stage n P _ hP

theorem KeptByStaging.stageSpanLoop (h : KeptByStaging bc env Inv) (spanEnd off : Nat)
    (s : ViewStaging) (hs : Inv s.store) :
    Inv (SemanticsAr.stageSpanLoop bc env file path actor spanEnd off s).store := by
  fun_induction SemanticsAr.stageSpanLoop bc env file path actor spanEnd off s with
  | case1 off s hlt P hchunk =>
    have hnext := h.stageChunk file path actor s.calls off
      (min (spanEnd - off) SAR_PRESERVE_STAGE_MAX) hs
    rw [hchunk] at hnext
    exact hnext
  | case2 off s hlt P result hchunk ih =>
    have hnext := h.stageChunk file path actor s.calls off
      (min (spanEnd - off) SAR_PRESERVE_STAGE_MAX) hs
    rw [hchunk] at hnext
    exact ih hnext
  | case3 off s hge => exact hs

theorem KeptByStaging.stageUncaptured (h : KeptByStaging bc env Inv) (stop : Nat)
    (ranges : List CapRange) (cursor : Nat) (s : ViewStaging) (hs : Inv s.store) :
    Inv (SemanticsAr.stageUncaptured bc env file path actor stop ranges cursor s).store := by
  induction ranges generalizing cursor s with
  | nil =>
    unfold SemanticsAr.stageUncaptured
    split
    · exact h.stageSpanLoop stop cursor _ hs
    · exact hs
  | cons range ranges ih =>
    unfold SemanticsAr.stageUncaptured
    split
    · split
      · exact ih cursor s hs
      split
      · exact h.stageSpanLoop stop cursor _ hs
      · refine ih range.stop _ ?_
        split
        · exact h.stageSpanLoop _ cursor _ hs
        · exact hs
    · exact hs

theorem KeptByStaging.inPlaceRegion (h : KeptByStaging bc env Inv) {info : Option NormalizedName}
    {cap : CapTable} (hP : Inv P) :
    Inv (sarCaptureInPlaceRegion bc env file info c offset length cap P).store := by
  by_cases hreach : InPlaceReached env file info c offset length P
  · rw [inPlaceRegion_of_reached hreach]
    exact h.stageUncaptured _ _ _ ⟨P, 0, .stored⟩ hP
  · rw [inPlaceRegion_of_not_reached hreach]
    exact hP

end

/-! ### The steps -/

section

variable {bc : BCrypt} {name : NormalizedName} {gives : UInt64 × UInt64 → Nat → Prop}
  {s : CacheState}

variable (bc) in
theorem TableFits.ofSection (h : TableFits P) (sec : StoreSection) :
    TableFits (sec.apply bc P) := by
  obtain ⟨-, -, -, hfits⟩ := sec.leaves h
  exact hfits

theorem TableFits.stage (h : TableFits P) (args : StageArgs) (env : StageEnv) :
    TableFits (sarPreserveStage bc args env P).1 :=
  h.ofSection bc (.call (.stage args env) trivial)

theorem keptByStaging_tableFits : KeptByStaging bc env TableFits :=
  ⟨fun _ _ _ h => h.stage _ _, fun _ _ h => h.evictAged _⟩

theorem keptByStaging_mem {retention : UInt64}
    (hmode : ∀ n k, ((env.stage n).turn k).mode = .enforce)
    (hfresh : ∀ n, ¬ Expired retention (env.stage n).now r.captureTime) :
    KeptByStaging bc env fun Q => Q.retention100ns = retention ∧ r ∈ Q.records := by
  constructor
  · rintro n Q args ⟨rfl, hr⟩
    exact ⟨sarPreserveStage_frame.retention_eq, mem_stage (hmode n) hr (hfresh n)⟩
  · rintro n Q ⟨rfl, hr⟩
    exact ⟨rfl, mem_liveRecords.mpr ⟨hr, hfresh n⟩⟩

theorem mmapReserve_store (map : SarExtentMap) :
    (mmapReserve mode map S P).2 = P ∨ ∃ est, (mmapReserve mode map S P).2 =
      (sarPreserveReserve est P).1 := by
  unfold mmapReserve
  split
  · exact .inr ⟨_, rfl⟩
  · exact .inl rfl

theorem mapped_store (env : MmapEnv) (actor : UInt64)
    (length : UInt32) :
    (sarMmapCaptureInline env disk mode actor offset length S P).store = P ∨
      ∃ est, (sarMmapCaptureInline env disk mode actor offset length S P).store =
        (sarPreserveReserve est P).1 := by
  rcases sarMmapCaptureInline_cases env disk actor offset with
    ⟨hstore, -, -⟩ | ⟨map, -, -, -, -, hstore, -⟩
  · exact .inl hstore
  · rw [hstore]
    exact mmapReserve_store map

theorem workOne_store (env : StageEnv) :
    (workOne bc s i env e).store = sarCapturePreserveDestruction bc e env s.store ∨
      ∃ bytes, (workOne bc s i env e).store =
        sarPreserveRelease bytes (sarCapturePreserveDestruction bc e env s.store) := by
  unfold workOne sarMmapReleaseStaged
  split
  · split
    · exact .inl rfl
    · exact .inr ⟨_, rfl⟩
  · exact .inl rfl

theorem workOne_records (env : StageEnv) : (workOne bc s i env e).store.records =
      (sarCapturePreserveDestruction bc e env s.store).records := by
  rcases workOne_store env with hstore | ⟨bytes, hstore⟩
  · rw [hstore]
  · rw [hstore, sarPreserveRelease]
    split <;> rfl

theorem TableFits.cacheAct (h : TableFits s.store) : TableFits (act.apply bc name s).store := by
  cases act with
  | inPlace env file named c offset length =>
    exact keptByStaging_tableFits.inPlaceRegion h
  | mapped env disk mode actor offset length outcome =>
    show TableFits (sarMmapCaptureInline env disk mode actor offset length s.stream s.store).store
    rcases mapped_store env actor length with
      hstore | ⟨est, hstore⟩
    · rw [hstore]
      exact h
    · rw [hstore]
      exact h.ofSection bc (.call (.reserve est) trivial)
  | work i env =>
    unfold CacheAct.apply
    dsimp only
    split
    · exact h
    rename_i e _
    have hstage : TableFits (sarCapturePreserveDestruction bc e env s.store) := by
      unfold sarCapturePreserveDestruction
      split
      · exact h
      · exact h.stage _ _
    rcases workOne_store env with hstore | ⟨bytes, hstore⟩
    · rw [hstore]
      exact hstage
    · rw [hstore]
      exact hstage.ofSection bc (.call (.release bytes) trivial)
  | keyCaptured offset length => exact h
  | store sec => exact h.ofSection bc sec

theorem RecCovers.carry {path : ProvPath} {sec : StoreSection} (h : RecCovers path r b)
    (hpath : ∀ old new hop, sec = .call (.rename old new) hop → old ≠ r.provenancePath) :
    RecCovers path (sec.carry P r) b := by
  unfold StoreSection.carry
  split
  · split
    · unfold promoteRecord
      split
      · exact h
      · exact h
    · exact h
  next old new hop =>
    split
    · unfold renameRecord
      rw [if_neg fun heq => hpath old new hop rfl heq.symm]
      exact h
    · exact h
  · exact h

theorem CacheAct.Spares.covers (hspares : act.Spares s r) (hfits : TableFits s.store)
    (hr : r ∈ s.store.records) (hcov : RecCovers (copyName name) r b) :
    CoveredBy (act.apply bc name s).store.records (copyName name) b := by
  cases act with
  | inPlace env file named c offset length =>
    exact ⟨r, ((keptByStaging_mem hspares.1 hspares.2).inPlaceRegion ⟨rfl, hr⟩).2, hcov⟩
  | mapped env disk mode actor offset length outcome =>
    refine ⟨r, ?_, hcov⟩
    show r ∈ (sarMmapCaptureInline env disk mode actor offset length s.stream s.store).store.records
    rcases mapped_store env actor length with
      hstore | ⟨est, hstore⟩
    · rwa [hstore]
    · rw [hstore, sarPreserveReserve]
      split
      · exact hr
      · split <;> exact hr
  | work i env =>
    refine ⟨r, ?_, hcov⟩
    unfold CacheAct.apply
    dsimp only
    split
    · exact hr
    rw [workOne_records]
    unfold sarCapturePreserveDestruction
    split
    · exact hr
    · exact mem_stage hspares.1 hr hspares.2
  | keyCaptured offset length => exact ⟨r, hr, hcov⟩
  | store sec =>
    obtain ⟨hmode, hstays, hpath⟩ := hspares
    obtain ⟨kept, added, hleaves, -⟩ := sec.leaves hfits
    have hkept : r ∈ kept := by
      rcases hmode with hmode | hstate
      · exact (hleaves.enforced hmode).subset (mem_filter.mpr ⟨hr, by simpa using hstays⟩)
      · exact hleaves.pinned.subset (mem_filter.mpr ⟨hr, by simpa using ⟨hstate, hstays⟩⟩)
    refine ⟨sec.carry s.store r, ?_, hcov.carry hpath⟩
    show _ ∈ (sec.apply bc s.store).records
    rw [hleaves.records_eq]
    exact mem_append_left _ (mem_map_of_mem hkept)

theorem Expected.step (h : Expected gives s b) (hconf : act.Conforms bc name s) :
    Accounted name gives (act.apply bc name s) b := by
  rcases h with ⟨e, he, hsucc, hhas⟩ | ⟨key, hkey, hgives⟩
  · cases act with
    | inPlace env file named c offset length => exact .inr (.inl ⟨e, he, hsucc, hhas⟩)
    | mapped env disk mode actor offset length outcome =>
      exact .inr (.inl ⟨e, mem_append_left _ he, hsucc, hhas⟩)
    | work i env =>
      unfold CacheAct.apply
      dsimp only
      cases hi : s.queue[i]? with
      | none => exact .inr (.inl ⟨e, he, hsucc, hhas⟩)
      | some e' =>
        obtain ⟨j, hj⟩ := mem_iff_getElem?.mp he
        by_cases hij : j = i
        · rw [hij, hi] at hj
          cases hj
          exact .inl ((hconf e hi).mp hsucc b hhas)
        · exact .inr (.inl ⟨e, mem_eraseIdx_iff_getElem?.mpr ⟨j, hij, hj⟩, hsucc, hhas⟩)
    | keyCaptured offset length => exact .inr (.inl ⟨e, he, hsucc, hhas⟩)
    | store sec => exact .inr (.inl ⟨e, he, hsucc, hhas⟩)
  · cases act with
    | inPlace env file named c offset length => exact .inr (.inr ⟨key, hkey, hgives⟩)
    | mapped env disk mode actor offset length outcome => exact .inr (.inr ⟨key, hkey, hgives⟩)
    | work i env =>
      refine .inr (.inr ⟨key, ?_, hgives⟩)
      unfold CacheAct.apply
      dsimp only
      split
      · exact hkey
      · exact hkey
    | keyCaptured offset length => exact .inr (.inr ⟨key, mem_cons_of_mem _ hkey, hgives⟩)
    | store sec => exact .inr (.inr ⟨key, hkey, hgives⟩)

theorem CacheMet.keeps (hmet : CacheMet name gives s act) (hconf : act.Conforms bc name s)
    (hfits : TableFits s.store) (hcap : s.stream.cap.Has b) (hacc : Accounted name gives s b) :
    Accounted name gives (act.apply bc name s) b := by
  by_cases hexp : Expected gives s b
  · exact hexp.step hconf
  obtain ⟨r, hr, hcov, hspares⟩ := hmet.1 b hcap (hacc.resolve_right hexp) hexp
  exact .inl (hspares.covers hfits hr hcov)

theorem not_inPlaceReached_none : ¬ InPlaceReached env file none c offset length P := by
  intro h
  have hexempt : sarCapturePathExempt env.targetExempt (sarCaptureResolveProvenance none) = true :=
    rfl
  cases hexempt.symm.trans h.notExempt

theorem fills_inPlace (hfills : (CacheAct.inPlace env file true c offset length).Fills name s)
    (hold : ¬ s.stream.cap.Has b)
    (hnew : (sarCaptureInPlaceRegion bc env file (some name) c offset length s.stream.cap
      s.store).cap.Has b) :
    CoveredBy (sarCaptureInPlaceRegion bc env file (some name) c offset length s.stream.cap
      s.store).store.records (copyName name) b := by
  obtain ⟨hmode, hstays⟩ := hfills
  by_cases hreach : InPlaceReached env file (some name) c offset length s.store
  case neg =>
    rw [inPlaceRegion_of_not_reached hreach] at hnew
    exact absurd hnew hold
  rw [inPlaceRegion_of_reached hreach] at hnew ⊢
  dsimp only at hnew ⊢
  split at hnew
  case isFalse => exact absurd hnew hold
  rename_i hstored
  obtain ⟨hlo, hhi⟩ := (has_of_getD_insert hnew).resolve_right hold
  have hkept : (stageRegion bc env file (some name) c offset length s.stream.cap
      s.store).worst.lost = false := by
    rw [hstored]
    rfl
  have hmade := stageUncaptured_made _ _ _ _ hkept
  have hstop : min (offset + length).toNat file.size < 2 ^ 63 :=
    (Nat.min_le_right _ _).trans_lt file.size_lt
  exact (hmade.2.1.coveredBy_iff (uncapturedChunks_plan _ _ _) hstop (zeroPadded_copyName name)
    hmode).mpr (hstays b hlo hhi hold)

theorem fills_mapped {env : MmapEnv} {disk : Nat → UInt8} {mode : Mode} {actor : UInt64}
    {length : UInt32} {outcome : Nat → Bool}
    (hfills : (CacheAct.mapped env disk mode actor offset length outcome).Fills name s)
    (hold : ¬ s.stream.cap.Has b)
    (hnew : ((CacheAct.mapped env disk mode actor offset length outcome).apply bc name
      s).stream.cap.Has b) :
    Expected gives ((CacheAct.mapped env disk mode actor offset length outcome).apply bc name s)
      b := by
  unfold CacheAct.apply at hnew ⊢
  dsimp only at hnew ⊢
  rcases sarMmapCaptureInline_cases env disk actor offset with
    ⟨-, hstream, -⟩ | ⟨map, path, backed, oracleEligible, hend, -, hcap, hdeferred⟩
  · rw [hstream] at hnew
    exact absurd hnew hold
  rw [hcap] at hnew
  obtain ⟨hlo, hhi, hdefers⟩ := (inlineLoop_cap hend hnew).resolve_left hold
  have hhas : WriteHas offset length b := by
    refine ⟨hlo, hhi.trans_le ?_⟩
    rw [UInt64.toNat_add, UInt32.toNat_toUInt64]
    exact Nat.mod_le _ _
  obtain ⟨hdefer, hout⟩ := hfills b hhas hold
  rw [Nat.zero_add] at hdefers
  obtain ⟨d, hd, hoff, hlen⟩ := hdefers hdefer
  have hshort := (inlineLoop_deferred hend).2 (forall_mem_nil _) d hd
  have hlt : d.bytes.length < 2 ^ 32 := hshort.trans_lt (by decide)
  have hmem : (⟨d, hlt, outcome d.offset⟩ : QueuedStage) ∈ enqueue outcome
      (sarMmapCaptureInline env disk mode actor offset length s.stream s.store).deferred := by
    rw [hdeferred]
    exact mem_filterMap.mpr ⟨d, hd, dif_pos hlt⟩
  refine .inl ⟨_, mem_append_right _ hmem, ?_, ?_, hlen⟩
  · exact (congrArg outcome hoff).trans hout
  · show d.offset ≤ b
    rw [hoff]
    have := Nat.div_mul_le_self (b - offset.toNat) SAR_RAW_CHUNK
    omega

theorem CacheMet.fills (hmet : CacheMet name gives s act) (hold : ¬ s.stream.cap.Has b)
    (hnew : (act.apply bc name s).stream.cap.Has b) :
    Accounted name gives (act.apply bc name s) b := by
  cases act with
  | inPlace env file named c offset length =>
    cases named with
    | true => exact .inl (fills_inPlace hmet.2 hold hnew)
    | false =>
      refine absurd ?_ hold
      unfold CacheAct.apply at hnew
      dsimp only at hnew
      rwa [if_neg Bool.false_ne_true, inPlaceRegion_of_not_reached not_inPlaceReached_none]
        at hnew
  | mapped env disk mode actor offset length outcome =>
    exact .inr (fills_mapped hmet.2 hold hnew)
  | work i env =>
    refine absurd ?_ hold
    unfold CacheAct.apply at hnew
    dsimp only at hnew
    split at hnew
    · exact hnew
    · exact hnew
  | keyCaptured offset length => exact absurd hnew hold
  | store sec => exact absurd hnew hold

variable (name gives) in
def TellsTruth (s : CacheState) : Prop :=
  ∀ b, s.stream.cap.Has b → Accounted name gives s b

theorem TellsTruth.step (h : TellsTruth name gives s) (hfits : TableFits s.store)
    (hconf : act.Conforms bc name s) (hmet : CacheMet name gives s act) :
    TellsTruth name gives (act.apply bc name s) := by
  intro b hb
  by_cases hcap : s.stream.cap.Has b
  · exact hmet.keeps hconf hfits hcap (h b hcap)
  · exact hmet.fills hcap hb

theorem CacheAct.Skips.has (h : act.Skips name s b) : s.stream.cap.Has b := by
  cases act with
  | inPlace env file named c offset length => exact h.2.2.2
  | mapped env disk mode actor offset length outcome =>
    obtain ⟨hcovered, hlo, hhi⟩ := h
    obtain ⟨r, hr, hrange⟩ := any_eq_true.mp hcovered
    have hrange := of_decide_eq_true hrange
    exact ⟨r, hr, hrange.1.trans hlo, hhi.trans_le hrange.2⟩
  | work i env => exact h.elim
  | keyCaptured offset length => exact h.elim
  | store sec => exact h.elim

end

/-- **What is skipped is accounted for.**  In every run from an empty cache whose steps meet the
    condition, each byte that a capture skips is then covered by a live record of the path, in a
    queued stage that will succeed, or given back by a captured key. -/
theorem cache_tells_truth (bc : BCrypt) (name : NormalizedName)
    (gives : UInt64 × UInt64 → Nat → Prop) (s : CacheState) (acts : List CacheAct)
    (hreach : Reachable bc s.store) (hempty : s.stream.cap = .empty)
    (hacts : Each (CacheAct.apply bc name)
      (fun s act => act.Conforms bc name s ∧ CacheMet name gives s act) s acts) :
    Each (CacheAct.apply bc name)
      (fun s act => ∀ b, act.Skips name s b → Accounted name gives s b) s acts := by
  have hstart : TellsTruth name gives s := by
    intro b hb
    rw [hempty] at hb
    exact (inRanges_nil.mp hb).elim
  refine Each.imp_inv (fun s act (hinv : TableFits s.store ∧ TellsTruth name gives s) hstep => ?_)
    ⟨hreach.tableFits, hstart⟩ hacts
  obtain ⟨hfits, htruth⟩ := hinv
  exact ⟨⟨hfits.cacheAct, htruth.step hfits hstep.1 hstep.2⟩, fun b hb => htruth b hb.has⟩

def unseenStream : CacheState where
  store := freshStore firstLoad
  stream := ⟨some oneCluster, some (copyName plainName), .empty, 0, true⟩
  queue := []
  keys := []

def writeSixteen : CacheAct :=
  .inPlace { grantedCapture with stage := fun _ => grantedEnv 1 } zeroFile true userCaller 0 16

def mapSixteen (inflight : Nat) : CacheAct :=
  .mapped { grantedMmap with inflight := fun _ => inflight } (fun _ => 1) .enforce 7 0 16
    fun _ => true

theorem mapSixteen_fills (s : CacheState) : (mapSixteen 0).Fills plainName s := by
  intro b _ _
  exact ⟨⟨⟨show 0 < SAR_MMAP_INFLIGHT_CAP by decide, rfl, rfl⟩, rfl, rfl⟩, rfl⟩

/-- Two mapped writes of one range, with the worker between them. -/
theorem staged_range_accounted : Each (CacheAct.apply identityCrypt plainName)
      (fun s act => ∀ b, act.Skips plainName s b → Accounted plainName (fun _ _ => False) s b)
      unseenStream [mapSixteen 0, .work 0 (grantedEnv 1), mapSixteen 0] := by
  refine cache_tells_truth identityCrypt plainName (fun _ _ => False) unseenStream _
    (reachable_freshStore firstLoad) rfl
    ⟨⟨trivial, ?_, mapSixteen_fills _⟩, ⟨?_, ?_, trivial⟩, ⟨trivial, ?_, mapSixteen_fills _⟩,
      trivial⟩
  · exact fun b hb => (inRanges_nil.mp hb).elim
  · -- one record of the path has the 16 bytes of the item
    have hstaged : ∀ e ∈ ((mapSixteen 0).apply identityCrypt plainName unseenStream).queue[0]?,
        e.succeeds = true ∧ e.stage.offset = 0 ∧ e.stage.bytes.length = 16 ∧
          ∃ r ∈ (workOne identityCrypt ((mapSixteen 0).apply identityCrypt plainName unseenStream)
            0 (grantedEnv 1) e).store.records,
            r.provenancePath = copyName plainName ∧ r.provenanceOffset = 0 ∧
              r.provenanceLength = 16 := by
      decide +kernel
    intro e he
    obtain ⟨hsucc, hoff, hlen, r, hr, hpath, hfrom, hto⟩ := hstaged e he
    refine iff_of_true hsucc fun b hb => ⟨r, hr, hpath, ?_, ?_⟩
    · rw [hfrom]
      exact Nat.zero_le b
    · have hb := hb.2
      rw [hoff, hlen] at hb
      rw [hfrom, hto]
      exact hb
  · intro b _ hcov
    obtain ⟨r, hr, -⟩ := hcov
    exact absurd hr not_mem_nil
  · rintro b _ ⟨r, hr, hcov⟩ _
    exact ⟨r, hr, hcov, trivial⟩

/-- The cache outlives what it stands for: a captured range is skipped when its record has expired,
    and a mapped range whose stage was turned away because 128 were under way. -/
theorem lost_range_skipped :
    let skipsHeld : CacheState → CacheAct → Prop := fun s act =>
      ∀ b, act.Skips plainName s b → Accounted plainName (fun _ _ => True) s b
    Reachable identityCrypt unseenStream.store ∧ unseenStream.stream.cap = .empty ∧
      ¬ Each (CacheAct.apply identityCrypt plainName) skipsHeld unseenStream
        [writeSixteen, .store (.evict (2 ^ 60)), writeSixteen] ∧
      ¬ Each (CacheAct.apply identityCrypt plainName) skipsHeld unseenStream
        [mapSixteen 128, mapSixteen 0] := by
  refine ⟨reachable_freshStore firstLoad, rfl, ?_, ?_⟩
  · rintro ⟨-, -, hskips, -⟩
    have hskipped : writeSixteen.Skips plainName ((CacheAct.store (.evict (2 ^ 60))).apply
        identityCrypt plainName (writeSixteen.apply identityCrypt plainName unseenStream)) 0 := by
      refine ⟨⟨by decide +kernel, rfl, by decide, by decide +kernel, rfl, rfl, rfl, rfl,
        by decide⟩, by decide, by decide, ?_⟩
      show ∃ r ∈ (writeSixteen.apply identityCrypt plainName unseenStream).stream.cap.ranges,
        r.start ≤ 0 ∧ 0 < r.stop
      decide +kernel
    rcases hskips 0 hskipped with hcov | ⟨e, he, -⟩ | ⟨key, hkey, -⟩
    · exact absurd hcov (by decide +kernel)
    · exact absurd he not_mem_nil
    · exact absurd hkey not_mem_nil
  · rintro ⟨-, hskips, -⟩
    have hskipped : (mapSixteen 0).Skips plainName
        ((mapSixteen 128).apply identityCrypt plainName unseenStream) 0 :=
      ⟨by decide +kernel, by decide, by decide⟩
    rcases hskips 0 hskipped with hcov | ⟨e, he, -⟩ | ⟨key, hkey, -⟩
    · exact absurd hcov (by decide +kernel)
    · have hqueue : ((mapSixteen 128).apply identityCrypt plainName unseenStream).queue = [] :=
        isEmpty_iff.mp (by decide +kernel)
      rw [hqueue] at he
      exact absurd he not_mem_nil
    · exact absurd hkey not_mem_nil

end SemanticsAr
