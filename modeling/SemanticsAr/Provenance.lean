import SemanticsAr.PreserveWrites

/-!
# The names of files

The store knows a file by a buffer of `SEMANTICS_AR_PROVENANCE_PATH_MAX` code
units.  This module follows a normalized name through the routines of `capture.c`
that copy it into such a buffer, up to the comparisons of the store, and says
which two files the store cannot tell apart.
-/

namespace SemanticsAr

open List

variable {bc : BCrypt} {P : Preserve} {records : List PreserveRecord} {p path stale : ProvPath}
  {r : PreserveRecord}

/-! ### From the name to the buffer -/

structure NormalizedName where
  units : List UInt16
  noNul : ∀ c ∈ units, c ≠ 0

variable {name : NormalizedName}

theorem noNul_of_all {units : List UInt16} (h : units.all (· != 0) = true) : ∀ c ∈ units, c ≠ 0 :=
  fun c hc => bne_iff_ne.mp (all_eq_true.mp h c hc)

/-- The loop all resolving routines share: at most
    `SEMANTICS_AR_PROVENANCE_PATH_MAX - 1` units into a zeroed buffer. -/
def copyName (name : NormalizedName) : ProvPath :=
  pathOf (name.units.take (SEMANTICS_AR_PROVENANCE_PATH_MAX - 1))
    ((length_take_le _ _).trans (Nat.sub_le _ _))

/-- `SarCaptureResolveProvenance`; without a name the buffer stays zeroed, which
    `SarCapturePathExempt` exempts. -/
def sarCaptureResolveProvenance (info : Option NormalizedName) : ProvPath :=
  match info with
  | none => Vector.replicate _ 0
  | some name => copyName name

def sarCaptureResolveProvenanceFo (info : Option NormalizedName) : ProvPath :=
  match info with
  | none => Vector.replicate _ 0
  | some name => copyName name

/-- The path `SarCaptureSubmitRenameTarget` preserves the target under. -/
def renameTargetPath (destName : NormalizedName) : ProvPath := copyName destName

/-- `SarMmapResolvePath` keeps the path a stream already has. -/
def sarMmapResolvePath (mmapPath : Option ProvPath) (info : Option NormalizedName) (pool : Bool) :
    Option ProvPath :=
  match mmapPath, info with
  | some path, _ => some path
  | none, none => none
  | none, some name => if pool then some (copyName name) else none

def workText (path : ProvPath) : List UInt16 :=
  (pathText path).take (SEMANTICS_AR_PROVENANCE_PATH_MAX - 1)

theorem length_workText_le (path : ProvPath) : (workText path).length ≤ 259 :=
  length_take_le _ _

/-- The copy into the work item in `SarMmapDeferPreserve` and
    `SarCaptureSubmitWrite`: what the item held before stays behind the zero. -/
def workPath (stale path : ProvPath) : ProvPath :=
  ⟨(workText path ++ 0 :: stale.toList.drop ((workText path).length + 1)).toArray, by
    have hlen := length_workText_le path
    simp only [size_toArray, length_append, length_cons, length_drop,
      Vector.length_toList, SEMANTICS_AR_PROVENANCE_PATH_MAX]
    omega⟩

def NormalizedName.kept (name : NormalizedName) : List UInt16 :=
  name.units.take (SEMANTICS_AR_PROVENANCE_PATH_MAX - 1)

theorem NormalizedName.length_kept_le : name.kept.length ≤ SEMANTICS_AR_PROVENANCE_PATH_MAX - 1 :=
  length_take_le _ _

theorem copyName_toList : (copyName name).toList =
    name.kept ++ replicate (SEMANTICS_AR_PROVENANCE_PATH_MAX - name.kept.length) 0 := rfl

@[simp] theorem pathText_copyName : pathText (copyName name) = name.kept :=
  pathText_of_append copyName_toList (fun c hc => name.noNul c (mem_of_mem_take hc))
    fun _ => head?_replicate_zero

theorem zeroPadded_copyName (name : NormalizedName) : ZeroPadded (copyName name) := by
  apply Vector.toList_inj.mp
  rw [copyPath_toList, pathText_copyName, copyName_toList]

theorem pathText_workItem : pathText (workPath stale path) = workText path := by
  have hlist : (workPath stale path).toList =
      workText path ++ 0 :: stale.toList.drop ((workText path).length + 1) := rfl
  refine pathText_of_append hlist ?_ ?_
  · exact fun c hc => pathText_ne_zero c (mem_of_mem_take hc)
  · intro c hc
    exact (Option.some.inj hc).symm

theorem pathText_workPath
    (h : (pathText path).length ≤ SEMANTICS_AR_PROVENANCE_PATH_MAX - 1) :
    pathText (workPath stale path) = pathText path := by
  rw [pathText_workItem]
  exact take_of_length_le h

inductive PathOf (name : NormalizedName) : ProvPath → Prop
  | resolved : PathOf name (sarCaptureResolveProvenance (some name))
  | resolvedFo : PathOf name (sarCaptureResolveProvenanceFo (some name))
  | renameTarget : PathOf name (renameTargetPath name)
  | rekey : PathOf name (copyName name)
  | mapped {p : ProvPath} : sarMmapResolvePath none (some name) true = some p → PathOf name p
  | work {p : ProvPath} (stale : ProvPath) : PathOf name p → PathOf name (workPath stale p)
  | stored {p : ProvPath} : PathOf name p → PathOf name (copyPath p)

theorem PathOf.text (h : PathOf name p) : pathText p = name.kept := by
  induction h with
  | resolved => exact pathText_copyName
  | resolvedFo => exact pathText_copyName
  | renameTarget => exact pathText_copyName
  | rekey => exact pathText_copyName
  | mapped hp =>
    cases hp
    exact pathText_copyName
  | work stale _ ih =>
    rw [pathText_workPath (ih ▸ name.length_kept_le), ih]
  | stored _ ih => rw [pathText_copyPath, ih]

/-! ### Holds of a file -/

/-- The records that are in the table on behalf of a file: staged or linked under
    one of its buffers, moved to its name by a rename, or promoted later. -/
inductive HeldFor (bc : BCrypt) : NormalizedName → PreserveRecord → Prop
  | staged {name : NormalizedName} {args : StageArgs} {env : StageEnv} {P : Preserve}
      {r : PreserveRecord} (hpath : PathOf name args.path)
      (hnew : r ∈ (sarPreserveStage bc args env P).1.records) (hold : r ∉ P.records) :
      HeldFor bc name r
  | linked {name : NormalizedName} {path : ProvPath} {fileSize actorId linkId now : UInt64}
      {causingPath : ProvPath} {P : Preserve} {r : PreserveRecord} (hpath : PathOf name path)
      (hnew : r ∈ (sarPreserveStageLink path fileSize actorId linkId now causingPath P).1.records)
      (hold : r ∉ P.records) : HeldFor bc name r
  | renamed {old : NormalizedName} {r : PreserveRecord} (name : NormalizedName)
      (h : HeldFor bc old r) : HeldFor bc name { r with provenancePath := copyName name }
  | promoted {name : NormalizedName} {r : PreserveRecord} (actorId : UInt64)
      (h : HeldFor bc name r) : HeldFor bc name (promoteRecord actorId r)

theorem stage_new_path {args : StageArgs} {env : StageEnv}
    (hnew : r ∈ (sarPreserveStage bc args env P).1.records) (hold : r ∉ P.records) :
    r.provenancePath = copyPath args.path := by
  obtain ⟨kept, added, htable, -⟩ := sarPreserveStage_effect
  rw [htable.records_eq] at hnew
  rcases mem_append.mp hnew with hr | hr
  · exact absurd (htable.kept_sub.subset hr) hold
  · exact (stageCallLog_origin r (htable.added_sub.subset hr)).path_eq

theorem stageLink_new_path {fileSize actorId linkId now : UInt64} {causingPath : ProvPath}
    (hnew : r ∈ (sarPreserveStageLink path fileSize actorId linkId now causingPath P).1.records)
    (hold : r ∉ P.records) : r.provenancePath = copyPath path := by
  have haged : r ∉ (evictAged P now).records := fun hr => hold (mem_of_mem_filter hr)
  rcases sarPreserveStageLink_cases (Prod.eta _).symm with
    ⟨status, -, hsame | hsame⟩ | ⟨-, hcount, hsame⟩
  · rw [hsame] at hnew
    exact absurd hnew hold
  · rw [hsame] at hnew
    exact absurd hnew haged
  · rw [hsame] at hnew
    rcases appendRecord_cases (evictAged P now)
      (linkRecord path fileSize actorId linkId now causingPath) hcount with ⟨-, happ⟩ | ⟨-, happ⟩
    · rw [happ] at hnew
      exact absurd hnew haged
    · rw [happ] at hnew
      rcases mem_append.mp hnew with hr | hr
      · exact absurd hr haged
      · rw [mem_singleton.mp hr]
        rfl

theorem HeldFor.text (h : HeldFor bc name r) : pathText r.provenancePath = name.kept := by
  induction h with
  | staged hpath hnew hold => rw [stage_new_path hnew hold, pathText_copyPath, hpath.text]
  | linked hpath hnew hold => rw [stageLink_new_path hnew hold, pathText_copyPath, hpath.text]
  | renamed name _ _ => exact pathText_copyName
  | promoted actorId _ ih =>
    unfold promoteRecord
    split
    · exact ih
    · exact ih

/-! ### What the store does with a record of another path -/

theorem foldl_filter_of_idle {α β : Type} {step : β → α → β} {keep : α → Bool} {xs : List α}
    (h : ∀ x ∈ xs, keep x = false → ∀ acc, step acc x = acc) (acc : β) :
    (xs.filter keep).foldl step acc = xs.foldl step acc := by
  induction xs generalizing acc with
  | nil => rfl
  | cons x xs ih =>
    have htail := ih fun y hy => h y (mem_cons_of_mem _ hy)
    by_cases hx : keep x = true
    · rw [filter_cons_of_pos hx, foldl_cons, foldl_cons, htail]
    · rw [filter_cons_of_neg hx, foldl_cons, h x mem_cons_self (by simpa using hx), htail]

theorem sarPreserveFirstGap_filter {keep : PreserveRecord → Bool}
    (h : ∀ r ∈ records, keep r = false → r.provenancePath ≠ path) (offset length : UInt64) :
    sarPreserveFirstGap (records.filter keep) path offset length =
      sarPreserveFirstGap records path offset length := by
  have hcover (cursor : UInt64) :
      coverScan (records.filter keep) path cursor = coverScan records path cursor :=
    foldl_filter_of_idle (fun r hr hk _ => if_pos (h r hr hk)) _
  have hgap (cursor last : UInt64) :
      gapEndScan (records.filter keep) path cursor last = gapEndScan records path cursor last :=
    foldl_filter_of_idle (fun r hr hk _ => if_pos (h r hr hk)) _
  have hloop (last cursor : UInt64) : firstGapLoop (records.filter keep) path last cursor =
        firstGapLoop records path last cursor := by
    fun_induction firstGapLoop records path last cursor with
    | case1 cursor hlt hcov ih => rw [firstGapLoop, if_pos hlt, hcover, if_pos hcov, ih]
    | case2 cursor hlt hcov => rw [firstGapLoop, if_pos hlt, hcover, if_neg hcov, hgap]
    | case3 cursor hge => rw [firstGapLoop, if_neg hge]
  exact hloop _ _

theorem mem_reapLoop {match? : PreserveRecord → Bool} :
    r ∈ reapLoop match? records ↔ r ∈ records ∧ match? r = false := by
  constructor
  · intro hr
    refine ⟨(reapLoop_sublist match? records).mem hr, ?_⟩
    fun_induction reapLoop match? records with
    | case1 records hany ih => exact ih hr
    | case2 records hany =>
      exact Bool.eq_false_iff.mpr fun hmatch => hany (any_eq_true.mpr ⟨r, hr, hmatch⟩)
  · rintro ⟨hr, hmatch⟩
    fun_induction reapLoop match? records with
    | case1 records hany ih => exact ih ((mem_eraseP_of_neg (by simp [hmatch])).mpr hr)
    | case2 records hany => exact hr

/-- Nothing the store does for the path uses the record: it covers no position and changes no first
    gap, append or namespace collision; reconcile and rename keep it; and no restore returns it. -/
structure Unused (r : PreserveRecord) (path : ProvPath) : Prop where
  covers : ∀ b, ¬ RecCovers path r b
  firstGap : ∀ records offset length,
    sarPreserveFirstGap (records.filter (· ≠ r)) path offset length =
      sarPreserveFirstGap records path offset length
  covered : ∀ records offset length,
    sarPreserveCovered (records.filter (· ≠ r)) path offset length =
      sarPreserveCovered records path offset length
  collision : ∀ P fileSize actorId linkId now causingPath,
    (sarPreserveStageLink path fileSize actorId linkId now causingPath P).2 =
        .error .objectNameCollision →
      ∃ s ∈ P.records, s ≠ r ∧ s.kind = SAR_PRESERVE_KIND_NAMESPACE ∧ s.provenancePath = path
  reconciled : ∀ P keyOffset keyLength, r ∈ P.records →
    r ∈ (sarPreserveReconcileRange path keyOffset keyLength P).records
  renamed : ∀ P newPath, r ∈ P.records → r ∈ (sarPreserveRename path newPath P).records
  restored : ∀ P offset length outCap, restoreLookup path offset length outCap P ≠ .ok r

theorem Unused.of_ne (h : r.provenancePath ≠ path) : Unused r path where
  covers b hb := h hb.1
  firstGap records offset length := by
    apply sarPreserveFirstGap_filter
    intro s _ hs
    have heq : s = r := by simpa using hs
    rwa [heq]
  covered records offset length := by
    unfold sarPreserveCovered
    rw [any_filter]
    congr 1
    funext s
    by_cases hs : s = r
    · simp [hs, h]
    · simp [hs]
  collision P fileSize actorId linkId now causingPath hres := by
    unfold sarPreserveStageLink at hres
    split at hres
    · cases hres
    split at hres
    next hany =>
      obtain ⟨s, hs, hmatch⟩ := any_eq_true.mp hany
      simp only [Bool.and_eq_true, beq_iff_eq] at hmatch
      exact ⟨s, hs, fun heq => h (heq ▸ hmatch.2), hmatch.1.1, hmatch.2⟩
    dsimp only at hres
    split at hres <;> cases hres
  reconciled P keyOffset keyLength hr := by
    have hkeep : reconcileRemoves path keyOffset keyLength r = false := by
      simp [reconcileRemoves, h]
    unfold sarPreserveReconcileRange
    split
    · exact hr
    · refine mem_filter.mpr ⟨mem_reapLoop.mpr ⟨hr, ?_⟩, by simp [hkeep]⟩
      rw [hkeep, Bool.and_false]
  renamed P newPath hr := by
    unfold sarPreserveRename
    split
    · exact hr
    · exact mem_map.mpr ⟨r, hr, if_neg h⟩
  restored P offset length outCap := by
    unfold restoreLookup
    split
    · simp
    split
    · simp
    split
    · simp
    next s hfind =>
      intro heq
      cases heq
      have hmatch := find?_some hfind
      simp only [restoreMatch, Bool.and_eq_true, beq_iff_eq] at hmatch
      exact h hmatch.2

/-! ### Files the store cannot tell apart -/

def NeverShared (bc : BCrypt) (a b : NormalizedName) : Prop :=
  ∀ r, HeldFor bc a r → ∀ path, PathOf b path → Unused r path

theorem heldFor_linkRecord :
    HeldFor bc name (linkRecord (copyName name) 1 0 0 0 (Vector.replicate _ 0)) := by
  have hrecords : (sarPreserveStageLink (copyName name) 1 0 0 0 (Vector.replicate _ 0)
      readyStore).1.records = [linkRecord (copyName name) 1 0 0 0 (Vector.replicate _ 0)] := rfl
  have hnew := mem_singleton_self
    (linkRecord (copyName name) 1 0 0 0 (Vector.replicate _ 0))
  rw [← hrecords] at hnew
  exact .linked .rekey hnew not_mem_nil

def longName (last : UInt16) (h : last ≠ 0) : NormalizedName where
  units := replicate 259 97 ++ [last]
  noNul c hc := by
    rcases mem_append.mp hc with hc | hc
    · rw [eq_of_mem_replicate hc]
      decide
    · rwa [mem_singleton.mp hc]

end SemanticsAr
