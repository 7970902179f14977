import SemanticsAr.CapCache
import SemanticsAr.Destruction
import SemanticsAr.Refusal

/-!
# The capture calls at the store

`Destruction` follows the capture calls on sets of positions.  Here the routines of `Capture`
are seen to do just that to the records of the store: with everything granted and no record
past its retention time, the positions that the records of the path cover afterwards, and
whether the path has a link, are those of the set model.
-/

namespace SemanticsAr

open HoldTimes List

variable {Q P : Preserve} {path causingPath : ProvPath} {actor size linkId now : UInt64}
  {bc : BCrypt} {env : CaptureEnv} {file : FileContent} {b lo hi : Nat} {chunks : List (Nat × Nat)}

/-! ### When nothing ages out -/

/-- No record passes its retention time during the capture, neither an old one nor one that it
    makes. -/
structure Lasting (env : CaptureEnv) (P : Preserve) : Prop where
  old : ∀ n, ∀ r ∈ P.records, ¬ Expired P.retention100ns (env.stage n).now r.captureTime
  new : ∀ n m, ¬ Expired P.retention100ns (env.stage n).now (env.stage m).now

theorem chunkVisits_eq (n : Nat) : chunkVisits env b n chunks = (chunks.zipIdx n).map fun c =>
    ⟨(env.stage c.2).now, c.1.1 ≤ b ∧ b < c.1.1 + c.1.2⟩ := by
  induction chunks generalizing n with
  | nil => rfl
  | cons c chunks ih => exact congrArg (_ :: ·) (ih (n + 1))

theorem staysCovered_iff (hlast : Lasting env P) :
    StaysCovered env path P chunks b ↔ CoveredBy P.records path b ∨ InChunks chunks b := by
  unfold StaysCovered
  rw [chunkVisits_eq, staysHeld_iff_of_fresh]
  · refine or_congr ⟨?_, ?_⟩ ⟨?_, ?_⟩
    · exact fun ⟨_, r, hr, hcov, _⟩ => ⟨r, hr, hcov⟩
    · exact fun ⟨r, hr, hcov⟩ => ⟨_, r, hr, hcov, rfl⟩
    · rintro ⟨_, hv, hin⟩
      obtain ⟨c, hc, rfl⟩ := mem_map.mp hv
      exact ⟨c.1, fst_mem_of_mem_zipIdx hc, hin⟩
    · rintro ⟨c, hc, hin⟩
      rw [← zipIdx_map_fst 0 chunks] at hc
      obtain ⟨v, hv, rfl⟩ := mem_map.mp hc
      exact ⟨_, mem_map_of_mem hv, hin⟩
  · rintro v hv t ⟨r, hr, -, rfl⟩
    obtain ⟨c, -, rfl⟩ := mem_map.mp hv
    exact hlast.old c.2 r hr
  · intro v hv w hw
    obtain ⟨c, -, rfl⟩ := mem_map.mp hv
    obtain ⟨d, -, rfl⟩ := mem_map.mp hw
    exact hlast.new c.2 d.2

/-! ### Links -/

structure KeepsLinks (P Q : Preserve) : Prop where
  retention : Q.retention100ns = P.retention100ns
  old : ∀ r ∈ P.records, r ∈ Q.records
  namespace_old : ∀ r ∈ Q.records, r.kind = SAR_PRESERVE_KIND_NAMESPACE → r ∈ P.records

theorem KeepsLinks.linkExists_iff (h : KeepsLinks P Q) : LinkExists path Q ↔ LinkExists path P := by
  constructor
  · rintro ⟨r, hr, hkind, hrest⟩
    exact ⟨r, h.namespace_old r hr hkind, hkind, hrest⟩
  · rintro ⟨r, hr, hlink⟩
    exact ⟨r, h.old r hr, hlink⟩

theorem keptByStaging_keepsLinks (hlast : Lasting env P)
    (hmode : ∀ n k, ((env.stage n).turn k).mode = .enforce) :
    KeptByStaging bc env (KeepsLinks P) := by
  have hfresh : ∀ {Q}, KeepsLinks P Q → ∀ n, ∀ r ∈ P.records,
      ¬ Expired Q.retention100ns (env.stage n).now r.captureTime := by
    intro Q h n r hr
    rw [h.retention]
    exact hlast.old n r hr
  constructor
  · intro n Q args h
    refine ⟨sarPreserveStage_frame.retention_eq.trans h.retention, fun r hr => ?_,
      fun r hr hkind => ?_⟩
    · exact mem_stage (hmode n) (h.old r hr) (hfresh h n r hr)
    · exact h.namespace_old r (mem_of_namespace_stage hr hkind) hkind
  · intro n Q h
    refine ⟨h.retention, fun r hr => ?_, fun r hr hkind => ?_⟩
    · exact mem_liveRecords.mpr ⟨h.old r hr, hfresh h n r hr⟩
    · exact h.namespace_old r (mem_liveRecords.mp hr).1 hkind

theorem KeepsLinks.refl (P : Preserve) : KeepsLinks P P :=
  ⟨rfl, fun _ hr => hr, fun _ hr _ => hr⟩

/-! ### The calls -/

/-- The set model has the store as it is: the positions that the records of the path cover,
    those of the cache among them, and whether the path has a link. -/
structure Stands (name : NormalizedName) (P : Preserve) (cap : CapTable) (s : FileState) :
    Prop where
  claimed : ∀ b, s.claimed b = true ↔ CoveredBy P.records (copyName name) b
  hasLink : s.hasLink = true ↔ LinkExists (copyName name) P
  cap : ∀ b, cap.Has b → s.claimed b = true

structure Grants (env : CaptureEnv) (name : NormalizedName) (s : FileState) : Prop where
  streamContext : env.streamContext = s.stream.isSome
  sectionContext : env.sectionContext = true
  createSection : env.createSection = true
  mapView : env.mapView = true
  queryInfo : env.queryInfo = true
  notExempt : sarCapturePathExempt env.targetExempt (copyName name) = false
  enforced : ∀ n j, ((env.stage n).turn j).mode = .enforce

/-! A file of zeros is open and the store is empty. -/

def grantedOnce : CaptureEnv := { grantedCapture with stage := fun _ => grantedEnv 1 }

def openedZeros : FileState := { FileState.untouched 16 with stream := some .fresh }

theorem openedZeros_stands : Stands plainName readyStore .empty openedZeros :=
  ⟨fun _ => iff_of_false Bool.false_ne_true fun ⟨_, hr, _⟩ => not_mem_nil hr,
    iff_of_false Bool.false_ne_true fun ⟨_, hr, _⟩ => not_mem_nil hr,
    fun _ ⟨_, hr, _⟩ => absurd hr not_mem_nil⟩

theorem openedZeros_grants : Grants grantedOnce plainName openedZeros :=
  ⟨rfl, rfl, rfl, rfl, rfl, by decide +kernel, fun _ _ => rfl⟩

theorem grantedOnce_lasting : Lasting grantedOnce readyStore :=
  ⟨fun _ _ hr => absurd hr not_mem_nil, fun _ _ h => UInt64.lt_irrefl _ h.1⟩

section

variable {name : NormalizedName} {k : FileSetting} {cap : CapTable} {s : FileState}

theorem Stands.stageView (h : Stands name P cap s) {cap' : CapTable}
    (hcovered : ∀ b, CoveredBy Q.records (copyName name) b ↔ CoveredBy P.records (copyName name) b ∨
      (lo ≤ b ∧ b < hi)) (hlinks : KeepsLinks P Q)
    (hcap : ∀ b, cap'.Has b → cap.Has b ∨ (lo ≤ b ∧ b < hi)) :
    Stands name Q cap' (s.stageView lo hi) := by
  have hclaimed : ∀ b, (s.stageView lo hi).claimed b = true ↔
      s.claimed b = true ∨ (lo ≤ b ∧ b < hi) := by
    intro b
    simp [FileState.stageView, FileState.stage]
  refine ⟨fun b => ?_, ?_, fun b hb => ?_⟩
  · rw [hclaimed, h.claimed, hcovered]
  · exact h.hasLink.trans hlinks.linkExists_iff.symm
  · rw [hclaimed]
    rcases hcap b hb with hb | hb
    · exact .inl (h.cap b hb)
    · exact .inr hb

theorem StagedChunks.covers_range (hmade : StagedChunks bc env file path actor 0 chunks P Q)
    (hplan : ChunkPlan lo hi chunks) (hhi : hi < 2 ^ 63) (hpath : ZeroPadded path)
    (hmode : ∀ n j, ((env.stage n).turn j).mode = .enforce) (hlast : Lasting env P)
    (hrest : ∀ b, lo ≤ b → b < hi → CoveredBy P.records path b ∨ InChunks chunks b) (b : Nat) :
    CoveredBy Q.records path b ↔ CoveredBy P.records path b ∨ (lo ≤ b ∧ b < hi) := by
  rw [hmade.coveredBy_iff hplan hhi hpath hmode, staysCovered_iff hlast]
  constructor
  · rintro (hcov | hin)
    · exact .inl hcov
    · exact .inr (hplan.bounds_of_inChunks hin)
  · rintro (hcov | ⟨hlo, hlt⟩)
    · exact .inl hcov
    · exact hrest b hlo hlt

/-- `SarCaptureInPlaceRegion` does what the set model says of its range. -/
theorem inPlaceRegion_stands (h : Stands name P cap s) (hgrants : Grants env name s)
    (hlast : Lasting env P) (hready : P.ready = true) (hsize : file.size = s.size.toNat)
    (offset length : UInt64)
    (hkept : (sarCaptureInPlaceRegion bc env file (some name) k.caller offset length cap
      P).result.lost = false) :
    let res := sarCaptureInPlaceRegion bc env file (some name) k.caller offset length cap P
    Stands name res.store res.cap (s.capture k (.inPlaceRegion offset length)) := by
  have hlinks : KeepsLinks P
      (sarCaptureInPlaceRegion bc env file (some name) k.caller offset length cap P).store :=
    (keptByStaging_keepsLinks hlast hgrants.enforced).inPlaceRegion (.refl P)
  unfold FileState.capture
  dsimp only
  rw [← hgrants.streamContext, ← hsize]
  by_cases hreach : InPlaceReached env file (some name) k.caller offset length P
  · rw [inPlaceRegion_of_reached hreach] at hkept hlinks ⊢
    rw [if_pos hreach.streamContext]
    have hmade := stageUncaptured_made _ _ _ _ hkept
    have hplan := uncapturedChunks_plan (min (offset + length).toNat file.size) cap.ranges
      offset.toNat
    have hstop : min (offset + length).toNat file.size < 2 ^ 63 :=
      (min_le_right _ _).trans_lt file.size_lt
    refine h.stageView (hmade.2.1.covers_range hplan hstop (zeroPadded_copyName name)
      hgrants.enforced hlast fun b hlo hhi => ?_) hlinks fun b hb => ?_
    · by_cases hcap : cap.Has b
      · exact .inl ((h.claimed b).mp (h.cap b hcap))
      · exact .inr (inChunks_uncaptured hlo hhi hcap)
    · dsimp only at hb
      split at hb
      · exact (has_of_getD_insert hb).symm
      · exact .inl hb
  · rw [inPlaceRegion_of_not_reached hreach]
    by_cases hstream : env.streamContext = true
    · rw [if_pos hstream]
      have hempty : ∀ b, ¬ (offset.toNat ≤ b ∧ b < min (offset + length).toNat file.size) := by
        rintro b ⟨hlo, hhi⟩
        refine hreach ⟨hready, rfl, ?_, hgrants.notExempt, hstream, hgrants.sectionContext,
          hgrants.createSection, hgrants.mapView, hlo.trans_lt hhi⟩
        rintro rfl
        rw [UInt64.add_zero] at hhi
        omega
      refine h.stageView (fun b => ?_) (.refl P) fun b hb => .inl hb
      exact ⟨.inl, fun hb => hb.resolve_right (hempty b)⟩
    · rw [if_neg hstream]
      exact h

theorem inPlaceRegion_stands_zeros :
    let res := sarCaptureInPlaceRegion identityCrypt grantedOnce zeroFile (some plainName)
      (userFile false).caller 0 16 .empty readyStore
    Stands plainName res.store res.cap
      (openedZeros.capture (userFile false) (.inPlaceRegion 0 16)) :=
  inPlaceRegion_stands openedZeros_stands openedZeros_grants grantedOnce_lasting rfl rfl 0 16
    (by decide +kernel)

/-- `SarCaptureWholeContent` stages the whole file. -/
theorem wholeContent_stands (h : Stands name P cap s) (hgrants : Grants env name s)
    (hlast : Lasting env P) (hsize : file.size = s.size.toNat)
    (hkept : (sarCaptureWholeContent bc env file (copyName name) actor P).2.lost = false) :
    Stands name (sarCaptureWholeContent bc env file (copyName name) actor P).1 cap
      (s.stageView 0 s.size.toNat) := by
  have hcalls : ¬ (env.sectionContext = false ∨ env.createSection = false) := by
    simp [hgrants.sectionContext, hgrants.createSection]
  unfold sarCaptureWholeContent at hkept ⊢
  rw [if_neg (by simp [hgrants.notExempt]), if_neg hcalls] at hkept ⊢
  rw [← hsize]
  by_cases hpos : 0 < file.size
  · rw [if_pos ⟨hpos, hgrants.mapView⟩] at hkept ⊢
    have hlinks : KeepsLinks P (sarCaptureStageSpan bc env file (copyName name) actor 0 file.size P
        0).store :=
      (keptByStaging_keepsLinks hlast hgrants.enforced).stageSpanLoop _ _ ⟨P, 0, .stored⟩ (.refl P)
    have hmade := stageSpanLoop_made file.size 0 ⟨P, 0, .stored⟩ hkept
    exact h.stageView (hmade.2.1.covers_range (spanChunks_plan _ _) file.size_lt
      (zeroPadded_copyName name) hgrants.enforced hlast fun b hlo hhi =>
        .inr (inChunks_span hlo hhi)) hlinks fun _ hb => .inl hb
  · rw [if_neg fun hcond => hpos hcond.1]
    refine h.stageView (fun b => ?_) (.refl P) fun _ hb => .inl hb
    exact ⟨.inl, fun hb => hb.resolve_right fun hin => hpos (hin.1.trans_lt hin.2)⟩

/-- So does `SarCaptureSubmitSupersede`, where the stream is not taken for an unread one. -/
theorem submitSupersede_stands (h : Stands name P cap s) (hgrants : Grants env name s)
    (hlast : Lasting env P) (hready : P.ready = true) (hsize : file.size = s.size.toNat)
    (hkept : (sarCaptureSubmitSupersede bc env file (s.target k) k.caller true true (some name)
      P).2.lost = false) :
    Stands name (sarCaptureSubmitSupersede bc env file (s.target k) k.caller true true (some name)
      P).1 cap (s.capture k .submitSupersede) := by
  have hpath : pathText (copyName name) ≠ [] ∧
      sarCaptureProvenanceIsOwn (copyName name) = false := by
    have hexempt := hgrants.notExempt
    simp only [sarCapturePathExempt, Bool.or_eq_false_iff] at hexempt
    exact ⟨by simpa using hexempt.1.1, hexempt.1.2⟩
  have hcaller : ¬ (k.caller.passive = false ∨ k.caller.noTopLevel = false) := by
    simp [FileSetting.caller]
  have hfo : sarCaptureResolveProvenanceFo (some name) = copyName name := rfl
  unfold sarCaptureSubmitSupersede at hkept ⊢
  unfold FileState.capture FileState.blind
  rw [if_neg (by simp [hready]), if_neg hcaller, if_neg (by simp)] at hkept ⊢
  rw [hfo, if_pos hpath] at hkept ⊢
  by_cases hblind : sarStreamConfidentBlind (s.target k) = true
  · rw [if_pos hblind, if_pos hblind]
    exact h
  · rw [if_neg hblind] at hkept ⊢
    rw [if_neg hblind]
    exact wholeContent_stands h hgrants hlast hsize hkept

theorem submitSupersede_stands_zeros :
    Stands plainName (sarCaptureSubmitSupersede identityCrypt grantedOnce zeroFile
      (openedZeros.target (userFile false)) (userFile false).caller true true (some plainName)
      readyStore).1 .empty (openedZeros.capture (userFile false) .submitSupersede) :=
  submitSupersede_stands openedZeros_stands openedZeros_grants grantedOnce_lasting rfl rfl
    (by decide +kernel)

/-! ### The call that makes a link -/

def NoEmptyRecord (path : ProvPath) (records : List PreserveRecord) : Prop :=
  ∀ r ∈ records, r.provenancePath = path →
    r.provenanceOffset.toNat < (r.provenanceOffset + r.provenanceLength).toNat

theorem covered_whole_iff {records : List PreserveRecord} (hwhole : NoEmptyRecord path records) :
    sarPreserveCovered records path 0 size = true ↔ ∃ b < size.toNat, CoveredBy records path b := by
  simp only [sarPreserveCovered, sarPresOverlap, any_eq_true, Bool.and_eq_true, beq_iff_eq,
    decide_eq_true_eq, UInt64.zero_add, UInt64.lt_iff_toNat_lt, UInt64.toNat_zero]
  constructor
  · rintro ⟨r, hr, hpath, hlo, -⟩
    exact ⟨r.provenanceOffset.toNat, hlo, r, hr, hpath, le_refl _, hwhole r hr hpath⟩
  · rintro ⟨b, hb, r, hr, hpath, hlo, hhi⟩
    exact ⟨r, hr, hpath, hlo.trans_lt hb, Nat.zero_lt_of_lt hhi⟩

theorem linkOrCopy_link_store (hplace : quarantineFor path P ≠ none) (hlink : env.setLink = true) :
    (linkOrCopy bc env file path actor P).1 =
      (sarPreserveStageLink path (UInt64.ofNat file.size) actor P.nextLinkId.toUInt64
        (env.stage 0).now (env.stage 0).causingPath (withLinkDrawn P)).1 := by
  unfold linkOrCopy withLinkDrawn
  dsimp only
  split
  next hnone =>
    exact absurd hnone hplace
  rw [if_pos hlink]
  split
  next hstage =>
    rw [hstage]
  next hstage =>
    rw [hstage]

theorem stageLink_records (hpath : ZeroPadded path)
    (hfresh : ∀ r ∈ P.records, ¬ Expired P.retention100ns now r.captureTime)
    (hok : (sarPreserveStageLink path size actor linkId now causingPath P).2 = .ok ()) :
    (sarPreserveStageLink path size actor linkId now causingPath P).1.records =
      if sarPreserveCovered P.records path 0 size then P.records
      else P.records ++ [linkRecord path size actor linkId now causingPath] := by
  have hlive : liveRecords P now = P.records := by
    refine filter_eq_self.mpr fun r hr => ?_
    have hstays := mt agedOut_iff.mp (hfresh r hr)
    simpa using hstays
  rw [sarPreserveStageLink_records hok, hlive, hpath]

theorem Stands.enterLink (h : Stands name P cap s) (hsize : file.size = s.size.toNat)
    (hrecords : Q.records =
      P.records ++ [linkRecord (copyName name) (UInt64.ofNat file.size) actor linkId now
      causingPath]) :
    Stands name Q cap
      { s with
        claimed := fun b => s.claimed b || within 0 s.size.toNat b
        linked := within 0 s.size.toNat
        hasLink := true } := by
  have hbytes : (UInt64.ofNat file.size).toNat = s.size.toNat := by
    rw [hsize, UInt64.ofNat_toNat]
  refine ⟨fun b => ?_, iff_of_true rfl ?_, fun b hb => ?_⟩
  · rw [hrecords]
    simp only [Bool.or_eq_true, within_iff, h.claimed, zero_le, true_and]
    constructor
    · rintro (hcov | hb)
      · exact hcov.mono fun r hr => mem_append_left _ hr
      · refine ⟨_, mem_append_right _ mem_cons_self, linkRecord_covers_iff.mpr
          ⟨zeroPadded_copyName name, ?_⟩⟩
        rw [hbytes]
        exact hb
    · rintro ⟨r, hr, hcov⟩
      rcases mem_append.mp hr with hr | hr
      · exact .inl ⟨r, hr, hcov⟩
      · rw [mem_singleton.mp hr, linkRecord_covers_iff, hbytes] at hcov
        exact .inr hcov.2
  · refine ⟨_, hrecords ▸ mem_append_right _ mem_cons_self, rfl, rfl, ?_⟩
    exact zeroPadded_copyName name
  · simp only [Bool.or_eq_true]
    exact .inl (h.cap b hb)

theorem link_stands (h : Stands name P cap s) (hlast : Lasting env P) (hready : P.ready = true)
    (hsize : file.size = s.size.toNat) (hlink : env.setLink = true)
    (hplace : quarantineFor (copyName name) P ≠ none)
    (hwhole : NoEmptyRecord (copyName name) P.records)
    (hkept : s.hasLink = false → (linkOrCopy bc env file (copyName name) actor P).2.lost = false) :
    let res := linkOrCopy bc env file (copyName name) actor P
    Stands name res.1 cap
        (if s.hasLink || s.partlyClaimed then s
        else
          { s with
            claimed := fun b => s.claimed b || within 0 s.size.toNat b
            linked := within 0 s.size.toNat
            hasLink := true }) ∧
      res.2.lost = s.hasLink := by
  have hlost : (linkOrCopy bc env file (copyName name) actor P).2.lost = true ↔
      linkStaged env file (copyName name) actor P ≠ .ok () := linkOrCopy_link_lost hplace hlink
  have hstore : (linkOrCopy bc env file (copyName name) actor P).1 = _ :=
    linkOrCopy_link_store hplace hlink
  cases hhas : s.hasLink with
  | true =>
    have hexists := h.hasLink.mp hhas
    refine ⟨?_, hlost.mpr ?_⟩
    · rw [Bool.true_or, if_pos rfl, hstore]
      unfold sarPreserveStageLink
      rw [if_neg (by simp [withLinkDrawn, hready]), withLinkDrawn_records,
        if_pos (linkExists_iff_any.mp hexists)]
      exact ⟨h.claimed, h.hasLink, h.cap⟩
    · rw [linkStaged_of_exists hready hexists]
      rintro ⟨⟩
  | false =>
    have hok : linkStaged env file (copyName name) actor P = .ok () := by
      by_contra hno
      cases (hkept hhas).symm.trans (hlost.mpr hno)
    have hrecords := stageLink_records (P := withLinkDrawn P) (zeroPadded_copyName name)
      (hlast.old 0) hok
    rw [← hstore, withLinkDrawn_records] at hrecords
    refine ⟨?_, hkept hhas⟩
    have hpartly : sarPreserveCovered P.records (copyName name) 0 (UInt64.ofNat file.size) =
        s.partlyClaimed := by
      rw [Bool.eq_iff_iff, covered_whole_iff hwhole, hsize, UInt64.ofNat_toNat]
      simp only [FileState.partlyClaimed, decide_eq_true_eq, h.claimed]
    rw [hpartly] at hrecords
    rw [Bool.false_or]
    cases hclaimed : s.partlyClaimed with
    | true =>
      rw [hclaimed, if_pos rfl] at hrecords
      rw [if_pos rfl]
      refine ⟨fun b => ?_, ?_, h.cap⟩
      · rw [hrecords]
        exact h.claimed b
      · rw [h.hasLink, LinkExists, LinkExists, hrecords]
    | false =>
      rw [hclaimed, if_neg Bool.false_ne_true] at hrecords
      rw [if_neg Bool.false_ne_true]
      exact h.enterLink hsize hrecords

/-- `SarCaptureLinkPreserve` does what the set model says, and gives up exactly where the model
    has it answer that the path has a link. -/
theorem linkPreserve_stands (g : DriverAt k) (h : Stands name P cap s)
    (hgrants : Grants env name s) (hlast : Lasting env P) (hready : P.ready = true)
    (hsize : file.size = s.size.toNat) (hlink : env.setLink = k.linkable)
    (hplace : quarantineFor (copyName name) P ≠ none)
    (hwhole : NoEmptyRecord (copyName name) P.records)
    (hkept : s.collides k = false → (sarCaptureLinkPreserve bc env file (copyName name) g.globals
      (s.target k) k.caller P).2.lost = false) :
    let res := sarCaptureLinkPreserve bc env file (copyName name) g.globals (s.target k) k.caller P
    Stands name res.1 cap (s.linkPreserve k) ∧ res.2.lost = s.collides k := by
  have hzero : s.size = 0 ↔ file.size = 0 := by
    rw [hsize, ← UInt64.toNat_inj, UInt64.toNat_zero]
  by_cases hidle : s.blind k = true ∨ s.size = 0
  · -- the stream is taken for an unread one, or there is nothing to keep
    have hout : ¬ LinkReached env file (copyName name) g.globals (s.target k) k.caller P := by
      intro hreach
      rcases hidle with hblind | hnone
      · cases hreach.notBlind.symm.trans hblind
      · exact hreach.nonempty (hzero.mp hnone)
    have hmodel : s.linkPreserve k = s := if_pos (by simpa using hidle)
    have hcollides : s.collides k = false := by
      rcases hidle with hidle | hidle <;> simp [FileState.collides, hidle]
    rw [linkPreserve_of_not_reached hout, hmodel, hcollides]
    exact ⟨h, rfl⟩
  rw [not_or, Bool.not_eq_true] at hidle
  have hreach : LinkReached env file (copyName name) g.globals (s.target k) k.caller P :=
    ⟨hready, rfl, hgrants.notExempt, g.identityExempt_eq rfl, hidle.1, hgrants.queryInfo,
      fun hnone => hidle.2 (hzero.mpr hnone)⟩
  have hcollides : s.collides k = (k.linkable && s.hasLink) := by
    simp [FileState.collides, hidle.1, hidle.2]
  rw [linkPreserve_of_reached hreach] at hkept ⊢
  unfold FileState.linkPreserve
  rw [if_neg (by simp [hidle.1, hidle.2])]
  cases hmakes : k.linkable with
  | false =>
    rw [hmakes, Bool.false_and] at hcollides
    have hcopied := hkept hcollides
    rw [linkOrCopy_copy hplace (hlink.trans hmakes)] at hcopied ⊢
    rw [if_neg Bool.false_ne_true]
    exact ⟨wholeContent_stands ⟨h.claimed, h.hasLink, h.cap⟩ hgrants ⟨hlast.old, hlast.new⟩ hsize
      hcopied, hcopied.trans hcollides.symm⟩
  | true =>
    rw [hmakes, Bool.true_and] at hcollides
    rw [hcollides] at hkept ⊢
    rw [if_pos rfl]
    exact link_stands h hlast hready hsize (hlink.trans hmakes) hplace hwhole hkept

theorem linkPreserve_stands_zeros :
    let res := sarCaptureLinkPreserve identityCrypt grantedOnce zeroFile (copyName plainName)
      (enforcingDriver false).globals (openedZeros.target (userFile false)) (userFile false).caller
      readyStore
    Stands plainName res.1 .empty (openedZeros.linkPreserve (userFile false)) ∧
      res.2.lost = false :=
  linkPreserve_stands (enforcingDriver false) openedZeros_stands openedZeros_grants
    grantedOnce_lasting rfl rfl rfl (by decide +kernel) (forall_mem_nil _)
    fun _ => by decide +kernel

end

end SemanticsAr
