import SemanticsAr.Capture
import SemanticsAr.HoldTimes

/-!
# Fail closed

A capture routine may return early, and what it has staged may expire while it stages the
rest.  For a single byte the store is the model of `HoldTimes`: it knows the times of the
records that cover the byte, and a staging call is a visit.  This gives, for each of
the three routines, exactly when a result that does not refuse the request means that every
byte about to be destroyed is held.
-/

namespace SemanticsAr

open HoldTimes Runs List Nat

variable {path : ProvPath} {now : UInt64} {r : PreserveRecord} {P Q : Preserve}
  {b off len n lo hi : Nat} {env : CaptureEnv} {chunks : List (Nat × Nat)}

/-! ### One byte -/

def holdTimes (path : ProvPath) (P : Preserve) (b : Nat) : Set UInt64 :=
  {t | ∃ r ∈ P.records, RecCovers path r b ∧ r.captureTime = t}

/-- A record of time `t` has aged out at `now`. -/
def Expired (retention now t : UInt64) : Prop := t < now ∧ retention ≤ now - t

theorem agedOut_iff {retention : UInt64} :
    agedOut now retention r = true ↔ Expired retention now r.captureTime := by
  simp [agedOut, Expired]

theorem coveredBy_iff_holdTimes : CoveredBy P.records path b ↔ (holdTimes path P b).Nonempty := by
  constructor
  · rintro ⟨r, hr, hcov⟩
    exact ⟨r.captureTime, r, hr, hcov, rfl⟩
  · rintro ⟨t, r, hr, hcov, -⟩
    exact ⟨r, hr, hcov⟩

theorem mem_liveRecords :
    r ∈ liveRecords P now ↔ r ∈ P.records ∧ ¬ Expired P.retention100ns now r.captureTime := by
  rw [liveRecords, mem_filter, ← agedOut_iff]
  simp

theorem TableFrame.retention_eq {P' : Preserve} (h : TableFrame P P') :
    P'.retention100ns = P.retention100ns := by
  obtain ⟨_, _, _, _, _, _, rfl⟩ := h
  rfl

structure ChunkOk (chunk : Nat × Nat) : Prop where
  pos : 0 < chunk.2
  le_max : chunk.2 ≤ SAR_PRESERVE_STAGE_MAX
  end_lt : chunk.1 + chunk.2 < 2 ^ 63

section

variable {bc : BCrypt} {env : CaptureEnv} {file : FileContent} {actor : UInt64}

theorem ChunkOk.offset_toNat (h : ChunkOk (off, len)) :
    (chunkArgs file path actor off len).offset.toNat = off := by
  have hend := h.end_lt
  exact UInt64.toNat_ofNat_of_lt (by simp [UInt64.size] at *; omega)

theorem ChunkOk.length_toNat (h : ChunkOk (off, len)) :
    (chunkArgs file path actor off len).length.toNat = len := by
  have hend := h.end_lt
  have hmin : min len SAR_PRESERVE_STAGE_MAX = len := min_eq_left h.le_max
  show (UInt64.ofNat (min len SAR_PRESERVE_STAGE_MAX)).toNat = len
  rw [hmin]
  exact UInt64.toNat_ofNat_of_lt (by simp [UInt64.size] at *; omega)

theorem ChunkOk.plaintext_length (h : ChunkOk (off, len)) :
    (chunkArgs file path actor off len).plaintext.length = len := by
  simpa [chunkArgs, readData] using h.le_max

/-- **A staging call is a visit.**  Under enforcement a successful call for a chunk does to the
    records of each byte what a visit of the model does. -/
theorem stage_holdTimes (hchunk : ChunkOk (off, len)) (hpath : ZeroPadded path)
    (hmode : ∀ k, ((env.stage n).turn k).mode = .enforce)
    (hres : (sarPreserveStage bc (chunkArgs file path actor off len) (env.stage n) P).2.lost =
      false) :
    holdTimes path (sarPreserveStage bc (chunkArgs file path actor off len) (env.stage n) P).1 b =
      visit (Expired P.retention100ns) (holdTimes path P b)
        ⟨(env.stage n).now, off ≤ b ∧ b < off + len⟩ := by
  have hargs : (chunkArgs file path actor off len).path = path := rfl
  have hoff : (chunkArgs file path actor off len).offset.toNat = off := hchunk.offset_toNat
  have hlength : (chunkArgs file path actor off len).length.toNat = len := hchunk.length_toNat
  have hplain : (chunkArgs file path actor off len).plaintext.length = len :=
    hchunk.plaintext_length
  have hend := hchunk.end_lt
  have hpos := hchunk.pos
  generalize chunkArgs file path actor off len = args at *
  subst hargs
  have hok : (sarPreserveStage bc args (env.stage n) P).2 = .stored ∨
      (sarPreserveStage bc args (env.stage n) P).2 = .alreadyCovered := by
    revert hres
    cases (sarPreserveStage bc args (env.stage n) P).2 <;> simp [StageResult.lost]
  rcases sarPreserveStage_cases hok with ⟨hzero, -⟩ | ⟨-, -, hlen, hd, hf, hP'⟩
  · rcases hzero with hnil | hzero
    · rw [hnil, length_nil] at hplain
      exact absurd hplain (Nat.ne_of_lt hpos)
    · rw [hzero, UInt64.toNat_zero] at hlength
      exact absurd hlength (Nat.ne_of_lt hpos)
  rw [hP']
  obtain ⟨added, hfill⟩ := stageLoop_filled hlen (by omega) hmode hd hf
  -- the bytes of the new records are those of the chunk that no live record covers
  have hnew := hfill.recCovers_iff (b := b) (by omega) hpath
  rw [hoff, hlength] at hnew
  ext t
  rw [mem_visit]
  constructor
  · rintro ⟨r, hr, hcov, rfl⟩
    rw [hfill.records] at hr
    rcases mem_append.mp hr with hr | hr
    · obtain ⟨hold, hfresh⟩ := mem_liveRecords.mp hr
      exact .inl ⟨⟨r, hold, hcov, rfl⟩, hfresh⟩
    · obtain ⟨hinside, hfree⟩ := hnew.mp ⟨r, hr, hcov⟩
      refine Or.inr ⟨(hfill.staged r hr).time_eq, hinside, ?_⟩
      rintro s ⟨q, hq, hqcov, rfl⟩
      by_contra hfresh
      exact hfree ⟨q, mem_liveRecords.mpr ⟨hq, hfresh⟩, hqcov⟩
  · rintro (⟨⟨r, hr, hcov, rfl⟩, hfresh⟩ | ⟨rfl, hinside, hdead⟩)
    · refine ⟨r, ?_, hcov, rfl⟩
      rw [hfill.records]
      exact mem_append_left _ (mem_liveRecords.mpr ⟨hr, hfresh⟩)
    · obtain ⟨r, hr, hcov⟩ := hnew.mpr ⟨hinside, by
        rintro ⟨q, hq, hqcov⟩
        obtain ⟨hold, hfresh⟩ := mem_liveRecords.mp hq
        exact hfresh (hdead _ ⟨q, hold, hqcov, rfl⟩)⟩
      refine ⟨r, ?_, hcov, (hfill.staged r hr).time_eq⟩
      rw [hfill.records]
      exact mem_append_right _ hr

def chunkVisits (env : CaptureEnv) (b : Nat) : Nat → List (Nat × Nat) → List (Visit UInt64)
  | _, [] => []
  | n, (off, len) :: chunks =>
    ⟨(env.stage n).now, off ≤ b ∧ b < off + len⟩ :: chunkVisits env b (n + 1) chunks

theorem StagedChunks.holdTimes_eq (h : StagedChunks bc env file path actor n chunks P Q)
    (hchunks : ∀ c ∈ chunks, ChunkOk c) (hpath : ZeroPadded path)
    (hmode : ∀ n k, ((env.stage n).turn k).mode = .enforce) :
    holdTimes path Q b = run (visit (Expired P.retention100ns)) (holdTimes path P b)
        (chunkVisits env b n chunks) := by
  induction h with
  | nil => rfl
  | cons hcall _ ih =>
    rw [ih fun c hc => hchunks c (mem_cons_of_mem _ hc),
      stage_holdTimes (hchunks _ mem_cons_self) hpath (hmode _) hcall,
      sarPreserveStage_frame.retention_eq]
    rfl

end

/-! ### Plans -/

/-- The chunks lie in `[lo, hi)`, one behind the other. -/
structure ChunkPlan (lo hi : Nat) (chunks : List (Nat × Nat)) : Prop where
  bounds : ∀ c ∈ chunks, lo ≤ c.1 ∧ c.1 + c.2 ≤ hi ∧ 0 < c.2 ∧ c.2 ≤ SAR_PRESERVE_STAGE_MAX
  order : chunks.Pairwise fun c d => c.1 + c.2 ≤ d.1

theorem ChunkPlan.nil (hi : Nat) : ChunkPlan lo hi [] :=
  ⟨forall_mem_nil _, List.Pairwise.nil⟩

theorem ChunkPlan.append {mid mid' : Nat} {front back : List (Nat × Nat)}
    (hfront : ChunkPlan lo mid front) (hback : ChunkPlan mid' hi back) (hle : mid ≤ mid')
    (hlo : lo ≤ mid') (hhi : mid ≤ hi) : ChunkPlan lo hi (front ++ back) := by
  constructor
  · intro c hc
    rcases mem_append.mp hc with hc | hc
    · have hbounds := hfront.bounds c hc
      omega
    · have hbounds := hback.bounds c hc
      omega
  · refine pairwise_append.mpr ⟨hfront.order, hback.order, ?_⟩
    intro c hc d hd
    have hc' := hfront.bounds c hc
    have hd' := hback.bounds d hd
    omega

theorem spanChunks_plan (spanEnd off : Nat) : ChunkPlan off spanEnd (spanChunks spanEnd off) := by
  fun_induction spanChunks spanEnd off with
  | case1 off hlt ih =>
    have hmax : 0 < SAR_PRESERVE_STAGE_MAX := by decide
    constructor
    · intro c hc
      rcases mem_cons.mp hc with rfl | hc
      · dsimp only
        omega
      · have hbounds := ih.bounds c hc
        omega
    · refine pairwise_cons.mpr ⟨?_, ih.order⟩
      intro c hc
      have hbounds := ih.bounds c hc
      omega
  | case2 off hge => exact .nil spanEnd

theorem uncapturedChunks_plan (stop : Nat) (ranges : List CapRange) (cursor : Nat) :
    ChunkPlan cursor stop (uncapturedChunks stop ranges cursor) := by
  induction ranges generalizing cursor with
  | nil => exact spanChunks_plan stop cursor
  | cons r ranges ih =>
    unfold uncapturedChunks
    split
    · split
      · exact ih cursor
      split
      · exact spanChunks_plan stop cursor
      next hlt hahead hreach =>
        have hle := r.start_le
        exact (spanChunks_plan (min r.start stop) cursor).append (ih r.stop) (by omega)
          (by omega) (by omega)
    · exact .nil stop

theorem ChunkPlan.chunkOk (h : ChunkPlan lo hi chunks) (hhi : hi < 2 ^ 63) :
    ∀ c ∈ chunks, ChunkOk c := by
  intro c hc
  have hbounds := h.bounds c hc
  exact ⟨hbounds.2.2.1, hbounds.2.2.2, by omega⟩

def InChunks (chunks : List (Nat × Nat)) (b : Nat) : Prop :=
  ∃ c ∈ chunks, c.1 ≤ b ∧ b < c.1 + c.2

theorem inChunks_span {spanEnd off : Nat} (hlo : off ≤ b) (hhi : b < spanEnd) :
    InChunks (spanChunks spanEnd off) b := by
  fun_induction spanChunks spanEnd off with
  | case1 off hlt ih =>
    by_cases hin : b < off + SAR_PRESERVE_STAGE_MAX
    · refine ⟨_, mem_cons_self, hlo, ?_⟩
      omega
    · obtain ⟨c, hc, hb⟩ := ih (Nat.not_lt.mp hin)
      exact ⟨c, mem_cons_of_mem _ hc, hb⟩
  | case2 off hge => exact absurd (hlo.trans_lt hhi) hge

theorem inChunks_uncaptured {stop : Nat} {ranges : List CapRange} {cursor : Nat} (hlo : cursor ≤ b)
    (hhi : b < stop) (hfree : ¬ InRanges ranges b) :
    InChunks (uncapturedChunks stop ranges cursor) b := by
  induction ranges generalizing cursor with
  | nil => exact inChunks_span hlo hhi
  | cons r ranges ih =>
    rw [inRanges_cons, not_or] at hfree
    unfold uncapturedChunks
    rw [if_pos (hlo.trans_lt hhi)]
    split
    · exact ih hlo hfree.2
    split
    · exact inChunks_span hlo hhi
    · by_cases hbefore : b < r.start
      · obtain ⟨c, hc, hb⟩ := inChunks_span hlo (Nat.lt_min.mpr ⟨hbefore, hhi⟩)
        exact ⟨c, mem_append_left _ hc, hb⟩
      · have hbehind : r.stop ≤ b :=
          Nat.not_lt.mp fun h => hfree.1 ⟨Nat.not_lt.mp hbefore, h⟩
        obtain ⟨c, hc, hb⟩ := ih hbehind hfree.2
        exact ⟨c, mem_append_right _ hc, hb⟩

theorem ChunkPlan.bounds_of_inChunks (h : ChunkPlan lo hi chunks) (hin : InChunks chunks b) :
    lo ≤ b ∧ b < hi := by
  obtain ⟨c, hc, hb⟩ := hin
  have hbounds := h.bounds c hc
  omega

theorem mem_chunkVisits {v : Visit UInt64} (hv : v ∈ chunkVisits env b n chunks) (hin : v.inside) :
    ∃ c ∈ chunks, c.1 ≤ b ∧ b < c.1 + c.2 := by
  induction chunks generalizing n with
  | nil => exact absurd hv not_mem_nil
  | cons c chunks ih =>
    rcases mem_cons.mp hv with rfl | hv
    · exact ⟨c, mem_cons_self, hin⟩
    · obtain ⟨d, hd, hb⟩ := ih hv
      exact ⟨d, mem_cons_of_mem _ hd, hb⟩

theorem chunkVisits_pairwise (h : chunks.Pairwise fun c d => c.1 + c.2 ≤ d.1) (env : CaptureEnv)
    (b n : Nat) :
    (chunkVisits env b n chunks).Pairwise fun v w => ¬ (v.inside ∧ w.inside) := by
  induction chunks generalizing n with
  | nil => exact List.Pairwise.nil
  | cons c chunks ih =>
    obtain ⟨hc, hrest⟩ := pairwise_cons.mp h
    refine pairwise_cons.mpr ⟨?_, ih hrest (n + 1)⟩
    rintro w hw ⟨hv, hin⟩
    obtain ⟨d, hd, hb⟩ := mem_chunkVisits hw hin
    have hbefore := hc d hd
    omega

def StaysCovered (env : CaptureEnv) (path : ProvPath) (P : Preserve) (chunks : List (Nat × Nat))
    (b : Nat) : Prop :=
  StaysHeld (Expired P.retention100ns) (holdTimes path P b) (chunkVisits env b 0 chunks)

theorem StagedChunks.coveredBy_iff {bc : BCrypt} {file : FileContent} {actor : UInt64}
    (h : StagedChunks bc env file path actor 0 chunks P Q) (hplan : ChunkPlan lo hi chunks)
    (hhi : hi < 2 ^ 63) (hpath : ZeroPadded path)
    (hmode : ∀ n k, ((env.stage n).turn k).mode = .enforce) :
    CoveredBy Q.records path b ↔ StaysCovered env path P chunks b := by
  rw [coveredBy_iff_holdTimes, h.holdTimes_eq (hplan.chunkOk hhi) hpath hmode]
  exact nonempty_run_iff (chunkVisits_pairwise hplan.order env b 0)

/-! ### The routines -/

inductive CaptureRoutine where
  | inPlaceRegion (offset length : UInt64) (cap : CapTable)
  | wholeContent
  | linkPreserve (G : Globals) (t : Target)

namespace CaptureRoutine

def Destroys (file : FileContent) : CaptureRoutine → Nat → Prop
  | inPlaceRegion offset length _, b =>
    offset.toNat ≤ b ∧ b < offset.toNat + length.toNat ∧ b < file.size
  | wholeContent, b => b < file.size
  | linkPreserve _ _, b => b < file.size

variable (bc : BCrypt) (env : CaptureEnv) (file : FileContent) (name : NormalizedName)
  (c : Caller) (P : Preserve)

def run : CaptureRoutine → Preserve × StageResult
  | inPlaceRegion offset length cap =>
    let r := sarCaptureInPlaceRegion bc env file (some name) c offset length cap P
    (r.store, r.result)
  | wholeContent => sarCaptureWholeContent bc env file (copyName name) c.process.startKey P
  | linkPreserve G t => sarCaptureLinkPreserve bc env file (copyName name) G t c P

/-- The whole content: the section is created and mapped, and what is staged stays; or the
    store held the content before. -/
def WholeMet : Prop :=
  ∀ b < file.size,
    if env.sectionContext && env.createSection && env.mapView then
      StaysCovered env (copyName name) P (spanChunks file.size 0) b
    else CoveredBy P.records (copyName name) b

def LinkMet : Prop :=
  if env.setLink then
    (∀ b < file.size, CoveredBy (liveRecords P (env.stage 0).now) (copyName name) b) ∨
      sarPreserveCovered (liveRecords P (env.stage 0).now) (copyName name) 0
        (UInt64.ofNat file.size) = false
  else WholeMet env file name P

/-- **The condition.**  A byte is held at the end if the system grants every context, section and
    view and what the store holds or stages of the byte does not expire before the last staging
    call; in a region whose end wraps, or where something is refused, only if it was held before.
    The link routine must get to the link: not for an exempt process or a file nobody read, and with
    the size known. -/
def Met : CaptureRoutine → Prop
  | inPlaceRegion offset length cap =>
    ∀ b, (inPlaceRegion offset length cap).Destroys file b →
      if env.streamContext && env.sectionContext && env.createSection && env.mapView &&
          decide (offset.toNat + length.toNat < 2 ^ 64) then
        StaysCovered env (copyName name) P
          (uncapturedChunks (min (offset.toNat + length.toNat) file.size) cap.ranges offset.toNat) b
      else CoveredBy P.records (copyName name) b
  | wholeContent => WholeMet env file name P
  | linkPreserve G t =>
    if !identityExempt G c && !sarStreamConfidentBlind t && env.queryInfo then
      LinkMet env file name P
    else ∀ b < file.size, CoveredBy P.records (copyName name) b

end CaptureRoutine

section

variable {bc : BCrypt} {env : CaptureEnv} {file : FileContent} {name : NormalizedName}
  {c : Caller} {P : Preserve}

theorem inPlaceRegion_covers_iff {offset length : UInt64} {cap : CapTable}
    (hready : P.ready = true) (hpassive : c.passive = true)
    (hexempt : sarCapturePathExempt env.targetExempt (copyName name) = false)
    (hmode : ∀ n k, ((env.stage n).turn k).mode = .enforce)
    (hres : (sarCaptureInPlaceRegion bc env file (some name) c offset length cap P).result.lost =
      false) :
    (∀ b, (CaptureRoutine.inPlaceRegion offset length cap).Destroys file b → CoveredBy
        (sarCaptureInPlaceRegion bc env file (some name) c offset length cap P).store.records
        (copyName name) b) ↔
      (CaptureRoutine.inPlaceRegion offset length cap).Met env file name c P := by
  refine forall_congr' fun b => forall_congr' fun hb => ?_
  obtain ⟨hlo, hhi, hsize⟩ := hb
  have hsum : (offset + length).toNat = (offset.toNat + length.toNat) % 2 ^ 64 :=
    UInt64.toNat_add _ _
  by_cases hreach : InPlaceReached env file (some name) c offset length P
  · have hlt := hreach.lt
    have hwrap : offset.toNat + length.toNat < 2 ^ 64 := by
      have hlength := length.toNat_lt
      by_contra hwrap
      rw [hsum, mod_eq_sub_mod (not_lt.mp hwrap)] at hlt
      omega
    have hstop : (offset + length).toNat = offset.toNat + length.toNat := by
      rw [hsum, mod_eq_of_lt hwrap]
    rw [inPlaceRegion_of_reached hreach] at hres ⊢
    have hmade := stageUncaptured_made _ cap.ranges offset.toNat ⟨P, 0, .stored⟩ hres
    have hgrant : (env.streamContext && env.sectionContext && env.createSection && env.mapView &&
        decide (offset.toNat + length.toNat < 2 ^ 64)) = true := by
      rw [hreach.streamContext, hreach.sectionContext, hreach.createSection, hreach.mapView,
        decide_eq_true hwrap]
      rfl
    rw [if_pos hgrant, ← hstop]
    exact hmade.2.1.coveredBy_iff (uncapturedChunks_plan _ _ _)
      ((min_le_right _ _).trans_lt file.size_lt) (zeroPadded_copyName name) hmode
  · rw [inPlaceRegion_of_not_reached hreach, if_neg]
    -- with everything granted the loop would have been reached
    intro hgrant
    simp only [Bool.and_eq_true, decide_eq_true_eq] at hgrant
    obtain ⟨⟨⟨⟨hstream, hcontext⟩, hsection⟩, hview⟩, hwrap⟩ := hgrant
    refine hreach ⟨hready, hpassive, ?_, hexempt, hstream, hcontext, hsection, hview, ?_⟩
    · rintro rfl
      rw [UInt64.toNat_zero] at hhi
      omega
    · rw [hsum, mod_eq_of_lt hwrap]
      omega

theorem wholeContent_covers_iff
    (hexempt : sarCapturePathExempt env.targetExempt (copyName name) = false)
    (hmode : ∀ n k, ((env.stage n).turn k).mode = .enforce)
    (hres : (sarCaptureWholeContent bc env file (copyName name) c.process.startKey P).2.lost =
      false) :
    (∀ b < file.size,
      CoveredBy (sarCaptureWholeContent bc env file (copyName name) c.process.startKey P).1.records
        (copyName name) b) ↔ CaptureRoutine.WholeMet env file name P := by
  refine forall_congr' fun b => forall_congr' fun hb => ?_
  unfold sarCaptureWholeContent at hres ⊢
  rw [if_neg (by simp [hexempt])] at hres ⊢
  by_cases hgrant : env.sectionContext = false ∨ env.createSection = false
  · rw [if_pos hgrant, if_neg]
    rcases hgrant with h | h <;> simp [h]
  rw [if_neg hgrant] at hres ⊢
  simp only [not_or, Bool.not_eq_false] at hgrant
  by_cases hview : env.mapView = true
  · rw [if_pos ⟨(zero_le b).trans_lt hb, hview⟩] at hres ⊢
    rw [if_pos (by simp [hgrant, hview])]
    have hmade := stageSpanLoop_made file.size 0 ⟨P, 0, .stored⟩ hres
    exact hmade.2.1.coveredBy_iff (spanChunks_plan _ _) file.size_lt (zeroPadded_copyName name)
      hmode
  · rw [if_neg (fun h => hview h.2), if_neg (by simp [hview])]

theorem stageLink_coveredBy_iff (file : FileContent) (actor linkId now : UInt64)
    (causingPath : ProvPath) (P : Preserve) (hpath : ZeroPadded path)
    (hres : (sarPreserveStageLink path (UInt64.ofNat file.size) actor linkId now causingPath P).2 =
      .ok ()) :
    (∀ b < file.size, CoveredBy (sarPreserveStageLink path (UInt64.ofNat file.size) actor linkId now
        causingPath P).1.records path b) ↔
      (∀ b < file.size, CoveredBy (liveRecords P now) path b) ∨
        sarPreserveCovered (liveRecords P now) path 0 (UInt64.ofNat file.size) = false := by
  have hsize : (UInt64.ofNat file.size).toNat = file.size := by
    have hlt := file.size_lt
    exact UInt64.toNat_ofNat_of_lt (by simp [UInt64.size]; omega)
  rw [sarPreserveStageLink_records hres, show copyPath path = path from hpath]
  cases hcov : sarPreserveCovered (liveRecords P now) path 0 (UInt64.ofNat file.size) with
  | true => simp
  | false =>
    refine iff_of_true ?_ (.inr rfl)
    intro b hb
    rw [if_neg Bool.false_ne_true]
    exact ⟨_, mem_append_right _ mem_cons_self, linkRecord_covers_iff.mpr ⟨hpath, by rwa [hsize]⟩⟩

theorem linkOrCopy_covers_iff
    (hexempt : sarCapturePathExempt env.targetExempt (copyName name) = false)
    (hmode : ∀ n k, ((env.stage n).turn k).mode = .enforce)
    (hres : (linkOrCopy bc env file (copyName name) c.process.startKey P).2.lost = false) :
    (∀ b < file.size,
      CoveredBy (linkOrCopy bc env file (copyName name) c.process.startKey P).1.records
        (copyName name) b) ↔ CaptureRoutine.LinkMet env file name P := by
  unfold linkOrCopy at hres ⊢
  dsimp only at hres ⊢
  generalize hQ : { P with nextLinkId := P.nextLinkId + 1 } = Q at hres ⊢
  have hlive : liveRecords Q (env.stage 0).now = liveRecords P (env.stage 0).now := by
    rw [← hQ]
    rfl
  cases hquarantine : sarPreserveQuarantinePaths (copyName name) P.nextLinkId.toUInt64 96 128 with
  | none =>
    rw [hquarantine] at hres
    cases hres
  | some quarantine =>
    rw [hquarantine] at hres
    unfold CaptureRoutine.LinkMet
    by_cases hlink : env.setLink = true
    · rw [if_pos hlink] at hres ⊢
      rw [if_pos hlink]
      have hcovers := stageLink_coveredBy_iff file c.process.startKey P.nextLinkId.toUInt64
        (env.stage 0).now (env.stage 0).causingPath Q (zeroPadded_copyName name)
      revert hres hcovers
      rcases sarPreserveStageLink (copyName name) (UInt64.ofNat file.size) c.process.startKey
        P.nextLinkId.toUInt64 (env.stage 0).now (env.stage 0).causingPath Q with ⟨P', u | u⟩
      · intro hres
        cases hres
      · intro _ hcovers
        rw [hlive] at hcovers
        exact hcovers rfl
    · rw [if_neg hlink] at hres ⊢
      rw [if_neg hlink]
      subst hQ
      exact wholeContent_covers_iff hexempt hmode hres

theorem linkPreserve_covers_iff {G : Globals} {t : Target} (hready : P.ready = true)
    (hpassive : c.passive = true)
    (hexempt : sarCapturePathExempt env.targetExempt (copyName name) = false)
    (hmode : ∀ n k, ((env.stage n).turn k).mode = .enforce)
    (hres : (sarCaptureLinkPreserve bc env file (copyName name) G t c P).2.lost = false) :
    (∀ b < file.size,
      CoveredBy (sarCaptureLinkPreserve bc env file (copyName name) G t c P).1.records
        (copyName name) b) ↔ (CaptureRoutine.linkPreserve G t).Met env file name c P := by
  unfold CaptureRoutine.Met
  dsimp only
  unfold sarCaptureLinkPreserve at hres ⊢
  rw [if_neg (by simp [hready, hpassive]), if_neg (by simp [hexempt])] at hres ⊢
  by_cases hidentity : identityExempt G c = true
  · rw [if_pos hidentity, if_neg (by simp [hidentity])]
  rw [if_neg hidentity] at hres ⊢
  by_cases hblind : sarStreamConfidentBlind t = true
  · rw [if_pos hblind, if_neg (by simp [hblind])]
  rw [if_neg hblind] at hres ⊢
  by_cases hquery : env.queryInfo = false
  · rw [if_pos (.inl hquery), if_neg (by simp [hquery])]
  rw [if_pos (show (!identityExempt G c && !sarStreamConfidentBlind t && env.queryInfo) = true by
    simp [hidentity, hblind, hquery])]
  by_cases hzero : file.size = 0
  · have hnone : ∀ {p : Nat → Prop} (b : Nat), b < file.size → p b := fun b hb =>
      absurd hb (by simp [hzero])
    refine iff_of_true hnone ?_
    unfold CaptureRoutine.LinkMet
    split
    · exact .inl hnone
    · exact hnone
  rw [if_neg (by simp [hquery, hzero])] at hres ⊢
  exact linkOrCopy_covers_iff hexempt hmode hres

end

/-- **When the pre-operation path is fail closed.**  Under enforcement, with a ready store, at
    `PASSIVE_LEVEL` and for a file that is not exempt, a result that does not refuse the request
    means that every byte about to be destroyed is held, exactly under the condition. -/
theorem capture_fail_closed_iff (bc : BCrypt) (env : CaptureEnv) (file : FileContent)
    (name : NormalizedName) (c : Caller) (P : Preserve) (rt : CaptureRoutine)
    (hready : P.ready = true) (hpassive : c.passive = true)
    (hexempt : sarCapturePathExempt env.targetExempt (copyName name) = false)
    (hmode : ∀ n k, ((env.stage n).turn k).mode = .enforce)
    (hres : (rt.run bc env file name c P).2.lost = false) :
    (∀ b, rt.Destroys file b →
      CoveredBy (rt.run bc env file name c P).1.records (copyName name) b) ↔
      rt.Met env file name c P := by
  cases rt with
  | inPlaceRegion offset length cap =>
    exact inPlaceRegion_covers_iff hready hpassive hexempt hmode hres
  | wholeContent => exact wholeContent_covers_iff hexempt hmode hres
  | linkPreserve G t => exact linkPreserve_covers_iff hready hpassive hexempt hmode hres

/-! ### A refused section -/

/-- The file `\Device\V\a`. -/
def plainName : NormalizedName where
  units := wideUnits "\\Device\\V\\a"
  noNul := fun c hc => bne_iff_ne.mp (all_eq_true.mp
    (by decide : (wideUnits "\\Device\\V\\a").all (· != 0) = true) c hc)

def zeroFile : FileContent := ⟨fun _ => 0, 16, by decide⟩

def userCaller : Caller := ⟨⟨1, 1, 7⟩, .userMode, true, true⟩

def grantedCapture : CaptureEnv where
  targetExempt _ := false
  streamContext := true
  sectionContext := true
  createSection := true
  mapView := true
  queryInfo := true
  setLink := true
  stage n := grantedEnv (UInt64.ofNat (n + 1))
  fault _ := false
  capPool := true

/-- In an empty store the bytes of a granted write are held. -/
theorem capture_covers_granted : readyStore.ready = true ∧
      ∀ b, (CaptureRoutine.inPlaceRegion 0 16 .empty).Destroys zeroFile b →
        CoveredBy ((CaptureRoutine.inPlaceRegion 0 16 .empty).run identityCrypt grantedCapture
          zeroFile plainName userCaller readyStore).1.records (copyName plainName) b := by
  refine ⟨rfl, (capture_fail_closed_iff identityCrypt grantedCapture zeroFile plainName userCaller
    readyStore (.inPlaceRegion 0 16 .empty) rfl rfl (by decide +kernel) (fun _ _ => rfl)
    (by decide +kernel)).mpr ?_⟩
  intro b hb
  rw [if_pos (by decide)]
  have hchunks : uncapturedChunks (min ((0 : UInt64).toNat + (16 : UInt64).toNat) zeroFile.size)
      CapTable.empty.ranges (0 : UInt64).toNat = [(0, 16)] := by
    show spanChunks 16 0 = [(0, 16)]
    rw [spanChunks_of_lt (by decide), spanChunks_of_ge (by decide)]
    rfl
  rw [hchunks]
  refine Or.inr ⟨[], _, [], rfl, ⟨zero_le b, ?_⟩, ?_, forall_mem_nil _⟩
  · rw [zero_add]
    exact hb.2.2
  · rintro ⟨t, ⟨r, hr, -⟩, -⟩
    exact absurd hr not_mem_nil

/-- The section for reading the original cannot be created: the write of 16 bytes is admitted
    as captured, and the store holds nothing. -/
theorem refused_section_stored :
    let env := { grantedCapture with createSection := false }
    let rt := CaptureRoutine.inPlaceRegion 0 16 .empty
    let res := rt.run identityCrypt env zeroFile plainName userCaller readyStore
    readyStore.ready = true ∧ userCaller.passive = true ∧
      sarCapturePathExempt env.targetExempt (copyName plainName) = false ∧
      (∀ n k, ((env.stage n).turn k).mode = .enforce) ∧ res.2 = .stored ∧
      rt.Destroys zeroFile 0 ∧ ¬ CoveredBy res.1.records (copyName plainName) 0 := by
  refine ⟨rfl, rfl, by decide +kernel, fun _ _ => rfl, by decide +kernel, ?_, by decide +kernel⟩
  exact ⟨le_refl _, by decide, by decide⟩

end SemanticsAr
