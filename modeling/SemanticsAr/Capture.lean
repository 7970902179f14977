import SemanticsAr.CapRanges
import SemanticsAr.Operations
import SemanticsAr.Provenance

/-!
# Taking the original

The routines of `capture.c` that a pre-operation callback calls to put the original of a file
into the store before it is destroyed: the range of a write or a truncation
(`SarCaptureInPlaceRegion`), the whole content (`SarCaptureWholeContent`), and a hard link
(`SarCaptureLinkPreserve`), with the wrappers for deletion, replacement and renaming.  Every
request to the system may fail; the answers are in `CaptureEnv`.
-/

namespace SemanticsAr

open Nat

variable {spanEnd off : Nat} {front back : List (Nat × Nat)}

/-! ### Paths -/

def asciiLower (c : UInt16) : UInt16 := if 65 ≤ c ∧ c ≤ 90 then c + 32 else c

def sarCaptureProvenanceIsOwn (path : ProvPath) : Bool :=
  (pathText path).tails.any fun rest => (wideUnits "SemanticsAr").isPrefixOf rest

/-- `SarCapturePathExempt`; `targetExempt` is `SarTargetExempt`. -/
def sarCapturePathExempt (targetExempt : List UInt16 → Bool) (path : ProvPath) : Bool :=
  (pathText path).isEmpty || sarCaptureProvenanceIsOwn path || targetExempt (pathText path)

def SAR_Q_SUBDIR : List UInt16 := wideUnits "\\SemanticsArQuarantine"

/-- The position of the third backslash, or zero: `SarPresVolPrefixChars`. -/
def sarPresVolPrefixChars (path : ProvPath) : Nat :=
  (((pathText path).zipIdx.filter fun c => c.1 == 92).map Prod.snd).getD 2 0

def sarPresHex64 (v : UInt64) : List UInt16 :=
  (List.range 16).map fun i =>
    (wideUnits "0123456789abcdef").getD ((v >>> UInt64.ofNat (4 * (15 - i))) &&& 15).toNat 0

/-- `SarPreserveQuarantinePaths`: the directory and the name of the link. -/
def sarPreserveQuarantinePaths (path : ProvPath) (linkId : UInt64) (dirCap linkCap : Nat) :
    Option (List UInt16 × List UInt16) :=
  let vp := sarPresVolPrefixChars path
  let needDir := vp + SAR_Q_SUBDIR.length
  let needLink := needDir + 1 + 16 + 2
  if vp = 0 ∨ dirCap ≤ needDir ∨ linkCap ≤ needLink then none
  else
    let dir := path.toList.take vp ++ SAR_Q_SUBDIR
    some (dir, dir ++ [92] ++ sarPresHex64 linkId ++ wideUnits ".q")

/-! ### The file and the system -/

structure FileContent where
  bytes : Nat → UInt8
  size : Nat
  size_lt : size < 2 ^ 63

/-- The answers of the system to one capture; `stage n` and `fault n` are for its `n`-th staging
    call: what it is granted, and whether reading the view raises an exception. -/
structure CaptureEnv where
  targetExempt : List UInt16 → Bool
  streamContext : Bool
  sectionContext : Bool
  createSection : Bool
  mapView : Bool
  queryInfo : Bool
  setLink : Bool
  stage : Nat → StageEnv
  fault : Nat → Bool
  capPool : Bool

/-! ### ViewStaging a view chunk by chunk -/

/-- Where a series of staging calls stands: the store, the number of calls made, and the last
    result that gave an original up. -/
structure ViewStaging where
  store : Preserve
  calls : Nat
  worst : StageResult

variable {s : ViewStaging}

/-- `if (r == SAR_STAGE_FAILED || r == SAR_STAGE_DROPPED) worst = r;` -/
def StageResult.worse (worst r : StageResult) : StageResult := if r.lost then r else worst

@[simp] theorem StageResult.worse_lost (worst r : StageResult) :
    (worst.worse r).lost = false ↔ worst.lost = false ∧ r.lost = false := by
  cases r <;> simp [worse, lost]

section

variable (bc : BCrypt) (env : CaptureEnv) (file : FileContent) (path : ProvPath) (actor : UInt64)

def chunkArgs (off len : Nat) : StageArgs where
  path := path
  offset := UInt64.ofNat off
  length := UInt64.ofNat (min len SAR_PRESERVE_STAGE_MAX)
  actorId := actor
  plaintext := readData file.bytes off (min len SAR_PRESERVE_STAGE_MAX)
  againstReservation := false
  plaintext_lt := by
    have hle := min_le_right len SAR_PRESERVE_STAGE_MAX
    simp only [SAR_PRESERVE_STAGE_MAX] at hle
    simp only [readData, List.length_map, List.length_range, SAR_PRESERVE_STAGE_MAX]
    omega

/-- One staging call under `__try`; `none` is an exception.  Only a call that finds a gap reads
    the view. -/
def stageChunk (n off len : Nat) (P : Preserve) : Preserve × Option StageResult :=
  let args := chunkArgs file path actor off len
  let live := liveRecords P (env.stage n).now
  if env.fault n && (sarPreserveFirstGap live path args.offset args.length).isSome then
    (evictAged P (env.stage n).now, none)
  else
    let res := sarPreserveStage bc args (env.stage n) P
    (res.1, some res.2)

/-- The loop of `SarCaptureStageSpan`, from `off` on. -/
def stageSpanLoop (spanEnd off : Nat) (s : ViewStaging) : ViewStaging :=
  if off < spanEnd then
    match stageChunk bc env file path actor s.calls off
        (min (spanEnd - off) SAR_PRESERVE_STAGE_MAX) s.store with
    | (P, none) => ⟨P, s.calls + 1, .failed⟩
    | (P, some r) =>
      stageSpanLoop spanEnd (off + SAR_PRESERVE_STAGE_MAX)
        ⟨P, s.calls + 1, s.worst.worse r⟩
  else s
termination_by spanEnd - off
decreasing_by
  have : 0 < SAR_PRESERVE_STAGE_MAX := by decide
  omega

def sarCaptureStageSpan (spanStart spanEnd : Nat) (P : Preserve) (calls : Nat) : ViewStaging :=
  stageSpanLoop bc env file path actor spanEnd spanStart ⟨P, calls, .stored⟩

def stageSpanInto (spanStart spanEnd : Nat) (s : ViewStaging) : ViewStaging :=
  let r := sarCaptureStageSpan bc env file path actor spanStart spanEnd s.store s.calls
  { r with worst := s.worst.worse r.worst }

/-- The loop of `SarCaptureInPlaceRegion` over the captured ranges, and the span behind it. -/
def stageUncaptured (stop : Nat) : List CapRange → Nat → ViewStaging → ViewStaging
  | [], cursor, s => if cursor < stop then stageSpanInto bc env file path actor cursor stop s else s
  | r :: ranges, cursor, s =>
    if cursor < stop then
      if r.stop ≤ cursor then stageUncaptured stop ranges cursor s
      else if stop ≤ r.start then stageSpanInto bc env file path actor cursor stop s
      else
        let s :=
          if cursor < r.start then
            stageSpanInto bc env file path actor cursor (min r.start stop) s
          else s
        stageUncaptured stop ranges r.stop s
    else s

/-! ### The routines -/

/-- What a capture leaves: the store, the captured ranges of the stream, and its result. -/
structure Captured where
  store : Preserve
  cap : CapTable
  result : StageResult

def sarCaptureInPlaceRegion (info : Option NormalizedName) (c : Caller) (offset length : UInt64)
    (cap : CapTable) (P : Preserve) : Captured :=
  let path := sarCaptureResolveProvenance info
  if P.ready = false ∨ c.passive = false ∨ length = 0 then ⟨P, cap, .stored⟩
  else if sarCapturePathExempt env.targetExempt path then ⟨P, cap, .stored⟩
  else if env.streamContext = false ∨ env.sectionContext = false ∨ env.createSection = false then
    ⟨P, cap, .stored⟩
  else
    -- the sum is one of 64 bits
    let stop := min (offset + length).toNat file.size
    if h : offset.toNat < stop then
      if env.mapView = false then ⟨P, cap, .stored⟩
      else
        let s := stageUncaptured bc env file path c.process.startKey stop cap.ranges offset.toNat
          ⟨P, 0, .stored⟩
        ⟨s.store,
          if s.worst = .stored then
            (sarCapRangeInsert cap ⟨offset.toNat, stop, le_of_lt h⟩ env.capPool).getD cap
          else cap,
          s.worst⟩
    else ⟨P, cap, .stored⟩

def sarCaptureWholeContent (P : Preserve) : Preserve × StageResult :=
  if sarCapturePathExempt env.targetExempt path then (P, .stored)
  else if env.sectionContext = false ∨ env.createSection = false then (P, .stored)
  else if 0 < file.size ∧ env.mapView = true then
    let s := sarCaptureStageSpan bc env file path actor 0 file.size P 0
    (s.store, s.worst)
  else (P, .stored)

/-- The end of `SarCaptureLinkPreserve`: a link in the quarantine directory, staged at the time of
    the first staging call, or the whole content if the file system makes no link. -/
def linkOrCopy (P : Preserve) : Preserve × StageResult :=
  let linkId := P.nextLinkId.toUInt64
  let P := { P with nextLinkId := P.nextLinkId + 1 }
  match sarPreserveQuarantinePaths path linkId 96 128 with
  | none => (P, .failed)
  | some _ =>
    if env.setLink then
      match sarPreserveStageLink path (UInt64.ofNat file.size) actor linkId (env.stage 0).now
          (env.stage 0).causingPath P with
      | (P, .ok _) => (P, .stored)
      | (P, .error _) => (P, .dropped)
    else sarCaptureWholeContent bc env file path actor P

def sarCaptureLinkPreserve (G : Globals) (t : Target) (c : Caller) (P : Preserve) :
    Preserve × StageResult :=
  if P.ready = false ∨ c.passive = false then (P, .stored)
  else if sarCapturePathExempt env.targetExempt path then (P, .stored)
  else if identityExempt G c then (P, .stored)
  else if sarStreamConfidentBlind t then (P, .stored)
  else if env.queryInfo = false ∨ file.size = 0 then (P, .stored)
  else linkOrCopy bc env file path c.process.startKey P

end

section

variable (bc : BCrypt) (env : CaptureEnv) (file : FileContent) (G : Globals) (t : Target)
  (c : Caller)

def sarCaptureSubmitDelete (info : Option NormalizedName) (P : Preserve) : Preserve × StageResult :=
  if P.ready = false ∨ c.passive = false then (P, .stored)
  else sarCaptureLinkPreserve bc env file (sarCaptureResolveProvenance info) G t c P

/-- `SarCaptureSubmitRenameTarget`: `file` and `t` are the file under the new name, which
    `opened` says could be opened. -/
def sarCaptureSubmitRenameTarget (replace : Bool) (fileNameLength : Nat)
    (destName : Option NormalizedName) (opened : Bool) (P : Preserve) : Preserve × StageResult :=
  if P.ready = false ∨ c.passive = false then (P, .stored)
  else if replace = false ∨ fileNameLength = 0 then (P, .stored)
  else
    match destName with
    | none => (P, .stored)
    | some dest =>
      if opened = false then (P, .stored)
      else sarCaptureLinkPreserve bc env file (renameTargetPath dest) G t c P

/-- `SarCaptureSubmitSupersede`: `named` says that the name of the create could be queried,
    `opened` that the file under it could be opened, and `info` is the name of that file. -/
def sarCaptureSubmitSupersede (named opened : Bool) (info : Option NormalizedName)
    (P : Preserve) : Preserve × StageResult :=
  if P.ready = false then (P, .stored)
  else if c.passive = false ∨ c.noTopLevel = false then (P, .stored)
  else if named = false ∨ opened = false then (P, .stored)
  else if sarStreamConfidentBlind t then (P, .stored)
  else
    let path := sarCaptureResolveProvenanceFo info
    if pathText path ≠ [] ∧ sarCaptureProvenanceIsOwn path = false then
      sarCaptureWholeContent bc env file path c.process.startKey P
    else (P, .stored)

end

/-! ### When the staging loop is reached -/

/-- The tests in front of the staging loop of `SarCaptureInPlaceRegion`. -/
structure InPlaceReached (env : CaptureEnv) (file : FileContent) (info : Option NormalizedName)
    (c : Caller) (offset length : UInt64) (P : Preserve) : Prop where
  ready : P.ready = true
  passive : c.passive = true
  nonempty : length ≠ 0
  notExempt : sarCapturePathExempt env.targetExempt (sarCaptureResolveProvenance info) = false
  streamContext : env.streamContext = true
  sectionContext : env.sectionContext = true
  createSection : env.createSection = true
  mapView : env.mapView = true
  lt : offset.toNat < min (offset + length).toNat file.size

section

variable {bc : BCrypt} {env : CaptureEnv} {file : FileContent} {info : Option NormalizedName}
  {c : Caller} {offset length : UInt64} {cap : CapTable} {P : Preserve}

def stageRegion (bc : BCrypt) (env : CaptureEnv) (file : FileContent)
    (info : Option NormalizedName) (c : Caller) (offset length : UInt64) (cap : CapTable)
    (P : Preserve) : ViewStaging :=
  stageUncaptured bc env file (sarCaptureResolveProvenance info) c.process.startKey
    (min (offset + length).toNat file.size) cap.ranges offset.toNat ⟨P, 0, .stored⟩

theorem inPlaceRegion_of_reached (h : InPlaceReached env file info c offset length P) :
    sarCaptureInPlaceRegion bc env file info c offset length cap P =
      let s := stageRegion bc env file info c offset length cap P
      ⟨s.store,
        if s.worst = .stored then
          (sarCapRangeInsert cap ⟨offset.toNat, min (offset + length).toNat file.size,
            le_of_lt h.lt⟩ env.capPool).getD cap
        else cap,
        s.worst⟩ := by
  have hcall : ¬ (P.ready = false ∨ c.passive = false ∨ length = 0) := by
    simp [h.ready, h.passive, h.nonempty]
  have hgrant : ¬ (env.streamContext = false ∨ env.sectionContext = false ∨
      env.createSection = false) := by
    simp [h.streamContext, h.sectionContext, h.createSection]
  unfold sarCaptureInPlaceRegion
  rw [if_neg hcall, if_neg (by simp [h.notExempt]), if_neg hgrant, dif_pos h.lt,
    if_neg (by simp [h.mapView])]
  rfl

theorem inPlaceRegion_of_not_reached (h : ¬ InPlaceReached env file info c offset length P) :
    sarCaptureInPlaceRegion bc env file info c offset length cap P = ⟨P, cap, .stored⟩ := by
  unfold sarCaptureInPlaceRegion
  dsimp only
  split
  · rfl
  rename_i hcall
  split
  · rfl
  rename_i hexempt
  split
  · rfl
  rename_i hgrant
  split
  next hlt =>
    split
    · rfl
    rename_i hview
    simp only [not_or, Bool.not_eq_false, Bool.not_eq_true] at hcall hexempt hgrant hview
    exact absurd ⟨hcall.1, hcall.2.1, hcall.2.2, hexempt, hgrant.1, hgrant.2.1, hgrant.2.2, hview,
      hlt⟩ h
  · rfl

end

/-! ### The plan of the calls -/

def spanChunks (spanEnd off : Nat) : List (Nat × Nat) :=
  if off < spanEnd then
    (off, min (spanEnd - off) SAR_PRESERVE_STAGE_MAX) ::
      spanChunks spanEnd (off + SAR_PRESERVE_STAGE_MAX)
  else []
termination_by spanEnd - off
decreasing_by
  have : 0 < SAR_PRESERVE_STAGE_MAX := by decide
  omega

def uncapturedChunks (stop : Nat) : List CapRange → Nat → List (Nat × Nat)
  | [], cursor => spanChunks stop cursor
  | r :: ranges, cursor =>
    if cursor < stop then
      if r.stop ≤ cursor then uncapturedChunks stop ranges cursor
      else if stop ≤ r.start then spanChunks stop cursor
      else spanChunks (min r.start stop) cursor ++ uncapturedChunks stop ranges r.stop
    else []

theorem spanChunks_of_lt (h : off < spanEnd) :
    spanChunks spanEnd off = (off, min (spanEnd - off) SAR_PRESERVE_STAGE_MAX) ::
      spanChunks spanEnd (off + SAR_PRESERVE_STAGE_MAX) := by
  rw [spanChunks, if_pos h]

theorem spanChunks_of_ge (h : spanEnd ≤ off) : spanChunks spanEnd off = [] := by
  rw [spanChunks, if_neg (not_lt.mpr h)]

section

variable {bc : BCrypt} {env : CaptureEnv} {file : FileContent} {path : ProvPath} {actor : UInt64}

variable (bc env file path actor) in
inductive StagedChunks : Nat → List (Nat × Nat) → Preserve → Preserve → Prop where
  | nil {n : Nat} {P : Preserve} : StagedChunks n [] P P
  | cons {n off len : Nat} {chunks : List (Nat × Nat)} {P Q : Preserve}
      (hcall : (sarPreserveStage bc (chunkArgs file path actor off len) (env.stage n) P).2.lost =
        false)
      (hrest : StagedChunks (n + 1) chunks
        (sarPreserveStage bc (chunkArgs file path actor off len) (env.stage n) P).1 Q) :
      StagedChunks n ((off, len) :: chunks) P Q

theorem StagedChunks.append {n : Nat} {P Q R : Preserve}
    (hfront : StagedChunks bc env file path actor n front P Q)
    (hback : StagedChunks bc env file path actor (n + front.length) back Q R) :
    StagedChunks bc env file path actor n (front ++ back) P R := by
  induction hfront with
  | nil => simpa using hback
  | cons hcall _ ih =>
    refine .cons hcall (ih ?_)
    rwa [add_right_comm, add_assoc]

def ViewStaging.Made (bc : BCrypt) (env : CaptureEnv) (file : FileContent) (path : ProvPath)
    (actor : UInt64) (chunks : List (Nat × Nat)) (s s' : ViewStaging) : Prop :=
  s.worst.lost = false ∧ StagedChunks bc env file path actor s.calls chunks s.store s'.store ∧
    s'.calls = s.calls + chunks.length

theorem stageSpanLoop_made (spanEnd off : Nat) (s : ViewStaging)
    (h : (stageSpanLoop bc env file path actor spanEnd off s).worst.lost = false) :
    s.Made bc env file path actor (spanChunks spanEnd off)
      (stageSpanLoop bc env file path actor spanEnd off s) := by
  fun_induction stageSpanLoop bc env file path actor spanEnd off s with
  | case1 off s hlt P hchunk => cases h
  | case2 off s hlt P r hchunk ih =>
    obtain ⟨hworst, hstaged, hcalls⟩ := ih h
    obtain ⟨hold, hr⟩ := (StageResult.worse_lost _ _).mp hworst
    unfold stageChunk at hchunk
    dsimp only at hchunk
    split at hchunk
    · cases hchunk
    cases hchunk
    rw [spanChunks_of_lt hlt]
    refine ⟨hold, .cons hr hstaged, ?_⟩
    rw [List.length_cons, ← add_assoc, add_right_comm]
    exact hcalls
  | case3 off s hge =>
    rw [spanChunks_of_ge (not_lt.mp hge)]
    exact ⟨h, .nil, rfl⟩

theorem stageSpanInto_made (spanStart spanEnd : Nat) (s : ViewStaging)
    (h : (stageSpanInto bc env file path actor spanStart spanEnd s).worst.lost = false) :
    s.Made bc env file path actor (spanChunks spanEnd spanStart)
      (stageSpanInto bc env file path actor spanStart spanEnd s) := by
  obtain ⟨hold, hspan⟩ := (StageResult.worse_lost _ _).mp h
  obtain ⟨-, hstaged, hcalls⟩ :=
    stageSpanLoop_made spanEnd spanStart ⟨s.store, s.calls, .stored⟩ hspan
  exact ⟨hold, hstaged, hcalls⟩

theorem ViewStaging.Made.trans {s' s'' : ViewStaging} (h : s.Made bc env file path actor front s')
    (h' : s'.Made bc env file path actor back s'') :
    s.Made bc env file path actor (front ++ back) s'' := by
  obtain ⟨hworst, hstaged, hcalls⟩ := h
  obtain ⟨-, hstaged', hcalls'⟩ := h'
  rw [hcalls] at hstaged'
  refine ⟨hworst, hstaged.append hstaged', ?_⟩
  rw [hcalls', hcalls, List.length_append, add_assoc]

theorem ViewStaging.Made.refl (h : s.worst.lost = false) :
    s.Made bc env file path actor [] s := ⟨h, .nil, rfl⟩

/-- **The plan is carried out.**  A region none of whose calls gave an original up has had all
    its chunks outside the captured ranges staged. -/
theorem stageUncaptured_made (stop : Nat) (ranges : List CapRange) (cursor : Nat) (s : ViewStaging)
    (h : (stageUncaptured bc env file path actor stop ranges cursor s).worst.lost = false) :
    s.Made bc env file path actor (uncapturedChunks stop ranges cursor)
      (stageUncaptured bc env file path actor stop ranges cursor s) := by
  induction ranges generalizing cursor s with
  | nil =>
    unfold stageUncaptured at h ⊢
    split at h
    next hlt =>
      rw [if_pos hlt]
      exact stageSpanInto_made cursor stop s h
    next hge =>
      rw [if_neg hge, uncapturedChunks, spanChunks_of_ge (not_lt.mp hge)]
      exact .refl h
  | cons r ranges ih =>
    unfold stageUncaptured at h ⊢
    unfold uncapturedChunks
    split at h
    next hlt =>
      rw [if_pos hlt, if_pos hlt]
      split at h
      next hbehind =>
        rw [if_pos hbehind, if_pos hbehind]
        exact ih cursor s h
      rename_i hahead
      rw [if_neg hahead, if_neg hahead]
      split at h
      next hbeyond =>
        rw [if_pos hbeyond, if_pos hbeyond]
        exact stageSpanInto_made cursor stop s h
      rename_i hreach
      rw [if_neg hreach, if_neg hreach]
      have hrest := ih r.stop _ h
      refine .trans ?_ hrest
      by_cases hgap : cursor < r.start
      · rw [if_pos hgap] at hrest ⊢
        exact stageSpanInto_made cursor (min r.start stop) s hrest.1
      · rw [if_neg hgap] at hrest ⊢
        rw [spanChunks_of_ge ((min_le_left _ _).trans (not_lt.mp hgap))]
        exact .refl hrest.1
    next hge =>
      rw [if_neg hge, if_neg hge]
      exact .refl h

end

end SemanticsAr
