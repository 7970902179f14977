import SemanticsAr.Overlays
import SemanticsAr.PreserveRestore
import SemanticsAr.Provenance
import SemanticsAr.RecoveryRuns

/-!
# The driver's recovery of preserved regions

`SarPreserveRecoveryExecute` of `driver/recovery.c`: a region that the store holds is written
over a copy of the target file, chunk by chunk, and the service then puts the copy in place
of the target.  `preserve_recovery_overlays` compares the copy with the overlay of the region
on the target, and shows that regions which do not meet can be restored in any order.
-/

namespace SemanticsAr

open List

variable {pos off i : Nat} {target file last : Option TargetFile} {region : List UInt8}
  {out : OutFile} {bc : BCrypt} {P P' : Preserve} {regions : List (Patch UInt8)} {opens : Bool}

/-! ### The model -/

/-- `semantics_ar_preserve_recover_t`. -/
structure PreserveRecoverRequest where
  targetPath : ProvPath
  offset : UInt64
  length : UInt64

variable {request : PreserveRecoverRequest}

/-- What the system calls of one run return, by file position where there are several;
    `resolved` is the name that `SarRecResolveNtPath` finds for the target. -/
structure PreserveRecoverIo where
  store : Bool
  pathPool : Bool
  bufferPools : Bool
  resolved : ProvPath
  restore : RestoreEnv
  targetOpens : Bool
  querySize : Bool
  tempOpens : Bool
  reads : Nat → Bool
  writes : Nat → Bool
  flushes : Bool

variable {io : PreserveRecoverIo}

structure PreserveRecoverOutcome where
  status : RecoverStatus
  bytesRecovered : UInt64
  temp : Option OutFile

def provPath (io : PreserveRecoverIo) (request : PreserveRecoverRequest) : ProvPath :=
  if pathText io.resolved ≠ [] then io.resolved else request.targetPath

/-- What the run sees of the target: nothing where the file cannot be opened, or where its
    size cannot be queried and stays zero. -/
def visibleTarget (io : PreserveRecoverIo) : Option TargetFile → List UInt8
  | none => []
  | some target => if io.targetOpens && io.querySize then target.bytes else []

def overlayChunk (target : List UInt8) (off rlen : Nat) (region : List UInt8) (pos csize : Nat) :
    Nat → UInt8 :=
  let chunk : Nat → UInt8 := fun _ => 0
  let chunk :=
    if pos < target.length then
      writeData chunk 0 ((target.drop pos).take (min (target.length - pos) csize))
    else chunk
  let ostart := max off pos
  let oend := min (off + rlen) (pos + csize)
  if ostart < oend then
    writeData chunk (ostart - pos) ((region.drop (ostart - off)).take (oend - ostart))
  else chunk

/-- The loop over the chunks, up to a call that fails.  File positions are signed, so nothing
    can be written from `2 ^ 63` on. -/
def overlayLoop (io : PreserveRecoverIo) (target : List UInt8) (off rlen : Nat)
    (region : List UInt8) (finalSize pos : Nat) (out : OutFile) : OutFile × Bool :=
  if pos < finalSize then
    let csize := min (finalSize - pos) SAR_PRESERVE_STAGE_MAX
    if pos < target.length ∧ io.reads pos = false then (out, false)
    else if io.writes pos = false ∨ 2 ^ 63 ≤ pos + csize then (out, false)
    else
      overlayLoop io target off rlen region finalSize (pos + SAR_PRESERVE_STAGE_MAX)
        (out.write pos (readData (overlayChunk target off rlen region pos csize) 0 csize))
  else (out, true)
termination_by finalSize - pos
decreasing_by
  simp only [SAR_PRESERVE_STAGE_MAX]
  omega

def writeOverlay (io : PreserveRecoverIo) (target : List UInt8) (request : PreserveRecoverRequest)
    (region : List UInt8) : PreserveRecoverOutcome :=
  let off := request.offset.toNat
  let rlen := request.length.toNat
  if io.tempOpens = false then ⟨.declinedTargetIo, 0, none⟩
  else
    match overlayLoop io target off rlen region (max (off + rlen) target.length) 0 .empty with
    | (out, false) => ⟨.declinedTargetIo, 0, some out⟩
    | (out, true) =>
      if io.flushes then ⟨.ok, request.length, some out⟩ else ⟨.declinedTargetIo, 0, some out⟩

/-- `SarPreserveRecoveryExecute`; the store may be another one when the payload is read. -/
def sarPreserveRecoveryExecute (bc : BCrypt) (io : PreserveRecoverIo) (target : Option TargetFile)
    (P P' : Preserve) (request : PreserveRecoverRequest) : PreserveRecoverOutcome :=
  if io.store = false then ⟨.declinedTargetIo, 0, none⟩
  else if request.length = 0 ∨ request.offset + request.length < request.offset then
    ⟨.invalid, 0, none⟩
  else if io.pathPool = false ∨ pathText request.targetPath = [] ∨ io.bufferPools = false then
    ⟨.invalid, 0, none⟩
  else
    match sarPreserveRestore bc (provPath io request) request.offset request.length
        request.length.toUInt32 io.restore P P' with
    | .error _ => ⟨.declinedMismatch, 0, none⟩
    | .ok region =>
      if region.length ≠ request.length.toUInt32.toNat then ⟨.declinedMismatch, 0, none⟩
      else writeOverlay io (visibleTarget io target) request region

/-! ### The loop writes the overlay -/

def OutFile.bytes (out : OutFile) : List UInt8 := readData out.data 0 out.length

@[simp] theorem OutFile.length_bytes : out.bytes.length = out.length := by
  simp [OutFile.bytes, readData]

theorem OutFile.getD_bytes (out : OutFile) {b : Nat} (hb : b < out.length) :
    out.bytes.getD b 0 = out.data b := by
  simp [OutFile.bytes, readData, getD_eq_getElem?_getD, hb]

theorem writeData_slice (data : Nat → UInt8) {bytes : List UInt8} {start n : Nat}
    (hfits : start + n ≤ bytes.length) :
    writeData data pos ((bytes.drop start).take n) i =
      if pos ≤ i ∧ i < pos + n then bytes.getD (start + (i - pos)) 0 else data i := by
  split
  next hin =>
    rw [writeData, if_pos hin.1, getD_eq_getElem?_getD, List.getElem?_take_of_lt (by omega),
      List.getElem?_drop, getD_eq_getElem?_getD, List.getElem?_eq_getElem (by omega),
      Option.getD_some, Option.getD_some]
  · exact writeData_outside (by rw [List.length_take, List.length_drop]; omega)

/-- **A chunk** holds its part of the overlay. -/
theorem overlayChunk_eq (target : List UInt8) {csize i : Nat}
    (hi : i < csize) :
    overlayChunk target off region.length region pos csize i =
      (overlay 0 target ⟨off, region⟩).getD (pos + i) 0 := by
  have htarget : (if pos < target.length then
      writeData (fun _ => 0) 0 ((target.drop pos).take (min (target.length - pos) csize))
      else fun _ => 0) i = target.getD (pos + i) 0 := by
    by_cases hpos : pos < target.length
    · rw [if_pos hpos, writeData_slice _ (by omega)]
      by_cases hin : pos + i < target.length
      · rw [if_pos (by omega), Nat.sub_zero]
      · rw [if_neg (by omega), getD_eq_default _ _ (by omega)]
    · rw [if_neg hpos, getD_eq_default _ _ (by omega)]
  rw [getD_overlay, overlayChunk]
  dsimp only
  by_cases hmeet : max off pos < min (off + region.length) (pos + csize)
  · rw [if_pos hmeet, writeData_slice _ (by omega)]
    by_cases hin : (⟨off, region⟩ : Patch UInt8).Has (pos + i)
    · obtain ⟨hlo, hhi⟩ := hin
      simp only [Patch.last] at hlo hhi
      rw [if_pos (by omega), if_pos ⟨hlo, hhi⟩]
      congr 1
      omega
    · have hnot : ¬ (max off pos - pos ≤ i ∧
          i < max off pos - pos + (min (off + region.length) (pos + csize) - max off pos)) := by
        intro h
        exact hin ⟨by dsimp only; omega, by simp only [Patch.last]; omega⟩
      rw [if_neg hnot, if_neg hin]
      exact htarget
  · have hout : ¬ (⟨off, region⟩ : Patch UInt8).Has (pos + i) := by
      rintro ⟨hlo, hhi⟩
      simp only [Patch.last] at hlo hhi
      omega
    rw [if_neg hmeet, if_neg hout]
    exact htarget

/-- **The loop** that ends without a failure has written the overlay. -/
theorem overlayLoop_spec {target : List UInt8}
    (hlen : out.length = min pos (max (off + region.length) target.length))
    (hdata : ∀ b < out.length, out.data b = (overlay 0 target ⟨off, region⟩).getD b 0)
    (hok : (overlayLoop io target off region.length region (max (off + region.length) target.length)
      pos out).2 = true) :
    (overlayLoop io target off region.length region
      (max (off + region.length) target.length) pos out).1.bytes =
        overlay 0 target ⟨off, region⟩ := by
  fun_induction overlayLoop io target off region.length region
    (max (off + region.length) target.length) pos out with
  | case1 pos out hpos hread => cases hok
  | case2 pos out hpos csize hread hwrite => cases hok
  | case3 pos out hpos csize hread hwrite ih =>
    refine ih ?_ ?_ hok
    · rw [length_write_readData, hlen]
      omega
    · intro b hb
      rw [length_write_readData, hlen] at hb
      rw [data_write_readData]
      by_cases hin : pos ≤ b ∧ b < pos + csize
      · rw [if_pos hin, overlayChunk_eq _ (by omega), Nat.add_sub_cancel' hin.1]
      · rw [if_neg hin]
        exact hdata b (by omega)
  | case4 pos out hpos =>
    have hall : out.length = max target.length (off + region.length) := by omega
    apply eq_of_getD 0
    · rw [OutFile.length_bytes, length_overlay]
      exact hall
    · intro b hb
      rw [OutFile.length_bytes] at hb
      rw [OutFile.getD_bytes _ hb]
      exact hdata b hb

/-! ### Runs that succeed -/

theorem sarPreserveRestore_outCap {path : ProvPath} {offset length : UInt64} {outCap : UInt32}
    {env : RestoreEnv} (h : sarPreserveRestore bc path offset length outCap env P P' = .ok region) :
    length.toNat ≤ outCap.toNat := by
  by_contra hcap
  rw [sarPreserveRestore, restoreLookup] at h
  by_cases hready : P.ready = false
  · rw [if_pos hready] at h
    cases h
  · rw [if_neg hready, if_pos (Nat.not_le.mp hcap)] at h
    cases h

structure RecoverPassed (bc : BCrypt) (io : PreserveRecoverIo) (target : Option TargetFile)
    (P P' : Preserve) (request : PreserveRecoverRequest) (region : List UInt8) (out : OutFile) :
    Prop where
  length_ne : request.length ≠ 0
  no_wrap : ¬ request.offset + request.length < request.offset
  path_ne : pathText request.targetPath ≠ []
  restored : sarPreserveRestore bc (provPath io request) request.offset request.length
    request.length.toUInt32 io.restore P P' = .ok region
  region_length : region.length = request.length.toNat
  written : overlayLoop io (visibleTarget io target) request.offset.toNat request.length.toNat
    region (max (request.offset.toNat + request.length.toNat) (visibleTarget io target).length) 0
    .empty = (out, true)
  outcome : sarPreserveRecoveryExecute bc io target P P' request = ⟨.ok, request.length, some out⟩

theorem sarPreserveRecoveryExecute_passed
    (h : (sarPreserveRecoveryExecute bc io target P P' request).status = .ok) :
    ∃ region out, RecoverPassed bc io target P P' request region out := by
  generalize hrun : sarPreserveRecoveryExecute bc io target P P' request = outcome at h
  have hstart := hrun
  revert hrun
  fun_cases sarPreserveRecoveryExecute bc io target P P' request with
  | case6 _ hlength hpath region hrestore hregion =>
    fun_cases writeOverlay io (visibleTarget io target) request region with
    | case3 _ _ _ out hloop =>
      intro hrun
      have hcap := sarPreserveRestore_outCap hrestore
      have hle : request.length.toUInt32.toNat ≤ request.length.toNat := by
        rw [UInt64.toNat_toUInt32]
        exact Nat.mod_le _ _
      rw [not_or] at hlength
      rw [not_or, not_or] at hpath
      exact ⟨region, out, hlength.1, hlength.2, hpath.2.1, hrestore, by omega, hloop,
        hstart.trans hrun.symm⟩
    | _ =>
      rintro rfl
      cases h
  | _ =>
    rintro rfl
    cases h

/-- **A run that succeeds** has restored the whole region and has written its overlay on what
    it saw of the target. -/
theorem sarPreserveRecoveryExecute_ok {recovered : UInt64}
    (h : sarPreserveRecoveryExecute bc io target P P' request = ⟨.ok, recovered, some out⟩) :
    ∃ region, sarPreserveRestore bc (provPath io request) request.offset request.length
        request.length.toUInt32 io.restore P P' = .ok region ∧
      region.length = request.length.toNat ∧
      out.bytes = overlay 0 (visibleTarget io target) ⟨request.offset.toNat, region⟩ := by
  obtain ⟨region, out', hpassed⟩ := sarPreserveRecoveryExecute_passed (congrArg
    PreserveRecoverOutcome.status h)
  cases hpassed.outcome.symm.trans h
  refine ⟨region, hpassed.restored, hpassed.region_length, ?_⟩
  have hspec := @overlayLoop_spec 0 request.offset.toNat region .empty io
    (visibleTarget io target) (Nat.zero_min _).symm (fun b hb => absurd hb (Nat.not_lt_zero b))
  rw [hpassed.region_length, hpassed.written] at hspec
  exact hspec rfl

def contentOf : Option TargetFile → List UInt8
  | none => []
  | some target => target.bytes

/-- The file is the target with the region over it: as long as the longer of the two, the
    region inside, the target elsewhere, and zeroes in a hole between them. -/
structure RestoredOver (target : List UInt8) (off : Nat) (region : List UInt8) (out : OutFile) :
    Prop where
  length_eq : out.length = max target.length (off + region.length)
  inside : ∀ b, off ≤ b → b < off + region.length → out.data b = region.getD (b - off) 0
  kept : ∀ b < target.length, ¬ (off ≤ b ∧ b < off + region.length) → out.data b = target.getD b 0
  hole : ∀ b < out.length, target.length ≤ b → ¬ (off ≤ b ∧ b < off + region.length) →
    out.data b = 0

theorem restoredOver_iff {target : List UInt8} :
    RestoredOver target off region out ↔ out.bytes = overlay 0 target ⟨off, region⟩ := by
  have hpatch : ∀ b, (overlay 0 target ⟨off, region⟩).getD b 0 =
      if off ≤ b ∧ b < off + region.length then region.getD (b - off) 0 else target.getD b 0 :=
    fun b => getD_overlay 0 target ⟨off, region⟩ b
  constructor
  · intro h
    apply eq_of_getD 0
    · rw [OutFile.length_bytes, length_overlay]
      exact h.length_eq
    · intro b hb
      rw [OutFile.length_bytes] at hb
      rw [OutFile.getD_bytes _ hb, hpatch]
      split
      next hin =>
        exact h.inside b hin.1 hin.2
      next hout =>
        by_cases htarget : b < target.length
        · exact h.kept b htarget hout
        · rw [h.hole b hb (Nat.not_lt.mp htarget) hout, getD_eq_default _ _ (Nat.not_lt.mp htarget)]
  · intro h
    have hlength : out.length = max target.length (off + region.length) := by
      rw [← OutFile.length_bytes, h, length_overlay]
      rfl
    have hdata : ∀ b < out.length, out.data b =
        if off ≤ b ∧ b < off + region.length then region.getD (b - off) 0
        else target.getD b 0 := by
      intro b hb
      rw [← OutFile.getD_bytes _ hb, h, hpatch]
    refine ⟨hlength, ?_, ?_, ?_⟩
    · intro b hlo hhi
      rw [hdata b (by omega), if_pos ⟨hlo, hhi⟩]
    · intro b hb hout
      rw [hdata b (by omega), if_neg hout]
    · intro b hb htarget hout
      rw [hdata b hb, if_neg hout, getD_eq_default _ _ htarget]

/-- A target that is there is opened and its size is queried, or it has nothing to lose
    outside the region. -/
def TargetKept (io : PreserveRecoverIo) (target : Option TargetFile) (off rlen : Nat) : Prop :=
  ∀ t, target = some t → (io.targetOpens = true ∧ io.querySize = true) ∨
    (t.bytes.length ≤ off + rlen ∧
      ∀ b < t.bytes.length, ¬ (off ≤ b ∧ b < off + rlen) → t.bytes.getD b 0 = 0)

theorem overlay_visibleTarget_iff : overlay 0 (visibleTarget io target) ⟨off, region⟩ =
        overlay 0 (contentOf target) ⟨off, region⟩ ↔
      TargetKept io target off region.length := by
  cases target with
  | none => exact iff_of_true rfl (fun t ht => by cases ht)
  | some t =>
    rw [visibleTarget, contentOf]
    split
    next hseen =>
      refine iff_of_true rfl ?_
      intro t' _
      exact .inl (Bool.and_eq_true_iff.mp hseen)
    rename_i hblind
    have hblind' : ¬ (io.targetOpens = true ∧ io.querySize = true) := by
      rwa [Bool.and_eq_true] at hblind
    constructor
    · intro h t' ht'
      cases ht'
      right
      have hlength := congrArg List.length h
      simp only [length_overlay, Patch.last, length_nil] at hlength
      refine ⟨by omega, ?_⟩
      intro b hb hout
      have hb' := congrArg (fun l => l.getD b 0) h
      have hpatch : ¬ (⟨off, region⟩ : Patch UInt8).Has b := hout
      simp only [getD_overlay] at hb'
      rw [if_neg hpatch, if_neg hpatch, getD_nil] at hb'
      exact hb'.symm
    · intro h
      obtain ⟨hlength, hzero⟩ := (h t rfl).resolve_left hblind'
      apply eq_of_getD 0
      · simp only [length_overlay, Patch.last, length_nil]
        omega
      · intro b _
        rw [getD_overlay, getD_overlay]
        split
        · rfl
        next hout =>
          rw [getD_nil]
          by_cases hb : b < t.bytes.length
          · exact (hzero b hb hout).symm
          · rw [getD_eq_default _ _ (Nat.not_lt.mp hb)]

/-! ### One region after the other -/

/-- Runs that succeed, each over the file that the one before put in place, in each of which
    the target is kept: the regions, the file before and the file behind. -/
inductive RestoreRun (bc : BCrypt) :
    List (Patch UInt8) → Option TargetFile → Option TargetFile → Prop
  | nil (file : Option TargetFile) : RestoreRun bc [] file file
  | cons {io : PreserveRecoverIo} {P P' : Preserve} {request : PreserveRecoverRequest}
      {region : List UInt8} {recovered : UInt64} {out : OutFile} {file last : Option TargetFile}
      {next : TargetFile} {regions : List (Patch UInt8)} :
      sarPreserveRestore bc (provPath io request) request.offset request.length
        request.length.toUInt32 io.restore P P' = .ok region →
      sarPreserveRecoveryExecute bc io file P P' request = ⟨.ok, recovered, some out⟩ →
      TargetKept io file request.offset.toNat request.length.toNat →
      next.bytes = out.bytes →
      RestoreRun bc regions (some next) last →
      RestoreRun bc (⟨request.offset.toNat, region⟩ :: regions) file last

theorem RestoreRun.content (h : RestoreRun bc regions file last) :
    contentOf last = overlays 0 (contentOf file) regions := by
  induction h with
  | nil file => rfl
  | cons hrestore hrun hkept hnext _ ih =>
    obtain ⟨region, hrestore', hlength, hout⟩ := sarPreserveRecoveryExecute_ok hrun
    cases hrestore.symm.trans hrestore'
    rw [← hlength] at hkept
    rw [ih, contentOf, overlays_cons, hnext, hout, overlay_visibleTarget_iff.mpr hkept]

theorem RestoreRun.isSome (h : RestoreRun bc regions file last) :
    last.isSome = (file.isSome || !regions.isEmpty) := by
  induction h with
  | nil file => simp
  | cons _ _ _ _ _ ih => simpa using ih

theorem eq_of_contentOf {f g : Option TargetFile} (hsome : f.isSome = g.isSome)
    (h : contentOf f = contentOf g) : f = g := by
  cases f with
  | none =>
    cases g with
    | none => rfl
    | some g => cases hsome
  | some f =>
    cases g with
    | none => cases hsome
    | some g =>
      cases f
      cases g
      cases h
      rfl

/-- **The overlay of preserved regions.**  A successful run leaves the target with the region over
    it exactly when a target that is there can be opened and its size queried, or has nothing
    outside the region; regions that do not meet, restored one after the other, give the same file
    in every order. -/
theorem preserve_recovery_overlays (bc : BCrypt) : (∀ io target P P' request region recovered out,
      sarPreserveRestore bc (provPath io request) request.offset request.length
        request.length.toUInt32 io.restore P P' = .ok region →
      sarPreserveRecoveryExecute bc io target P P' request = ⟨.ok, recovered, some out⟩ →
      (RestoredOver (contentOf target) request.offset.toNat region out ↔
        TargetKept io target request.offset.toNat request.length.toNat)) ∧
    ∀ regions regions' file last last', RestoreRun bc regions file last →
      RestoreRun bc regions' file last' → regions.Perm regions' →
      regions.Pairwise Patch.Apart → last = last' := by
  constructor
  · intro io target P P' request region recovered out hrestore hrun
    obtain ⟨region', hrestore', hlength, hout⟩ := sarPreserveRecoveryExecute_ok hrun
    cases hrestore.symm.trans hrestore'
    rw [restoredOver_iff, hout, ← hlength]
    exact overlay_visibleTarget_iff
  · intro regions regions' file last last' hrun hrun' hperm hapart
    apply eq_of_contentOf
    · rw [hrun.isSome, hrun'.isSome, hperm.isEmpty_eq]
    · rw [hrun.content, hrun'.content, overlays_perm 0 _ hperm hapart]

/-! ### A file that cannot be opened -/

theorem heldPath_fits :
    (wideUnits "\\Device\\HarddiskVolume3\\a").length ≤ SEMANTICS_AR_PROVENANCE_PATH_MAX := by
  decide

/-- The file `a` of a volume. -/
def heldPath : ProvPath := pathOf (wideUnits "\\Device\\HarddiskVolume3\\a") heldPath_fits

/-- The store that holds the deleted file of the given size by a link. -/
def linkedStoreOf (size : UInt64) : Preserve :=
  (sarPreserveStageLink heldPath size 7 0 1 (Vector.replicate _ 0) readyStore).1

def linkedStore : Preserve := linkedStoreOf 1

/-- The system grants everything; the link reads one byte, and the target opens or not. -/
def grantedRecover (opens : Bool) (byte : UInt8) : PreserveRecoverIo where
  store := true
  pathPool := true
  bufferPools := true
  resolved := Vector.replicate _ 0
  restore := ⟨true, true, true, .ok [byte]⟩
  targetOpens := opens
  querySize := true
  tempOpens := true
  reads _ := true
  writes _ := true
  flushes := true

/-- The file that is at the place of the deleted one now. -/
def twoBytes (x y : UInt8) : TargetFile := ⟨[x, y], (by decide : 2 < 2 ^ 63)⟩

/-- One of the two bytes of the deleted file is restored. -/
def recoverHeld (offset : UInt64) : PreserveRecoverRequest := ⟨heldPath, offset, 1⟩

def runOn (file : TargetFile) (opens : Bool) (offset : UInt64) (byte : UInt8) :
    PreserveRecoverOutcome :=
  sarPreserveRecoveryExecute identityCrypt (grantedRecover opens byte) (some file)
    (linkedStoreOf 2) (linkedStoreOf 2) (recoverHeld offset)

def restoreHeld (offset : UInt64) (byte : UInt8) : Except NtStatus (List UInt8) :=
  sarPreserveRestore identityCrypt (provPath (grantedRecover true byte) (recoverHeld offset)) offset
    1 1 (grantedRecover true byte).restore (linkedStoreOf 2) (linkedStoreOf 2)

section

variable {file next : TargetFile} {offset : UInt64} {byte : UInt8} {bytes : List UInt8}

theorem runOn_eq (h : (runOn file opens offset byte).status = .ok ∧
      (runOn file opens offset byte).bytesRecovered = 1 ∧
      (runOn file opens offset byte).temp.map OutFile.bytes = some bytes) :
    ∃ out, runOn file opens offset byte = ⟨.ok, 1, some out⟩ ∧ out.bytes = bytes := by
  obtain ⟨hstatus, hrecovered, hbytes⟩ := h
  obtain ⟨out, htemp, hout⟩ := Option.map_eq_some_iff.mp hbytes
  exact ⟨out, by rw [← hstatus, ← hrecovered, ← htemp], hout⟩

theorem RestoreRun.held (hrestore : restoreHeld offset byte = .ok [byte])
    (h : (runOn file true offset byte).status = .ok ∧
      (runOn file true offset byte).bytesRecovered = 1 ∧
      (runOn file true offset byte).temp.map OutFile.bytes = some next.bytes)
    (hnext : RestoreRun identityCrypt regions (some next) last) :
    RestoreRun identityCrypt (⟨offset.toNat, [byte]⟩ :: regions) (some file) last := by
  obtain ⟨out, hrun, hbytes⟩ := runOn_eq h
  exact .cons hrestore hrun (fun _ _ => .inl ⟨rfl, rfl⟩) hbytes.symm hnext

end

theorem restoreHeld_eq : restoreHeld 0 9 = .ok [9] ∧ restoreHeld 1 8 = .ok [8] := by
  decide +kernel

theorem held_in_order :
    RestoreRun identityCrypt [⟨0, [9]⟩, ⟨1, [8]⟩] (some (twoBytes 5 6)) (some (twoBytes 9 8)) :=
  have hsecond : RestoreRun identityCrypt [⟨1, [8]⟩] (some (twoBytes 9 6)) _ :=
    .held restoreHeld_eq.2 (by decide +kernel) (.nil _)
  .held restoreHeld_eq.1 (by decide +kernel) hsecond

theorem held_backwards :
    RestoreRun identityCrypt [⟨1, [8]⟩, ⟨0, [9]⟩] (some (twoBytes 5 6)) (some (twoBytes 9 8)) :=
  have hsecond : RestoreRun identityCrypt [⟨0, [9]⟩] (some (twoBytes 5 8)) _ :=
    .held restoreHeld_eq.1 (by decide +kernel) (.nil _)
  .held restoreHeld_eq.2 (by decide +kernel) hsecond

/-- Opened, the two bytes keep the one that is not restored; restored one after the other, they
    are the same in both orders. -/
theorem opened_target_kept :
    (∃ out, runOn (twoBytes 5 6) true 0 9 = ⟨.ok, 1, some out⟩ ∧ RestoredOver [5, 6] 0 [9] out) ∧
      ∃ last last', RestoreRun identityCrypt [⟨0, [9]⟩, ⟨1, [8]⟩] (some (twoBytes 5 6)) last ∧
        RestoreRun identityCrypt [⟨1, [8]⟩, ⟨0, [9]⟩] (some (twoBytes 5 6)) last' ∧
        last = last' := by
  obtain ⟨hover, horder⟩ := preserve_recovery_overlays identityCrypt
  constructor
  · obtain ⟨out, hrun, -⟩ := @runOn_eq true (twoBytes 5 6) 0 9 [9, 6] (by decide +kernel)
    refine ⟨out, hrun, ?_⟩
    refine (hover (grantedRecover true 9) (some (twoBytes 5 6)) (linkedStoreOf 2) (linkedStoreOf 2)
      (recoverHeld 0) [9] 1 out restoreHeld_eq.1 hrun).mpr ?_
    exact fun _ _ => .inl ⟨rfl, rfl⟩
  · exact ⟨_, _, held_in_order, held_backwards, horder _ _ _ _ _ held_in_order held_backwards
      (.swap _ _ _) (List.pairwise_pair.mpr (.inl (le_refl 1)))⟩

/-- While another process has the file open for writing, the target does not open: the run
    succeeds, and its output has lost the second byte. -/
theorem locked_target_lost : ∃ out, runOn (twoBytes 5 6) false 0 9 = ⟨.ok, 1, some out⟩ ∧
      out.bytes = [9] ∧ ¬ RestoredOver [5, 6] 0 [9] out := by
  obtain ⟨out, hrun, hbytes⟩ := @runOn_eq false (twoBytes 5 6) 0 9 [9] (by decide +kernel)
  refine ⟨out, hrun, hbytes, ?_⟩
  intro h
  have hlength := h.length_eq
  rw [← OutFile.length_bytes, hbytes] at hlength
  cases hlength

end SemanticsAr
