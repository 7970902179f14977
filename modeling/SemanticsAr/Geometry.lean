import SemanticsAr.Format

/-!
# Encryption geometry

`sar_geometry_expand` of `engine/src/recover.c`: which byte ranges of a file a family of
writers encrypts.  Positions are 64-bit numbers and the arithmetic is that of the source.
-/

namespace SemanticsAr

open List UInt64 Nat

variable {left cap : Nat} {fileSize : UInt64}

def SAR_MAX_RANGES : Nat := 1024

/-- `SAR_CTR_CONTINUOUS` and `SAR_CTR_RESET_PER_CHUNK`. -/
inductive CounterPolicy where
  | continuous
  | resetPerChunk
deriving DecidableEq, Repr

/-- `sar_range_t`. -/
structure FileRange where
  offset : UInt64
  length : UInt64
deriving DecidableEq, Repr

variable {ranges : List FileRange} {r : FileRange}

/-- The modes of `sar_geometry_t`, each with the fields it reads.  The ranges of the
    explicit mode may be missing although their count is not zero. -/
inductive GeometryMode where
  | full
  | head (headBytes : UInt64)
  | stride (chunkBytes strideBytes : UInt64)
  | percent (percent blockCount : UInt32)
  | explicit (ranges : Option (List FileRange))
  | unknown
deriving Repr

/-- `sar_geometry_t`. -/
structure Geometry where
  mode : GeometryMode
  counterPolicy : CounterPolicy
deriving Repr

/-- The part of a range that lies in the file, put in front of `rest`; `room` is what is left of the
    output array.  An empty part is skipped. -/
def clipRange (fileSize offset length : UInt64) (room : Nat)
    (rest : Nat → Option (List FileRange)) : Option (List FileRange) :=
  let avail := fileSize - offset
  let len := if length < avail then length else avail
  if len = 0 then rest room
  else
    match room with
    | 0 => none
    | room + 1 => (rest room).map (⟨offset, len⟩ :: ·)

/-- The positions `pos`, `pos + stride`, … below the file size.  A chunk is never empty,
    so every turn fills one entry of the output array. -/
def strideRanges (fileSize chunk stride : UInt64) : Nat → UInt64 → Option (List FileRange)
  | 0, pos => if pos < fileSize then none else some []
  | room + 1, pos =>
    if pos < fileSize then
      let avail := fileSize - pos
      let len := if chunk < avail then chunk else avail
      (strideRanges fileSize chunk stride room (pos + stride)).map (⟨pos, len⟩ :: ·)
    else some []

/-- Blocks `i`, `i + 1`, …, `left` of them. -/
def percentRanges (fileSize chunk step : UInt64) : Nat → UInt64 → Nat → Option (List FileRange)
  | 0, _, _ => some []
  | left + 1, i, room =>
    let off := i * step
    if off ≥ fileSize then some []
    else clipRange fileSize off chunk room (percentRanges fileSize chunk step left (i + 1))

def explicitRanges (fileSize : UInt64) : List FileRange → Nat → Option (List FileRange)
  | [], _ => some []
  | r :: rs, room =>
    if r.offset ≥ fileSize then explicitRanges fileSize rs room
    else clipRange fileSize r.offset r.length room (explicitRanges fileSize rs)

def sarGeometryExpand (geom : GeometryMode) (fileSize : UInt64) (cap : Nat) :
    Option (List FileRange) :=
  if fileSize = 0 then some []
  else
    match geom with
    | .full => if cap < 1 then none else some [⟨0, fileSize⟩]
    | .head headBytes =>
      let len := if headBytes < fileSize then headBytes else fileSize
      if len > 0 then if cap < 1 then none else some [⟨0, len⟩] else some []
    | .stride chunkBytes strideBytes =>
      if strideBytes = 0 ∨ chunkBytes = 0 then none
      else strideRanges fileSize chunkBytes strideBytes cap 0
    | .percent percent blockCount =>
      let bc := if blockCount ≠ 0 then blockCount else 1
      let total := fileSize * percent.toUInt64 / 100
      let chunk := if total / bc.toUInt64 = 0 then total else total / bc.toUInt64
      let step := fileSize / bc.toUInt64
      if chunk = 0 ∨ step = 0 then some []
      else percentRanges fileSize chunk step bc.toNat 0 cap
    | .explicit none => none
    | .explicit (some ranges) => explicitRanges fileSize ranges cap
    | .unknown => none

/-! ### Ranges inside the file -/

theorem clip_inside {offset length : UInt64}
    (h : offset.toNat + length.toNat ≤ fileSize.toNat) :
    (if length < fileSize - offset then length else fileSize - offset) = length := by
  have havail : (fileSize - offset).toNat = fileSize.toNat - offset.toNat :=
    UInt64.toNat_sub_of_le _ _ (UInt64.le_iff_toNat_le.mpr (by omega))
  split
  · rfl
  next hnot =>
    rw [UInt64.lt_iff_toNat_lt, havail] at hnot
    apply UInt64.toNat_inj.mp
    omega

theorem explicitRanges_inside
    (hinside : ∀ r ∈ ranges, r.offset.toNat + r.length.toNat ≤ fileSize.toNat) (room : Nat) :
    explicitRanges fileSize ranges room =
      if (ranges.filter (·.length ≠ 0)).length ≤ room then some (ranges.filter (·.length ≠ 0))
      else none := by
  induction ranges generalizing room with
  | nil => rfl
  | cons r ranges ih =>
    have hr := hinside r mem_cons_self
    have hrest := ih fun r hmem => hinside r (mem_cons_of_mem _ hmem)
    by_cases hlen : r.length = 0
    · rw [filter_cons_of_neg (by simpa using hlen), explicitRanges]
      split
      · exact hrest room
      · simp only [clipRange, clip_inside hr]
        rw [if_pos hlen]
        exact hrest room
    · have hpos : r.length.toNat ≠ 0 := fun h => hlen (UInt64.toNat_inj.mp h)
      have hoff : ¬ r.offset ≥ fileSize := by
        rw [ge_iff_le, le_iff_toNat_le]
        omega
      rw [filter_cons_of_pos (by simpa using hlen), explicitRanges, if_neg hoff]
      simp only [clipRange, clip_inside hr, if_neg hlen, length_cons]
      cases room with
      | zero => rfl
      | succ room =>
        simp only [hrest room, add_le_add_iff_right]
        split <;> rfl

theorem sarGeometryExpand_inside
    (hinside : ∀ r ∈ ranges, r.offset.toNat + r.length.toNat ≤ fileSize.toNat) :
    sarGeometryExpand (.explicit (some ranges)) fileSize cap =
      if (ranges.filter (·.length ≠ 0)).length ≤ cap then some (ranges.filter (·.length ≠ 0))
      else none := by
  rw [sarGeometryExpand]
  split
  · -- every range of an empty file is empty
    rename_i hsize
    have hnil : ranges.filter (·.length ≠ 0) = [] := by
      apply filter_eq_nil_iff.mpr
      intro r hmem
      have hr := hinside r hmem
      rw [hsize, UInt64.toNat_zero] at hr
      have hlen : r.length = 0 := UInt64.toNat_inj.mp (by rw [UInt64.toNat_zero]; omega)
      simpa using hlen
    rw [hnil]
    rfl
  · exact explicitRanges_inside hinside cap

theorem sarGeometryExpand_single (hinside : r.offset.toNat + r.length.toNat ≤ fileSize.toNat)
    (hlen : r.length ≠ 0) :
    sarGeometryExpand (.explicit (some [r])) fileSize SAR_MAX_RANGES = some [r] := by
  have hkept : [r].filter (·.length ≠ 0) = [r] := filter_cons_of_pos (by simpa using hlen)
  rw [sarGeometryExpand_inside (by simpa using hinside), hkept]
  rfl

theorem sarGeometryExpand_full (h : fileSize ≠ 0) :
    sarGeometryExpand .full fileSize SAR_MAX_RANGES = some [⟨0, fileSize⟩] := by
  simp [sarGeometryExpand, h, SAR_MAX_RANGES]

/-! ### What a successful expansion says -/

/-- The loop of the stride mode, turn by turn; `none` while it has not ended. -/
def strideLoop (fileSize chunk stride : UInt64) :
    Nat → UInt64 → Nat → Option (Option (List FileRange))
  | 0, _, _ => none
  | turns + 1, pos, room =>
    if pos < fileSize then
      let avail := fileSize - pos
      let len := if chunk < avail then chunk else avail
      if len = 0 then strideLoop fileSize chunk stride turns (pos + stride) room
      else
        match room with
        | 0 => some none
        | room + 1 =>
          (strideLoop fileSize chunk stride turns (pos + stride) room).map
            (Option.map (⟨pos, len⟩ :: ·))
    else some (some [])

def FileRange.Within (r : FileRange) (fileSize : UInt64) : Prop :=
  r.length ≠ 0 ∧ r.offset.toNat + r.length.toNat ≤ fileSize.toNat

def FileRange.Apart (r s : FileRange) : Prop :=
  r.offset.toNat + r.length.toNat ≤ s.offset.toNat ∨
    s.offset.toNat + s.length.toNat ≤ r.offset.toNat

/-- `bc`, `total`, `chunk` and `step` of the percent mode; the product of the total is that of
    64-bit numbers. -/
def percentBlocks (blockCount : UInt32) : UInt32 := if blockCount ≠ 0 then blockCount else 1

def percentTotal (fileSize : UInt64) (percent : UInt32) : UInt64 :=
  fileSize * percent.toUInt64 / 100

def percentChunk (total : UInt64) (bc : UInt32) : UInt64 :=
  if total / bc.toUInt64 = 0 then total else total / bc.toUInt64

def percentStep (fileSize : UInt64) (bc : UInt32) : UInt64 := fileSize / bc.toUInt64

def totalLength (ranges : List FileRange) : Nat := (ranges.map (·.length.toNat)).sum

section

variable {chunk step pos : UInt64} {room : Nat}

theorem clip_toNat (h : pos < fileSize) :
    (if chunk < fileSize - pos then chunk else fileSize - pos).toNat =
      min chunk.toNat (fileSize.toNat - pos.toNat) := by
  have havail : (fileSize - pos).toNat = fileSize.toNat - pos.toNat :=
    UInt64.toNat_sub_of_le _ _ (UInt64.le_of_lt h)
  split
  next hlt =>
    rw [lt_iff_toNat_lt, havail] at hlt
    omega
  next hge =>
    rw [lt_iff_toNat_lt, havail] at hge
    omega

theorem clip_within (h : pos < fileSize)
    (hlen : (if chunk < fileSize - pos then chunk else fileSize - pos) ≠ 0) :
    FileRange.Within ⟨pos, if chunk < fileSize - pos then chunk else fileSize - pos⟩
      fileSize := by
  refine ⟨hlen, ?_⟩
  have hpos := lt_iff_toNat_lt.mp h
  simp only [clip_toNat h]
  omega

theorem clip_ne_zero (h : pos < fileSize) (hchunk : chunk ≠ 0) :
    (if chunk < fileSize - pos then chunk else fileSize - pos) ≠ 0 := by
  intro hzero
  have hnat := @clip_toNat fileSize chunk pos h
  rw [hzero, UInt64.toNat_zero] at hnat
  have hpos := UInt64.lt_iff_toNat_lt.mp h
  have hne : chunk.toNat ≠ 0 := fun h => hchunk (UInt64.toNat_inj.mp h)
  omega

def Fits (fileSize : UInt64) (room : Nat) (ranges : List FileRange) : Prop :=
  (∀ r ∈ ranges, r.Within fileSize) ∧ ranges.length ≤ room

theorem fits_nil : Fits fileSize room [] := ⟨by simp, zero_le _⟩

theorem fits_cons (hr : r.Within fileSize) (h : Fits fileSize room ranges) :
    Fits fileSize (room + 1) (r :: ranges) := by
  refine ⟨?_, succ_le_succ h.2⟩
  intro s hs
  rcases mem_cons.mp hs with rfl | hs
  · exact hr
  · exact h.1 s hs

theorem clipRange_fits {rest : Nat → Option (List FileRange)} (hpos : pos < fileSize)
    (hrest : ∀ room ranges, rest room = some ranges → Fits fileSize room ranges)
    (h : clipRange fileSize pos chunk room rest = some ranges) : Fits fileSize room ranges := by
  have hwithin := @clip_within fileSize chunk pos hpos
  simp only [clipRange] at h
  generalize (if chunk < fileSize - pos then chunk else fileSize - pos) = len at h hwithin
  split at h
  · exact hrest _ _ h
  next hlen =>
    cases room with
    | zero => cases h
    | succ room =>
      obtain ⟨tail, htail, rfl⟩ := Option.map_eq_some_iff.mp h
      exact fits_cons (hwithin hlen) (hrest _ _ htail)

theorem strideRanges_fits (hchunk : chunk ≠ 0)
    (h : strideRanges fileSize chunk step room pos = some ranges) : Fits fileSize room ranges := by
  induction room generalizing pos ranges with
  | zero =>
    simp only [strideRanges, Option.ite_none_left_eq_some, Option.some.injEq] at h
    rw [← h.2]
    exact fits_nil
  | succ room ih =>
    simp only [strideRanges] at h
    split at h
    next hpos =>
      obtain ⟨tail, htail, rfl⟩ := Option.map_eq_some_iff.mp h
      exact fits_cons (clip_within hpos (clip_ne_zero hpos hchunk)) (ih htail)
    · cases h
      exact fits_nil

/-- The stride loop ends after at most one turn more than there is room, for every stride and
    also where the position wraps around: every turn but the last fills an entry. -/
theorem strideLoop_ends (hchunk : chunk ≠ 0) : strideLoop fileSize chunk step (room + 1) pos room =
      some (strideRanges fileSize chunk step room pos) := by
  induction room generalizing pos with
  | zero =>
    rw [strideLoop, strideRanges]
    split
    · simp only [if_neg (clip_ne_zero ‹_› hchunk)]
    · rfl
  | succ room ih =>
    rw [strideLoop, strideRanges]
    split
    · simp only [if_neg (clip_ne_zero ‹_› hchunk), ih, Option.map_some]
    · rfl

theorem percentRanges_fits (h : percentRanges fileSize chunk step left pos room = some ranges) :
    Fits fileSize room ranges := by
  induction left generalizing pos room ranges with
  | zero =>
    cases h
    exact fits_nil
  | succ left ih =>
    simp only [percentRanges] at h
    split at h
    · cases h
      exact fits_nil
    next hoff =>
      exact clipRange_fits (UInt64.not_le.mp hoff) (fun _ _ => ih) h

theorem explicitRanges_fits {given : List FileRange}
    (h : explicitRanges fileSize given room = some ranges) : Fits fileSize room ranges := by
  induction given generalizing room ranges with
  | nil =>
    cases h
    exact fits_nil
  | cons r given ih =>
    simp only [explicitRanges] at h
    split at h
    · exact ih h
    next hoff =>
      exact clipRange_fits (UInt64.not_le.mp hoff) (fun _ _ => ih) h

theorem sarGeometryExpand_percent (percent blockCount : UInt32) (hsize : fileSize ≠ 0) :
    sarGeometryExpand (.percent percent blockCount) fileSize room =
      let bc := percentBlocks blockCount
      let chunk := percentChunk (percentTotal fileSize percent) bc
      let step := percentStep fileSize bc
      if chunk = 0 ∨ step = 0 then some []
      else percentRanges fileSize chunk step bc.toNat 0 room :=
  if_neg hsize

theorem sarGeometryExpand_fits {geom : GeometryMode}
    (h : sarGeometryExpand geom fileSize room = some ranges) : Fits fileSize room ranges := by
  have hone : ∀ len : UInt64, len ≠ 0 → len.toNat ≤ fileSize.toNat → ¬ room < 1 →
      Fits fileSize room [⟨0, len⟩] := by
    intro len hlen hle hroom
    refine ⟨?_, Nat.le_of_not_lt hroom⟩
    simpa [FileRange.Within] using ⟨hlen, hle⟩
  by_cases hsize : fileSize = 0
  · rw [sarGeometryExpand.eq_def, if_pos hsize] at h
    cases h
    exact fits_nil
  · cases geom with
    | full =>
      simp only [sarGeometryExpand, if_neg hsize, Option.ite_none_left_eq_some,
        Option.some.injEq] at h
      rw [← h.2]
      exact hone _ hsize (le_refl _) h.1
    | head headBytes =>
      have hle : (if headBytes < fileSize then headBytes else fileSize).toNat ≤
          fileSize.toNat := by
        split
        · exact le_of_lt (lt_iff_toNat_lt.mp ‹_›)
        · exact le_refl _
      simp only [sarGeometryExpand, if_neg hsize] at h
      generalize (if headBytes < fileSize then headBytes else fileSize) = len at h hle
      split at h
      next hlen =>
        simp only [Option.ite_none_left_eq_some, Option.some.injEq] at h
        rw [← h.2]
        exact hone _ (fun hzero => UInt64.lt_irrefl _ (hzero ▸ hlen)) hle h.1
      · cases h
        exact fits_nil
    | stride chunkBytes strideBytes =>
      simp only [sarGeometryExpand, if_neg hsize, Option.ite_none_left_eq_some, not_or] at h
      exact strideRanges_fits h.1.2 h.2
    | percent percent blockCount =>
      rw [sarGeometryExpand_percent _ _ hsize] at h
      dsimp only at h
      split at h
      · cases h
        exact fits_nil
      · exact percentRanges_fits h
    | explicit given =>
      cases given with
      | none => simp [sarGeometryExpand, hsize] at h
      | some given =>
        simp only [sarGeometryExpand, if_neg hsize] at h
        exact explicitRanges_fits h
    | unknown => simp [sarGeometryExpand, hsize] at h

theorem percentRanges_eq {i : UInt64} (hchunk : chunk ≠ 0) (hstep : step ≠ 0)
    (hend : (i.toNat + left) * step.toNat ≤ fileSize.toNat)
    (h : percentRanges fileSize chunk step left i room = some ranges) :
    ranges.map (fun r => (r.offset.toNat, r.length.toNat)) = (List.range' i.toNat left).map fun j =>
        (j * step.toNat, min chunk.toNat (fileSize.toNat - j * step.toNat)) := by
  have hpos : 0 < step.toNat := pos_of_ne_zero fun h => hstep (UInt64.toNat_inj.mp h)
  have hlt := fileSize.toNat_lt
  induction left generalizing i room ranges with
  | zero =>
    cases h
    rfl
  | succ left ih =>
    have hi := (Nat.le_mul_of_pos_right _ hpos).trans hend
    have hblock : (i.toNat + 1) * step.toNat ≤ fileSize.toNat :=
      (Nat.mul_le_mul_right _ (by omega)).trans hend
    rw [Nat.add_mul, Nat.one_mul] at hblock
    have hmul : (i * step).toNat = i.toNat * step.toNat := by
      rw [UInt64.toNat_mul, mod_eq_of_lt (by omega)]
    have hnext : (i + 1).toNat = i.toNat + 1 := by
      rw [UInt64.toNat_add, UInt64.toNat_one, mod_eq_of_lt (by omega)]
    have hoff : i * step < fileSize := by
      rw [UInt64.lt_iff_toNat_lt, hmul]
      omega
    simp only [percentRanges, clipRange, if_neg (UInt64.not_le.mpr hoff),
      if_neg (clip_ne_zero hoff hchunk)] at h
    cases room with
    | zero => cases h
    | succ room =>
      obtain ⟨tail, htail, rfl⟩ := Option.map_eq_some_iff.mp h
      have hrec := ih (by rwa [hnext, add_right_comm]) htail
      rw [hnext] at hrec
      simp only [map_cons, List.range'_succ, hrec, clip_toNat hoff, hmul]

section

variable {bc : Nat} (hchunk : chunk ≠ 0) (hstep : step ≠ 0)
  (hend : bc * step.toNat ≤ fileSize.toNat)
  (h : percentRanges fileSize chunk step bc 0 room = some ranges)

include hchunk hstep hend h

theorem percentRanges_apart_iff :
    ranges.Pairwise FileRange.Apart ↔ (bc < 2 ∨ chunk.toNat ≤ step.toNat) := by
  have hpairs : ranges.Pairwise FileRange.Apart ↔
      (ranges.map fun r => (r.offset.toNat, r.length.toNat)).Pairwise fun p q =>
        p.1 + p.2 ≤ q.1 ∨ q.1 + q.2 ≤ p.1 := by
    rw [pairwise_map]
    rfl
  rw [hpairs, percentRanges_eq hchunk hstep (by simpa using hend) h, pairwise_map,
    UInt64.toNat_zero]
  constructor
  · intro hapart
    by_contra! hnot
    obtain ⟨b, rfl⟩ := Nat.exists_eq_add_of_le' hnot.1
    -- the first block reaches into the second
    rw [List.range'_succ, List.range'_succ] at hapart
    have hfirst := (pairwise_cons.mp hapart).1 _ mem_cons_self
    have hroom := (Nat.mul_le_mul_right step.toNat (Nat.le_add_left 2 b)).trans hend
    have hpos : 0 < step.toNat := pos_of_ne_zero fun h => hstep (UInt64.toNat_inj.mp h)
    simp only [Nat.zero_mul, Nat.zero_add, Nat.one_mul, Nat.sub_zero] at hfirst
    omega
  · rintro (hone | hle)
    · obtain rfl | rfl : bc = 0 ∨ bc = 1 := by omega
      · exact List.Pairwise.nil
      · exact pairwise_singleton _ _
    · refine List.Pairwise.imp (fun {j k} hjk => .inl ?_) pairwise_lt_range'
      have hnext := mul_le_mul_right step.toNat (succ_le_of_lt hjk)
      rw [succ_mul] at hnext
      omega

theorem percentRanges_total (hchunkStep : chunk.toNat ≤ step.toNat) :
    totalLength ranges = bc * chunk.toNat := by
  have heq := percentRanges_eq hchunk hstep (by simpa using hend) h
  have hlengths : totalLength ranges =
      ((ranges.map fun r => (r.offset.toNat, r.length.toNat)).map Prod.snd).sum := by
    rw [totalLength, map_map]
    rfl
  have hwhole : ∀ j ∈ List.range' 0 bc,
      min chunk.toNat (fileSize.toNat - j * step.toNat) = chunk.toNat := by
    intro j hj
    have hnext := mul_le_mul_right step.toNat (succ_le_of_lt (mem_range'_1.mp hj).2)
    rw [succ_mul, zero_add] at hnext
    omega
  rw [hlengths, heq, map_map]
  simp only [Function.comp_def, UInt64.toNat_zero]
  rw [map_congr_left hwhole, map_const', length_range', sum_replicate_nat]

end

/-- The blocks of the percent mode share the total out: it is zero, or the file has fewer bytes
    than there are blocks (then there are no ranges), or every block gets a byte; or else the
    product has wrapped around so far that blocks as long as the total stay apart and together
    below the exact percentage. -/
def PercentShared (fileSize : UInt64) (percent blockCount : UInt32) : Prop :=
  let bc := (percentBlocks blockCount).toNat
  let total := (percentTotal fileSize percent).toNat
  total = 0 ∨ fileSize.toNat < bc ∨ bc ≤ total ∨
    total ≤ fileSize.toNat / bc ∧ bc * total ≤ fileSize.toNat * percent.toNat / 100

theorem percentBlocks_pos (blockCount : UInt32) : 0 < (percentBlocks blockCount).toNat := by
  rw [percentBlocks]
  split
  next hne => exact Nat.pos_of_ne_zero fun h => hne (UInt32.toNat_inj.mp h)
  · decide

theorem toNat_percentStep (bc : UInt32) :
    (percentStep fileSize bc).toNat = fileSize.toNat / bc.toNat := by
  rw [percentStep, UInt64.toNat_div, UInt32.toNat_toUInt64]

theorem toNat_percentChunk (total : UInt64) (bc : UInt32) :
    (percentChunk total bc).toNat =
      if total.toNat / bc.toNat = 0 then total.toNat else total.toNat / bc.toNat := by
  have hquot : (total / bc.toUInt64).toNat = total.toNat / bc.toNat := by
    rw [UInt64.toNat_div, UInt32.toNat_toUInt64]
  rw [percentChunk, ← hquot]
  split
  next hzero => rw [hzero, if_pos UInt64.toNat_zero]
  next hne => exact (if_neg fun h => hne (UInt64.toNat_inj.mp h)).symm

theorem percent_sound_iff {percent blockCount : UInt32} (hpercent : percent.toNat ≤ 100)
    (h : sarGeometryExpand (.percent percent blockCount) fileSize room = some ranges) :
    ranges.Pairwise FileRange.Apart ∧
        totalLength ranges ≤ fileSize.toNat * percent.toNat / 100 ↔
      PercentShared fileSize percent blockCount := by
  have htotal : (percentTotal fileSize percent).toNat ≤ fileSize.toNat * percent.toNat / 100 := by
    simp only [percentTotal, UInt64.toNat_div, UInt64.toNat_mul, UInt32.toNat_toUInt64]
    exact Nat.div_le_div_right (Nat.mod_le _ _)
  have hsmall : fileSize.toNat * percent.toNat / 100 ≤ fileSize.toNat := by
    have := Nat.mul_le_mul_left fileSize.toNat hpercent
    omega
  simp only [PercentShared]
  by_cases hsize : fileSize = 0
  · subst hsize
    cases h
    simp [totalLength, percentBlocks_pos]
  rw [sarGeometryExpand_percent _ _ hsize] at h
  dsimp only at h
  have hblocks := percentBlocks_pos blockCount
  generalize percentTotal fileSize percent = total at *
  generalize percentBlocks blockCount = bc at *
  generalize fileSize.toNat * percent.toNat / 100 = exact at *
  have hchunkNat := toNat_percentChunk total bc
  have hstepNat := @toNat_percentStep fileSize bc
  split at h
  next hnone =>
    cases h
    have hnone : total.toNat = 0 ∨ fileSize.toNat < bc.toNat := by
      rw [← UInt64.toNat_inj, ← UInt64.toNat_inj, hchunkNat, hstepNat, UInt64.toNat_zero] at hnone
      refine hnone.imp (fun hzero => ?_) (Nat.div_eq_zero_iff_lt hblocks).mp
      split at hzero
      · exact hzero
      · contradiction
    rcases hnone with hzero | hwide
    · simp [totalLength, hzero]
    · simp [totalLength, hwide]
  next hboth =>
    obtain ⟨hchunk, hstep⟩ := not_or.mp hboth
    have hend : bc.toNat * (percentStep fileSize bc).toNat ≤ fileSize.toNat := by
      rw [hstepNat]
      exact mul_div_le _ _
    have hwide : ¬ fileSize.toNat < bc.toNat := by
      intro hlt
      apply hstep
      rw [← UInt64.toNat_inj, hstepNat, Nat.div_eq_of_lt hlt]
      rfl
    rw [percentRanges_apart_iff hchunk hstep hend h]
    by_cases hshares : bc.toNat ≤ total.toNat
    · -- a total of at least one byte per block is divided among them
      have hquot : total.toNat / bc.toNat ≠ 0 := (Nat.div_pos hshares hblocks).ne'
      rw [if_neg hquot] at hchunkNat
      have hle : (percentChunk total bc).toNat ≤ (percentStep fileSize bc).toNat := by
        rw [hchunkNat, hstepNat]
        exact Nat.div_le_div_right (by omega)
      have hsum := mul_div_le total.toNat bc.toNat
      rw [percentRanges_total hchunk hstep hend h hle, hchunkNat]
      simp only [hshares, true_or, or_true, iff_true]
      exact ⟨.inr (by rwa [hchunkNat] at hle), hsum.trans htotal⟩
    · rw [if_pos (Nat.div_eq_of_lt (not_le.mp hshares))] at hchunkNat
      have hzero : total.toNat ≠ 0 := fun h => hchunk (UInt64.toNat_inj.mp (hchunkNat.trans h))
      have htwo : ¬ bc.toNat < 2 := by omega
      simp only [hzero, hwide, hshares, htwo, false_or, hchunkNat, hstepNat]
      apply and_congr_right
      intro hle
      rw [percentRanges_total hchunk hstep hend h (by rwa [hchunkNat, hstepNat]), hchunkNat]

/-- **Expansion.**  The ranges of a successful expansion are non-empty, lie in the file and fit the
    capacity; the stride loop ends for every stride.  Those of the percent mode are apart and no
    longer than the percentage in all exactly if the blocks share the total out: with fewer bytes
    than blocks each block is as long as the total. -/
theorem sarGeometryExpand_sound (geom : GeometryMode) (fileSize : UInt64) (cap : Nat) :
    (∀ ranges, sarGeometryExpand geom fileSize cap = some ranges →
      (∀ r ∈ ranges, r.Within fileSize) ∧ ranges.length ≤ cap ∧
        ∀ percent blockCount, geom = .percent percent blockCount → percent.toNat ≤ 100 →
          (ranges.Pairwise FileRange.Apart ∧
              totalLength ranges ≤ fileSize.toNat * percent.toNat / 100 ↔
            PercentShared fileSize percent blockCount)) ∧
      ∀ chunk stride pos, chunk ≠ 0 →
        strideLoop fileSize chunk stride (cap + 1) pos cap =
          some (strideRanges fileSize chunk stride cap pos) := by
  refine ⟨?_, fun _ _ pos hchunk => strideLoop_ends hchunk⟩
  intro ranges hexp
  have hfits := sarGeometryExpand_fits hexp
  refine ⟨hfits.1, hfits.2, ?_⟩
  rintro percent blockCount rfl hpercent
  exact percent_sound_iff hpercent hexp

end

/-- Half of eight bytes in two blocks. -/
theorem sarGeometryExpand_sound_halves :
    sarGeometryExpand (.percent 50 2) 8 2 = some [⟨0, 2⟩, ⟨4, 2⟩] ∧
      List.Pairwise FileRange.Apart [⟨0, 2⟩, ⟨4, 2⟩] ∧
        totalLength [⟨0, 2⟩, ⟨4, 2⟩] ≤ (8 : UInt64).toNat * (50 : UInt32).toNat / 100 := by
  have hexp : sarGeometryExpand (.percent 50 2) 8 2 = some [⟨0, 2⟩, ⟨4, 2⟩] := by decide
  have hsound := ((sarGeometryExpand_sound (.percent 50 2) 8 2).1 _ hexp).2.2 50 2 rfl (by decide)
  exact ⟨hexp, hsound.mpr (.inr (.inr (.inl (by decide))))⟩

theorem percent_blocks_overlap :
    sarGeometryExpand (.percent 50 3) 4 3 = some [⟨0, 2⟩, ⟨1, 2⟩, ⟨2, 2⟩] ∧
      ¬ FileRange.Apart ⟨0, 2⟩ ⟨1, 2⟩ ∧ 4 * 50 / 100 < totalLength [⟨0, 2⟩, ⟨1, 2⟩, ⟨2, 2⟩] := by
  refine ⟨by decide, ?_, by decide⟩
  simp [FileRange.Apart]

end SemanticsAr
