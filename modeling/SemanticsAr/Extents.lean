import SemanticsAr.PreserveStore
import SemanticsAr.Tiling

/-!
# The extents of a mapped file

`SarMmapReadRange` reads a range of a file through the map of its extents, from the disk below
the file system.  `SarBuildExtentMap` fills the map from the answers of
`FSCTL_GET_RETRIEVAL_POINTERS`, which give the clusters of the file in their order: the extents of
a map lie one behind the other from the start of the file to `covered_len` (`LaidOut`).
-/

namespace SemanticsAr

open Tiling List Nat

variable {k n len logEnd x d : Nat} {sector : UInt64} {granted : Nat → Bool}
  {data : Nat → UInt8}

/-! ### The map -/

/-- `SAR_EXTENT`; a hole, which the source gives the address -1, has none. -/
structure SarExtent where
  vcnByte : UInt64
  len : UInt64
  lcnByte : Option UInt64
deriving DecidableEq, Repr

namespace SarExtent

def start (ex : SarExtent) : Nat := ex.vcnByte.toNat

def stop (ex : SarExtent) : Nat := (ex.vcnByte + ex.len).toNat

def byteAt (ex : SarExtent) (disk : Nat → UInt8) (b : Nat) : UInt8 :=
  match ex.lcnByte with
  | none => 0
  | some lcn => disk (lcn.toNat + (b - ex.start))

end SarExtent

/-- The extents lie one behind the other from the start of the file on, inside the disk, and
    sectors have a power of two as their size. -/
structure LaidOut (ext : List SarExtent) (sectorSize : UInt32) (coveredLen : UInt64) : Prop where
  tiles : Tiles SarExtent.start SarExtent.stop 0 ext coveredLen.toNat
  covered_lt : coveredLen.toNat < 2 ^ 63
  noWrap : ∀ ex ∈ ext, ex.stop = ex.start + ex.len.toNat
  onDisk : ∀ ex ∈ ext, ∀ lcn, ex.lcnByte = some lcn → lcn.toNat + ex.len.toNat ≤ 2 ^ 63
  sector : ∃ k ≤ 30, sectorSize.toNat = 2 ^ k

structure SarExtentMap where
  ext : List SarExtent
  sectorSize : UInt32
  coveredLen : UInt64
  laidOut : LaidOut ext sectorSize coveredLen

/-! ### Reading through it -/

def sarFindExtent (map : SarExtentMap) (pos : Nat) : Option SarExtent :=
  tileAt SarExtent.start SarExtent.stop map.ext pos

/-- What the disk holds for a position of the file below `covered_len`. -/
def SarExtentMap.originalAt (map : SarExtentMap) (disk : Nat → UInt8) (b : Nat) : UInt8 :=
  match sarFindExtent map b with
  | none => 0
  | some ex => ex.byteAt disk b

/-- `x & ~(sector - 1)`. -/
def sectorFloor (sector x : UInt64) : UInt64 := x &&& ~~~(sector - 1)

/-- One extent of `SarMmapReadRange`: `step` bytes from `cursor` on, in whole sectors if it is no
    hole.  `granted` says that there is a buffer and the disk read succeeds. -/
def readExtent (disk : Nat → UInt8) (sectorSize : UInt32) (granted : Bool) (ex : SarExtent)
    (cursor step : Nat) : Option (List UInt8) :=
  match ex.lcnByte with
  | none => some (List.replicate step 0)
  | some lcn =>
    let sector := sectorSize.toUInt64
    let diskOff := lcn + (UInt64.ofNat cursor - ex.vcnByte)
    let aStart := sectorFloor sector diskOff
    let aEnd := sectorFloor sector (diskOff + UInt64.ofNat step + sector - 1)
    let readLen := (aEnd - aStart).toUInt32
    if granted then
      some (((readData disk aStart.toNat readLen.toNat).drop (diskOff - aStart).toNat).take step)
    else none

/-- The loop of `SarMmapReadRange`; `granted k` is for its `k`-th extent. -/
def readRangeLoop (disk : Nat → UInt8) (map : SarExtentMap) (granted : Nat → Bool)
    (logEnd cursor k : Nat) (buf : List UInt8) : Option (List UInt8) :=
  if cursor < logEnd then
    match _hfind : sarFindExtent map cursor with
    | none => none
    | some ex =>
      let step := min (logEnd - cursor) (ex.stop - cursor)
      match readExtent disk map.sectorSize (granted k) ex cursor step with
      | none => none
      | some bytes => readRangeLoop disk map granted logEnd (cursor + step) (k + 1) (buf ++ bytes)
  else some buf
termination_by logEnd - cursor
decreasing_by
  have hspec := (tileAt_spec _hfind).2
  omega

def sarMmapReadRange (disk : Nat → UInt8) (map : SarExtentMap) (granted : Nat → Bool)
    (start len : Nat) : Option (List UInt8) :=
  readRangeLoop disk map granted (start + len) start 0 []

theorem and_two_pow_mask (hx : x < 2 ^ n) (hk : k ≤ n) :
    x &&& (2 ^ n - 1 - (2 ^ k - 1)) = x / 2 ^ k * 2 ^ k := by
  have hpow : 2 ^ k ≤ 2 ^ n := Nat.pow_le_pow_right (by decide) hk
  have hmask : 2 ^ n - 1 - (2 ^ k - 1) = 2 ^ n - ((2 ^ k - 1) + 1) := by omega
  apply eq_of_testBit_eq
  intro i
  rw [testBit_and, hmask, testBit_two_pow_sub_succ (by omega), testBit_two_pow_sub_one,
    testBit_mul_two_pow, testBit_div_two_pow]
  by_cases hi : k ≤ i
  · rw [Nat.sub_add_cancel hi]
    by_cases hn : i < n
    · simp [hi, hn, not_lt.mpr hi]
    · have hzero : x.testBit i = false :=
        Nat.testBit_lt_two_pow (hx.trans_le (Nat.pow_le_pow_right (by decide) (by omega)))
      simp [hzero]
  · simp [hi, Nat.not_le.mp hi]

theorem toNat_sectorFloor {x : UInt64} (hk : k ≤ 30) (hsector : sector.toNat = 2 ^ k) :
    (sectorFloor sector x).toNat = x.toNat / 2 ^ k * 2 ^ k := by
  have hone : (1 : UInt64) ≤ sector := by
    rw [UInt64.le_iff_toNat_le, hsector]
    exact Nat.one_le_two_pow
  unfold sectorFloor
  rw [UInt64.toNat_and, UInt64.toNat_not, UInt64.toNat_sub_of_le _ _ hone, hsector]
  exact and_two_pow_mask x.toNat_lt (by omega)

theorem take_drop_readData {off skip step : Nat} (h : skip + step ≤ len) :
    ((readData data off len).drop skip).take step = readData data (off + skip) step := by
  apply ext_getElem
  · simp [readData]
    omega
  · intro i hi hi'
    simp [readData, add_assoc]

theorem floor_ceil_span (step : Nat) (hpos : 0 < n) :
    d / n * n ≤ d ∧ d + step ≤ (d + step + n - 1) / n * n ∧
      (d + step + n - 1) / n * n - d / n * n < step + n + n := by
  have hfloor := div_add_mod' d n
  have hceil := div_add_mod' (d + step + n - 1) n
  have hlt := mod_lt d hpos
  have hlt' := mod_lt (d + step + n - 1) hpos
  omega

/-- The sectors that `SarMmapReadRange` reads hold the bytes it copies. -/
theorem sectors_around {diskOff : UInt64} {step : Nat} (hk : k ≤ 30)
    (hsector : sector.toNat = 2 ^ k) (hsmall : step ≤ 2 ^ 30) (hdisk : diskOff.toNat ≤ 2 ^ 63) :
    (sectorFloor sector diskOff).toNat ≤ diskOff.toNat ∧
      (diskOff - sectorFloor sector diskOff).toNat =
        diskOff.toNat - (sectorFloor sector diskOff).toNat ∧
      diskOff.toNat - (sectorFloor sector diskOff).toNat + step ≤
        (sectorFloor sector (diskOff + UInt64.ofNat step + sector - 1) -
          sectorFloor sector diskOff).toUInt32.toNat := by
  have hpow : 2 ^ k ≤ 2 ^ 30 := Nat.pow_le_pow_right (by decide) hk
  have hstep : (UInt64.ofNat step).toNat = step :=
    UInt64.toNat_ofNat_of_lt (by simp only [UInt64.size]; omega)
  have hsum : (diskOff + UInt64.ofNat step + sector).toNat = diskOff.toNat + step + 2 ^ k := by
    rw [UInt64.toNat_add, UInt64.toNat_add, hstep, hsector, mod_add_mod, mod_eq_of_lt (by omega)]
  have hone : (1 : UInt64) ≤ diskOff + UInt64.ofNat step + sector := by
    rw [UInt64.le_iff_toNat_le, hsum]
    exact Nat.one_le_two_pow.trans (Nat.le_add_left _ _)
  have hend : (diskOff + UInt64.ofNat step + sector - 1).toNat =
      diskOff.toNat + step + 2 ^ k - 1 := by
    rw [UInt64.toNat_sub_of_le _ _ hone, hsum]
    rfl
  obtain ⟨hfloor, hceil, hspan⟩ := floor_ceil_span step (Nat.two_pow_pos k)
  rw [← toNat_sectorFloor hk hsector] at hfloor hspan
  rw [← hend, ← toNat_sectorFloor hk hsector] at hceil hspan
  have hsub : (diskOff - sectorFloor sector diskOff).toNat =
      diskOff.toNat - (sectorFloor sector diskOff).toNat :=
    UInt64.toNat_sub_of_le _ _ (UInt64.le_iff_toNat_le.mpr hfloor)
  refine ⟨hfloor, hsub, ?_⟩
  rw [UInt64.toNat_toUInt32, UInt64.toNat_sub_of_le _ _
    (UInt64.le_iff_toNat_le.mpr (by omega)), mod_eq_of_lt (by omega)]
  omega

section

variable {map : SarExtentMap} {disk : Nat → UInt8} {ex : SarExtent} {cursor step : Nat}

variable (disk) in
theorem readExtent_eq (hex : ex ∈ map.ext) (hstart : ex.start ≤ cursor)
    (hstop : cursor + step ≤ ex.stop) (hsmall : step ≤ 2 ^ 30) :
    readExtent disk map.sectorSize true ex cursor step =
      some ((List.range step).map fun i => ex.byteAt disk (cursor + i)) := by
  unfold readExtent SarExtent.byteAt
  cases hlcn : ex.lcnByte with
  | none => simp [map_const']
  | some lcn =>
    obtain ⟨k, hk, hsector⟩ := map.laidOut.sector
    have hwrap := map.laidOut.noWrap ex hex
    have hdisk := map.laidOut.onDisk ex hex lcn hlcn
    have hcovered := (map.laidOut.tiles.bounds hex).2
    have hlimit := map.laidOut.covered_lt
    have hcursor : (UInt64.ofNat cursor).toNat = cursor :=
      UInt64.toNat_ofNat_of_lt (by simp only [UInt64.size]; omega)
    have hin : (UInt64.ofNat cursor - ex.vcnByte).toNat = cursor - ex.start := by
      rw [UInt64.toNat_sub_of_le _ _ (by rw [UInt64.le_iff_toNat_le, hcursor]; exact hstart),
        hcursor]
      rfl
    have hoff : (lcn + (UInt64.ofNat cursor - ex.vcnByte)).toNat =
        lcn.toNat + (cursor - ex.start) := by
      rw [UInt64.toNat_add, hin, mod_eq_of_lt (by omega)]
    have hsectorSize : map.sectorSize.toUInt64.toNat = 2 ^ k := by
      rw [UInt32.toNat_toUInt64, hsector]
    dsimp only
    generalize lcn + (UInt64.ofNat cursor - ex.vcnByte) = diskOff at hoff ⊢
    obtain ⟨hfloor, hskip, hread⟩ := sectors_around hk hsectorSize hsmall
      (show diskOff.toNat ≤ 2 ^ 63 by omega)
    rw [if_pos rfl, hskip, take_drop_readData hread, Nat.add_sub_cancel' hfloor, hoff]
    refine congrArg some (map_congr_left fun i _ => ?_)
    congr 1
    omega

theorem originalAt_of_mem (hex : ex ∈ map.ext) {b : Nat} (hstart : ex.start ≤ b)
    (hstop : b < ex.stop) : map.originalAt disk b = ex.byteAt disk b := by
  have hfind : sarFindExtent map b = some ex := map.laidOut.tiles.tileAt_eq hex hstart hstop
  simp only [SarExtentMap.originalAt, hfind]

theorem readData_add (off m : Nat) :
    readData data off (m + n) = readData data off m ++ readData data (off + m) n := by
  simp [readData, range_add, add_assoc]

theorem readExtent_original (hfind : sarFindExtent map cursor = some ex)
    (hsmall : logEnd - cursor ≤ 2 ^ 30) (granted : Bool) :
    readExtent disk map.sectorSize granted ex cursor (min (logEnd - cursor) (ex.stop - cursor)) =
        some (readData (map.originalAt disk) cursor (min (logEnd - cursor) (ex.stop - cursor))) ∨
      granted = false ∧ readExtent disk map.sectorSize granted ex cursor
        (min (logEnd - cursor) (ex.stop - cursor)) = none := by
  obtain ⟨hex, hstart, hstop⟩ := tileAt_spec hfind
  have hread := readExtent_eq disk hex hstart
    (show cursor + min (logEnd - cursor) (ex.stop - cursor) ≤ ex.stop by omega) (by omega)
  have hbytes : (List.range (min (logEnd - cursor) (ex.stop - cursor))).map
      (fun i => ex.byteAt disk (cursor + i)) =
        readData (map.originalAt disk) cursor (min (logEnd - cursor) (ex.stop - cursor)) := by
    refine map_congr_left fun i hi => ?_
    rw [mem_range] at hi
    exact (originalAt_of_mem hex (by omega) (by omega)).symm
  rw [hbytes] at hread
  cases granted with
  | true => exact .inl hread
  | false =>
    -- a hole is not read from the disk
    unfold readExtent at hread ⊢
    split
    next hhole =>
      rw [hhole] at hread
      exact .inl hread
    · exact .inr ⟨rfl, rfl⟩

/-- A range below `covered_len` is read as the disk holds it, or not at all. -/
theorem readRangeLoop_original (hend : logEnd ≤ map.coveredLen.toNat) (buf : List UInt8)
    (hsmall : logEnd - cursor ≤ 2 ^ 30) :
    readRangeLoop disk map granted logEnd cursor k buf =
        some (buf ++ readData (map.originalAt disk) cursor (logEnd - cursor)) ∨
      (∃ k, granted k = false) ∧ readRangeLoop disk map granted logEnd cursor k buf = none := by
  fun_induction readRangeLoop disk map granted logEnd cursor k buf with
  | case1 cursor k buf hlt hfind =>
    obtain ⟨ex, hex⟩ := map.laidOut.tiles.exists_tileAt (zero_le cursor)
      (hlt.trans_le hend)
    cases hfind.symm.trans hex
  | case2 cursor k buf hlt ex hfind step hread =>
    rcases readExtent_original hfind hsmall (granted k) with hgot | ⟨hrefused, -⟩
    · cases hread.symm.trans hgot
    exact .inr ⟨⟨k, hrefused⟩, rfl⟩
  | case3 cursor k buf hlt ex hfind step bytes hread ih =>
    have hbytes : bytes = readData (map.originalAt disk) cursor step := by
      rcases readExtent_original hfind hsmall (granted k) with hgot | ⟨-, hnone⟩
      · exact Option.some.inj (hread.symm.trans hgot)
      · cases hnone.symm.trans hread
    have hrest : logEnd - cursor = step + (logEnd - (cursor + step)) := by omega
    rw [hrest, readData_add, ← append_assoc, ← hbytes]
    exact ih (by omega)
  | case4 cursor k buf hge =>
    rw [Nat.sub_eq_zero_of_le (Nat.not_lt.mp hge)]
    simp [readData]

/-- **What a mapped write's capture reads.**  A range below `covered_len` comes from its extents,
    with zeros for the holes, or something fails and it is not read at all. -/
theorem sarMmapReadRange_original {start : Nat} (hend : start + len ≤ map.coveredLen.toNat)
    (hsmall : len ≤ 2 ^ 30) :
    sarMmapReadRange disk map granted start len = some (readData (map.originalAt disk) start len) ∨
      (∃ k, granted k = false) ∧ sarMmapReadRange disk map granted start len = none := by
  have hread : _ ∨ (∃ k, granted k = false) ∧
      readRangeLoop disk map granted (start + len) start 0 [] = none :=
    readRangeLoop_original hend [] (by omega)
  rwa [Nat.add_sub_cancel_left, nil_append] at hread

end

end SemanticsAr
