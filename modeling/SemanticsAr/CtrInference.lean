import Mathlib.Data.Nat.ModEq
import Mathlib.Tactic.IntervalCases
import SemanticsAr.Battery
import SemanticsAr.Recover

/-!
# Which counter layout is found

`generic_ctr` reports the first layout of the table that explains one step of the
counter.  Several layouts can explain the same step: a big-endian field and the lower
bytes of it count alike until the lower bytes wrap.  What the search finds is compared
here with the layout the file was encrypted under, at every block of the file.
-/

namespace SemanticsAr

open UInt64 Nat
open List hiding Vector

variable {L L' K K' : CtrLayout} {w' a b len t' n k i t V m N w v : Nat} {pt ct : List UInt8}
  {x d fileOffset : UInt64} {c block : Vector UInt8 n}

/-! ### Counting in a part of a number -/

section

variable {M W : Nat}

theorem succ_low_iff (hdvd : M ∣ W) (hlt : M < W) (hV : V < W) :
    V / M * M + (V + 1) % M = (V + 1) % W ↔ V % M ≠ M - 1 := by
  obtain ⟨q, rfl⟩ := hdvd
  have hM : 0 < M := pos_of_ne_zero (by rintro rfl; simp at hlt)
  have hdiv := div_add_mod' V M
  have hlow := mod_lt V hM
  constructor
  · intro h hfull
    -- the lower part wraps to zero, so the whole number would have to stand still
    have hwrap : (V + 1) % M = 0 := by
      rw [show V + 1 = (V / M + 1) * M by rw [add_mul]; omega]
      exact mul_mod_left _ _
    rw [hwrap, add_zero] at h
    by_cases hend : V + 1 = M * q
    · rw [hend, mod_self] at h
      omega
    · rw [mod_eq_of_lt (by omega)] at h
      omega
  · intro hfull
    have hsmall : (V + 1) % M = V % M + 1 := by
      rw [← hdiv, add_assoc, mul_add_mod_self_right, mod_eq_of_lt (by omega), hdiv]
    have hroom : V + 1 < M * q := by
      have hnext : (V / M + 1) * M ≤ M * q := by
        rw [mul_comm]
        exact Nat.mul_le_mul_left M (Nat.div_lt_of_lt_mul hV)
      rw [add_mul] at hnext
      omega
    rw [hsmall, mod_eq_of_lt hroom]
    omega

/-- Counting in the lower part and counting in the whole agree at every index below `N`
    exactly if the lower part does not wrap on the way; the two counters meet at index `m`. -/
theorem count_low_iff (hdvd : M ∣ W) (hlt : M < W) {U : Nat} (hU : U < W) (hV : (U + m) % W = V)
    (hm : m < N) :
    (∀ k < N, V / M * M + (U + k) % M = (U + k) % W) ↔ U % M + N ≤ M := by
  have hM : 0 < M := pos_of_ne_zero (by rintro rfl; simp [eq_zero_of_zero_dvd hdvd] at hlt)
  have hW : 0 < W := hM.trans hlt
  have hdiv := div_add_mod' U M
  have hlow := mod_lt U hM
  constructor
  · intro h
    by_contra hnot
    -- `j` is the index at which the lower part wraps
    obtain ⟨j, hj⟩ : ∃ j, U % M + (j + 1) = M := ⟨M - U % M - 1, by omega⟩
    have hlast : (U + j) % M = M - 1 := by
      rw [add_mod, mod_eq_of_lt (show j < M by omega), mod_eq_of_lt (by omega)]
      omega
    have hbefore := h j (by omega)
    have hafter := h (j + 1) (by omega)
    have hX : (U + j) % W < W := mod_lt _ hW
    have hXlow : (U + j) % W % M = M - 1 := by rw [mod_mod_of_dvd _ hdvd, hlast]
    have hXhigh : (U + j) % W / M = V / M := by
      rw [← hbefore, mul_comm, mul_add_div hM, div_eq_of_lt (mod_lt _ hM), add_zero]
    have hXsucc : ((U + j) % W + 1) % M = (U + (j + 1)) % M := by
      rw [add_mod, mod_mod_of_dvd _ hdvd, ← add_mod, add_assoc]
    refine (succ_low_iff hdvd hlt hX).mp ?_ hXlow
    rw [hXhigh, hXsucc, hafter, mod_add_mod, add_assoc]
  · intro h k hk
    have hnext : (U / M + 1) * M ≤ W := by
      obtain ⟨q, rfl⟩ := hdvd
      rw [mul_comm]
      exact Nat.mul_le_mul_left M (Nat.div_lt_of_lt_mul hU)
    rw [add_mul] at hnext
    have hVeq : V = U + m := by
      rw [← hV]
      exact mod_eq_of_lt (by omega)
    have hVdiv : V / M = U / M := by
      rw [hVeq, ← hdiv, add_assoc, mul_comm, mul_add_div hM,
        div_eq_of_lt (show U % M + m < M by omega), add_zero, mul_comm, hdiv]
    have hklow : (U + k) % M = U % M + k := by
      conv_lhs => rw [← hdiv]
      rw [add_assoc, mul_add_mod_self_right, mod_eq_of_lt (by omega)]
    rw [hVdiv, hklow, mod_eq_of_lt (show U + k < W by omega)]
    omega

end

/-! ### The digits of a field -/

theorem getD_leNat (h : i < k) : (leNat k v).getD i 0 = UInt8.ofNat (v / 256 ^ i % 256) := by
  induction k generalizing i v with
  | zero => cases h
  | succ k ih =>
    cases i with
    | zero => simp [leNat]
    | succ i =>
      rw [leNat, getD_cons_succ, ih (Nat.lt_of_succ_lt_succ h), Nat.div_div_eq_div_mul, pow_succ']

def CtrLayout.place (L : CtrLayout) (k : Nat) : Nat :=
  if L.bigEndian then L.offset + L.width - 1 - k else k - L.offset

theorem get_write_place (hL : L.width ≤ 8) (block : Vector UInt8 n) (v : UInt64) {k : Fin n}
    (hk : L.offset ≤ k.val ∧ k.val < L.offset + L.width) :
    (sarCtrFieldWrite block L v).get k = UInt8.ofNat (v.toNat / 256 ^ L.place k.val % 256) := by
  have hin : k.val - L.offset < L.width := by omega
  rw [get_write hL, if_pos hk]
  unfold CtrLayout.order CtrLayout.place
  split
  · rw [getD_eq_getElem?_getD, getElem?_reverse (by simpa using hin),
      ← getD_eq_getElem?_getD, length_leNat, getD_leNat (by omega)]
    congr 4
    omega
  · exact getD_leNat hin

theorem get_place (hL : L.Fits n) (block : Vector UInt8 n) {k : Fin n}
    (hk : L.offset ≤ k.val ∧ k.val < L.offset + L.width) :
    block.get k = UInt8.ofNat ((sarCtrFieldRead block L).toNat / 256 ^ L.place k.val % 256) := by
  have h := get_write_place hL.narrow block (sarCtrFieldRead block L) hk
  rwa [write_read hL] at h

theorem read_lt (hL : L.Fits n) (block : Vector UInt8 n) :
    (sarCtrFieldRead block L).toNat < 256 ^ L.width := by
  have h := leVal_lt (L.order (L.field block))
  rw [toNat_read hL.narrow]
  simpa using h

theorem write_eq_iff (hL : L.Fits n) {v w : UInt64} :
    sarCtrFieldWrite block L v = sarCtrFieldWrite block L w ↔
      v.toNat % 256 ^ L.width = w.toNat % 256 ^ L.width := by
  constructor
  · intro h
    rw [← read_write hL, h, read_write hL]
  · exact write_congr hL.narrow

/-! ### Counting on from a block -/

theorem read_ctrBlock (hL : L.Fits n) : (sarCtrFieldRead (ctrBlock c L d) L).toNat =
      ((sarCtrFieldRead c L).toNat + d.toNat) % 256 ^ L.width := by
  rw [ctrBlock, read_write hL, mod_field_eq hL.narrow]

theorem ctrBlock_ctrBlock (hL : L.Fits n) (a b : UInt64) :
    ctrBlock (ctrBlock c L a) L b = ctrBlock c L (a + b) := by
  unfold ctrBlock
  rw [write_write hL.narrow]
  apply write_congr hL.narrow
  rw [mod_field_eq hL.narrow, add_mod, read_write hL, mod_mod, ← add_mod,
    ← mod_field_eq hL.narrow, UInt64.add_assoc]

theorem step_iff (hL : L.Fits n) (hn : L.blockSize = n) {a b : Vector UInt8 n} :
    (sarCtrConstEqual a b L = true ∧
      (sarCtrFieldRead a L + 1) &&& sarCtrFieldMask L.width = sarCtrFieldRead b L) ↔
    ctrBlock a L 1 = b := by
  constructor
  · rintro ⟨hconst, hstep⟩
    exact write_succ_of_step hL hn.symm hconst hstep
  · rintro rfl
    constructor
    · apply decide_eq_true
      intro k _ hout
      rw [ctrBlock, get_write hL.narrow, if_neg hout]
    · apply UInt64.toNat_inj.mp
      rw [toNat_and_mask hL.narrow, ctrBlock, read_write hL]

/-! ### A big-endian field and its lower bytes -/

/-- `L'` is the lower part of the big-endian field `L`. -/
structure CtrLayout.Narrows (L' L : CtrLayout) : Prop where
  bigEndian : L.bigEndian = true
  bigEndian' : L'.bigEndian = true
  stop : L'.offset + L'.width = L.offset + L.width
  lt : L'.width < L.width

theorem pow256_pos : 0 < 256 ^ w := Nat.pow_pos (by decide)

theorem digit_low (h : i < w) (x : Nat) :
    (a * 256 ^ w + x) / 256 ^ i % 256 = x / 256 ^ i % 256 := by
  obtain ⟨j, rfl⟩ := Nat.exists_eq_add_of_lt h
  rw [show a * 256 ^ (i + j + 1) + x = 256 ^ i * (256 * (a * 256 ^ j)) + x by ring,
    mul_add_div pow256_pos, mul_add_mod]

theorem digit_high (h : w ≤ i) {x : Nat} (hx : x < 256 ^ w) :
    (a * 256 ^ w + x) / 256 ^ i = a / 256 ^ (i - w) := by
  obtain ⟨j, rfl⟩ := Nat.exists_eq_add_of_le h
  rw [pow_add, ← Nat.div_div_eq_div_mul, Nat.mul_comm a, Nat.mul_add_div pow256_pos,
    Nat.div_eq_of_lt hx, Nat.add_zero, Nat.add_sub_cancel_left]

def withLow (w V x : Nat) : Nat := V / 256 ^ w * 256 ^ w + x % 256 ^ w

theorem withLow_lt (hw : w ≤ w') (hV : V < 256 ^ w') (x : Nat) : withLow w V x < 256 ^ w' := by
  obtain ⟨j, rfl⟩ := Nat.exists_eq_add_of_le hw
  have hhigh : V / 256 ^ w < 256 ^ j := by
    apply Nat.div_lt_of_lt_mul
    rwa [← pow_add]
  have hnext : (V / 256 ^ w + 1) * 256 ^ w ≤ 256 ^ j * 256 ^ w := Nat.mul_le_mul_right _ hhigh
  rw [Nat.add_mul, Nat.one_mul, ← pow_add, Nat.add_comm j] at hnext
  unfold withLow
  omega

theorem toNat_withLow (hw : w ≤ w') (hw' : w' ≤ 8) (hV : V < 256 ^ w') (x : Nat) :
    (UInt64.ofNat (withLow w V x)).toNat = withLow w V x := by
  have hpow : 256 ^ w' ≤ 2 ^ 64 := Nat.pow_le_pow_right (by decide : 0 < 256) hw'
  exact toNat_ofNat_of_lt' ((withLow_lt hw hV x).trans_le hpow)

theorem write_narrow (h : L'.Narrows L) (hL : L.Fits n) (c : Vector UInt8 n) (v : UInt64) :
    sarCtrFieldWrite c L' v = sarCtrFieldWrite c L
      (UInt64.ofNat (withLow L'.width (sarCtrFieldRead c L).toNat v.toNat)) := by
  have hstop := h.stop
  have hlt := h.lt
  have hnarrow := hL.narrow
  have hval := toNat_withLow (le_of_lt h.lt) hL.narrow (read_lt hL c) v.toNat
  have hmod : v.toNat % 256 ^ L'.width < 256 ^ L'.width := mod_lt _ pow256_pos
  apply ext_get
  intro k
  by_cases hk : L.offset ≤ k.val ∧ k.val < L.offset + L.width
  · rw [get_write_place hL.narrow c _ hk, hval]
    by_cases hk' : L'.offset ≤ k.val ∧ k.val < L'.offset + L'.width
    · have hplace : L.place k.val = L'.place k.val := by
        simp only [CtrLayout.place, h.bigEndian, h.bigEndian', if_true]
        omega
      have hlow : L'.place k.val < L'.width := by
        simp only [CtrLayout.place, h.bigEndian', if_true]
        omega
      rw [get_write_place (by omega) c _ hk', hplace, withLow, digit_low hlow,
        ← digit_low hlow (v.toNat % 256 ^ L'.width), div_add_mod']
    · have hhigh : L'.width ≤ L.place k.val := by
        simp only [CtrLayout.place, h.bigEndian, if_true]
        omega
      rw [get_write (by omega), if_neg hk', get_place hL c hk, withLow, digit_high hhigh hmod,
        ← digit_high hhigh (mod_lt _ pow256_pos),
        div_add_mod']
  · rw [get_write (by omega), get_write hL.narrow, if_neg hk, if_neg (by omega)]

theorem read_narrow (h : L'.Narrows L) (hL : L.Fits n) (hL' : L'.Fits n) :
    (sarCtrFieldRead c L').toNat = (sarCtrFieldRead c L).toNat % 256 ^ L'.width := by
  have hlt := withLow_lt (le_of_lt h.lt) (read_lt hL c) (sarCtrFieldRead c L').toNat
  have hwrite := write_narrow h hL c (sarCtrFieldRead c L')
  rw [write_read hL'] at hwrite
  have hread := (write_eq_iff hL).mp ((write_read hL).trans hwrite)
  rw [toNat_withLow (le_of_lt h.lt) hL.narrow (read_lt hL c), mod_eq_of_lt (read_lt hL c),
    mod_eq_of_lt hlt] at hread
  conv_rhs => rw [hread]
  rw [withLow, mul_add_mod_self_right, mod_mod, mod_eq_of_lt (read_lt hL' c)]

/-- The two layouts agree after `d` steps exactly if the lower part of the number does not
    carry over. -/
theorem ctrBlock_narrow_iff (h : L'.Narrows L) (hL : L.Fits n) (hL' : L'.Fits n) :
    ctrBlock c L' d = ctrBlock c L d ↔
      withLow L'.width (sarCtrFieldRead c L).toNat ((sarCtrFieldRead c L).toNat + d.toNat) =
        ((sarCtrFieldRead c L).toNat + d.toNat) % 256 ^ L.width := by
  have hlow : (sarCtrFieldRead c L' + d).toNat % 256 ^ L'.width =
      ((sarCtrFieldRead c L).toNat + d.toNat) % 256 ^ L'.width := by
    rw [mod_field_eq hL'.narrow, read_narrow h hL hL', mod_add_mod]
  have hlt := withLow_lt (le_of_lt h.lt) (read_lt hL c) (sarCtrFieldRead c L' + d).toNat
  have heq : withLow L'.width (sarCtrFieldRead c L).toNat (sarCtrFieldRead c L' + d).toNat =
      withLow L'.width (sarCtrFieldRead c L).toNat ((sarCtrFieldRead c L).toNat + d.toNat) := by
    rw [withLow, withLow, hlow]
  rw [ctrBlock, ctrBlock, write_narrow h hL, write_eq_iff hL,
    toNat_withLow (le_of_lt h.lt) hL.narrow (read_lt hL c), mod_eq_of_lt hlt, heq,
    mod_field_eq hL.narrow]

/-- The distance from block `m` to block `k`, as the counters compute it. -/
def blockDistance (k m : Nat) : UInt64 := UInt64.ofNat k - UInt64.ofNat m

theorem add_blockDistance : x + blockDistance k m = x - UInt64.ofNat m + UInt64.ofNat k := by
  rw [blockDistance, UInt64.sub_eq_add_neg, UInt64.sub_eq_add_neg]
  ac_rfl

/-- The number that a field counts from, if it stands at `x` at block `m`. -/
theorem toNat_sub_add_mod (hw : w ≤ 8) (x : UInt64) (hm : m < 2 ^ 64) :
    ((x - UInt64.ofNat m).toNat % 256 ^ w + m) % 256 ^ w = x.toNat % 256 ^ w := by
  have h := mod_field_eq hw (x - UInt64.ofNat m) (UInt64.ofNat m)
  rw [UInt64.sub_add_cancel, UInt64.toNat_ofNat_of_lt' hm] at h
  rw [h, mod_add_mod]

theorem toNat_add_blockDistance (hw : w ≤ 8) (hk : k < 2 ^ 64) :
    (x.toNat + (blockDistance k m).toNat) % 256 ^ w =
      ((x - UInt64.ofNat m).toNat % 256 ^ w + k) % 256 ^ w := by
  rw [← mod_field_eq hw, add_blockDistance, mod_field_eq hw, toNat_ofNat_of_lt' hk, mod_add_mod]

/-- **A field and its lower bytes.**  Counted from block `m`, they agree on the first `N`
    blocks of a file exactly if the lower bytes, counted from block zero, do not wrap. -/
theorem narrow_agrees_iff (h : L'.Narrows L) (hL : L.Fits n) (hL' : L'.Fits n) (c : Vector UInt8 n)
    (hm : m < N) (hN : N ≤ 2 ^ 64) :
    (∀ k < N, ctrBlock c L' (blockDistance k m) = ctrBlock c L (blockDistance k m)) ↔
      (sarCtrFieldRead c L - UInt64.ofNat m).toNat % 256 ^ L'.width + N ≤ 256 ^ L'.width := by
  have hdvd : 256 ^ L'.width ∣ 256 ^ L.width := pow_dvd_pow 256 (le_of_lt h.lt)
  have hlt : 256 ^ L'.width < 256 ^ L.width := Nat.pow_lt_pow_right (by decide) h.lt
  have hmeet := toNat_sub_add_mod hL.narrow (sarCtrFieldRead c L) (hm.trans_le hN)
  rw [mod_eq_of_lt (read_lt hL c)] at hmeet
  have hcount := count_low_iff hdvd hlt
    (U := (sarCtrFieldRead c L - UInt64.ofNat m).toNat % 256 ^ L.width)
    (mod_lt _ pow256_pos) hmeet hm
  rw [mod_mod_of_dvd _ hdvd] at hcount
  rw [← hcount]
  apply forall_congr'
  intro k
  apply forall_congr'
  intro hk
  have hk64 : k < 2 ^ 64 := hk.trans_le hN
  have hlow : ((sarCtrFieldRead c L - UInt64.ofNat m).toNat % 256 ^ L.width + k) %
      256 ^ L'.width =
      ((sarCtrFieldRead c L - UInt64.ofNat m).toNat % 256 ^ L'.width + k) % 256 ^ L'.width := by
    rw [add_mod, mod_mod_of_dvd _ hdvd, ← add_mod, mod_add_mod]
  rw [ctrBlock_narrow_iff h hL hL', withLow, toNat_add_blockDistance hL.narrow hk64,
    toNat_add_blockDistance hL'.narrow hk64, hlow]

theorem narrow_step_iff (h : L'.Narrows L) (hL : L.Fits n) (hL' : L'.Fits n) :
    ctrBlock c L' 1 = ctrBlock c L 1 ↔
      (sarCtrFieldRead c L).toNat % 256 ^ L'.width ≠ 256 ^ L'.width - 1 := by
  have hdvd : 256 ^ L'.width ∣ 256 ^ L.width := pow_dvd_pow 256 (le_of_lt h.lt)
  have hlt : 256 ^ L'.width < 256 ^ L.width := Nat.pow_lt_pow_right (by decide) h.lt
  rw [← succ_low_iff hdvd hlt (read_lt hL c)]
  exact ctrBlock_narrow_iff h hL hL'

/-! ### Fields in the other byte order -/

theorem ofNat_mod_ne (h : a % 256 ≠ b % 256) : UInt8.ofNat (a % 256) ≠ UInt8.ofNat (b % 256) := by
  intro heq
  apply h
  have := congrArg UInt8.toNat heq
  simpa [UInt8.toNat_ofNat'] using this

theorem step_low_byte (hL : L.Fits n) (hw : 0 < L.width) (c : Vector UInt8 n) {k : Fin n}
    (hk : L.offset ≤ k.val ∧ k.val < L.offset + L.width) (hplace : L.place k.val = 0) :
    (ctrBlock c L 1).get k ≠ c.get k := by
  have hdvd : 256 ∣ 256 ^ L.width := dvd_pow_self 256 (ne_of_gt hw)
  rw [get_place hL _ hk, get_place hL c hk, hplace, read_ctrBlock hL, pow_zero, Nat.div_one,
    Nat.div_one, Nat.mod_mod_of_dvd _ hdvd]
  apply ofNat_mod_ne
  rw [toNat_one]
  omega

theorem step_high_byte (hL : L.Fits n) (hw : L.width = w + 1) {k : Fin n}
    (hk : L.offset ≤ k.val ∧ k.val < L.offset + L.width) (hplace : L.place k.val = w)
    (h : (ctrBlock c L 1).get k ≠ c.get k) :
    (sarCtrFieldRead c L).toNat % 256 ^ w = 256 ^ w - 1 := by
  have hlt := read_lt hL c
  rw [hw] at hlt
  by_contra hnot
  apply h
  have hstep := (succ_low_iff (pow_dvd_pow 256 (le_succ w))
    (Nat.pow_lt_pow_right (by decide) (Nat.lt_succ_self w)) hlt).mpr hnot
  rw [get_place hL _ hk, get_place hL c hk, hplace, read_ctrBlock hL, hw, toNat_one,
    ← hstep, mul_comm, mul_add_div pow256_pos,
    div_eq_of_lt (mod_lt _ pow256_pos), add_zero]

theorem le_excludes (hL : L.Fits n) (hw : 0 < L.width) (hle : L.bigEndian = false)
    (hL' : L'.width ≤ 8) (hout : ¬ (L'.offset ≤ L.offset ∧ L.offset < L'.offset + L'.width)) :
    ctrBlock c L' 1 ≠ ctrBlock c L 1 := by
  have hinside := hL.inside
  intro heq
  have hchange := step_low_byte hL hw c
    (show L.offset ≤ (⟨L.offset, by omega⟩ : Fin n).val ∧ _ from
      ⟨Nat.le_refl _, Nat.lt_add_of_pos_right hw⟩)
    (by simp [CtrLayout.place, hle])
  apply hchange
  rw [← heq, ctrBlock, get_write hL', if_neg hout]

/-- Two fields over the same bytes in opposite orders: `p` holds the lowest byte of the
    one and the highest of the other, `q` the other way round. -/
structure CtrLayout.Mirrors (K K' : CtrLayout) (w : Nat) (p q : Fin n) : Prop where
  fits : K.Fits n
  fits' : K'.Fits n
  width : K.width = w + 1
  width' : K'.width = w + 1
  inside : (K.offset ≤ p.val ∧ p.val < K.offset + K.width) ∧
    (K'.offset ≤ p.val ∧ p.val < K'.offset + K'.width)
  inside' : (K.offset ≤ q.val ∧ q.val < K.offset + K.width) ∧
    (K'.offset ≤ q.val ∧ q.val < K'.offset + K'.width)
  low : K.place p.val = 0 ∧ K'.place p.val = w
  high : K.place q.val = w ∧ K'.place q.val = 0

theorem CtrLayout.Mirrors.symm {p q : Fin n} (h : K.Mirrors K' w p q) : K'.Mirrors K w q p :=
  ⟨h.fits', h.fits, h.width', h.width, h.inside'.symm, h.inside.symm, h.high.symm, h.low.symm⟩

/-- Both explain a step only if every byte is `0xff`. -/
theorem CtrLayout.Mirrors.all_ones {p q : Fin n} (h : K.Mirrors K' w p q) (hw : 0 < w)
    {c : Vector UInt8 n} (heq : ctrBlock c K 1 = ctrBlock c K' 1) :
    (sarCtrFieldRead c K').toNat = 256 ^ (w + 1) - 1 := by
  have hlow : (sarCtrFieldRead c K').toNat % 256 ^ w = 256 ^ w - 1 := by
    apply step_high_byte h.fits' h.width' h.inside.2 h.low.2
    rw [← heq]
    exact step_low_byte h.fits (by rw [h.width]; exact succ_pos w) c h.inside.1 h.low.1
  have hlow' : (sarCtrFieldRead c K).toNat % 256 ^ w = 256 ^ w - 1 := by
    apply step_high_byte h.fits h.width h.inside'.1 h.high.1
    rw [heq]
    exact step_low_byte h.fits' (by rw [h.width']; exact succ_pos w) c h.inside'.2 h.high.2
  have hbyte : (sarCtrFieldRead c K).toNat % 256 = 255 := by
    have hdvd : 256 ∣ 256 ^ w := dvd_pow_self 256 (ne_of_gt hw)
    rw [← mod_mod_of_dvd _ hdvd, hlow']
    obtain ⟨q, hq⟩ := hdvd
    omega
  have hget := get_place h.fits c h.inside.1
  rw [get_place h.fits' c h.inside.2, h.low.1, h.low.2, pow_zero, Nat.div_one, hbyte] at hget
  have htop : (sarCtrFieldRead c K').toNat / 256 ^ w % 256 = 255 := by
    by_contra hne
    exact ofNat_mod_ne (b := 255) (by omega) hget
  have hlt := read_lt h.fits' c
  rw [h.width', pow_succ] at hlt
  have hdiv : (sarCtrFieldRead c K').toNat / 256 ^ w < 256 := Nat.div_lt_of_lt_mul hlt
  rw [mod_eq_of_lt hdiv] at htop
  have hsum := div_add_mod' (sarCtrFieldRead c K').toNat (256 ^ w)
  rw [hlow, htop] at hsum
  rw [pow_succ]
  omega

theorem blockDistance_self : blockDistance m m = 0 := UInt64.sub_self _

theorem blockDistance_add (m d : Nat) : blockDistance (m + d) m = UInt64.ofNat d := by
  rw [blockDistance, UInt64.ofNat_add, UInt64.add_comm, UInt64.add_sub_cancel]

theorem blockDistance_pred : blockDistance m (m + 1) = -1 := by
  apply UInt64.sub_eq_iff_eq_add.mpr
  rw [UInt64.ofNat_add, UInt64.add_comm (UInt64.ofNat m), ← UInt64.add_assoc,
    show (-1 + UInt64.ofNat 1 : UInt64) = 0 by decide, UInt64.zero_add]

theorem CtrLayout.Mirrors.agrees_iff {p q : Fin n} (h : K.Mirrors K' 7 p q) {c : Vector UInt8 n}
    (heq : ctrBlock c K 1 = ctrBlock c K' 1) (hm : m + 2 ≤ N) :
    (∀ k < N, ctrBlock c K (blockDistance k m) = ctrBlock c K' (blockDistance k m)) ↔ N = 2 := by
  have hones := h.all_ones (by decide) heq
  have hones' := h.symm.all_ones (by decide) heq.symm
  -- the byte at `p` is the lowest of the one number and the highest of the other
  have hbyte (d : UInt64) (hd : ctrBlock c K d = ctrBlock c K' d) :
      (256 ^ (7 + 1) - 1 + d.toNat) % 256 ^ (7 + 1) % 256 =
        (256 ^ (7 + 1) - 1 + d.toNat) % 256 ^ (7 + 1) / 256 ^ 7 := by
    have hp := get_place h.fits (ctrBlock c K d) h.inside.1
    rw [hd, get_place h.fits' _ h.inside.2, read_ctrBlock h.fits', ← hd, read_ctrBlock h.fits,
      h.low.1, h.low.2, h.width, h.width', hones, hones', pow_zero, Nat.div_one] at hp
    by_contra hne
    exact ofNat_mod_ne (by omega) hp
  constructor
  · intro hall
    by_contra hN
    cases m with
    | zero =>
      have hdiff := hbyte (blockDistance (0 + 2) 0) (hall 2 (by omega))
      rw [blockDistance_add] at hdiff
      revert hdiff
      decide
    | succ m =>
      have hdiff := hbyte (blockDistance m (m + 1)) (hall m (by omega))
      rw [blockDistance_pred] at hdiff
      revert hdiff
      decide
  · rintro rfl k hk
    obtain rfl : m = 0 := by omega
    have hk01 : k = 0 ∨ k = 1 := by omega
    rcases hk01 with rfl | rfl
    · rw [blockDistance_self]
      simp only [ctrBlock, UInt64.add_zero, write_read h.fits, write_read h.fits']
    · exact heq

theorem step_of_all_ones (hK : K.width = 8) (hK' : K'.width = 8) (hoff : K.offset = K'.offset)
    (hle : K.bigEndian = false) (hbe : K'.bigEndian = true) {c : Vector UInt8 n}
    (hones : (sarCtrFieldRead c K').toNat = 256 ^ 8 - 1) :
    ctrBlock c K 1 = ctrBlock c K' 1 := by
  have hfield : K.field c = K'.field c := by simp only [CtrLayout.field, hK, hK', hoff]
  have hbytes : (K'.field c).reverse = replicate 8 255 := by
    have hval : leVal (K'.field c).reverse = 256 ^ 8 - 1 := by
      rw [← hones, toNat_read (le_of_eq hK'), CtrLayout.order, if_pos hbe]
    have h := leNat_leVal (K'.field c).reverse
    rw [length_reverse, CtrLayout.length_field, hK', hval] at h
    rw [← h]
    decide
  have hbytes' : K'.field c = replicate 8 255 := by
    rw [← reverse_reverse (K'.field c), hbytes, reverse_replicate]
  have hones' : (sarCtrFieldRead c K).toNat = 256 ^ 8 - 1 := by
    rw [toNat_read (le_of_eq hK), CtrLayout.order, if_neg (by simp [hle]), hfield, hbytes']
    decide
  have hzero (J : CtrLayout) (hJ : J.width = 8)
      (hread : (sarCtrFieldRead c J).toNat = 256 ^ 8 - 1) :
      ctrBlock c J 1 = sarCtrFieldWrite c J 0 := by
    apply write_congr (le_of_eq hJ)
    rw [mod_field_eq (le_of_eq hJ), hread, hJ]
    rfl
  rw [hzero K hK hones', hzero K' hK' hones]
  apply ext_get
  intro k
  have hzeros : leNat 8 (0 : UInt64).toNat = replicate 8 0 := by decide
  simp only [get_write (le_of_eq hK), get_write (le_of_eq hK'), CtrLayout.order, hle, hbe,
    hK, hK', hoff, hzeros, reverse_replicate, if_true]
  rfl

/-! ### What the search reports -/

/-- **Where the search tells the layout.**  `v` is the number in the initial counter block, `m` the
    block the sample starts at and `N` the number of blocks.  Eight big-endian bytes are taken for
    their lower four, and if these and the upper four wrap in the sample, for the other byte order;
    two bytes for the four that end where they do. -/
def CtrInferred (L : CtrLayout) (v m N : Nat) : Prop :=
  match L.bigEndian, L.width with
  | true, 8 =>
    if (v + m) % 256 ^ 4 = 256 ^ 4 - 1 then (v + m) % 256 ^ 8 = 256 ^ 8 - 1 → N = 2
    else v % 256 ^ 4 + N ≤ 256 ^ 4
  | true, 2 => (v + m) % 256 ^ 2 = 256 ^ 2 - 1 ∨ v + N ≤ 256 ^ 2
  | _, _ => True

theorem ctrInferred_of_littleEndian (h : L.bigEndian = false) : CtrInferred L v m N := by
  simp [CtrInferred, h]

theorem ctrInferred_of_four (h : L.width = 4) : CtrInferred L v m N := by
  simp [CtrInferred, h]

theorem add_mod_cancel {W : Nat} (ha : a < W) (hb : b < W) (h : (a + m) % W = (b + m) % W) :
    a = b := by
  have hcancel : a % W = b % W := Nat.ModEq.add_right_cancel' m h
  rwa [mod_eq_of_lt ha, mod_eq_of_lt hb] at hcancel

/-- The lower part of the number a file counts from, read back at block `m` under a layout
    that has this part in common with the file's own. -/
theorem toNat_read_sub {J : CtrLayout} (hL : L.Fits n) (hw : w ≤ L.width) (iv : Vector UInt8 n)
    (hm : m < 2 ^ 64)
    (hJ : (sarCtrFieldRead (ctrBlock iv L (UInt64.ofNat m)) J).toNat % 256 ^ w =
      (sarCtrFieldRead (ctrBlock iv L (UInt64.ofNat m)) L).toNat % 256 ^ w) :
    (sarCtrFieldRead (ctrBlock iv L (UInt64.ofNat m)) J - UInt64.ofNat m).toNat % 256 ^ w =
      (sarCtrFieldRead iv L).toNat % 256 ^ w := by
  have hw8 : w ≤ 8 := hw.trans hL.narrow
  apply add_mod_cancel (m := m) (mod_lt _ pow256_pos) (mod_lt _ pow256_pos)
  rw [toNat_sub_add_mod hw8 _ hm, hJ, read_ctrBlock hL, toNat_ofNat_of_lt' hm,
    mod_mod_of_dvd _ (pow_dvd_pow 256 hw), mod_add_mod]

theorem wide_agrees_iff {B : CtrLayout} {p q : Fin n} (hL : L.Fits n) (hK : K.Fits n)
    (hKL : K.Narrows L) (hBL : B.Mirrors L 7 p q) (hle : B.bigEndian = false)
    (hoff : B.offset = L.offset) (hKw : K.width = 4) (iv : Vector UInt8 n) (hm : m + 2 ≤ N)
    (hN : N ≤ 2 ^ 64) {c : Vector UInt8 n} (hc : c = ctrBlock iv L (UInt64.ofNat m))
    (hfound : L' = K ∨
      (ctrBlock c K 1 ≠ ctrBlock c L 1 ∧ (L' = B ∨ (ctrBlock c B 1 ≠ ctrBlock c L 1 ∧ L' = L))))
    (hstep : ctrBlock c L' 1 = ctrBlock c L 1) :
    (∀ k < N, ctrBlock c L' (blockDistance k m) = ctrBlock c L (blockDistance k m)) ↔
      CtrInferred L (sarCtrFieldRead iv L).toNat m N := by
  have hm64 : m < 2 ^ 64 := by omega
  have hLw : L.width = 8 := hBL.width'
  have hread : (sarCtrFieldRead c L).toNat = ((sarCtrFieldRead iv L).toNat + m) % 256 ^ 8 := by
    rw [hc, read_ctrBlock hL, toNat_ofNat_of_lt' hm64, hLw]
  have hwrap : ctrBlock c K 1 = ctrBlock c L 1 ↔
      ((sarCtrFieldRead iv L).toNat + m) % 256 ^ 4 ≠ 256 ^ 4 - 1 := by
    rw [narrow_step_iff hKL hL hK, hread, hKw, mod_mod_of_dvd _ (by decide)]
  simp only [CtrInferred, hKL.bigEndian, hLw]
  rcases hfound with rfl | ⟨hnotK, rfl | ⟨hnotB, rfl⟩⟩
  · have hlow := toNat_read_sub (J := L) hL (le_of_lt hKL.lt) iv hm64 rfl
    rw [← hc, hKw] at hlow
    rw [narrow_agrees_iff hKL hL hK c (by omega) hN, hKw, hlow, if_neg (hwrap.mp hstep)]
  · have hones := hBL.all_ones (by decide) hstep
    rw [hBL.agrees_iff hstep hm, if_pos (not_not.mp (mt hwrap.mpr hnotK))]
    constructor
    · intro h _
      exact h
    · intro h
      exact h (hread ▸ hones)
  · refine iff_of_true (fun _ _ => rfl) ?_
    rw [if_pos (not_not.mp (mt hwrap.mpr hnotK))]
    intro hones
    exact absurd (step_of_all_ones hBL.width hLw hoff hle hKL.bigEndian (hread.trans hones)) hnotB

theorem short_agrees_iff {C : CtrLayout} (hL : L.Fits n) (hK : K.Fits n) (hC : C.Fits n)
    (hLK : L.Narrows K) (hLC : L.Narrows C) (hLw : L.width = 2) (iv : Vector UInt8 n)
    (hm : m + 2 ≤ N) (hN : N ≤ 2 ^ 64) {c : Vector UInt8 n}
    (hc : c = ctrBlock iv L (UInt64.ofNat m))
    (hfound : L' = K ∨ (ctrBlock c K 1 ≠ ctrBlock c L 1 ∧ (L' = C ∨ L' = L)))
    (hstep : ctrBlock c L' 1 = ctrBlock c L 1) :
    (∀ k < N, ctrBlock c L' (blockDistance k m) = ctrBlock c L (blockDistance k m)) ↔
      CtrInferred L (sarCtrFieldRead iv L).toNat m N := by
  have hm64 : m < 2 ^ 64 := by omega
  have hread : (sarCtrFieldRead c L).toNat = ((sarCtrFieldRead iv L).toNat + m) % 256 ^ 2 := by
    rw [hc, read_ctrBlock hL, toNat_ofNat_of_lt' hm64, hLw]
  have hwrap {J : CtrLayout} (hJ : J.Fits n) (hLJ : L.Narrows J) : ctrBlock c J 1 = ctrBlock c L 1 ↔
        ((sarCtrFieldRead iv L).toNat + m) % 256 ^ 2 ≠ 256 ^ 2 - 1 := by
    rw [eq_comm, narrow_step_iff hLJ hJ hL, ← read_narrow hLJ hJ hL, hread, hLw]
  simp only [CtrInferred, hLK.bigEndian', hLw]
  rcases hfound with rfl | ⟨hnotK, rfl | rfl⟩
  · have hlow := toNat_read_sub (J := L') hL (le_refl _) iv hm64 (by
      rw [← hc, ← read_narrow hLK hK hL, mod_eq_of_lt (read_lt hL c)])
    rw [← hc, mod_eq_of_lt (read_lt hL iv)] at hlow
    have hagree := narrow_agrees_iff hLK hK hL c (show m < N by omega) hN
    rw [hlow, hLw] at hagree
    rw [or_iff_right ((hwrap hK hLK).mp hstep), ← hagree]
    constructor
    · intro h k hk
      exact (h k hk).symm
    · intro h k hk
      exact (h k hk).symm
  · exact absurd ((hwrap hK hLK).mpr ((hwrap hC hLC).mp hstep)) hnotK
  · exact iff_of_true (fun _ _ => rfl) (.inl (not_not.mp (mt (hwrap hK hLK).mpr hnotK)))

theorem genericCtr_finds {bc : BlockCipher n} (hn : 0 < n) (hlen : 2 * n ≤ len) {c : Vector UInt8 n}
    (hL : SAR_CTR_LAYOUTS[t]? = some L) (hsize : L.blockSize = n)
    (hc0 : bc.decrypt (padAt n pt ct 0) = c)
    (hc1 : bc.decrypt (padAt n pt ct n) = ctrBlock c L 1) :
    ∃ t' ≤ t, ∃ L', SAR_CTR_LAYOUTS[t']? = some L' ∧ L'.blockSize = n ∧
      ctrBlock c L' 1 = ctrBlock c L 1 ∧
      (∀ j < t', ∀ K, SAR_CTR_LAYOUTS[j]? = some K → K.blockSize = n →
        ctrBlock c K 1 ≠ ctrBlock c L 1) ∧
      genericCtr bc pt ct len fileOffset = some (ivOfBlock (sarCtrFieldWrite c L'
        (sarCtrFieldRead c L' - blockNumber n fileOffset 0)) (UInt8.ofNat (t' + 1))) := by
  have hfits {j : Nat} {K : CtrLayout} (hK : SAR_CTR_LAYOUTS[j]? = some K)
      (hKn : K.blockSize = n) : K.Fits n := hKn ▸ fits_of_mem_layouts (mem_of_getElem? hK)
  have hexists : ∃ j K, SAR_CTR_LAYOUTS[j]? = some K ∧ K.blockSize = n ∧
      ctrBlock c K 1 = ctrBlock c L 1 := ⟨t, L, hL, hsize, rfl⟩
  classical
  obtain ⟨L', hL', hsize', hstep⟩ := Nat.find_spec hexists
  refine ⟨Nat.find hexists, Nat.find_min' hexists ⟨L, hL, hsize, rfl⟩, L', hL', hsize', hstep,
    ?_, ?_⟩
  · intro j hj K hK hKn heq
    exact Nat.find_min hexists hj ⟨K, hK, hKn, heq⟩
  · have hrange : range n = 0 :: (range (n - 1)).map (· + 1) := by
      obtain ⟨n', rfl⟩ := exists_eq_succ_of_ne_zero (ne_of_gt hn)
      exact range_succ_eq_map
    apply findSome?_eq_some_iff.mpr
    refine ⟨[], 0, _, hrange, ?_, by simp⟩
    rw [if_pos (by omega), zero_add, hc0, hc1]
    apply findSome_zipIdx_first hL'
    · obtain ⟨hconst, hfield⟩ := (step_iff (hfits hL' hsize') hsize').mpr hstep
      exact if_pos ⟨hsize', hconst, hfield⟩
    · intro j hj K hK
      apply if_neg
      rintro ⟨hKn, hconst, hfield⟩
      exact Nat.find_min hexists hj
        ⟨K, hK, hKn, (step_iff (hfits hK hKn) hKn).mp ⟨hconst, hfield⟩⟩

section

variable (hL : SAR_CTR_LAYOUTS[t]? = some L) (hsize : L.blockSize = n)
  (hL' : SAR_CTR_LAYOUTS[t']? = some L') (hsize' : L'.blockSize = n) (ht : t' ≤ t)

include hL hsize hL' hsize' ht

theorem littleEndian_found (hbe : L.bigEndian = false) {c : Vector UInt8 n}
    (hstep : ctrBlock c L' 1 = ctrBlock c L 1) : L' = L := by
  have hall : SAR_CTR_LAYOUTS.Pairwise fun L' L => L.blockSize = L'.blockSize →
      L.bigEndian = false → 0 < L.width ∧ ¬ (L'.offset ≤ L.offset ∧
        L.offset < L'.offset + L'.width) := by decide
  rcases eq_or_lt_of_le ht with rfl | hlt
  · exact Option.some.inj (hL'.symm.trans hL)
  · have hfits := fits_of_mem_layouts (mem_of_getElem? hL)
    have hnarrow := (fits_of_mem_layouts (mem_of_getElem? hL')).narrow
    obtain ⟨hi, rfl⟩ := List.getElem?_eq_some_iff.mp hL
    obtain ⟨hj, rfl⟩ := List.getElem?_eq_some_iff.mp hL'
    obtain ⟨hwidth, hoff⟩ := pairwise_iff_getElem.mp hall t' t hj hi hlt
      (hsize.trans hsize'.symm) hbe
    exact (le_excludes (hsize ▸ hfits) hwidth hbe hnarrow hoff hstep).elim

/-- Whatever layout the search stops at, it leads through the file like the file's own
    exactly where `CtrInferred` says so. -/
theorem found_agrees_iff (iv : Vector UInt8 n) (hm : m + 2 ≤ N) (hN : N ≤ 2 ^ 64)
    {c : Vector UInt8 n} (hc : c = ctrBlock iv L (UInt64.ofNat m))
    (hstep : ctrBlock c L' 1 = ctrBlock c L 1)
    (hfirst : ∀ j < t', ∀ K, SAR_CTR_LAYOUTS[j]? = some K → K.blockSize = n →
      ctrBlock c K 1 ≠ ctrBlock c L 1) :
    (∀ k < N, ctrBlock c L' (blockDistance k m) = ctrBlock c L (blockDistance k m)) ↔
      CtrInferred L (sarCtrFieldRead iv L).toNat m N := by
  have htrivial (hLL : L' = L) (hinf : CtrInferred L (sarCtrFieldRead iv L).toNat m N) :
      (∀ k < N, ctrBlock c L' (blockDistance k m) = ctrBlock c L (blockDistance k m)) ↔
        CtrInferred L (sarCtrFieldRead iv L).toNat m N :=
    iff_of_true (fun _ _ => by rw [hLL]) hinf
  have hlittle (hbe : L.bigEndian = false) :=
    htrivial (littleEndian_found hL hsize hL' hsize' ht hbe hstep)
      (ctrInferred_of_littleEndian hbe)
  have ht8 : t < 8 := (List.getElem?_eq_some_iff.mp hL).1
  -- the first five layouts of the table are those of sixteen bytes
  have htail (hblock : 5 ≤ t) : 5 ≤ t' := by
    have hall : ∀ i < 8, ∀ j < 5, 5 ≤ i → (SAR_CTR_LAYOUTS[j]?.map CtrLayout.blockSize) ≠
        SAR_CTR_LAYOUTS[i]?.map CtrLayout.blockSize := by decide
    by_contra hlt
    apply hall t ht8 t' (Nat.lt_of_not_le hlt) hblock
    rw [hL, hL', Option.map_some, Option.map_some, hsize, hsize']
  interval_cases t <;> cases hL
  · -- four big-endian bytes are the first layout of their block size
    obtain rfl : t' = 0 := by omega
    exact htrivial (Option.some.inj hL').symm (ctrInferred_of_four rfl)
  · exact hlittle rfl
  · obtain rfl : 16 = n := hsize
    refine wide_agrees_iff (L := ⟨8, 8, true, 16⟩) (K := ⟨12, 4, true, 16⟩)
      (B := ⟨8, 8, false, 16⟩) (p := 8) (q := 15) ⟨by decide, by decide⟩
      ⟨by decide, by decide⟩ ⟨rfl, rfl, rfl, by decide⟩
      ⟨⟨by decide, by decide⟩, ⟨by decide, by decide⟩, rfl, rfl, by decide, by decide, by decide,
        by decide⟩ rfl rfl rfl iv hm hN hc ?_ hstep
    interval_cases t' <;> obtain rfl := Option.some.inj hL'
    · exact .inl rfl
    · exact .inr ⟨hfirst 0 (by decide) _ rfl rfl, .inl rfl⟩
    · exact .inr ⟨hfirst 0 (by decide) _ rfl rfl, .inr ⟨hfirst 1 (by decide) _ rfl rfl, rfl⟩⟩
  · obtain rfl : 16 = n := hsize
    refine short_agrees_iff (L := ⟨14, 2, true, 16⟩) (K := ⟨12, 4, true, 16⟩)
      (C := ⟨8, 8, true, 16⟩) ⟨by decide, by decide⟩ ⟨by decide, by decide⟩
      ⟨by decide, by decide⟩ ⟨rfl, rfl, rfl, by decide⟩ ⟨rfl, rfl, rfl, by decide⟩ rfl iv hm hN hc
      ?_ hstep
    interval_cases t' <;> obtain rfl := Option.some.inj hL'
    · exact .inl rfl
    · have hB : CtrLayout.Fits ⟨8, 8, false, 16⟩ 16 := ⟨by decide, by decide⟩
      exact absurd hstep.symm (le_excludes hB (by decide) rfl (by decide) (by decide))
    · exact .inr ⟨hfirst 0 (by decide) _ rfl rfl, .inl rfl⟩
    · exact .inr ⟨hfirst 0 (by decide) _ rfl rfl, .inr rfl⟩
  · exact hlittle rfl
  · obtain rfl : t' = 5 := by
      have := htail (by decide)
      omega
    exact htrivial (Option.some.inj hL').symm (ctrInferred_of_four rfl)
  · exact hlittle rfl
  · obtain rfl : 8 = n := hsize
    refine wide_agrees_iff (L := ⟨0, 8, true, 8⟩) (K := ⟨4, 4, true, 8⟩)
      (B := ⟨0, 8, false, 8⟩) (p := 0) (q := 7) ⟨by decide, by decide⟩
      ⟨by decide, by decide⟩ ⟨rfl, rfl, rfl, by decide⟩
      ⟨⟨by decide, by decide⟩, ⟨by decide, by decide⟩, rfl, rfl, by decide, by decide, by decide,
        by decide⟩ rfl rfl rfl iv hm hN hc ?_ hstep
    obtain rfl | rfl | rfl : t' = 5 ∨ t' = 6 ∨ t' = 7 := by
      omega
    · exact .inl (Option.some.inj hL').symm
    · exact .inr ⟨hfirst 5 (by decide) _ rfl rfl, .inl (Option.some.inj hL').symm⟩
    · exact .inr ⟨hfirst 5 (by decide) _ rfl rfl,
        Or.inr ⟨hfirst 6 (by decide) _ rfl rfl, (Option.some.inj hL').symm⟩⟩

end

/-! ### Through the file -/

theorem add_blockDistance_cancel : UInt64.ofNat m + blockDistance k m = UInt64.ofNat k := by
  rw [add_blockDistance, UInt64.sub_self, UInt64.zero_add]

theorem read_ivOfBlock (hL : L.Fits n) (hn : n ≤ SEMANTICS_AR_IV_MAX)
    (tag : UInt8) :
    sarCtrFieldRead (ivOfBlock block tag).bytes L = sarCtrFieldRead block L := by
  have hinside := hL.inside
  have hfield : L.field (ivOfBlock block tag).bytes = L.field block := by
    apply map_congr_left
    intro i hi
    have hi' : L.offset + i < n := by
      have := mem_range.mp hi
      omega
    have hget := congrArg (fun b => b.get ⟨L.offset + i, hi'⟩) (bytesAt_ivOfBlock hn block tag)
    simp only [get_bytesAt, zero_add] at hget
    rw [hget, getD_toList block ⟨L.offset + i, hi'⟩]
  rw [sarCtrFieldRead, sarCtrFieldRead, hfield]

/-- The keystream of `rec_ctr` under a counter block wound back from block `m`. -/
theorem recCtrBlock_applyIv {bc : BlockCipher n} (hL : SAR_CTR_LAYOUTS[t]? = some L)
    (hsize : L.blockSize = n) (hn : n ≤ SEMANTICS_AR_IV_MAX) (rk : RecoveryKey) :
    recCtrBlock bc (applyIv rk (ivOfBlock (sarCtrFieldWrite c L
      (sarCtrFieldRead c L - UInt64.ofNat m)) (UInt8.ofNat (t + 1)))) k =
      bc.encrypt (ctrBlock c L (blockDistance k m)) := by
  have ht : t < 8 := (List.getElem?_eq_some_iff.mp hL).1
  have hfits : L.Fits n := hsize ▸ fits_of_mem_layouts (mem_of_getElem? hL)
  have htag : tagLayout (UInt8.ofNat (t + 1)) = L := by
    have hval : (UInt8.ofNat (t + 1)).toNat = t + 1 :=
      UInt8.toNat_ofNat_of_lt' (show t + 1 < 256 by omega)
    rw [tagLayout, hval, Nat.add_sub_cancel, getD_eq_getElem?_getD, hL, Option.getD_some]
  have hblock := ctrBlock_write_sub hfits c (UInt64.ofNat m) (blockDistance k m)
  rw [add_blockDistance_cancel] at hblock
  simp only [recCtrBlock, applyIv, RecoveryKey.ivBlock]
  rw [show (ivOfBlock _ (UInt8.ofNat (t + 1))).tag = UInt8.ofNat (t + 1) from rfl, htag,
    bytesAt_ivOfBlock hn, read_ivOfBlock hfits hn]
  exact congrArg bc.encrypt hblock

def ctrKeystreamByte (bc : BlockCipher n) (iv : Vector UInt8 n) (L : CtrLayout) (pos : Nat) :
    UInt8 :=
  (bc.encrypt (ctrBlock iv L (UInt64.ofNat (pos / n)))).toList.getD (pos % n) 0

/-- The first `len` bytes of the sample at a file position are encrypted in CTR mode. -/
def CtrEncrypts (bc : BlockCipher n) (iv : Vector UInt8 n) (L : CtrLayout) (pos : Nat)
    (pt ct : List UInt8) (len : Nat) : Prop :=
  ∀ i < len, ct.getD i 0 = pt.getD i 0 ^^^ ctrKeystreamByte bc iv L (pos + i)

theorem CtrEncrypts.padAt {bc : BlockCipher n} {iv : Vector UInt8 n} {j : Nat}
    (h : CtrEncrypts bc iv L (m * n) pt ct len) (hn : 0 < n) (hj : j * n + n ≤ len) :
    padAt n pt ct (j * n) = bc.encrypt (ctrBlock iv L (UInt64.ofNat (m + j))) := by
  apply ext_get
  intro i
  have hpos : m * n + (j * n + i.val) = i.val + n * (m + j) := by ring
  have hdiv : (m * n + (j * n + i.val)) / n = m + j := by
    rw [hpos, add_mul_div_left _ _ hn, div_eq_of_lt i.isLt, zero_add]
  have hmod : (m * n + (j * n + i.val)) % n = i.val := by
    rw [hpos, add_mul_mod_self_left, mod_eq_of_lt i.isLt]
  have hbyte := h (j * n + i.val) (by omega)
  rw [ctrKeystreamByte, hdiv, hmod, getD_toList] at hbyte
  rw [SemanticsAr.padAt, get_xorBytes, get_bytesAt, get_bytesAt, hbyte, ← UInt8.xor_assoc,
    UInt8.xor_self, UInt8.zero_xor]

def blockCount (n : Nat) (size : UInt64) : Nat := (size.toNat + n - 1) / n

theorem lt_blockCount_iff (hn : 0 < n) {size : UInt64} :
    k < blockCount n size ↔ k * n < size.toNat := by
  rw [blockCount, lt_iff_add_one_le, le_div_iff_mul_le hn, add_mul]
  omega

theorem blockNumber_aligned (hn : 0 < n) (h : m * n + n < 2 ^ 64) :
    blockNumber n (UInt64.ofNat (m * n)) 0 = UInt64.ofNat m := by
  have hle : m * 1 ≤ m * n := mul_le_mul_left m hn
  apply UInt64.toNat_inj.mp
  rw [blockNumber, UInt64.toNat_div, UInt64.toNat_ofNat_of_lt' (show m < 2 ^ 64 by omega),
    toNat_ofNat_of_lt' (show n < 2 ^ 64 by omega), show UInt64.ofNat 0 = 0 from rfl,
    UInt64.add_zero, UInt64.toNat_ofNat_of_lt' (show m * n < 2 ^ 64 by omega),
    Nat.mul_div_cancel _ hn]

/-- **CTR inference.**  For a file in CTR mode under any layout of the table, a block-aligned sample
    of at least two blocks yields a counter block and a layout tag, and these give the true
    keystream everywhere exactly where the layouts that come first count like the file's own. -/
theorem ctr_inference_iff {bc : BlockCipher n} (hbc : bc.Lawful) {L : CtrLayout}
    (hmem : L ∈ SAR_CTR_LAYOUTS) (hsize : L.blockSize = n) (iv : Vector UInt8 n)
    (rk : RecoveryKey) {pt ct : List UInt8} {len m : Nat} {size : UInt64} (hlen : 2 * n ≤ len)
    (hfile : m * n + len ≤ size.toNat) (henc : CtrEncrypts bc iv L (m * n) pt ct len) :
    ∃ out, genericCtr bc pt ct len (UInt64.ofNat (m * n)) = some out ∧
      ((∀ k, k * n < size.toNat → recCtrBlock bc (applyIv rk out) k =
          bc.encrypt (ctrBlock iv L (UInt64.ofNat k))) ↔
        CtrInferred L (sarCtrFieldRead iv L).toNat m (blockCount n size)) := by
  have hsizes : ∀ K ∈ SAR_CTR_LAYOUTS, 0 < K.blockSize ∧ K.blockSize ≤ SEMANTICS_AR_IV_MAX := by
    decide
  obtain ⟨hn, hn24⟩ : 0 < n ∧ n ≤ SEMANTICS_AR_IV_MAX := hsize ▸ hsizes L hmem
  have hfits : L.Fits n := hsize ▸ fits_of_mem_layouts hmem
  obtain ⟨t, hL⟩ := List.getElem?_of_mem hmem
  have hsize64 := size.toNat_lt
  have hm2 : m + 2 ≤ blockCount n size := by
    rw [blockCount, le_div_iff_mul_le hn, add_mul]
    omega
  have hcount : blockCount n size ≤ 2 ^ 64 := by
    by_contra hlt
    have := (lt_blockCount_iff hn).mp (Nat.lt_of_not_le hlt)
    omega
  obtain ⟨c, hc⟩ : ∃ c, c = ctrBlock iv L (UInt64.ofNat m) := ⟨_, rfl⟩
  have hcounter (k : Nat) : ctrBlock iv L (UInt64.ofNat k) = ctrBlock c L (blockDistance k m) := by
    rw [hc, ctrBlock_ctrBlock hfits, add_blockDistance_cancel]
  have hc0 : bc.decrypt (padAt n pt ct 0) = c := by
    have hpad := henc.padAt (j := 0) hn (by omega)
    rw [Nat.zero_mul, Nat.add_zero] at hpad
    rw [hpad, hbc, hc]
  have hc1 : bc.decrypt (padAt n pt ct n) = ctrBlock c L 1 := by
    have hpad := henc.padAt (j := 1) hn (by omega)
    rw [Nat.one_mul] at hpad
    rw [hpad, hbc, hcounter, blockDistance_add]
    rfl
  obtain ⟨t', ht', L', hL', hsize', hstep, hfirst, hfound⟩ :=
    genericCtr_finds hn hlen hL hsize hc0 hc1
  rw [blockNumber_aligned hn (show m * n + n < 2 ^ 64 by omega)] at hfound
  refine ⟨_, hfound, ?_⟩
  rw [← found_agrees_iff hL hsize hL' hsize' ht' iv hm2 hcount hc hstep hfirst]
  apply forall_congr'
  intro k
  rw [lt_blockCount_iff hn, recCtrBlock_applyIv hL' hsize' hn24, hcounter]
  apply imp_congr_right
  intro _
  exact hbc.injective.eq_iff

/-- A counter block of eight big-endian bytes that stand at `0xfffffffe`. -/
def carryIv : Vector UInt8 16 :=
  bytesAt 16 (replicate 12 0 ++ [0xff, 0xff, 0xff, 0xfe]) 0

def carryCiphertext : List UInt8 :=
  replicate 12 0 ++ [0xff, 0xff, 0xff, 0xfe] ++ (replicate 12 0 ++ replicate 4 0xff) ++
    (replicate 11 0 ++ [1, 0, 0, 0, 0])

def carryKey : RecoveryKey := fill [] 0 SAR_ALG_AES_128 SAR_MODE_CTR 0

theorem carry_encrypts : CtrEncrypts (xorCipher 16 []) carryIv ⟨8, 8, true, 16⟩ (0 * 16)
    (replicate 48 0) carryCiphertext 48 := by
  unfold CtrEncrypts
  decide +kernel

theorem ctr_inference_carry :
    ∃ out, genericCtr (xorCipher 16 []) (List.replicate 48 0) carryCiphertext 48
        (UInt64.ofNat (0 * 16)) = some out ∧
      ((∀ k, k * 16 < (48 : UInt64).toNat →
          recCtrBlock (xorCipher 16 []) (applyIv carryKey out) k =
            (xorCipher 16 []).encrypt (ctrBlock carryIv ⟨8, 8, true, 16⟩ (UInt64.ofNat k))) ↔
        CtrInferred ⟨8, 8, true, 16⟩ (sarCtrFieldRead carryIv ⟨8, 8, true, 16⟩).toNat 0
          (blockCount 16 48)) :=
  ctr_inference_iff (xorCipher_lawful 16 []) (by decide) rfl carryIv carryKey (by decide)
    (by decide) carry_encrypts

/-- The sample is explained by the lower four bytes of the counter, which wrap one block
    later, where the file's counter carries over. -/
theorem ctr_layout_mistaken :
    CtrEncrypts (xorCipher 16 []) carryIv ⟨8, 8, true, 16⟩ 0 (List.replicate 48 0)
        carryCiphertext 48 ∧
      genericCtr (xorCipher 16 []) (List.replicate 48 0) carryCiphertext 48 0 =
        some (ivOfBlock carryIv 1) ∧
      recCtrBlock (xorCipher 16 []) (applyIv carryKey (ivOfBlock carryIv 1)) 2 ≠
        (xorCipher 16 []).encrypt (ctrBlock carryIv ⟨8, 8, true, 16⟩ 2) :=
  ⟨carry_encrypts, by decide +kernel, by decide +kernel⟩

end SemanticsAr
