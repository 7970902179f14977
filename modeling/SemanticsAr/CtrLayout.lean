import Mathlib.Data.List.GetD
import SemanticsAr.BlockCipher
import SemanticsAr.ByteCodec

/-!
# Counter fields

`ctr_layout.h`: where in a counter block the counting field lies, how it is read
and how it is written back.  The field is a number of `width` bytes in either byte
order; everything outside it is the constant part of the block.
-/

namespace SemanticsAr

variable {bytes : List UInt8} {v : UInt64}

/-- `sar_ctr_layout_t`. -/
structure CtrLayout where
  offset : Nat
  width : Nat
  bigEndian : Bool
  blockSize : Nat
deriving DecidableEq, Repr

variable {L : CtrLayout}

def SAR_CTR_LAYOUT_COUNT : Nat := 8

def SAR_CTR_LAYOUTS : List CtrLayout :=
  [⟨12, 4, true, 16⟩, ⟨8, 8, false, 16⟩, ⟨8, 8, true, 16⟩, ⟨14, 2, true, 16⟩, ⟨0, 8, false, 16⟩,
   ⟨4, 4, true, 8⟩,
   ⟨0, 8, false, 8⟩,
   ⟨0, 8, true, 8⟩]

structure CtrLayout.Fits (L : CtrLayout) (n : Nat) : Prop where
  inside : L.offset + L.width ≤ n
  narrow : L.width ≤ 8

theorem fits_of_mem_layouts (h : L ∈ SAR_CTR_LAYOUTS) : L.Fits L.blockSize := by
  revert L
  have hall : ∀ L ∈ SAR_CTR_LAYOUTS, L.offset + L.width ≤ L.blockSize ∧ L.width ≤ 8 := by decide
  intro L h
  exact ⟨(hall L h).1, (hall L h).2⟩

def sarCtrFieldMask (width : Nat) : UInt64 :=
  if width ≥ 8 then ~~~0 else (1 <<< UInt64.ofNat (8 * width)) - 1

def CtrLayout.order (L : CtrLayout) (bytes : List UInt8) : List UInt8 :=
  if L.bigEndian then bytes.reverse else bytes

section

variable {n : Nat} {block : Vector UInt8 n}

def CtrLayout.field (L : CtrLayout) (block : Vector UInt8 n) : List UInt8 :=
  (List.range L.width).map fun i => block.toList.getD (L.offset + i) 0

def sarCtrFieldRead (block : Vector UInt8 n) (L : CtrLayout) : UInt64 :=
  UInt64.ofNat (leVal (L.order (L.field block)))

def sarCtrFieldWrite (block : Vector UInt8 n) (L : CtrLayout) (v : UInt64) : Vector UInt8 n :=
  let bytes := L.order (leNat L.width (v &&& sarCtrFieldMask L.width).toNat)
  Vector.ofFn fun k =>
    if L.offset ≤ k.val ∧ k.val < L.offset + L.width then bytes.getD (k.val - L.offset) 0
    else block.get k

def sarCtrConstEqual (a b : Vector UInt8 n) (L : CtrLayout) : Bool :=
  decide (∀ k : Fin n, k.val < L.blockSize →
    ¬ (L.offset ≤ k.val ∧ k.val < L.offset + L.width) → a.get k = b.get k)

/-! ### The field as a number -/

@[simp] theorem CtrLayout.length_order : (L.order bytes).length = bytes.length := by
  unfold CtrLayout.order
  split
  · exact List.length_reverse
  · rfl

@[simp] theorem CtrLayout.order_order : L.order (L.order bytes) = bytes := by
  unfold CtrLayout.order
  split
  · exact List.reverse_reverse bytes
  · rfl

@[simp] theorem CtrLayout.length_field : (L.field block).length = L.width := by
  simp [CtrLayout.field]

theorem leNat_mod (k m : Nat) : leNat k (m % 256 ^ k) = leNat k m := by
  have h := leNat_leVal (leNat k m)
  rwa [length_leNat, leVal_leNat] at h

theorem toNat_and_mask {w : Nat} (hw : w ≤ 8) :
    (v &&& sarCtrFieldMask w).toNat = v.toNat % 256 ^ w := by
  unfold sarCtrFieldMask
  split
  · have hw8 : w = 8 := by omega
    subst hw8
    have hlt := v.toNat_lt
    rw [Nat.mod_eq_of_lt (by omega)]
    simp
  · have hmask : ((1 <<< UInt64.ofNat (8 * w)) - 1 : UInt64).toNat = 2 ^ (8 * w) - 1 := by
      have hcases : w = 0 ∨ w = 1 ∨ w = 2 ∨ w = 3 ∨ w = 4 ∨ w = 5 ∨ w = 6 ∨ w = 7 := by omega
      rcases hcases with rfl | rfl | rfl | rfl | rfl | rfl | rfl | rfl <;> decide
    rw [UInt64.toNat_and, hmask, Nat.and_two_pow_sub_one_eq_mod, pow_mul]
    rfl

theorem toNat_read (hL : L.width ≤ 8) :
    (sarCtrFieldRead block L).toNat = leVal (L.order (L.field block)) := by
  have hlt := leVal_lt (L.order (L.field block))
  have hpow : 256 ^ L.width ≤ 2 ^ 64 := Nat.pow_le_pow_right (by decide : 0 < 256) hL
  simp only [CtrLayout.length_order, CtrLayout.length_field] at hlt
  exact UInt64.toNat_ofNat_of_lt (hlt.trans_le hpow)

theorem write_congr (hL : L.width ≤ 8) {v w : UInt64}
    (h : v.toNat % 256 ^ L.width = w.toNat % 256 ^ L.width) :
    sarCtrFieldWrite block L v = sarCtrFieldWrite block L w := by
  simp only [sarCtrFieldWrite, toNat_and_mask hL, h]

theorem get_write (hL : L.width ≤ 8) (block : Vector UInt8 n) (v : UInt64) (k : Fin n) :
    (sarCtrFieldWrite block L v).get k =
      if L.offset ≤ k.val ∧ k.val < L.offset + L.width then
        (L.order (leNat L.width v.toNat)).getD (k.val - L.offset) 0
      else block.get k := by
  simp only [sarCtrFieldWrite, get_ofFn, toNat_and_mask hL, leNat_mod]

theorem write_eq_of_constEqual {a b : Vector UInt8 n} (hL : L.width ≤ 8) (hn : n = L.blockSize)
    (h : sarCtrConstEqual a b L = true) :
    sarCtrFieldWrite a L v = sarCtrFieldWrite b L v := by
  have hconst := of_decide_eq_true h
  apply ext_get
  intro k
  simp only [get_write hL]
  split
  · rfl
  · exact hconst k (hn ▸ k.isLt) ‹_›

@[simp] theorem write_write (hL : L.width ≤ 8) (w : UInt64) :
    sarCtrFieldWrite (sarCtrFieldWrite block L v) L w = sarCtrFieldWrite block L w := by
  apply ext_get
  intro k
  simp only [get_write hL]
  split
  · rfl
  · rfl

theorem field_write (hL : L.Fits n) :
    L.field (sarCtrFieldWrite block L v) = L.order (leNat L.width v.toNat) := by
  have hinside := hL.inside
  apply List.ext_getElem
  · simp
  · intro i hi hi'
    have hiw : i < L.width := by simpa using hi
    have hget := get_write hL.narrow block v ⟨L.offset + i, by omega⟩
    rw [if_pos ⟨Nat.le_add_right _ _, Nat.add_lt_add_left hiw _⟩, Nat.add_sub_cancel_left,
      ← getD_toList, List.getD_eq_getElem _ _ hi'] at hget
    simpa [CtrLayout.field] using hget

theorem read_write (hL : L.Fits n) :
    (sarCtrFieldRead (sarCtrFieldWrite block L v) L).toNat = v.toNat % 256 ^ L.width := by
  rw [toNat_read hL.narrow, field_write hL, CtrLayout.order_order, leVal_leNat]

@[simp] theorem write_read (hL : L.Fits n) :
    sarCtrFieldWrite block L (sarCtrFieldRead block L) = block := by
  have hdigits : leNat L.width (leVal (L.order (L.field block))) = L.order (L.field block) := by
    have h := leNat_leVal (L.order (L.field block))
    rwa [CtrLayout.length_order, CtrLayout.length_field] at h
  apply ext_get
  intro k
  simp only [get_write hL.narrow, toNat_read hL.narrow, hdigits, CtrLayout.order_order]
  split
  next hk =>
    have hin : k.val - L.offset < L.width := by omega
    simp [CtrLayout.field, hin, Nat.add_sub_cancel' hk.1, Vector.get]
  · rfl

/-! ### Counting -/

/-- The counter block of block number `m` under an initial counter block. -/
def ctrBlock (iv : Vector UInt8 n) (L : CtrLayout) (m : UInt64) : Vector UInt8 n :=
  sarCtrFieldWrite iv L (sarCtrFieldRead iv L + m)

theorem mod_field_eq {w : Nat} (hw : w ≤ 8) (a b : UInt64) :
    (a + b).toNat % 256 ^ w = (a.toNat + b.toNat) % 256 ^ w := by
  have hdvd : 256 ^ w ∣ 2 ^ 64 := Nat.pow_dvd_pow 256 hw
  rw [UInt64.toNat_add, Nat.mod_mod_of_dvd _ hdvd]

theorem ctrBlock_write_sub (hL : L.Fits n) (c : Vector UInt8 n) (m d : UInt64) :
    ctrBlock (sarCtrFieldWrite c L (sarCtrFieldRead c L - m)) L (m + d) =
      sarCtrFieldWrite c L (sarCtrFieldRead c L + d) := by
  unfold ctrBlock
  rw [write_write hL.narrow]
  apply write_congr hL.narrow
  rw [mod_field_eq hL.narrow, Nat.add_mod, read_write hL, Nat.mod_mod, ← Nat.add_mod,
    ← mod_field_eq hL.narrow, ← UInt64.add_assoc, UInt64.sub_add_cancel]

theorem write_succ_of_step (hL : L.Fits n) (hn : n = L.blockSize) {a b : Vector UInt8 n}
    (hconst : sarCtrConstEqual a b L = true)
    (hstep : (sarCtrFieldRead a L + 1) &&& sarCtrFieldMask L.width = sarCtrFieldRead b L) :
    sarCtrFieldWrite a L (sarCtrFieldRead a L + 1) = b := by
  calc sarCtrFieldWrite a L (sarCtrFieldRead a L + 1)
      = sarCtrFieldWrite a L (sarCtrFieldRead b L) := by
        apply write_congr hL.narrow
        rw [← hstep, toNat_and_mask hL.narrow, Nat.mod_mod]
    _ = sarCtrFieldWrite b L (sarCtrFieldRead b L) :=
        write_eq_of_constEqual hL.narrow hn hconst
    _ = b := write_read hL

end

end SemanticsAr
