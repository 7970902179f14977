import SemanticsAr.Ciphers
import SemanticsAr.Search

/-!
# Modes of operation

`engine/src/modes.c`: for a block cipher under a candidate key, the search over the
modes and over the alignments of the block grid to the sample.  A mode's test looks at
one block or at two adjacent ones; where it succeeds it also derives the IV or the
initial counter block.
-/

namespace SemanticsAr

/-- `sar_iv_out_t`. -/
structure IvOut where
  bytes : Vector UInt8 SEMANTICS_AR_IV_MAX
  length : UInt8
  tag : UInt8
deriving DecidableEq

def ivClear : IvOut := ⟨Vector.replicate _ 0, 0, 0⟩

section

variable {n : Nat} (bc : BlockCipher n) (pt ct : List UInt8) (len : Nat) (fileOffset : UInt64)

def ivOfBlock (block : Vector UInt8 n) (tag : UInt8) : IvOut :=
  ⟨bytesAt _ block.toList 0, UInt8.ofNat n, tag⟩

def padAt (n : Nat) (pt ct : List UInt8) (s : Nat) : Vector UInt8 n :=
  xorBytes (bytesAt n pt s) (bytesAt n ct s)

def genericEcb : Bool :=
  (List.range n).any fun s =>
    decide (s + n ≤ len) && decide (bc.encrypt (bytesAt n pt s) = bytesAt n ct s)

def genericCbc : Option IvOut :=
  (List.range n).findSome? fun s =>
    if s + 2 * n ≤ len ∧
        xorBytes (bc.decrypt (bytesAt n ct (s + n))) (bytesAt n ct s) = bytesAt n pt (s + n) then
      some (if fileOffset = 0 then
          ivOfBlock (xorBytes (bc.decrypt (bytesAt n ct 0)) (bytesAt n pt 0)) 0
        else ivClear)
    else none

def genericCfb : Option IvOut :=
  (List.range n).findSome? fun s =>
    if s + 2 * n ≤ len ∧
        xorBytes (bc.encrypt (bytesAt n ct s)) (bytesAt n ct (s + n)) = bytesAt n pt (s + n) then
      some (if fileOffset = 0 then ivOfBlock (bc.decrypt (padAt n pt ct 0)) 0 else ivClear)
    else none

def blockNumber (n : Nat) (fileOffset : UInt64) (s : Nat) : UInt64 :=
  (fileOffset + UInt64.ofNat s) / UInt64.ofNat n

def genericOfb : Option IvOut :=
  (List.range n).findSome? fun s =>
    if s + 2 * n ≤ len ∧ bc.encrypt (padAt n pt ct s) = padAt n pt ct (s + n) then
      let blk := blockNumber n fileOffset s
      some (ivOfBlock (bc.decrypt (bc.decrypt^[blk.toNat] (padAt n pt ct s))) 0)
    else none

def ctrLayouts : List (CtrLayout × Nat) := SAR_CTR_LAYOUTS.zipIdx

def genericCtr : Option IvOut :=
  (List.range n).findSome? fun s =>
    if s + 2 * n ≤ len then
      let c0 := bc.decrypt (padAt n pt ct s)
      let c1 := bc.decrypt (padAt n pt ct (s + n))
      ctrLayouts.findSome? fun (L, t) =>
        let v0 := sarCtrFieldRead c0 L
        if L.blockSize = n ∧ sarCtrConstEqual c0 c1 L = true ∧
            (v0 + 1) &&& sarCtrFieldMask L.width = sarCtrFieldRead c1 L then
          some (ivOfBlock (sarCtrFieldWrite c0 L (v0 - blockNumber n fileOffset s))
            (UInt8.ofNat (t + 1)))
        else none
    else none

/-- `engine_try_block_modes`: the mode that fits and the IV found with it. -/
def engineTryBlockModes : Option (UInt32 × IvOut) :=
  (if genericEcb bc pt ct len then some (SAR_MODE_ECB, ivClear) else none) <|>
  (if len ≥ 2 * n then
    ((genericCbc bc pt ct len fileOffset).map fun iv => (SAR_MODE_CBC, iv)) <|>
    ((genericCfb bc pt ct len fileOffset).map fun iv => (SAR_MODE_CFB, iv)) <|>
    ((genericOfb bc pt ct len fileOffset).map fun iv => (SAR_MODE_OFB, iv)) <|>
    ((genericCtr bc pt ct len fileOffset).map fun iv => (SAR_MODE_CTR, iv))
  else none)

end

/-! ### XTS -/

def gf128MulAlpha (tweak : Vector UInt8 16) : Vector UInt8 16 :=
  let top (k : Nat) : UInt8 := (tweak.toList.getD k 0 >>> 7) &&& 1
  Vector.ofFn fun k =>
    let shifted := (tweak.get k <<< 1) ||| (if k.val = 0 then 0 else top (k.val - 1))
    if k.val = 0 ∧ top 15 ≠ 0 then shifted ^^^ 0x87 else shifted

/-- The tweak of a block: the data unit number encrypted, then doubled once for each
    block before it in the unit. -/
def xtsTweak (bc2 : BlockCipher 16) (dataUnit : UInt64) (blockInUnit : Nat) : Vector UInt8 16 :=
  gf128MulAlpha^[blockInUnit] (bc2.encrypt (bytesAt 16 (leNat 8 dataUnit.toNat) 0))

def xtsEncrypt (bc1 : BlockCipher 16) (tweak block : Vector UInt8 16) : Vector UInt8 16 :=
  xorBytes (bc1.encrypt (xorBytes block tweak)) tweak

def xtsTweakMatch (bc1 bc2 : BlockCipher 16) (dataUnit : UInt64) (blockInUnit : Nat)
    (pt ct : Vector UInt8 16) : Bool :=
  xtsEncrypt bc1 (xtsTweak bc2 dataUnit blockInUnit) pt == ct

def xtsSkip (fileOffset : UInt64) : UInt64 := (16 - (fileOffset &&& 15)) &&& 15

/-- `engine_verify_xts`: the data unit size that fits. -/
def engineVerifyXts (bc1 bc2 : BlockCipher 16) (pt ct : List UInt8) (len : Nat)
    (fileOffset : UInt64) : Option UInt64 :=
  let skip := xtsSkip fileOffset
  if skip.toNat + 16 > len then none
  else
    let aligned := fileOffset + skip
    ([512, 4096] : List UInt64).findSome? fun du =>
      if xtsTweakMatch bc1 bc2 (aligned / du) ((aligned % du) / 16).toNat
          (bytesAt 16 pt skip.toNat) (bytesAt 16 ct skip.toNat) then some du
      else none

/-! ### What a test proves -/

/-- A cipher, a mode and an IV buffer encrypt the plaintext into the ciphertext at some position of
    the sample: one block for ECB, two adjacent ones for the chained modes.  A reported IV leads to
    the first block of the file for CBC and CFB, to the two blocks themselves for OFB and CTR. -/
inductive BlockForward {n : Nat} (c : BlockCipher n) (pt ct : List UInt8) (len : Nat)
    (fileOffset : UInt64) : UInt32 → IvOut → Prop where
  | ecb {iv : IvOut} (s : Nat) (hs : s + n ≤ len)
      (hblock : c.encrypt (bytesAt n pt s) = bytesAt n ct s) :
      BlockForward c pt ct len fileOffset SAR_MODE_ECB iv
  | cbc {iv : IvOut} (s : Nat) (hs : s + 2 * n ≤ len)
      (hpair : c.encrypt (xorBytes (bytesAt n pt (s + n)) (bytesAt n ct s)) =
        bytesAt n ct (s + n))
      (hiv : fileOffset = 0 → c.encrypt (xorBytes (bytesAt n pt 0) (bytesAt n iv.bytes.toList 0)) =
        bytesAt n ct 0) :
      BlockForward c pt ct len fileOffset SAR_MODE_CBC iv
  | cfb {iv : IvOut} (s : Nat) (hs : s + 2 * n ≤ len)
      (hpair : xorBytes (bytesAt n pt (s + n)) (c.encrypt (bytesAt n ct s)) = bytesAt n ct (s + n))
      (hiv : fileOffset = 0 → xorBytes (bytesAt n pt 0) (c.encrypt (bytesAt n iv.bytes.toList 0)) =
        bytesAt n ct 0) :
      BlockForward c pt ct len fileOffset SAR_MODE_CFB iv
  | ofb {iv : IvOut} (s : Nat) (hs : s + 2 * n ≤ len)
      (hfirst : xorBytes (bytesAt n pt s) (c.encrypt^[(blockNumber n fileOffset s).toNat + 1]
        (bytesAt n iv.bytes.toList 0)) = bytesAt n ct s)
      (hsecond : xorBytes (bytesAt n pt (s + n))
        (c.encrypt^[(blockNumber n fileOffset s).toNat + 2] (bytesAt n iv.bytes.toList 0)) =
          bytesAt n ct (s + n)) :
      BlockForward c pt ct len fileOffset SAR_MODE_OFB iv
  | ctr {iv : IvOut} (L : CtrLayout) (s : Nat) (hs : s + 2 * n ≤ len)
      (htag : SAR_CTR_LAYOUTS[iv.tag.toNat - 1]? = some L) (hsize : L.blockSize = n)
      (hfirst : xorBytes (bytesAt n pt s) (c.encrypt (ctrBlock (bytesAt n iv.bytes.toList 0) L
        (blockNumber n fileOffset s))) = bytesAt n ct s)
      (hsecond : xorBytes (bytesAt n pt (s + n)) (c.encrypt (ctrBlock
        (bytesAt n iv.bytes.toList 0) L (blockNumber n fileOffset s + 1))) = bytesAt n ct (s + n)) :
      BlockForward c pt ct len fileOffset SAR_MODE_CTR iv

section

variable {n : Nat} {c : BlockCipher n} {pt ct : List UInt8} {len : Nat} {fileOffset : UInt64}

theorem bytesAt_ivOfBlock (hn : n ≤ SEMANTICS_AR_IV_MAX) (block : Vector UInt8 n) (tag : UInt8) :
    bytesAt n (ivOfBlock block tag).bytes.toList 0 = block := by
  apply ext_get
  intro i
  have hi : i.val < SEMANTICS_AR_IV_MAX := i.isLt.trans_le hn
  simp only [get_bytesAt, Nat.zero_add, ivOfBlock]
  rw [getD_toList (bytesAt SEMANTICS_AR_IV_MAX block.toList 0) ⟨i.val, hi⟩, get_bytesAt,
    Nat.zero_add, getD_toList block i]

theorem xorBytes_of_pad {s : Nat} {k : Vector UInt8 n} (h : padAt n pt ct s = k) :
    xorBytes (bytesAt n pt s) k = bytesAt n ct s := by
  rw [← h, padAt, xorBytes_comm (bytesAt n pt s) (bytesAt n ct s), xorBytes_comm, xorBytes_cancel]

theorem genericEcb_forward (h : genericEcb c pt ct len = true) (iv : IvOut) :
    BlockForward c pt ct len fileOffset SAR_MODE_ECB iv := by
  simp only [genericEcb, List.any_eq_true, Bool.and_eq_true, decide_eq_true_eq] at h
  obtain ⟨s, -, hs, hblock⟩ := h
  exact .ecb s hs hblock

section

variable (hc : c.Lawful) (hn : n ≤ SEMANTICS_AR_IV_MAX)

include hc hn

theorem genericCbc_forward : Finds (BlockForward c pt ct len fileOffset SAR_MODE_CBC)
      (genericCbc c pt ct len fileOffset) := by
  apply Finds.select
  rintro s _ ⟨hs, hmatch⟩
  apply Finds.some
  refine .cbc s hs ?_ ?_
  · rw [xorBytes_eq_iff, hc.decrypt_eq_iff] at hmatch
    exact hmatch
  · intro hzero
    rw [if_pos hzero, bytesAt_ivOfBlock hn, xorBytes_comm, xorBytes_cancel, hc.encrypt_decrypt]

theorem genericCfb_forward : Finds (BlockForward c pt ct len fileOffset SAR_MODE_CFB)
      (genericCfb c pt ct len fileOffset) := by
  apply Finds.select
  rintro s _ ⟨hs, hmatch⟩
  apply Finds.some
  refine .cfb s hs ?_ ?_
  · rw [← hmatch, xorBytes_comm (c.encrypt _), xorBytes_cancel]
  · intro hzero
    apply xorBytes_of_pad
    rw [if_pos hzero, bytesAt_ivOfBlock hn, hc.encrypt_decrypt]

theorem genericOfb_forward : Finds (BlockForward c pt ct len fileOffset SAR_MODE_OFB)
      (genericOfb c pt ct len fileOffset) := by
  apply Finds.select
  rintro s _ ⟨hs, hmatch⟩
  apply Finds.some
  have hback : c.encrypt^[(blockNumber n fileOffset s).toNat + 1]
      (c.decrypt (c.decrypt^[(blockNumber n fileOffset s).toNat] (padAt n pt ct s))) =
        padAt n pt ct s := by
    rw [← Function.iterate_succ_apply' c.decrypt, hc.encrypt_iterate_decrypt]
  refine .ofb s hs ?_ ?_
  · apply xorBytes_of_pad
    rw [bytesAt_ivOfBlock hn, hback]
  · apply xorBytes_of_pad
    rw [bytesAt_ivOfBlock hn, Function.iterate_succ_apply', hback, hmatch]

theorem genericCtr_forward : Finds (BlockForward c pt ct len fileOffset SAR_MODE_CTR)
      (genericCtr c pt ct len fileOffset) := by
  apply Finds.select
  intro s _ hs
  apply Finds.findSome
  rintro ⟨L, t⟩ hmem
  apply Finds.guard
  rintro ⟨hsize, hconst, hstep⟩
  apply Finds.some
  have hindex : SAR_CTR_LAYOUTS[t]? = some L := List.mem_zipIdx_iff_getElem?.mp hmem
  have ht : t < 8 := (List.getElem?_eq_some_iff.mp hindex).1
  have hL : L.Fits n := hsize ▸ fits_of_mem_layouts (List.mem_of_getElem? hindex)
  have hstart := ctrBlock_write_sub hL (c.decrypt (padAt n pt ct s))
    (blockNumber n fileOffset s) 0
  rw [UInt64.add_zero, UInt64.add_zero, write_read hL] at hstart
  refine .ctr L s hs ?_ hsize ?_ ?_
  · have htag : (UInt8.ofNat (t + 1)).toNat = t + 1 :=
      UInt8.toNat_ofNat_of_lt' (show t + 1 < 256 by omega)
    simp only [ivOfBlock, htag, Nat.add_sub_cancel]
    exact hindex
  · apply xorBytes_of_pad
    rw [bytesAt_ivOfBlock hn, hstart, hc.encrypt_decrypt]
  · apply xorBytes_of_pad
    rw [bytesAt_ivOfBlock hn, ctrBlock_write_sub hL, write_succ_of_step hL hsize.symm hconst hstep,
      hc.encrypt_decrypt]

/-- **A mode that fits is a forward proof**, for every block cipher whose decryption
    inverts its encryption. -/
theorem engineTryBlockModes_forward : Finds (fun m => BlockForward c pt ct len fileOffset m.1 m.2)
      (engineTryBlockModes c pt ct len fileOffset) := by
  apply Finds.orElse
  · apply Finds.guard
    intro hecb
    exact Finds.some (genericEcb_forward hecb ivClear)
  · apply Finds.guard
    intro _
    apply Finds.orElse
    · exact Finds.map (genericCbc_forward hc hn) fun _ h => h
    apply Finds.orElse
    · exact Finds.map (genericCfb_forward hc hn) fun _ h => h
    apply Finds.orElse
    · exact Finds.map (genericOfb_forward hc hn) fun _ h => h
    · exact Finds.map (genericCtr_forward hc hn) fun _ h => h

end

theorem engineVerifyXts_forward {bc1 bc2 : BlockCipher 16} :
    Finds (fun du => (du = 512 ∨ du = 4096) ∧ (xtsSkip fileOffset).toNat + 16 ≤ len ∧
      xtsEncrypt bc1 (xtsTweak bc2 ((fileOffset + xtsSkip fileOffset) / du)
          (((fileOffset + xtsSkip fileOffset) % du) / 16).toNat)
        (bytesAt 16 pt (xtsSkip fileOffset).toNat) = bytesAt 16 ct (xtsSkip fileOffset).toNat)
      (engineVerifyXts bc1 bc2 pt ct len fileOffset) := by
  apply Finds.ite
  · intro _
    exact Finds.none
  · intro hroom
    apply Finds.select
    intro du hdu hmatch
    apply Finds.some
    refine ⟨by simpa using hdu, Nat.not_lt.mp hroom, ?_⟩
    simpa [xtsTweakMatch] using hmatch

end

end SemanticsAr
