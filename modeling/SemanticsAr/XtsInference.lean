import SemanticsAr.Battery
import SemanticsAr.RecoverBytes

/-!
# Which data unit is found

`engine_verify_xts` tries data units of 512 bytes before those of 4096 on the first aligned
block of the sample, and `rec_xts` decrypts the whole file under the one that fits.  Inside
the first 512 bytes of a file a position has the same unit and the same block number under
both, so that the first one tried fits there whatever the file was encrypted under.
-/

namespace SemanticsAr

open List hiding Vector

variable {c1 c2 : BlockCipher 16} {pt ct l : List UInt8} {o p n : Nat}

/-! ### One block -/

def tweakAt (c2 : BlockCipher 16) (dataUnit : UInt64) (o : Nat) : Vector UInt8 16 :=
  xtsTweak c2 (UInt64.ofNat o / dataUnit) ((UInt64.ofNat o % dataUnit) / 16).toNat

theorem bytesAt_toList {n : Nat} (v : Vector UInt8 n) : bytesAt n v.toList 0 = v := by
  apply ext_get
  intro i
  rw [get_bytesAt, Nat.zero_add, getD_toList]

theorem overwrite_toList (buf v : Vector UInt8 16) : overwrite buf v.toList = v := by
  apply ext_get
  intro i
  have hi : i.val < v.toList.length := by simp
  rw [overwrite, get_ofFn, getD_eq_getElem?_getD, getElem?_eq_getElem hi, Option.getD_some]
  rfl

theorem xtsPlain_eq (dataUnit : UInt64) (mem : Memory) : xtsPlain ⟨16, c1⟩ ⟨16, c2⟩ dataUnit mem o =
      xorBytes (c1.decrypt (xorBytes (blockAt 16 mem o) (tweakAt c2 dataUnit o)))
        (tweakAt c2 dataUnit o) := by
  simp only [xtsPlain, recXtsBlock, overwrite_toList, bytesAt_toList, ctBlock, blockAt_view,
    view_zero]
  rfl

theorem xts_decrypt_eq_iff (h : c1.Lawful) {tweak pt ct : Vector UInt8 16} :
    xorBytes (c1.decrypt (xorBytes ct tweak)) tweak = pt ↔ xtsEncrypt c1 tweak pt = ct := by
  rw [xorBytes_eq_iff, h.decrypt_eq_iff, xtsEncrypt, xorBytes_eq_iff]

/-! ### A whole file -/

/-- Every whole block of the file is encrypted under XTS; a shorter rest may be anything. -/
def XtsEncrypts (c1 c2 : BlockCipher 16) (dataUnit : UInt64) (pt ct : List UInt8) : Prop :=
  ∀ o, 16 ∣ o → o + 16 ≤ ct.length →
    xtsEncrypt c1 (tweakAt c2 dataUnit o) (bytesAt 16 pt o) = bytesAt 16 ct o

def RestoresBlocks (result : RecoverStatus × (Nat → UInt8)) (pt : List UInt8) (size : Nat) : Prop :=
  result.1 = .ok ∧ ∀ o, 16 ∣ o → o + 16 ≤ size → ∀ i < 16, result.2 (o + i) = pt.getD (o + i) 0

theorem blockStart_zero {i : Nat} (ho : 16 ∣ o) (hi : i < 16) : blockStart 16 0 (o + i) = o := by
  obtain ⟨q, rfl⟩ := ho
  unfold blockStart
  omega

theorem restoresBlocks_iff {suite : CipherSuite} {rk : RecoveryKey} (hlawful : c1.Lawful)
    (hmode : rk.mode = SAR_MODE_XTS)
    (hkey : makeXts suite rk.algorithm rk.key.toList rk.keyLength.toNat = some (⟨16, c1⟩, ⟨16, c2⟩))
    (hdu : rk.modeParams = 512 ∨ rk.modeParams = 4096) (stack : XtsBuffers) (heap : Memory)
    (out : Nat → UInt8) {size : UInt64} (hsize : ct.length = size.toNat) (hne : size ≠ 0) :
    RestoresBlocks (sarRecoverBuffer suite stack rk none (fileMemory ct heap) out size) pt
        size.toNat ↔ XtsEncrypts c1 c2 rk.modeParams pt ct := by
  have hxts : rk.mode ≠ SAR_MODE_STREAM := by rw [hmode]; decide
  have hcheck : precheck rk = .ok := by
    have halg := isBlockAlg_of_makeXts hkey
    have hunit : ¬ (rk.modeParams ≠ 512 ∧ rk.modeParams ≠ 4096) := by tauto
    simp [precheck, hmode, halg, hunit, SAR_MODE_XTS, SAR_MODE_ECB, SAR_MODE_CBC, SAR_MODE_CFB,
      SAR_MODE_OFB, SAR_MODE_CTR]
  have hciphers : buildCiphers suite rk = some (.xts ⟨16, c1⟩ ⟨16, c2⟩) := by
    rw [buildCiphers, if_pos hmode, hkey]
    rfl
  have hbuffer := sarRecoverBuffer_single stack none hcheck hciphers
    (sarGeometryExpand_full hne) (by simp) (fileMemory ct heap) out
  -- a byte of a whole block is the byte of the decrypted block
  have hbyte (o i : Nat) (ho : 16 ∣ o) (hin : o + 16 ≤ size.toNat) (hi : i < 16) :
      (sarRecoverBuffer suite stack rk none (fileMemory ct heap) out size).2 (o + i) =
        (xtsPlain ⟨16, c1⟩ ⟨16, c2⟩ rk.modeParams (fileMemory ct heap) o).toList.getD i 0 := by
    have happly := recoverOneRange_apply stack (fun h => hxts h.1) .continuous
      (show Ciphers.Regular (.xts ⟨16, c1⟩ ⟨16, c2⟩) from ⟨rfl, rfl⟩) (fileMemory ct heap)
      (fun j => if j < size.toNat then fileMemory ct heap j else out j) (Nat.le_refl 0)
      (Nat.le_refl 0) (Nat.zero_le (o + i)) (show o + i < 0 + size.toNat by omega)
    simp only [rangeByte, blockStart_zero ho hi, Nat.zero_add, if_pos hin, view_zero, Nat.sub_zero,
      Nat.add_sub_cancel_left, Option.getD_some] at happly
    rw [hbuffer]
    exact happly
  constructor
  · rintro ⟨-, hall⟩ o ho hin
    rw [← xts_decrypt_eq_iff hlawful, ← blockAt_fileMemory heap hin, ← xtsPlain_eq]
    apply ext_get
    intro i
    rw [← getD_toList, ← hbyte o i.val ho (by omega) i.isLt, hall o ho (by omega) i.val i.isLt,
      get_bytesAt]
  · intro henc
    refine ⟨by rw [hbuffer], ?_⟩
    intro o ho hin i hi
    have hblock := (xts_decrypt_eq_iff hlawful).mpr (henc o ho (by omega))
    rw [hbyte o i ho hin hi, xtsPlain_eq, blockAt_fileMemory heap (by omega), hblock,
      getD_toList _ ⟨i, hi⟩, get_bytesAt]

/-! ### The data unit of a sample -/

theorem xtsSkip_aligned (hp : 16 ∣ p) (hlt : p < 2 ^ 64) : xtsSkip (UInt64.ofNat p) = 0 := by
  have hand : UInt64.ofNat p &&& 15 = 0 := by
    apply UInt64.toNat_inj.mp
    rw [UInt64.toNat_and, UInt64.toNat_ofNat_of_lt' hlt]
    show p &&& (2 ^ 4 - 1) = 0
    rw [Nat.and_two_pow_sub_one_eq_mod]
    omega
  rw [xtsSkip, hand]
  decide

theorem bytesAt_drop : bytesAt n (l.drop p) 0 = bytesAt n l p := by
  apply ext_get
  intro i
  simp [getD_eq_getElem?_getD]

def XtsExplained (c1 c2 : BlockCipher 16) (dataUnit : UInt64) (pt ct : List UInt8) (o : Nat) :
    Prop :=
  xtsEncrypt c1 (tweakAt c2 dataUnit o) (bytesAt 16 pt o) = bytesAt 16 ct o

instance (c1 c2 : BlockCipher 16) (dataUnit : UInt64) (pt ct : List UInt8) (o : Nat) :
    Decidable (XtsExplained c1 c2 dataUnit pt ct o) := inferInstanceAs (Decidable (_ = _))

theorem engineVerifyXts_aligned {len : Nat}
    (hp : 16 ∣ p) (hlt : p < 2 ^ 64) (hlen : 16 ≤ len) :
    engineVerifyXts c1 c2 (pt.drop p) (ct.drop p) len (UInt64.ofNat p) =
      if XtsExplained c1 c2 512 pt ct p then some 512
      else if XtsExplained c1 c2 4096 pt ct p then some 4096
      else none := by
  have hmatch (du : UInt64) : xtsTweakMatch c1 c2 (UInt64.ofNat p / du)
      ((UInt64.ofNat p % du) / 16).toNat (bytesAt 16 (pt.drop p) 0) (bytesAt 16 (ct.drop p) 0) =
        true ↔ XtsExplained c1 c2 du pt ct p := by
    rw [xtsTweakMatch, beq_iff_eq, bytesAt_drop, bytesAt_drop]
    rfl
  have hroom : ¬ 0 + 16 > len := by omega
  simp only [engineVerifyXts, xtsSkip_aligned hp hlt, if_neg hroom, UInt64.add_zero,
    UInt64.toNat_zero, findSome?_cons, hmatch, findSome?_nil]
  by_cases h512 : XtsExplained c1 c2 512 pt ct p
  · simp only [if_pos h512]
  · by_cases h4096 : XtsExplained c1 c2 4096 pt ct p
    · simp only [if_neg h512, if_pos h4096]
    · simp only [if_neg h512, if_neg h4096]

/-- **Where the search tells the data unit**: the file has units of 512 bytes, or its sample
    block is not explained by such units, or all its whole blocks are. -/
def XtsInferred (c1 c2 : BlockCipher 16) (dataUnit : UInt64) (pt ct : List UInt8) (p : Nat) :
    Prop :=
  dataUnit = 512 ∨ ¬ XtsExplained c1 c2 512 pt ct p ∨
    ∀ o, 16 ∣ o → o + 16 ≤ ct.length → XtsExplained c1 c2 512 pt ct o

/-- **XTS inference.**  For a file under XTS with either data unit, an aligned sample yields a data
    unit, and a buffer decryption under it restores every whole block exactly where `XtsInferred`
    says so. -/
theorem xts_inference_iff {suite : CipherSuite} {rk : RecoveryKey} {c1 c2 : BlockCipher 16}
    (hlawful : c1.Lawful) (hmode : rk.mode = SAR_MODE_XTS)
    (hkey : makeXts suite rk.algorithm rk.key.toList rk.keyLength.toNat =
      some (⟨16, c1⟩, ⟨16, c2⟩)) {dataUnit : UInt64} (hdu : dataUnit = 512 ∨ dataUnit = 4096)
    {pt ct : List UInt8} {size : UInt64} (hsize : ct.length = size.toNat)
    (henc : XtsEncrypts c1 c2 dataUnit pt ct) {p len : Nat} (hp : 16 ∣ p) (hlen : 16 ≤ len)
    (hfile : p + len ≤ size.toNat) (stack : XtsBuffers) (heap : Memory) (out : Nat → UInt8) :
    ∃ du, engineVerifyXts c1 c2 (pt.drop p) (ct.drop p) len (UInt64.ofNat p) = some du ∧
      (RestoresBlocks (sarRecoverBuffer suite stack { rk with modeParams := du } none
          (fileMemory ct heap) out size) pt size.toNat ↔
        XtsInferred c1 c2 dataUnit pt ct p) := by
  have hlt64 := size.toNat_lt
  have hne : size ≠ 0 := by
    rintro rfl
    rw [UInt64.toNat_zero] at hfile
    omega
  have hsample : XtsExplained c1 c2 dataUnit pt ct p := henc p hp (by omega)
  have hrestore (du : UInt64) (h : du = 512 ∨ du = 4096) :
      RestoresBlocks (sarRecoverBuffer suite stack { rk with modeParams := du } none
        (fileMemory ct heap) out size) pt size.toNat ↔ XtsEncrypts c1 c2 du pt ct :=
    @restoresBlocks_iff c1 c2 pt ct suite { rk with modeParams := du } hlawful hmode hkey h stack
      heap out size hsize hne
  rw [engineVerifyXts_aligned hp (by omega) hlen]
  by_cases h512 : XtsExplained c1 c2 512 pt ct p
  · refine ⟨512, if_pos h512, ?_⟩
    rw [hrestore 512 (.inl rfl)]
    rcases hdu with rfl | rfl
    · exact iff_of_true henc (.inl rfl)
    · constructor
      · intro hall
        exact .inr (.inr hall)
      · rintro (h | h | h)
        · exact absurd h (by decide)
        · exact absurd h512 h
        · exact h
  · have hunit : dataUnit = 4096 := by
      rcases hdu with rfl | rfl
      · exact absurd hsample h512
      · rfl
    subst hunit
    refine ⟨4096, by rw [if_neg h512, if_pos hsample], ?_⟩
    rw [hrestore 4096 (.inr rfl)]
    exact iff_of_true henc (.inr (.inl h512))

def unitKey : RecoveryKey := fill (1 :: replicate 31 0) 32 SAR_ALG_AES_128 SAR_MODE_XTS 0

def unitCipher1 : BlockCipher 16 := addCipher 16 (1 :: replicate 15 0)

def unitCipher2 : BlockCipher 16 := addCipher 16 (replicate 16 0)

theorem unitKey_ciphers : makeXts addSuite unitKey.algorithm unitKey.key.toList
    unitKey.keyLength.toNat = some (⟨16, unitCipher1⟩, ⟨16, unitCipher2⟩) := rfl

def unitPlaintext : List UInt8 := replicate 528 0

def unitCiphertext : List UInt8 :=
  (range 528).map fun i => if i % 16 = 0 then 1 else 0

theorem length_unitCiphertext : unitCiphertext.length = (528 : UInt64).toNat := by
  simp [unitCiphertext]

theorem tweakAt_unit (h : o < 4096) : tweakAt unitCipher2 4096 o = Vector.replicate 16 0 := by
  have hunit : UInt64.ofNat o / 4096 = 0 := by
    apply UInt64.toNat_inj.mp
    rw [UInt64.toNat_div, UInt64.toNat_ofNat_of_lt' (h.trans (by decide))]
    exact Nat.div_eq_of_lt h
  have hzero : unitCipher2.encrypt (bytesAt 16 (leNat 8 (0 : UInt64).toNat) 0) =
      Vector.replicate 16 0 := by decide
  rw [tweakAt, xtsTweak, hunit, hzero]
  exact Function.iterate_fixed (by decide) _

theorem bytesAt_unitPlaintext : bytesAt 16 unitPlaintext o = Vector.replicate 16 0 := by
  apply ext_get
  intro i
  have hzero : ∀ j : Fin 16, (Vector.replicate 16 (0 : UInt8)).get j = 0 := by decide
  rw [get_bytesAt, hzero, unitPlaintext, getD_eq_getElem?_getD, getElem?_replicate]
  split <;> rfl

theorem bytesAt_unitCiphertext {k : Nat} (h : k < 33) :
    bytesAt 16 unitCiphertext (16 * k) = Vector.ofFn fun i => if i.val = 0 then 1 else 0 := by
  apply ext_get
  intro i
  have hi : 16 * k + i.val < 528 := by omega
  have hmod : (16 * k + i.val) % 16 = i.val := by omega
  rw [get_bytesAt, get_ofFn, unitCiphertext, getD_eq_getElem?_getD, getElem?_map,
    getElem?_range hi, Option.map_some, Option.getD_some, hmod]

theorem unit_encrypts : XtsEncrypts unitCipher1 unitCipher2 4096 unitPlaintext unitCiphertext := by
  rintro o ⟨k, rfl⟩ hin
  have hk : k < 33 := by
    rw [length_unitCiphertext] at hin
    change 16 * k + 16 ≤ 528 at hin
    omega
  rw [tweakAt_unit (by omega), bytesAt_unitPlaintext, bytesAt_unitCiphertext hk]
  decide

theorem unit_block_differs :
    ¬ XtsExplained unitCipher1 unitCipher2 512 unitPlaintext unitCiphertext 512 := by
  decide +kernel

/-- A sample behind the first 512 bytes tells the data unit, and the file is restored. -/
theorem xts_inference_later_sample :
    ∃ du, engineVerifyXts unitCipher1 unitCipher2 (unitPlaintext.drop 512)
        (unitCiphertext.drop 512) 16 (UInt64.ofNat 512) = some du ∧
      RestoresBlocks (sarRecoverBuffer addSuite zeroBuffers { unitKey with modeParams := du } none
        (fileMemory unitCiphertext fun _ => 0) (fun _ => 0) 528) unitPlaintext
        (528 : UInt64).toNat := by
  obtain ⟨du, hfound, hrestores⟩ := xts_inference_iff addCipher_lawful rfl unitKey_ciphers
    (.inr rfl) length_unitCiphertext unit_encrypts (show 16 ∣ 512 by decide) (le_refl 16)
    (by decide) zeroBuffers (fun _ => 0) fun _ => 0
  exact ⟨du, hfound, hrestores.mpr (.inr (.inl unit_block_differs))⟩

/-- The sample lies in the first 512 bytes, so units of 512 bytes explain it; under them the
    block at 512 has another tweak. -/
theorem xts_unit_mistaken : XtsEncrypts unitCipher1 unitCipher2 4096 unitPlaintext unitCiphertext ∧
      engineVerifyXts unitCipher1 unitCipher2 unitPlaintext unitCiphertext 64 0 = some 512 ∧
      ¬ RestoresBlocks (sarRecoverBuffer addSuite zeroBuffers { unitKey with modeParams := 512 }
        none (fileMemory unitCiphertext fun _ => 0) (fun _ => 0) 528) unitPlaintext
        (528 : UInt64).toNat := by
  refine ⟨unit_encrypts, by decide +kernel, ?_⟩
  intro hrestored
  have hunits := (@restoresBlocks_iff unitCipher1 unitCipher2 _ _ addSuite
    { unitKey with modeParams := 512 } addCipher_lawful rfl unitKey_ciphers (.inl rfl) _ _ _
    528 length_unitCiphertext (by decide)).mp hrestored
  exact unit_block_differs (hunits 512 (by decide) (by rw [length_unitCiphertext]; decide))

end SemanticsAr
