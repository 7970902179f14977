import SemanticsAr.RecoveryBytes

/-!
# Recovering slices of a file

A writer that encrypts only some ranges of a file, each byte under the keystream byte of its
position in the file, against `sar_recover_buffer` over the same ranges.  The stream ciphers
of `recover.c` turn every position into a keystream block and an offset in it.  The block
modes do so for the start of the range alone and take every block of the range from its
first byte on, so a range that starts inside a block meets other keystream bytes than the
writer's.
-/

namespace SemanticsAr

open Option

variable {ranges : List FileRange} {start b klen stop : Nat} {ct mem : Memory} {ciphers : Ciphers}
  {fileSize : UInt64} {stack : XtsBuffers} {pt : Nat → UInt8}

/-! ### The range that decides a byte -/

def lastHolding : List FileRange → Nat → Option FileRange
  | [], _ => none
  | r :: ranges, b => (lastHolding ranges b).or (if r.Has b then some r else none)

theorem lastHolding_mem {r : FileRange} (h : lastHolding ranges b = some r) :
    r ∈ ranges ∧ r.Has b := by
  induction ranges with
  | nil => cases h
  | cons first ranges ih =>
    rcases or_eq_some_iff.mp h with hrest | ⟨-, hfirst⟩
    · exact ⟨List.mem_cons_of_mem _ (ih hrest).1, (ih hrest).2⟩
    · split at hfirst
      · cases hfirst
        exact ⟨List.mem_cons_self, by assumption⟩
      · cases hfirst

theorem lastHolding_eq_none : lastHolding ranges b = none ↔ ∀ r ∈ ranges, ¬ r.Has b := by
  induction ranges with
  | nil => simp [lastHolding]
  | cons first ranges ih => simp [lastHolding, ih, and_comm]

theorem lastHolding_filter :
    lastHolding (ranges.filter (·.length ≠ 0)) b = lastHolding ranges b := by
  induction ranges with
  | nil => rfl
  | cons first ranges ih =>
    by_cases hlen : first.length = 0
    · have hout : ¬ first.Has b := by
        rintro ⟨hfrom, hto⟩
        rw [hlen, UInt64.toNat_zero] at hto
        omega
      rw [List.filter_cons_of_neg (by simpa using hlen), ih, lastHolding, if_neg hout,
        or_none]
    · rw [List.filter_cons_of_pos (by simpa using hlen), lastHolding, lastHolding, ih]

/-! ### Keystream bytes -/

def keystreamBlock {n : Nat} (bc : BlockCipher n) (rk : RecoveryKey) (blk : Nat) : Vector UInt8 n :=
  if rk.mode = SAR_MODE_OFB then ofbBlock bc rk blk else recCtrBlock bc rk blk

def positionByte (rk : RecoveryKey) (ciphers : Ciphers) (b : Nat) : UInt8 :=
  match ciphers with
  | .block ⟨n, bc⟩ => (keystreamBlock bc rk (b / n)).toList.getD (b % n) 0
  | .xts _ _ => 0
  | .stream =>
    if rk.algorithm = SAR_ALG_RC4 then
      (rc4Ksa rk.key.toList rk.keyLength.toNat).keystream b
    else recStreamByte rk b

/-- The keystream byte that the decryption of a range uses at a position.  The block modes
    count blocks and offsets from the start of the range. -/
def sliceByte (rk : RecoveryKey) (ciphers : Ciphers) (start b : Nat) : UInt8 :=
  match ciphers with
  | .block ⟨n, bc⟩ =>
    (keystreamBlock bc rk (start / n + (b - start) / n)).toList.getD ((b - start) % n) 0
  | other => positionByte rk other b

def RecoveryKey.grain (rk : RecoveryKey) : Nat :=
  if rk.mode = SAR_MODE_STREAM then 1 else rk.blockSize

def RecoveryKey.AddsKeystream (rk : RecoveryKey) : Prop :=
  rk.mode = SAR_MODE_OFB ∨ rk.mode = SAR_MODE_CTR ∨ rk.mode = SAR_MODE_STREAM

instance (rk : RecoveryKey) : Decidable rk.AddsKeystream := inferInstanceAs (Decidable (_ ∨ _))

section

variable {suite : CipherSuite} {rk : RecoveryKey}

theorem makeBlock_isSome {alg : UInt32} (h : isBlockAlg alg = true) (key : List UInt8) :
    (makeBlock suite alg key klen).isSome := by
  simp only [isBlockAlg, Bool.or_eq_true, beq_iff_eq] at h
  rcases h with ((((((h | h) | h) | h) | h) | h) | h) | h <;> · rw [h]; rfl

theorem buildCiphers_isSome (hmode : rk.AddsKeystream) : (buildCiphers suite rk).isSome := by
  have hxts : rk.mode ≠ SAR_MODE_XTS := by
    rcases hmode with h | h | h <;> · rw [h]; decide
  rw [buildCiphers, if_neg hxts]
  split
  next halg =>
    rw [isSome_map]
    exact makeBlock_isSome halg _
  · rfl

theorem blockStart_div {n : Nat} (hn : 0 < n) :
    blockStart n start b / n = start / n + (b - start) / n := by
  rw [blockStart, Nat.add_mul_div_right _ _ hn]

section

variable (hciphers : buildCiphers suite rk = some ciphers) (hcheck : precheck rk = .ok)

include hciphers hcheck

theorem rangeByte_slice (hmode : rk.AddsKeystream) (hrc4 : ¬ rk.IsRc4) (hb : start ≤ b) :
    rangeByte rk .continuous ciphers mem start start stop b =
      some (mem b ^^^ sliceByte rk ciphers start b) := by
  cases ciphers with
  | stream =>
    have hstream := mode_of_stream hcheck hciphers
    have halg : rk.algorithm ≠ SAR_ALG_RC4 := fun h => hrc4 ⟨hstream, h⟩
    simp only [rangeByte, if_pos hstream, sliceByte, positionByte, if_neg halg, policyPosition]
  | xts bc1 bc2 =>
    have hxts := (buildCiphers_spec hciphers).1
    rcases hmode with h | h | h <;> · rw [h] at hxts; cases hxts
  | block bc =>
    obtain ⟨bc, rfl⟩ := block_of_ciphers hciphers
    have hn := blockSize_pos rk
    simp only [rangeByte, sliceByte, policyPosition, blockStart_div hn, sub_blockStart hb,
      keystreamBlock]
    rcases hmode with h | h | h
    · simp [h, SAR_MODE_OFB, SAR_MODE_ECB, SAR_MODE_CBC, SAR_MODE_CFB]
    · simp [h, SAR_MODE_CTR, SAR_MODE_OFB, SAR_MODE_ECB, SAR_MODE_CBC, SAR_MODE_CFB]
    · have hblock := mode_of_block hcheck hciphers
      rw [h] at hblock
      exact absurd hblock (by decide)

/-- **The decryption of one range**, byte by byte: a keystream byte is added inside the
    range, and the buffer is left alone outside. -/
theorem recoverOneRange_slice (hmode : rk.AddsKeystream) (length : Nat) :
    recoverOneRange stack rk .continuous ciphers ct pt start start length 0 b =
      if start ≤ b ∧ b < start + length then ct b ^^^ sliceByte rk ciphers start b else pt b := by
  by_cases hrc4 : rk.IsRc4
  · -- RC4 is generated from the start of the file on and knows no blocks
    have halg : isBlockAlg rk.algorithm = false := by rw [hrc4.2]; rfl
    obtain rfl : ciphers = .stream := by
      rw [buildCiphers, if_neg (by rw [hrc4.1]; decide), halg] at hciphers
      exact (Option.some.inj hciphers).symm
    simp only [recoverOneRange, if_pos hrc4.1, if_pos hrc4.2, recRc4, writeData_map_range,
      sliceByte, positionByte]
    split
    next hin =>
      rw [Nat.add_sub_cancel' hin.1]
    · rfl
  · have hreg : ciphers.Regular := by
      apply buildCiphers_regular hciphers
      rintro ⟨hxts, -⟩
      rcases hmode with h | h | h <;> · rw [h] at hxts; cases hxts
    split
    next hin =>
      have hone := recoverOneRange_apply stack hrc4 .continuous hreg ct pt (Nat.le_refl start)
        (Nat.zero_le start) hin.1 hin.2
      rw [rangeByte_slice hciphers hcheck hmode hrc4 hin.1, view_zero] at hone
      exact hone
    · exact recoverOneRange_outside stack hrc4 .continuous hreg ct pt (Nat.le_refl start)
        (Nat.zero_le start) (Nat.zero_le b) (by omega)

theorem sliceByte_of_grain (hdvd : rk.grain ∣ start) (hb : start ≤ b) :
    sliceByte rk ciphers start b = positionByte rk ciphers b := by
  cases ciphers with
  | stream => rfl
  | xts bc1 bc2 => rfl
  | block bc =>
    obtain ⟨bc, rfl⟩ := block_of_ciphers hciphers
    have hn := blockSize_pos rk
    have hmode : rk.mode ≠ SAR_MODE_STREAM := by
      intro h
      have hblock := mode_of_block hcheck hciphers
      rw [h] at hblock
      exact absurd hblock (by decide)
    rw [RecoveryKey.grain, if_neg hmode] at hdvd
    obtain ⟨q, rfl⟩ := hdvd
    obtain ⟨d, rfl⟩ := Nat.exists_eq_add_of_le hb
    simp only [sliceByte, positionByte, Nat.add_sub_cancel_left, Nat.mul_add_div hn,
      Nat.mul_add_mod, Nat.mul_div_cancel_left q hn]

end

end

/-! ### The whole file -/

section

variable (suite : CipherSuite) (rk : RecoveryKey)

/-- `positionByte` under the ciphers that the key sets up. -/
def keyByte (b : Nat) : UInt8 :=
  ((buildCiphers suite rk).map fun ciphers => positionByte rk ciphers b).getD 0

/-- `sliceByte` under the ciphers that the key sets up. -/
def keySliceByte (start b : Nat) : UInt8 :=
  ((buildCiphers suite rk).map fun ciphers => sliceByte rk ciphers start b).getD 0

/-- The ciphertext of a writer that encrypts the bytes of the ranges and no others, each
    under the keystream byte of its position. -/
def EncryptsSlices (ranges : List FileRange) (fileSize : UInt64) (plain : Nat → UInt8)
    (ct : Memory) : Prop :=
  ∀ b < fileSize.toNat,
    ct b = if ∃ r ∈ ranges, r.Has b then plain b ^^^ keyByte suite rk b else plain b

/-- The buffer decryption over the ranges gives the plaintext at every byte of the file. -/
def RecoversSlices (stack : XtsBuffers) (ranges : List FileRange) (fileSize : UInt64)
    (plain : Nat → UInt8) (ct : Memory) (pt : Nat → UInt8) : Prop :=
  let out := sarRecoverBuffer suite stack rk (some ⟨.explicit (some ranges), .continuous⟩) ct pt
    fileSize
  out.1 = .ok ∧ ∀ b < fileSize.toNat, out.2 b = plain b

end

section

variable {suite : CipherSuite} {rk : RecoveryKey}

/-- **The last range that holds a byte decides it**; overlaps do no harm, since every range
    is decrypted from the ciphertext. -/
theorem sliceFold_apply (hciphers : buildCiphers suite rk = some ciphers)
    (hcheck : precheck rk = .ok) (hmode : rk.AddsKeystream) {fileSize : Nat}
    (hinside : ∀ r ∈ ranges, r.offset.toNat + r.length.toNat ≤ fileSize) :
    ranges.foldl (fun pt r =>
      let start := r.offset.toNat
      let length := r.length.toNat
      if start > fileSize ∨ fileSize - start < length then pt
      else recoverOneRange stack rk .continuous ciphers ct pt start start length 0) pt b =
      ((lastHolding ranges b).map fun r =>
        ct b ^^^ sliceByte rk ciphers r.offset.toNat b).getD (pt b) := by
  induction ranges generalizing pt with
  | nil => rfl
  | cons r ranges ih =>
    have hr := hinside r List.mem_cons_self
    have hin : ¬ (r.offset.toNat > fileSize ∨ fileSize - r.offset.toNat < r.length.toNat) := by
      omega
    rw [List.foldl_cons, ih fun r hmem => hinside r (List.mem_cons_of_mem _ hmem)]
    simp only [if_neg hin, recoverOneRange_slice hciphers hcheck hmode, lastHolding]
    cases lastHolding ranges b with
    | some later => rfl
    | none =>
      by_cases hholds : r.Has b
      · rw [if_pos hholds]
        exact if_pos hholds
      · rw [if_neg hholds]
        exact if_neg hholds

theorem sarRecoverBuffer_slices (stack : XtsBuffers)
    (hciphers : buildCiphers suite rk = some ciphers) (hcheck : precheck rk = .ok)
    (hmode : rk.AddsKeystream) (ct : Memory) (pt : Nat → UInt8)
    (hinside : ∀ r ∈ ranges, r.offset.toNat + r.length.toNat ≤ fileSize.toNat)
    (hcount : (ranges.filter (·.length ≠ 0)).length ≤ SAR_MAX_RANGES) :
    (sarRecoverBuffer suite stack rk (some ⟨.explicit (some ranges), .continuous⟩) ct pt
      fileSize).1 = .ok ∧
    ∀ b < fileSize.toNat,
      (sarRecoverBuffer suite stack rk (some ⟨.explicit (some ranges), .continuous⟩) ct pt
        fileSize).2 b =
      ((lastHolding ranges b).map fun r =>
        ct b ^^^ sliceByte rk ciphers r.offset.toNat b).getD (ct b) := by
  have hkept : ∀ r ∈ ranges.filter (·.length ≠ 0),
      r.offset.toNat + r.length.toNat ≤ fileSize.toNat :=
    fun r hmem => hinside r (List.mem_of_mem_filter hmem)
  simp only [sarRecoverBuffer, getD_some, sarGeometryExpand_inside hinside, if_pos hcount,
    recoverRangesInto, hcheck, hciphers, ne_eq, not_true_eq_false, if_false, false_and, true_and]
  intro b hb
  rw [sliceFold_apply hciphers hcheck hmode hkept, lastHolding_filter, if_pos hb]

theorem sarRecoverBuffer_ok {stack : XtsBuffers} {pt : Nat → UInt8} {policy : CounterPolicy}
    (hinside : ∀ r ∈ ranges, r.offset.toNat + r.length.toNat ≤ fileSize.toNat)
    (h : (sarRecoverBuffer suite stack rk (some ⟨.explicit (some ranges),
      policy⟩) ct pt fileSize).1 = .ok) :
    precheck rk = .ok ∧ (ranges.filter (·.length ≠ 0)).length ≤ SAR_MAX_RANGES := by
  simp only [sarRecoverBuffer, getD_some, sarGeometryExpand_inside hinside] at h
  by_cases hcount : (ranges.filter (·.length ≠ 0)).length ≤ SAR_MAX_RANGES
  · refine ⟨?_, hcount⟩
    by_contra hcheck
    rw [if_pos hcount] at h
    simp only [recoverRangesInto, if_pos hcheck] at h
    exact hcheck h
  · rw [if_neg hcount] at h
    cases h

theorem xor_keys_eq_iff (p k k' : UInt8) : p ^^^ k ^^^ k' = p ↔ k' = k := by
  conv_lhs => rhs; rw [← UInt8.xor_zero (a := p)]
  rw [UInt8.xor_assoc, UInt8.xor_right_inj, UInt8.xor_eq_zero_iff, eq_comm]

theorem slice_byte_recovered_iff {plain : Nat → UInt8}
    (hciphers : buildCiphers suite rk = some ciphers)
    (hct : EncryptsSlices suite rk ranges fileSize plain ct) (hb : b < fileSize.toNat) :
    ((lastHolding ranges b).map fun r =>
      ct b ^^^ sliceByte rk ciphers r.offset.toNat b).getD (ct b) = plain b ↔
      ∀ r, lastHolding ranges b = some r →
        keySliceByte suite rk r.offset.toNat b = keyByte suite rk b := by
  rw [hct b hb]
  cases hlast : lastHolding ranges b with
  | none =>
    have hnone : ¬ ∃ r ∈ ranges, r.Has b := by
      rintro ⟨r, hmem, hholds⟩
      exact lastHolding_eq_none.mp hlast r hmem hholds
    simp [hnone]
  | some r =>
    obtain ⟨hmem, hholds⟩ := lastHolding_mem hlast
    rw [if_pos ⟨r, hmem, hholds⟩, map_some, getD_some, xor_keys_eq_iff]
    simp [keySliceByte, keyByte, hciphers]

/-- **Slices are recovered exactly if** the key passes its check, at most `SAR_MAX_RANGES` of the
    ranges are not empty, and for every byte the last range that holds it starts on a boundary of
    the keystream or happens to have the right keystream byte. -/
theorem slice_recovery_iff (stack : XtsBuffers) (hmode : rk.AddsKeystream) {fileSize : UInt64}
    (hinside : ∀ r ∈ ranges, r.offset.toNat + r.length.toNat ≤ fileSize.toNat)
    {plain : Nat → UInt8} {ct : Memory} (hct : EncryptsSlices suite rk ranges fileSize plain ct)
    (pt : Nat → UInt8) :
    RecoversSlices suite rk stack ranges fileSize plain ct pt ↔
      precheck rk = .ok ∧ (ranges.filter (·.length ≠ 0)).length ≤ SAR_MAX_RANGES ∧
        ∀ b r, lastHolding ranges b = some r →
          rk.grain ∣ r.offset.toNat ∨
            keySliceByte suite rk r.offset.toNat b = keyByte suite rk b := by
  obtain ⟨ciphers, hciphers⟩ := isSome_iff_exists.mp
    (buildCiphers_isSome hmode : (buildCiphers suite rk).isSome)
  have hfile : ∀ {b r}, lastHolding ranges b = some r → b < fileSize.toNat := by
    intro b r hlast
    obtain ⟨hmem, -, hto⟩ := lastHolding_mem hlast
    exact hto.trans_le (hinside r hmem)
  constructor
  · rintro ⟨hok, hplain⟩
    obtain ⟨hcheck, hcount⟩ := sarRecoverBuffer_ok hinside hok
    refine ⟨hcheck, hcount, fun b r hlast => Or.inr ?_⟩
    have hbytes := (sarRecoverBuffer_slices stack hciphers hcheck hmode ct pt hinside hcount).2
    have hb := hfile hlast
    exact (slice_byte_recovered_iff hciphers hct hb).mp ((hbytes b hb).symm.trans (hplain b hb)) r
      hlast
  · rintro ⟨hcheck, hcount, hgrain⟩
    obtain ⟨hok, hbytes⟩ := sarRecoverBuffer_slices stack hciphers hcheck hmode ct pt hinside hcount
    refine ⟨hok, fun b hb => (hbytes b hb).trans ?_⟩
    apply (slice_byte_recovered_iff hciphers hct hb).mpr
    intro r hlast
    rcases hgrain b r hlast with hdvd | hsame
    · simp only [keySliceByte, keyByte, hciphers, map_some, getD_some]
      exact sliceByte_of_grain hciphers hcheck hdvd (lastHolding_mem hlast).2.1
    · exact hsame

end

def countingCtrKey : RecoveryKey where
  algorithm := SAR_ALG_AES_128
  mode := SAR_MODE_CTR
  keyLength := 16
  key := Vector.ofFn fun i => UInt8.ofNat i.val
  modeParams := 0
  iv := Vector.replicate _ 0
  ivLength := 16
  ctrLayoutTag := 1

def slicedZeros (suite : CipherSuite) (rk : RecoveryKey) (ranges : List FileRange) : Memory :=
  fun b => if ∃ r ∈ ranges, r.Has b.toNat then keyByte suite rk b.toNat else 0

theorem slicedZeros_encrypts (suite : CipherSuite) (rk : RecoveryKey) :
    EncryptsSlices suite rk ranges fileSize (fun _ => 0) (slicedZeros suite rk ranges) := by
  intro b _
  simp [slicedZeros]

/-- Two ranges, of which the second starts on a block boundary behind the first. -/
theorem slice_recovery_on_boundaries :
    RecoversSlices xorSuite countingCtrKey zeroBuffers [⟨0, 3⟩, ⟨16, 4⟩] 20 (fun _ => 0)
      (slicedZeros xorSuite countingCtrKey [⟨0, 3⟩, ⟨16, 4⟩]) (fun _ => 0) := by
  refine (slice_recovery_iff zeroBuffers (by decide) (by decide)
    (slicedZeros_encrypts xorSuite countingCtrKey) _).mpr ⟨by decide, by decide, ?_⟩
  intro b r hlast
  left
  have hmem := (lastHolding_mem hlast).1
  simp only [List.mem_cons, List.not_mem_nil, or_false] at hmem
  rcases hmem with rfl | rfl <;> decide

/-- The second byte of a file encrypted on its own: the range starts inside the first block,
    and the decryption takes the block's first keystream byte for it. -/
theorem slice_inside_block_garbled :
    ¬ RecoversSlices xorSuite countingCtrKey zeroBuffers [⟨1, 1⟩] 2 (fun _ => 0)
      (slicedZeros xorSuite countingCtrKey [⟨1, 1⟩]) (fun _ => 0) := by
  rintro ⟨-, hbytes⟩
  have hbyte := hbytes 1 (by decide)
  revert hbyte
  decide +kernel

end SemanticsAr
