import SemanticsAr.Conviction
import SemanticsAr.CtrInference
import SemanticsAr.RecoveryBytes
import SemanticsAr.XtsInference

/-!
# From a conviction to the file

What `sar_convict` reports, `sar_recovery_key_from_verdict` keeps unchanged, and for a
write at the front of a file `sar_recover_buffer` accepts it.  Where the sample is the
encryption of its plaintext under the reported algorithm, key and mode, the IV that the
battery derived from it is the one it was encrypted with, and the front of the file comes
back as it was.  The stream ciphers need no such assumption: their comparison covers all
of the front.
-/

namespace SemanticsAr

open Option Nat
open List hiding Vector

variable {iv : IvOut} {policy : CounterPolicy} {n len k o i : Nat} {pt ct file : List UInt8}
  {suite : CipherSuite} {sample : Sample} {v : Verdict} {tag x : UInt8} {fileOffset : UInt64}

/-! ### The sample as a whole -/

def chainedTo (iv : Vector UInt8 n) (ct : List UInt8) (o : Nat) : Vector UInt8 n :=
  if o = 0 then iv else bytesAt n ct (o - n)

/-- The first `size` bytes of a file are encrypted in a mode, for some IV.  ECB and CBC
    encrypt whole blocks only, so the front of the file consists of them. -/
inductive ModeEncrypts (c : BlockCipher n) (tag : UInt8) (pt ct : List UInt8) (size : Nat) :
    UInt32 → Prop where
  | ecb (hwhole : n ∣ min 64 size)
      (hblocks : ∀ o, n ∣ o → o + n ≤ size → c.encrypt (bytesAt n pt o) = bytesAt n ct o) :
      ModeEncrypts c tag pt ct size SAR_MODE_ECB
  | cbc (iv : Vector UInt8 n) (hwhole : n ∣ min 64 size)
      (hblocks : ∀ o, n ∣ o → o + n ≤ size →
        c.encrypt (xorBytes (bytesAt n pt o) (chainedTo iv ct o)) = bytesAt n ct o) :
      ModeEncrypts c tag pt ct size SAR_MODE_CBC
  | cfb (iv : Vector UInt8 n)
      (hbytes : ∀ i < size, ct.getD i 0 =
        pt.getD i 0 ^^^ (c.encrypt (chainedTo iv ct (i / n * n))).toList.getD (i % n) 0) :
      ModeEncrypts c tag pt ct size SAR_MODE_CFB
  | ofb (iv : Vector UInt8 n)
      (hbytes : ∀ i < size, ct.getD i 0 =
        pt.getD i 0 ^^^ (c.encrypt^[i / n + 1] iv).toList.getD (i % n) 0) :
      ModeEncrypts c tag pt ct size SAR_MODE_OFB
  | ctr (iv : Vector UInt8 n) (hbytes : CtrEncrypts c iv (tagLayout tag) 0 pt ct size) :
      ModeEncrypts c tag pt ct size SAR_MODE_CTR

/-- A sample at the front of a file is, as a whole, the encryption of its plaintext under
    the algorithm, key and mode of a verdict; the data units of XTS may be of another size than
    the verdict's. -/
inductive SampleEncrypted (suite : CipherSuite) (sample : Sample) (v : Verdict) : Prop where
  | block (c : AnyCipher)
      (hcipher : makeBlock suite v.algorithm v.key.toList v.keyLength.toNat = some c)
      (hbytes : ModeEncrypts c.2 v.ctrLayoutTag sample.plaintext sample.ciphertext sample.size
        v.mode)
  | xts (c1 c2 : BlockCipher 16) (dataUnit : UInt64)
      (hmode : v.mode = SAR_MODE_XTS)
      (hcipher : makeXts suite v.algorithm v.key.toList v.keyLength.toNat =
        some (⟨16, c1⟩, ⟨16, c2⟩))
      (hunit : 64 ≤ dataUnit)
      (hwhole : 16 ∣ min 64 sample.size)
      (hblocks : ∀ o, 16 ∣ o → o + 16 ≤ sample.size →
        xtsEncrypt c1 (tweakAt c2 dataUnit o) (bytesAt 16 sample.plaintext o) =
          bytesAt 16 sample.ciphertext o)
  | stream (hmode : v.mode = SAR_MODE_STREAM)

/-! ### The key of a verdict -/

theorem keyFromVerdict_packed (h : v.Packed) : sarRecoveryKeyFromVerdict v = v := by
  obtain ⟨hkey, hlen, hiv⟩ := h
  have hlen : ¬ v.ivLength.toNat > SEMANTICS_AR_IV_MAX := not_lt.mpr hlen
  have hiv : bytesAt _ (v.iv.toList.take v.ivLength.toNat) 0 = v.iv := hiv
  rw [sarRecoveryKeyFromVerdict, if_neg hlen, hkey, hiv]

section

variable {c : BlockCipher n}

/-- What a mode and an IV that the search of the block modes stops at come from. -/
def ModeSearch (c : BlockCipher n) (pt ct : List UInt8) (len : Nat) (fileOffset : UInt64)
    (mode : UInt32) (iv : IvOut) : Prop := mode = SAR_MODE_ECB ∨ 2 * n ≤ len ∧
  (mode = SAR_MODE_CBC ∧ genericCbc c pt ct len fileOffset = some iv ∨
    mode = SAR_MODE_CFB ∧ genericCfb c pt ct len fileOffset = some iv ∨
    mode = SAR_MODE_OFB ∧ genericOfb c pt ct len fileOffset = some iv ∨
    mode = SAR_MODE_CTR ∧ genericCtr c pt ct len fileOffset = some iv)

variable {mode : UInt32}

theorem engineTryBlockModes_search
    (h : engineTryBlockModes c pt ct len fileOffset = some (mode, iv)) :
    ModeSearch c pt ct len fileOffset mode iv := by
  have hsearch : Finds (fun m => ModeSearch c pt ct len fileOffset m.1 m.2)
      (engineTryBlockModes c pt ct len fileOffset) := by
    apply Finds.orElse
    · exact Finds.guard fun _ => Finds.some (.inl rfl)
    apply Finds.guard
    intro hlen
    apply Finds.orElse
    · exact Finds.map (fun iv h => h) fun iv h => .inr ⟨hlen, .inl ⟨rfl, h⟩⟩
    apply Finds.orElse
    · exact Finds.map (fun iv h => h) fun iv h => .inr ⟨hlen, .inr (.inl ⟨rfl, h⟩)⟩
    apply Finds.orElse
    · exact Finds.map (fun iv h => h) fun iv h => .inr ⟨hlen, .inr (.inr (.inl ⟨rfl, h⟩))⟩
    · exact Finds.map (fun iv h => h) fun iv h => .inr ⟨hlen, .inr (.inr (.inr ⟨rfl, h⟩))⟩
  exact hsearch _ h

/-- ECB is tried first and a single block is enough, so a sample in CBC under an IV of
    zeros is reported as ECB. -/
theorem zero_iv_taken_for_ecb (hn : 0 < n) (hlen : n ≤ len)
    (hfirst : c.encrypt (xorBytes (bytesAt n pt 0) (chainedTo (Vector.replicate n 0) ct 0)) =
      bytesAt n ct 0) :
    engineTryBlockModes c pt ct len fileOffset = some (SAR_MODE_ECB, ivClear) := by
  have hzero : xorBytes (bytesAt n pt 0) (chainedTo (Vector.replicate n 0) ct 0) =
      bytesAt n pt 0 := by
    apply ext_get
    intro i
    have hget : (Vector.replicate n (0 : UInt8)).get i = 0 := by simp [Vector.get]
    rw [get_xorBytes, chainedTo, if_pos rfl, hget, UInt8.xor_zero]
  have hecb : genericEcb c pt ct len = true := by
    rw [genericEcb, List.any_eq_true]
    refine ⟨0, mem_range.mpr hn, ?_⟩
    rw [hzero] at hfirst
    simp [hlen, hfirst]
  simp [engineTryBlockModes, hecb]

theorem ModeSearch.fits (h : ModeSearch c pt ct len fileOffset mode iv) :
    (mode ≠ SAR_MODE_ECB → 2 * n ≤ len) ∧
      (mode = SAR_MODE_CBC → genericCbc c pt ct len fileOffset = some iv) ∧
      (mode = SAR_MODE_CFB → genericCfb c pt ct len fileOffset = some iv) ∧
      (mode = SAR_MODE_OFB → genericOfb c pt ct len fileOffset = some iv) ∧
      (mode = SAR_MODE_CTR → genericCtr c pt ct len fileOffset = some iv) := by
  rcases h with h | ⟨hlen, ⟨h, hiv⟩ | ⟨h, hiv⟩ | ⟨h, hiv⟩ | ⟨h, hiv⟩⟩ <;> rw [h] <;>
    simp [*, SAR_MODE_ECB, SAR_MODE_CBC, SAR_MODE_CFB, SAR_MODE_OFB, SAR_MODE_CTR]

theorem genericOfb_length (hn : n ≤ SEMANTICS_AR_IV_MAX) :
    Finds (fun iv => iv.length.toNat = n) (genericOfb c pt ct len fileOffset) :=
  Finds.findSome fun _ _ => Finds.guard fun _ => Finds.some (ivOfBlock_length hn _ _)

theorem genericCtr_layout (hn : n ≤ SEMANTICS_AR_IV_MAX) :
    Finds (fun iv => iv.length.toNat = n ∧ ∃ t L, SAR_CTR_LAYOUTS[t]? = some L ∧
        L.blockSize = n ∧ iv.tag.toNat = t + 1)
      (genericCtr c pt ct len fileOffset) := by
  apply Finds.select
  intro s _ _
  apply Finds.findSome
  rintro ⟨L, t⟩ hmem
  apply Finds.guard
  rintro ⟨hsize, -⟩
  apply Finds.some
  have hindex : SAR_CTR_LAYOUTS[t]? = some L := mem_zipIdx_iff_getElem?.mp hmem
  have ht : t < 8 := (List.getElem?_eq_some_iff.mp hindex).1
  exact ⟨ivOfBlock_length hn _ _, t, L, hindex, hsize,
    UInt8.toNat_ofNat_of_lt' (show t + 1 < 256 by omega)⟩

end

theorem makeBlock_iv_size {alg : UInt32} {key : List UInt8} {klen : Nat} {c : AnyCipher}
    (h : makeBlock suite alg key klen = some c) : 0 < c.1 ∧ c.1 ≤ SEMANTICS_AR_IV_MAX := by
  rcases makeBlock_size h with ⟨-, hsize⟩ | ⟨-, hsize⟩ <;> rw [hsize] <;> decide

/-- **What the battery reports with a key, recovery accepts.** -/
theorem Found.precheck_ok (h : Found suite sample v) : precheck v = .ok := by
  cases h with
  | block c hcipher hmode =>
    obtain ⟨hpos, hn⟩ := makeBlock_iv_size hcipher
    have halg := isBlockAlg_of_makeBlock hcipher
    have hlength {iv : IvOut} (hiv : iv.length.toNat = c.1) : iv.length ≠ 0 := by
      rintro h0
      rw [h0] at hiv
      exact hpos.ne hiv
    rcases engineTryBlockModes_search hmode with h | ⟨-, ⟨h, -⟩ | ⟨h, -⟩ | ⟨h, hofb⟩ | ⟨h, hctr⟩⟩
    · simp [precheck, h, halg]
    · simp [precheck, h, halg]
    · simp [precheck, h, halg]
    · have hiv : v.ivLength ≠ 0 := hlength (genericOfb_length hn _ hofb)
      simp [precheck, h, halg, hiv, SAR_MODE_ECB, SAR_MODE_CBC, SAR_MODE_CFB, SAR_MODE_OFB]
    · obtain ⟨hlen, t, L, hL, -, htag⟩ := genericCtr_layout hn _ hctr
      have hiv : v.ivLength ≠ 0 := hlength hlen
      have ht : t < 8 := (List.getElem?_eq_some_iff.mp hL).1
      have htag : v.ctrLayoutTag.toNat = t + 1 := htag
      have hne : v.ctrLayoutTag ≠ 0 := by
        intro h0
        rw [h0] at htag
        cases htag
      have hcount : v.ctrLayoutTag.toNat ≤ SAR_CTR_LAYOUT_COUNT := by
        rw [htag]
        exact ht
      simp [precheck, h, halg, hiv, hne, hcount, SAR_MODE_ECB, SAR_MODE_CBC, SAR_MODE_CFB,
        SAR_MODE_OFB, SAR_MODE_CTR]
  | xts c1 c2 hmode hcipher hunit =>
    obtain ⟨hdu, -⟩ := engineVerifyXts_forward _ hunit
    have halg := isBlockAlg_of_makeXts hcipher
    rcases hdu with hdu | hdu <;>
      simp [precheck, hmode, halg, hdu, SAR_MODE_ECB, SAR_MODE_CBC, SAR_MODE_CFB, SAR_MODE_OFB,
        SAR_MODE_CTR, SAR_MODE_XTS]
  | stream hmode halg hiv hlen hbytes =>
    have hrc4 : v.algorithm ≠ SAR_ALG_RC4 := by
      intro h
      rw [h] at halg
      exact absurd halg (by decide)
    have hstream : ¬ (isChachaAlg v.algorithm = false ∧ isSalsaAlg v.algorithm = false) := by
      rintro ⟨hchacha, hsalsa⟩
      rw [hchacha, hsalsa] at halg
      exact absurd halg (by decide)
    simp only [precheck, hmode, if_neg hrc4, if_neg hstream, if_neg hiv]
    simp [SAR_MODE_ECB, SAR_MODE_CBC, SAR_MODE_CFB, SAR_MODE_OFB, SAR_MODE_CTR, SAR_MODE_XTS,
      SAR_MODE_STREAM]
  | rc4 hmode halg hkey hbytes =>
    simp [precheck, hmode, halg, hkey, SAR_MODE_ECB, SAR_MODE_CBC, SAR_MODE_CFB, SAR_MODE_OFB,
      SAR_MODE_CTR, SAR_MODE_XTS, SAR_MODE_STREAM]

/-! ### The IV that was found -/

section

variable {c : BlockCipher n}

theorem genericCbc_front :
    Finds (· = ivOfBlock (xorBytes (c.decrypt (bytesAt n ct 0)) (bytesAt n pt 0)) 0)
      (genericCbc c pt ct len 0) :=
  Finds.findSome fun _ _ => Finds.guard fun _ => Finds.some (if_pos rfl)

theorem genericCfb_front :
    Finds (· = ivOfBlock (c.decrypt (padAt n pt ct 0)) 0) (genericCfb c pt ct len 0) :=
  Finds.findSome fun _ _ => Finds.guard fun _ => Finds.some (if_pos rfl)

theorem findSome_range_zero {α : Type} {f : Nat → Option α} {a : α} (hn : 0 < n)
    (h : f 0 = some a) : (range n).findSome? f = some a := by
  obtain ⟨n, rfl⟩ := exists_eq_succ_of_ne_zero hn.ne'
  rw [range_succ_eq_map, findSome?_cons, h]

theorem genericOfb_front (hn : 0 < n) (hlen : 2 * n ≤ len)
    (h : c.encrypt (padAt n pt ct 0) = padAt n pt ct n) :
    genericOfb c pt ct len 0 = some (ivOfBlock (c.decrypt (padAt n pt ct 0)) 0) := by
  apply findSome_range_zero hn
  have hblk : blockNumber n 0 0 = 0 := by simp [blockNumber]
  rw [if_pos ⟨by omega, by rwa [zero_add]⟩, hblk]
  rfl

theorem padAt_of_bytes {k : Vector UInt8 n} {s : Nat}
    (h : ∀ i < n, ct.getD (s + i) 0 = pt.getD (s + i) 0 ^^^ k.toList.getD i 0) :
    padAt n pt ct s = k := by
  apply ext_get
  intro i
  rw [padAt, get_xorBytes, get_bytesAt, get_bytesAt, h i i.isLt, getD_toList, ← UInt8.xor_assoc,
    UInt8.xor_self, UInt8.zero_xor]

theorem padAt_of_keystream (hn : 0 < n) (ks : Nat → Vector UInt8 n)
    (hbytes : ∀ i < len, ct.getD i 0 = pt.getD i 0 ^^^ (ks (i / n)).toList.getD (i % n) 0)
    (hk : k * n + n ≤ len) : padAt n pt ct (k * n) = ks k := by
  apply padAt_of_bytes
  intro j hj
  have h := hbytes (k * n + j) (by omega)
  rwa [mul_comm, mul_add_div hn, div_eq_of_lt hj, mul_add_mod,
    mod_eq_of_lt hj, add_zero, mul_comm] at h

end

/-! ### The front of the file -/

section

variable {size : Nat}

/-- A file starts with the first `size` bytes of `ct`. -/
structure StartsWith (file ct : List UInt8) (size : Nat) : Prop where
  size_le : size ≤ file.length
  bytes : ∀ i < size, file.getD i 0 = ct.getD i 0

theorem StartsWith.refl : StartsWith ct ct ct.length := ⟨le_refl _, fun _ _ => rfl⟩

theorem StartsWith.blockAt (hstart : StartsWith file ct size) (heap : Memory) (h : o + n ≤ size) :
    blockAt n (fileMemory file heap) o = bytesAt n ct o := by
  rw [blockAt_fileMemory heap (h.trans hstart.size_le)]
  apply ext_get
  intro i
  rw [get_bytesAt, get_bytesAt, hstart.bytes _ (by omega)]

/-- A byte that a keystream was added to. -/
theorem StartsWith.xor_byte (hstart : StartsWith file ct size) (heap : Memory) (hi : i < size)
    (hbyte : ct.getD i 0 = x ^^^ tag) : fileMemory file heap i ^^^ tag = x := by
  rw [fileMemory_natCast (hi.trans_le hstart.size_le), hstart.bytes i hi, hbyte, UInt8.xor_assoc,
    UInt8.xor_self, UInt8.xor_zero]

theorem blockStart_front : blockStart n 0 i = i / n * n := by
  rw [blockStart, Nat.zero_add, Nat.sub_zero]

theorem sub_front : i - i / n * n = i % n := by
  rw [mul_comm]
  exact (mod_eq_sub_mul_div).symm

theorem block_front (hn : 0 < n) (hwhole : n ∣ min 64 size) (hi : i < min 64 size) :
    i / n * n + n ≤ size := by
  have h := blockStart_whole hn hwhole (zero_le i) (by rwa [zero_add])
  rw [blockStart_front, zero_add] at h
  exact h.trans (min_le_right _ _)

theorem getD_bytesAt_front (hn : 0 < n) :
    (bytesAt n pt (i / n * n)).toList.getD (i % n) 0 = pt.getD i 0 := by
  rw [getD_toList (bytesAt n pt (i / n * n)) ⟨i % n, mod_lt i hn⟩, get_bytesAt, div_add_mod']

theorem chainBlock_iv (mem : Memory) {block : Vector UInt8 n}
    (hn : n ≤ SEMANTICS_AR_IV_MAX) (hiv : v.ivOut = ivOfBlock block tag) :
    chainBlock n v policy mem 0 0 = some block := by
  have hlen : ¬ v.ivLength.toNat < n := by
    have h := ivOfBlock_length hn block tag
    rw [← hiv] at h
    exact h.not_lt
  have hblock : v.ivBlock n = block := by
    have h := bytesAt_ivOfBlock hn block tag
    rwa [← hiv] at h
  rw [chainBlock, if_pos (.inl rfl), if_neg hlen, hblock]

theorem chainBlock_inner (hstart : StartsWith file ct size) (heap : Memory) (iv : Vector UInt8 n)
    (hdvd : n ∣ o) (h0 : o ≠ 0) (ho : o ≤ size) :
    chainBlock n v policy (fileMemory file heap) 0 o = some (chainedTo iv ct o) := by
  have hle : n ≤ o := le_of_dvd (pos_of_ne_zero h0) hdvd
  rw [chainBlock, chainedTo, if_neg (by rintro (h | ⟨-, h⟩) <;> exact h0 h), if_neg h0,
    ← cast_sub hle, hstart.blockAt heap (by omega)]

theorem chainBlock_front (hstart : StartsWith file ct size) (heap : Memory)
    (policy : CounterPolicy) {block : Vector UInt8 n} (hn : n ≤ SEMANTICS_AR_IV_MAX)
    (hiv : v.ivOut = ivOfBlock block tag) (hdvd : n ∣ o) (ho : o ≤ size) :
    chainBlock n v policy (fileMemory file heap) 0 o = some (chainedTo block ct o) := by
  by_cases h0 : o = 0
  · subst h0
    exact chainBlock_iv _ hn hiv
  · exact chainBlock_inner hstart heap block hdvd h0 ho

/-- The byte of the file at `i` comes back as that of `pt`. -/
def RestoresByte (v : Verdict) (policy : CounterPolicy) (ciphers : Ciphers) (file : List UInt8)
    (heap : Memory) (pt : List UInt8) (i : Nat) : Prop :=
  rangeByte v policy ciphers (fileMemory file heap) 0 0 file.length i = some (pt.getD i 0)

theorem policyPosition_zero : policyPosition policy 0 o = o := by
  cases policy <;> rfl

section

variable {c : BlockCipher n} (hc : c.Lawful) (hpos : 0 < n) (hn : n ≤ SEMANTICS_AR_IV_MAX)
  (hstart : StartsWith file ct size) (heap : Memory)

include hc hpos hn hstart

omit hn in
theorem rangeByte_ecb_front (hmode : v.mode = SAR_MODE_ECB) (hwhole : n ∣ min 64 size)
    (hblocks : ∀ o, n ∣ o → o + n ≤ size → c.encrypt (bytesAt n pt o) = bytesAt n ct o)
    (hi : i < min 64 size) :
    RestoresByte v .continuous (.block ⟨n, c⟩) file heap pt i := by
  have hin := block_front hpos hwhole hi
  have hdec : c.decrypt (bytesAt n ct (i / n * n)) = bytesAt n pt (i / n * n) :=
    hc.decrypt_eq_iff.mpr (hblocks _ (dvd_mul_left _ _) hin)
  simp only [RestoresByte, rangeByte, if_pos hmode, blockStart_front]
  rw [if_pos (hin.trans hstart.size_le), hstart.blockAt heap hin, hdec, sub_front,
    getD_bytesAt_front hpos]

omit hn in
theorem rangeByte_cbc_chained (hmode : v.mode = SAR_MODE_CBC) {iv : Vector UInt8 n}
    (hin : i / n * n + n ≤ size)
    (hchain : chainBlock n v policy (fileMemory file heap) 0 (i / n * n) =
      some (chainedTo iv ct (i / n * n)))
    (hblock : c.encrypt (xorBytes (bytesAt n pt (i / n * n)) (chainedTo iv ct (i / n * n))) =
      bytesAt n ct (i / n * n)) :
    RestoresByte v policy (.block ⟨n, c⟩) file heap pt i := by
  simp only [RestoresByte, rangeByte, hmode, blockStart_front]
  rw [if_neg (by decide), if_pos trivial, if_pos (hin.trans hstart.size_le), hchain, map_some,
    hstart.blockAt heap hin, hc.decrypt_eq_iff.mpr hblock, xorBytes_cancel, sub_front,
    getD_bytesAt_front hpos]

theorem rangeByte_cbc_front (hmode : v.mode = SAR_MODE_CBC)
    (hfound : genericCbc c pt ct size 0 = some v.ivOut) {iv : Vector UInt8 n}
    (hwhole : n ∣ min 64 size)
    (hblocks : ∀ o, n ∣ o → o + n ≤ size →
      c.encrypt (xorBytes (bytesAt n pt o) (chainedTo iv ct o)) = bytesAt n ct o)
    (hi : i < min 64 size) :
    RestoresByte v .continuous (.block ⟨n, c⟩) file heap pt i := by
  have hin := block_front hpos hwhole hi
  -- the first block of the sample gives its IV away
  have hiv : v.ivOut = ivOfBlock iv 0 := by
    have hdec := hc.decrypt_eq_iff.mpr (hblocks 0 (dvd_zero n) (by omega))
    rw [genericCbc_front _ hfound, hdec, xorBytes_comm (bytesAt n pt 0), xorBytes_cancel]
    rfl
  have hchain := chainBlock_front hstart heap .continuous hn hiv (dvd_mul_left n (i / n))
    (le_of_add_right_le hin)
  exact rangeByte_cbc_chained hc hpos hstart heap hmode hin hchain
    (hblocks _ (dvd_mul_left _ _) hin)

omit hc hpos hn in
theorem rangeByte_cfb_chained (hmode : v.mode = SAR_MODE_CFB) {iv : Vector UInt8 n} (hi : i < size)
    (hchain : chainBlock n v policy (fileMemory file heap) 0 (i / n * n) =
      some (chainedTo iv ct (i / n * n)))
    (hbyte : ct.getD i 0 =
      pt.getD i 0 ^^^ (c.encrypt (chainedTo iv ct (i / n * n))).toList.getD (i % n) 0) :
    RestoresByte v policy (.block ⟨n, c⟩) file heap pt i := by
  simp only [RestoresByte, rangeByte, hmode, blockStart_front]
  rw [if_neg (by decide), if_neg (by decide), if_pos trivial, hchain, map_some, sub_front,
    hstart.xor_byte heap hi hbyte]

theorem rangeByte_cfb_front (hmode : v.mode = SAR_MODE_CFB) (hlen : 2 * n ≤ size)
    (hfound : genericCfb c pt ct size 0 = some v.ivOut) {iv : Vector UInt8 n}
    (hbytes : ∀ i < size, ct.getD i 0 =
      pt.getD i 0 ^^^ (c.encrypt (chainedTo iv ct (i / n * n))).toList.getD (i % n) 0)
    (hi : i < size) :
    RestoresByte v .continuous (.block ⟨n, c⟩) file heap pt i := by
  have hpad : padAt n pt ct 0 = c.encrypt iv := by
    have h := padAt_of_keystream hpos (fun k => c.encrypt (chainedTo iv ct (k * n))) hbytes
      (k := 0) (by omega)
    simpa [chainedTo] using h
  have hiv : v.ivOut = ivOfBlock iv 0 := by rw [genericCfb_front _ hfound, hpad, hc]
  have hchain := chainBlock_front hstart heap .continuous hn hiv (dvd_mul_left n (i / n))
    ((div_mul_le_self i n).trans hi.le)
  exact rangeByte_cfb_chained hstart heap hmode hi hchain (hbytes i hi)

omit hc hn in
theorem rangeByte_ofb_keyed (hmode : v.mode = SAR_MODE_OFB) (policy : CounterPolicy)
    {iv : Vector UInt8 n} (hiv : v.ivBlock n = iv) (hi : i < size)
    (hbyte : ct.getD i 0 = pt.getD i 0 ^^^ (c.encrypt^[i / n + 1] iv).toList.getD (i % n) 0) :
    RestoresByte v policy (.block ⟨n, c⟩) file heap pt i := by
  simp only [RestoresByte, rangeByte, hmode, blockStart_front]
  rw [if_neg (by decide), if_neg (by decide), if_neg (by decide), if_pos trivial,
    sub_front, ofbBlock, hiv, policyPosition_zero, Nat.mul_div_cancel _ hpos,
    ← Function.iterate_succ_apply, hstart.xor_byte heap hi hbyte]

theorem rangeByte_ofb_front (hmode : v.mode = SAR_MODE_OFB) (hlen : 2 * n ≤ size)
    (hfound : genericOfb c pt ct size 0 = some v.ivOut) {iv : Vector UInt8 n}
    (hbytes : ∀ i < size, ct.getD i 0 =
      pt.getD i 0 ^^^ (c.encrypt^[i / n + 1] iv).toList.getD (i % n) 0)
    (hi : i < size) :
    RestoresByte v .continuous (.block ⟨n, c⟩) file heap pt i := by
  have hpad0 : padAt n pt ct 0 = c.encrypt iv := by
    have h := padAt_of_keystream hpos (fun k => c.encrypt^[k + 1] iv) hbytes (k := 0) (by omega)
    rwa [zero_mul] at h
  have hpad1 : c.encrypt (padAt n pt ct 0) = padAt n pt ct n := by
    have h := padAt_of_keystream hpos (fun k => c.encrypt^[k + 1] iv) hbytes (k := 1) (by omega)
    rw [one_mul] at h
    rw [h, hpad0]
    rfl
  have hiv : v.ivBlock n = iv := by
    have h := genericOfb_front hpos hlen hpad1
    rw [hfound, hpad0, hc] at h
    rw [RecoveryKey.ivBlock, show v.iv = v.ivOut.bytes from rfl, Option.some.inj h,
      bytesAt_ivOfBlock hn]
  exact rangeByte_ofb_keyed hpos hstart heap hmode .continuous hiv hi (hbytes i hi)

theorem rangeByte_ctr_front (hmode : v.mode = SAR_MODE_CTR) (hlen : 2 * n ≤ size)
    (hfound : genericCtr c pt ct size 0 = some v.ivOut) {iv : Vector UInt8 n}
    (hbytes : CtrEncrypts c iv (tagLayout v.ctrLayoutTag) 0 pt ct size) (hi : i < size) :
    RestoresByte v .continuous (.block ⟨n, c⟩) file heap pt i := by
  obtain ⟨-, t, L, hL, hblock, htag⟩ := genericCtr_layout hn _ hfound
  have htag : v.ctrLayoutTag.toNat = t + 1 := htag
  have hlayout : tagLayout v.ctrLayoutTag = L := by
    rw [tagLayout, htag, Nat.add_sub_cancel, getD_eq_getElem?_getD, hL, getD_some]
  have hfits : L.Fits n := hblock ▸ fits_of_mem_layouts (mem_of_getElem? hL)
  rw [hlayout] at hbytes
  have hpad {j : Nat} (hj : j * n + n ≤ size) :
      padAt n pt ct (j * n) = c.encrypt (ctrBlock iv L (UInt64.ofNat j)) := by
    rw [← zero_mul n] at hbytes
    have h := hbytes.padAt hpos hj
    rwa [zero_add] at h
  have hfirst : c.decrypt (padAt n pt ct 0) = iv := by
    have h := hpad (j := 0) (by omega)
    have hzero : ctrBlock iv L (UInt64.ofNat 0) = iv := by
      rw [ctrBlock, show UInt64.ofNat 0 = 0 from rfl, UInt64.add_zero, write_read hfits]
    rw [zero_mul, hzero] at h
    rw [h, hc]
  have hsecond : c.decrypt (padAt n pt ct n) = ctrBlock iv L 1 := by
    have h := hpad (j := 1) (by omega)
    rw [one_mul] at h
    rw [h, hc]
    rfl
  -- the layout reported is the first that fits, hence the one the search stops at
  obtain ⟨t', -, L', hL', -, -, -, hfound'⟩ :=
    genericCtr_finds hpos hlen hL hblock hfirst hsecond
  have hiv := Option.some.inj (hfound.symm.trans hfound')
  have ht' : t' < 8 := (List.getElem?_eq_some_iff.mp hL').1
  have hsame : t' = t := by
    have h : v.ctrLayoutTag = UInt8.ofNat (t' + 1) := congrArg IvOut.tag hiv
    rw [h, UInt8.toNat_ofNat_of_lt' (show t' + 1 < 256 by omega)] at htag
    omega
  subst hsame
  obtain rfl : L' = L := Option.some.inj (hL'.symm.trans hL)
  have hblk : blockNumber n 0 0 = UInt64.ofNat 0 := by simp [blockNumber]
  rw [hblk] at hiv
  have hks : recCtrBlock c v (i / n) = c.encrypt (ctrBlock iv L' (UInt64.ofNat (i / n))) := by
    have hdist := blockDistance_add 0 (i / n)
    rw [zero_add] at hdist
    rw [show v = applyIv v v.ivOut from rfl, hiv, recCtrBlock_applyIv hL' hblock hn, hdist]
  have hbyte := hbytes i hi
  rw [ctrKeystreamByte, zero_add] at hbyte
  simp only [RestoresByte, rangeByte, hmode, blockStart_front]
  rw [if_neg (by decide), if_neg (by decide), if_neg (by decide), if_neg (by decide),
    if_pos trivial, sub_front, policyPosition, Nat.mul_div_cancel _ hpos, hks,
    hstart.xor_byte heap hi hbyte]

/-- **The front of the file under a block mode**: the IV that was found decrypts what some
    IV has encrypted. -/
theorem rangeByte_front (hfound : engineTryBlockModes c pt ct size 0 = some (v.mode, v.ivOut))
    (h : ModeEncrypts c v.ctrLayoutTag pt ct size v.mode) (hi : i < min 64 size) :
    RestoresByte v .continuous (.block ⟨n, c⟩) file heap pt i := by
  have hlt : i < size := hi.trans_le (min_le_right _ _)
  obtain ⟨hlen, hcbc, hcfb, hofb, hctr⟩ := (engineTryBlockModes_search hfound).fits
  generalize hmode : v.mode = mode at h hlen hcbc hcfb hofb hctr
  cases h with
  | ecb hwhole hblocks =>
    exact rangeByte_ecb_front hc hpos hstart heap hmode hwhole hblocks hi
  | cbc iv hwhole hblocks =>
    exact rangeByte_cbc_front hc hpos hn hstart heap hmode (hcbc rfl) hwhole hblocks hi
  | cfb iv hbytes =>
    exact rangeByte_cfb_front hc hpos hn hstart heap hmode (hlen (by decide)) (hcfb rfl) hbytes
      hlt
  | ofb iv hbytes =>
    exact rangeByte_ofb_front hc hpos hn hstart heap hmode (hlen (by decide)) (hofb rfl) hbytes
      hlt
  | ctr iv hbytes =>
    exact rangeByte_ctr_front hc hpos hn hstart heap hmode (hlen (by decide)) (hctr rfl) hbytes
      hlt

end

/-- The first 64 bytes lie in data unit 0, whatever its size. -/
theorem tweakAt_first_unit {c2 : BlockCipher 16} {dataUnit : UInt64} {o : Nat}
    (hunit : 64 ≤ dataUnit) (ho : o < 64) : tweakAt c2 dataUnit o = xtsTweak c2 0 (o / 16) := by
  have hsmall : (UInt64.ofNat o).toNat = o := UInt64.toNat_ofNat_of_lt' (ho.trans (by decide))
  have hlt : (UInt64.ofNat o).toNat < dataUnit.toNat := by
    rw [hsmall]
    exact ho.trans_le (UInt64.le_iff_toNat_le.mp hunit)
  have hdiv : UInt64.ofNat o / dataUnit = 0 := by
    apply UInt64.toNat_inj.mp
    rw [UInt64.toNat_div]
    exact Nat.div_eq_of_lt hlt
  rw [tweakAt, hdiv, UInt64.toNat_div, UInt64.toNat_mod, Nat.mod_eq_of_lt hlt, hsmall]
  rfl

theorem rangeByte_xts_front {c1 c2 : BlockCipher 16} {dataUnit : UInt64} (hc : c1.Lawful)
    (hstart : StartsWith file ct size) (heap : Memory) (hparams : 64 ≤ v.modeParams)
    (hunit : 64 ≤ dataUnit) (hwhole : 16 ∣ min 64 size)
    (hblocks : ∀ o, 16 ∣ o → o + 16 ≤ size →
      xtsEncrypt c1 (tweakAt c2 dataUnit o) (bytesAt 16 pt o) = bytesAt 16 ct o)
    (hi : i < min 64 size) :
    RestoresByte v .continuous (.xts ⟨16, c1⟩ ⟨16, c2⟩) file heap pt i := by
  have hin := block_front (by decide) hwhole hi
  have hfront : i / 16 * 16 < 64 :=
    (Nat.div_mul_le_self i 16).trans_lt (hi.trans_le (min_le_left _ _))
  have hblock := hblocks _ (dvd_mul_left 16 (i / 16)) hin
  rw [tweakAt_first_unit hunit hfront, ← tweakAt_first_unit hparams hfront] at hblock
  have hdec := (xts_decrypt_eq_iff hc).mpr hblock
  simp only [RestoresByte, rangeByte, blockStart_front]
  rw [if_pos (hin.trans hstart.size_le), xtsPlain_eq, hstart.blockAt heap hin, hdec, sub_front,
    getD_bytesAt_front (by decide)]

end

/-! ### Recovery -/

structure RestoresFront (out : Nat → UInt8) (sample : Sample) : Prop where
  bytes : ∀ i < min 64 sample.size, out i = sample.plaintext.getD i 0
  tag : sarSampleTag (readData out 0 (min 64 sample.size)) =
    sarSampleTag (readData (fun i => sample.plaintext.getD i 0) 0 (min 64 sample.size))

theorem RestoresFront.of_bytes {out : Nat → UInt8}
    (h : ∀ i < min 64 sample.size, out i = sample.plaintext.getD i 0) :
    RestoresFront out sample := by
  refine ⟨h, congrArg sarSampleTag (map_congr_left ?_)⟩
  intro i hi
  rw [zero_add]
  exact h i (mem_range.mp hi)

section

variable {ciphers : Ciphers} (hcheck : precheck v = .ok)
  (hciphers : buildCiphers suite v = some ciphers) (hfile : file.length < 2 ^ 64) (hne : file ≠ [])
  (stack : XtsBuffers) (heap : Memory) (out : Nat → UInt8)

include hcheck hciphers hfile hne

theorem sarRecoverBuffer_whole :
    sarRecoverBuffer suite stack v none (fileMemory file heap) out (UInt64.ofNat file.length) =
      (.ok, recoverOneRange stack v .continuous ciphers (fileMemory file heap)
        (fun i => if i < file.length then fileMemory file heap i else out i) 0 0 file.length
        0) := by
  have hlen : (UInt64.ofNat file.length).toNat = file.length := UInt64.toNat_ofNat_of_lt' hfile
  have hpos : UInt64.ofNat file.length ≠ 0 := by
    intro h0
    rw [h0] at hlen
    exact hne (length_eq_zero_iff.mp hlen.symm)
  have hsingle := sarRecoverBuffer_single stack none hcheck hciphers
    (sarGeometryExpand_full hpos) (by simp) (fileMemory file heap) out
  rw [hsingle]
  simp only [hlen]
  rfl

/-- Its bytes are those of `rangeByte`, but for RC4. -/
theorem sarRecoverBuffer_whole_byte (hrc4 : ¬ v.IsRc4) (hxts : ¬ v.ShortXts) (hi : i < file.length)
    {b : UInt8}
    (hbyte : rangeByte v .continuous ciphers (fileMemory file heap) 0 0 file.length i = some b) :
    (sarRecoverBuffer suite stack v none (fileMemory file heap) out
      (UInt64.ofNat file.length)).2 i = b := by
  have hreg := buildCiphers_regular hciphers hxts
  have hone := recoverOneRange_apply stack hrc4 .continuous hreg (fileMemory file heap)
    (fun i => if i < file.length then fileMemory file heap i else out i) (le_refl 0)
    (zero_le 0) (zero_le i) (show i < 0 + file.length by omega)
  rw [view_zero, zero_add, hbyte] at hone
  rw [sarRecoverBuffer_whole hcheck hciphers hfile hne]
  exact hone

end

section

variable {c : BlockCipher n} {mode : UInt32}

theorem ModeEncrypts.mode_ne (h : ModeEncrypts c tag pt ct len mode) :
    mode ≠ SAR_MODE_XTS ∧ mode ≠ SAR_MODE_STREAM := by
  cases h <;> decide

theorem engineTryBlockModes_mode_ne
    (h : engineTryBlockModes c pt ct len fileOffset = some (mode, iv)) :
    mode ≠ SAR_MODE_XTS ∧ mode ≠ SAR_MODE_STREAM := by
  rcases engineTryBlockModes_search h with h | ⟨-, ⟨h, -⟩ | ⟨h, -⟩ | ⟨h, -⟩ | ⟨h, -⟩⟩ <;>
    · rw [h]
      decide

end

theorem buildCiphers_of_makeBlock (hmode : v.mode ≠ SAR_MODE_XTS) {c : AnyCipher}
    (hcipher : makeBlock suite v.algorithm v.key.toList v.keyLength.toNat = some c) :
    buildCiphers suite v = some (.block c) := by
  rw [buildCiphers, if_neg hmode, if_pos (isBlockAlg_of_makeBlock hcipher), hcipher, map_some]

theorem buildCiphers_of_makeXts (hmode : v.mode = SAR_MODE_XTS) {bcs : AnyCipher × AnyCipher}
    (hcipher : makeXts suite v.algorithm v.key.toList v.keyLength.toNat = some bcs) :
    buildCiphers suite v = some (.xts bcs.1 bcs.2) := by
  rw [buildCiphers, if_pos hmode, hcipher, map_some]

theorem buildCiphers_of_stream (hmode : v.mode = SAR_MODE_STREAM)
    (halg : isBlockAlg v.algorithm = false) : buildCiphers suite v = some .stream := by
  rw [buildCiphers, if_neg (by rw [hmode]; decide), if_neg (by rw [halg]; decide)]

theorem isBlockAlg_of_stream (h : isChachaAlg v.algorithm = true ∨ isSalsaAlg v.algorithm = true) :
    isBlockAlg v.algorithm = false ∧ v.algorithm ≠ SAR_ALG_RC4 := by
  simp only [isChachaAlg, isSalsaAlg, Bool.or_eq_true, beq_iff_eq] at h
  rcases h with (h | h) | h | h <;>
    · rw [h]
      decide

theorem rangeByte_stream_front (hoffset : sample.fileOffset = 0)
    (hstart : StartsWith file sample.ciphertext sample.size) (heap : Memory)
    (hmode : v.mode = SAR_MODE_STREAM)
    (hbytes : ∀ m < compareLength sample, sample.plaintext.getD m 0 ^^^
      streamByte v (sample.fileOffset + UInt64.ofNat m) = sample.ciphertext.getD m 0)
    (hi : i < min 64 sample.size) :
    RestoresByte v .continuous .stream file heap sample.plaintext i := by
  have h64 : i < 64 := hi.trans_le (min_le_left _ _)
  have hlt : i < sample.size := hi.trans_le (min_le_right _ _)
  have hcompare : compareLength sample = min 64 sample.size := by
    rw [compareLength, hoffset]
    rfl
  have hks : streamByte v (0 + UInt64.ofNat i) = recStreamByte v i := by
    have h : streamByte v (0 + UInt64.ofNat i) =
        (streamBlock v (0 / 64)).toList.getD ((0 % 64 : UInt64).toNat + i) 0 :=
      streamByte_add (by simpa using h64)
    rw [h, recStreamByte, div_eq_of_lt h64, mod_eq_of_lt h64]
    simp
  have hbyte := hbytes i (by rwa [hcompare])
  rw [hoffset, hks] at hbyte
  simp only [RestoresByte, rangeByte, if_pos hmode, policyPosition]
  rw [hstart.xor_byte heap hlt hbyte.symm]

theorem recRc4_apply (heap : Memory) (out : Nat → UInt8) (hi : i < file.length) :
    recRc4 v .continuous (fileMemory file heap) out 0 file.length i =
      file.getD i 0 ^^^ (rc4Ksa v.key.toList v.keyLength.toNat).keystream i := by
  simp only [recRc4, writeData, Nat.zero_le, if_true, Nat.sub_zero, getD_eq_getElem?_getD,
    getElem?_map, getElem?_range hi, map_some, getD_some, Nat.zero_add]
  rw [fileMemory_natCast hi, getD_eq_getElem?_getD]

theorem recRc4_front (hstart : StartsWith file sample.ciphertext sample.size) (heap : Memory)
    (out : Nat → UInt8)
    (hbytes : ∀ m < sample.size, sample.plaintext.getD m 0 ^^^
      (rc4Ksa v.key.toList v.keyLength.toNat).keystream m = sample.ciphertext.getD m 0)
    (hi : i < sample.size) :
    recRc4 v .continuous (fileMemory file heap) out 0 file.length i =
      sample.plaintext.getD i 0 := by
  rw [recRc4_apply heap out (hi.trans_le hstart.size_le), hstart.bytes i hi, ← hbytes i hi,
    UInt8.xor_assoc, UInt8.xor_self, UInt8.xor_zero]

theorem Found.ciphers (h : Found suite sample v) :
    ∃ ciphers, buildCiphers suite v = some ciphers := by
  cases h with
  | block c hcipher hmode =>
    exact ⟨_, buildCiphers_of_makeBlock (engineTryBlockModes_mode_ne hmode).1 hcipher⟩
  | xts c1 c2 hmode hcipher hunit => exact ⟨_, buildCiphers_of_makeXts hmode hcipher⟩
  | stream hmode halg hiv hlen hbytes =>
    exact ⟨_, buildCiphers_of_stream hmode (isBlockAlg_of_stream halg).1⟩
  | rc4 hmode halg hkey hbytes =>
    exact ⟨_, buildCiphers_of_stream hmode (by rw [halg]; decide)⟩

theorem Found.restores (hsuite : suite.Lawful) (h : Found suite sample v)
    (henc : SampleEncrypted suite sample v) (hoffset : sample.fileOffset = 0) (stack : XtsBuffers)
    (heap : Memory) (out : Nat → UInt8) (hfile : file.length < 2 ^ 64) (hne : file ≠ [])
    (hstart : StartsWith file sample.ciphertext sample.size) :
    RestoresFront (sarRecoverBuffer suite stack v none (fileMemory file heap) out
      (UInt64.ofNat file.length)).2 sample := by
  apply RestoresFront.of_bytes
  intro i hi
  have hlt : i < sample.size := hi.trans_le (min_le_right _ _)
  have hin : i < file.length := hlt.trans_le hstart.size_le
  have hcheck := h.precheck_ok
  cases h with
  | block c hcipher hmode =>
    obtain ⟨hpos, hn⟩ := makeBlock_iv_size hcipher
    obtain ⟨hxts, hstream⟩ := engineTryBlockModes_mode_ne hmode
    have hciphers := buildCiphers_of_makeBlock hxts hcipher
    apply sarRecoverBuffer_whole_byte hcheck hciphers hfile hne stack heap out
      (fun h => hstream h.1) (fun h => hxts h.1) hin
    cases henc with
    | block c' hcipher' hbytes =>
      obtain rfl : c = c' := Option.some.inj (hcipher.symm.trans hcipher')
      rw [hoffset] at hmode
      exact rangeByte_front (makeBlock_lawful hsuite hcipher) hpos hn hstart heap hmode
        hbytes hi
    | xts _ _ _ hmode' => exact absurd hmode' hxts
    | stream hmode' => exact absurd hmode' hstream
  | xts c1 c2 hmode hcipher hunit =>
    have hciphers := buildCiphers_of_makeXts hmode hcipher
    have hrc4 : ¬ v.IsRc4 := fun h => absurd (hmode.symm.trans h.1) (by decide)
    have hshort : ¬ v.ShortXts := by
      rintro ⟨-, hdes⟩
      rcases makeXts_size hcipher with ⟨-, h, -⟩ | ⟨h, -⟩
      · cases h
      · exact h hdes
    apply sarRecoverBuffer_whole_byte hcheck hciphers hfile hne stack heap out hrc4 hshort hin
    cases henc with
    | block c' _ hbytes => exact absurd hmode hbytes.mode_ne.1
    | xts c1' c2' dataUnit _ hcipher' hsize hwhole hblocks =>
      cases hcipher.symm.trans hcipher'
      have hparams : 64 ≤ v.modeParams := by
        obtain ⟨hdu | hdu, -⟩ := engineVerifyXts_forward _ hunit <;> rw [hdu] <;> decide
      exact rangeByte_xts_front (makeXts_lawful hsuite hcipher) hstart heap hparams hsize hwhole
        hblocks hi
    | stream hmode' => exact absurd (hmode.symm.trans hmode') (by decide)
  | stream hmode halg hiv hlen hbytes =>
    obtain ⟨hblock, hrc4⟩ := isBlockAlg_of_stream halg
    exact sarRecoverBuffer_whole_byte hcheck (buildCiphers_of_stream hmode hblock) hfile hne stack
      heap out (fun h => hrc4 h.2) (fun h => absurd (hmode.symm.trans h.1) (by decide)) hin
      (rangeByte_stream_front hoffset hstart heap hmode hbytes hi)
  | rc4 hmode halg hkey hbytes =>
    have hciphers : buildCiphers suite v = some .stream :=
      buildCiphers_of_stream hmode (by rw [halg]; decide)
    rw [sarRecoverBuffer_whole hcheck hciphers hfile hne]
    simp only [recoverOneRange, if_pos hmode, if_pos halg]
    apply recRc4_front hstart heap _ _ hlt
    intro m hm
    have hbyte := hbytes m hm
    rwa [hoffset, show (0 : UInt64).toNat = 0 from rfl, zero_add] at hbyte

theorem sarConvict_size {input : EngineInput} (h : sarConvict suite input = some v) :
    16 ≤ input.sample.size := by
  rw [sarConvict] at h
  split at h
  · split at h
    · cases h
    next hsize =>
      exact not_lt.mp fun hlt => hsize (UInt32.lt_iff_toNat_lt.mpr hlt)
  · cases h

/-- **Convictions at the front of a file are recoverable.**  A verdict with a key, for a write at
    file offset 0, is accepted by `sar_recover_buffer` over every file that starts with the sample's
    ciphertext; where the whole sample is encrypted as the verdict says, the front of the file and
    the sample's tag come back. -/
theorem conviction_recovers {suite : CipherSuite} (hsuite : suite.Lawful) {input : EngineInput}
    {v : Verdict} (hoffset : input.fileOffset = 0) (hconvict : sarConvict suite input = some v)
    (hkey : v.keyLength ≠ 0) (stack : XtsBuffers) (heap : Memory) (out : Nat → UInt8)
    {file : List UInt8} (hfile : file.length < 2 ^ 64) (hsize : input.sample.size ≤ file.length)
    (hstart : ∀ i < input.sample.size, file.getD i 0 = input.sample.ciphertext.getD i 0) :
    let result := sarRecoverBuffer suite stack (sarRecoveryKeyFromVerdict v) none
      (fileMemory file heap) out (UInt64.ofNat file.length)
    result.1 = .ok ∧
      (SampleEncrypted suite input.sample v → RestoresFront result.2 input.sample) := by
  have hne : file ≠ [] := by
    rintro rfl
    exact absurd ((sarConvict_size hconvict).trans hsize) (by decide)
  rcases sarConvict_reported hconvict with ⟨hpacked, hfound⟩ | ⟨rfl, -⟩
  · rw [keyFromVerdict_packed hpacked]
    refine ⟨?_, ?_⟩
    · obtain ⟨ciphers, hciphers⟩ := hfound.ciphers
      rw [sarRecoverBuffer_whole hfound.precheck_ok hciphers hfile hne]
    · intro henc
      exact hfound.restores hsuite henc hoffset stack heap out hfile hne ⟨hsize, hstart⟩
  · exact absurd rfl hkey

theorem addedKey_encrypted : SampleEncrypted xorSuite addedKeyInput.sample addedKeyVerdict := by
  refine .block ⟨16, xorSuite.aes (addedKeyVerdict.key.toList.take 16)⟩ rfl (.ecb (by decide) ?_)
  intro o _ ho
  have ho : o + 16 ≤ 16 := ho
  obtain rfl : o = 0 := by omega
  decide +kernel

def addedKeyFile : List UInt8 := (range 19).map fun i => UInt8.ofNat (i + 1)

theorem conviction_recovers_added_key : sarConvict xorSuite addedKeyInput = some addedKeyVerdict ∧
      RestoresFront (sarRecoverBuffer xorSuite zeroBuffers
        (sarRecoveryKeyFromVerdict addedKeyVerdict) none (fileMemory addedKeyFile fun _ => 0)
        (fun _ => 0) 19).2 addedKeyInput.sample := by
  have h : sarConvict xorSuite addedKeyInput = some addedKeyVerdict := by decide +kernel
  have hstart : ∀ i < 16, addedKeyFile.getD i 0 = addedKeyInput.sample.ciphertext.getD i 0 := by
    decide +kernel
  exact ⟨h, (conviction_recovers xorSuite_lawful rfl h (by decide) zeroBuffers (fun _ => 0)
    (fun _ => 0) (by decide) (by decide) hstart).2 addedKey_encrypted⟩

/-! ### What is not recovered -/

def idleKey : List UInt8 := 0 :: (range 255).map fun i => 0 - UInt8.ofNat i

theorem rc4Swap_self (box : Vector UInt8 256) : rc4Swap box x x = box := by
  have hset : box.set x.toNat (rc4Get box x) x.toNat_lt = box := Vector.set_getElem_self x.toNat_lt
  rw [rc4Swap, hset, hset]

def rc4Start : Vector UInt8 256 := Vector.ofFn fun i => UInt8.ofNat i.val

theorem rc4Start_scan : bytesAt 256 generatorInput.scanBuffer 0 = rc4Start := by
  apply ext_get
  intro i
  rw [get_bytesAt, rc4Start, get_ofFn, zero_add, generatorInput, getD_eq_getElem?_getD,
    getElem?_append_left (by simp), getElem?_map, getElem?_range i.isLt]
  rfl

theorem idleKey_next (hk : k < 256) :
    UInt8.ofNat (k - 1) + UInt8.ofNat k + idleKey.getD (k % 256) 0 = UInt8.ofNat k := by
  rw [mod_eq_of_lt hk]
  cases k with
  | zero => rfl
  | succ k =>
    have hbyte : idleKey.getD (k + 1) 0 = 0 - UInt8.ofNat k := by
      rw [idleKey, getD_cons_succ, getD_eq_getElem?_getD, getElem?_map, getElem?_range (by omega)]
      rfl
    rw [hbyte, Nat.add_sub_cancel]
    grind

theorem rc4Get_start : rc4Get rc4Start x = x := by
  rw [rc4Get, rc4Start, get_ofFn]
  exact UInt8.ofNat_toNat

theorem idleKey_loop (hk : k ≤ 256) : (range k).foldl
    (fun (p : Vector UInt8 256 × UInt8) i =>
      let j := p.2 + rc4Get p.1 (UInt8.ofNat i) + idleKey.getD (i % 256) 0
      (rc4Swap p.1 (UInt8.ofNat i) j, j)) (rc4Start, 0) = (rc4Start, UInt8.ofNat (k - 1)) := by
  induction k with
  | zero => rfl
  | succ k ih =>
    rw [range_succ, foldl_append, ih (by omega), foldl_cons, foldl_nil]
    simp only [rc4Get_start]
    rw [idleKey_next hk, rc4Swap_self, Nat.add_sub_cancel]

theorem rc4Ksa_idleKey : rc4Ksa idleKey 256 = ⟨bytesAt 256 generatorInput.scanBuffer 0, 0, 0⟩ := by
  have hloop := idleKey_loop (le_refl 256)
  rw [rc4Start_scan, rc4Ksa, ← rc4Start]
  simp only
  rw [hloop]

theorem generatorInput_encrypted : ∀ i < 16, generatorInput.sample.plaintext.getD i 0 ^^^
    (rc4Ksa idleKey 256).keystream i = generatorInput.sample.ciphertext.getD i 0 := by
  have hcompare : rc4Compare generatorInput.sample.plaintext generatorInput.sample.ciphertext 16 0
      ⟨bytesAt 256 generatorInput.scanBuffer 0, 0, 0⟩ = true := by decide +kernel
  intro i hi
  have hbyte := rc4Compare_true hcompare i hi
  rwa [zero_add, ← rc4Ksa_idleKey] at hbyte

/-- A sample that RC4 has encrypted as a whole, convicted from the generator state in
    memory: the verdict has no key, and recovery declines it. -/
theorem state_conviction_declined : ∃ input key, input.fileOffset = 0 ∧
      (∀ i < input.sample.size, input.sample.plaintext.getD i 0 ^^^ (rc4Ksa key 256).keystream i =
        input.sample.ciphertext.getD i 0) ∧
      ∀ suite stack heap out, ∃ v, sarConvict suite input = some v ∧
        (sarRecoverBuffer suite stack (sarRecoveryKeyFromVerdict v) none
          (fileMemory input.sample.ciphertext heap) out 16).1 = .declinedStateOnly := by
  refine ⟨generatorInput, idleKey, rfl, generatorInput_encrypted, ?_⟩
  intro suite stack heap out
  refine ⟨rc4StateVerdict, sarConvict_generatorInput suite, ?_⟩
  have hcheck : precheck (sarRecoveryKeyFromVerdict rc4StateVerdict) = .declinedStateOnly := by
    decide
  have hexpand : sarGeometryExpand .full 16 SAR_MAX_RANGES = some [⟨0, 16⟩] :=
    sarGeometryExpand_full (by decide)
  simp only [sarRecoverBuffer, getD_none, hexpand, recoverRangesInto, hcheck]
  rfl

end SemanticsAr
