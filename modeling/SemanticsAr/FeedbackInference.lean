import SemanticsAr.ConvictRecover

/-!
# Feedback modes: inference and recovery

The tests of `modes.c` for CBC, CFB and OFB derive an IV from a sample by running the
cipher backwards; `rec_cbc`, `rec_cfb` and `rec_ofb` of `recover.c` rebuild the chain from
that IV or from the ciphertext in front of a block.  For a file that is encrypted as a whole
in one of the modes, a sample at any of its blocks lets the test succeed, and what the test
reports decrypts the file: OFB everywhere, CBC and CFB everywhere behind the first block,
which needs a sample at the front of the file.
-/

namespace SemanticsAr

open Nat

variable {pos s i n m o : Nat} {pt ct : List UInt8} {policy : CounterPolicy} {stack : XtsBuffers}

inductive FeedbackMode where
  | cbc
  | cfb
  | ofb
deriving DecidableEq

namespace FeedbackMode

def code : FeedbackMode → UInt32
  | .cbc => SAR_MODE_CBC
  | .cfb => SAR_MODE_CFB
  | .ofb => SAR_MODE_OFB

section

variable (c : BlockCipher n)

def test : FeedbackMode → (pt ct : List UInt8) → (len : Nat) → (fileOffset : UInt64) → Option IvOut
  | .cbc => genericCbc c
  | .cfb => genericCfb c
  | .ofb => genericOfb c

/-- A file is encrypted in the mode: its whole blocks in CBC, all of its bytes in the others. -/
def Encrypts (iv : Vector UInt8 n) (pt ct : List UInt8) : FeedbackMode → Prop
  | .cbc => ∀ o, n ∣ o → o + n ≤ ct.length →
      c.encrypt (xorBytes (bytesAt n pt o) (chainedTo iv ct o)) = bytesAt n ct o
  | .cfb => ∀ i < ct.length, ct.getD i 0 =
      pt.getD i 0 ^^^ (c.encrypt (chainedTo iv ct (i / n * n))).toList.getD (i % n) 0
  | .ofb => ∀ i < ct.length, ct.getD i 0 =
      pt.getD i 0 ^^^ (c.encrypt^[i / n + 1] iv).toList.getD (i % n) 0

end

/-- The bytes of a file of `size` bytes that a sample at block `m` brings back. -/
def Reaches (n m size i : Nat) : FeedbackMode → Prop
  | .cbc => i / n * n + n ≤ size ∧ (m = 0 ∨ n ≤ i)
  | .cfb => m = 0 ∨ n ≤ i
  | .ofb => True

/-- The IV that a sample at block `m` gives away. -/
def foundIv {n : Nat} (iv : Vector UInt8 n) (m : Nat) : FeedbackMode → IvOut
  | .ofb => ivOfBlock iv 0
  | _ => if m = 0 then ivOfBlock iv 0 else ivClear

end FeedbackMode

/-- A sample of `len` bytes taken from a file at a position. -/
structure TakenAt (pt ct : List UInt8) (pos len : Nat) (spt sct : List UInt8) : Prop where
  plaintext : ∀ i < len, spt.getD i 0 = pt.getD (pos + i) 0
  ciphertext : ∀ i < len, sct.getD i 0 = ct.getD (pos + i) 0

/-! ### The test on a sample of the file -/

section

variable {c : BlockCipher n} {iv : Vector UInt8 n} {spt sct : List UInt8} {len : Nat}

theorem bytesAt_sample {file sample : List UInt8}
    (h : ∀ i < len, sample.getD i 0 = file.getD (pos + i) 0) (hs : s + n ≤ len) :
    bytesAt n sample s = bytesAt n file (pos + s) := by
  apply ext_get
  intro i
  rw [get_bytesAt, get_bytesAt, h _ (by omega), add_assoc]

theorem TakenAt.padAt (h : TakenAt pt ct pos len spt sct) (hs : s + n ≤ len) :
    padAt n spt sct s = SemanticsAr.padAt n pt ct (pos + s) := by
  rw [SemanticsAr.padAt, SemanticsAr.padAt, bytesAt_sample h.plaintext hs,
    bytesAt_sample h.ciphertext hs]

theorem chainedTo_next (hn : 0 < n) : chainedTo iv ct (o + n) = bytesAt n ct o := by
  rw [chainedTo, if_neg (by omega), Nat.add_sub_cancel]

theorem ofNat_offset_eq_zero_iff (hn : 0 < n) (h : m * n < 2 ^ 64) :
    UInt64.ofNat (m * n) = 0 ↔ m = 0 := by
  rw [← UInt64.toNat_inj, UInt64.toNat_ofNat_of_lt' h, UInt64.toNat_zero, mul_eq_zero]
  exact or_iff_left hn.ne'

variable (hc : c.Lawful) (hn : 0 < n) (hsize : ct.length < 2 ^ 64)
  (htaken : TakenAt pt ct (m * n) len spt sct) (hlen : 2 * n ≤ len)
  (hin : m * n + len ≤ ct.length)

include hc hn hsize htaken hlen hin

theorem genericCbc_taken (hfile : FeedbackMode.cbc.Encrypts c iv pt ct) :
    genericCbc c spt sct len (UInt64.ofNat (m * n)) = some (FeedbackMode.cbc.foundIv iv m) := by
  have hdec {o : Nat} (hdvd : n ∣ o) (ho : o + n ≤ ct.length) :
      c.decrypt (bytesAt n ct o) = xorBytes (bytesAt n pt o) (chainedTo iv ct o) :=
    hc.decrypt_eq_iff.mpr (hfile o hdvd ho)
  have hnext := hdec (Nat.dvd_add (Nat.dvd_mul_left n m) (Nat.dvd_refl n)) (by omega)
  apply findSome_range_zero hn
  have hmatch : xorBytes (c.decrypt (bytesAt n sct (0 + n))) (bytesAt n sct 0) =
      bytesAt n spt (0 + n) := by
    rw [bytesAt_sample htaken.ciphertext (by omega), bytesAt_sample htaken.ciphertext (by omega),
      bytesAt_sample htaken.plaintext (by omega), zero_add, hnext, chainedTo_next hn,
      add_zero, xorBytes_cancel]
  rw [if_pos ⟨by omega, hmatch⟩, ite_congr (propext (ofNat_offset_eq_zero_iff hn (by omega)))
    (fun _ => rfl) (fun _ => rfl)]
  apply congrArg some
  apply ite_congr rfl
  · -- at the front of the file the first block of the sample is chained to the IV
    rintro rfl
    rw [bytesAt_sample htaken.ciphertext (by omega), bytesAt_sample htaken.plaintext (by omega),
      zero_mul, zero_add, hdec (dvd_zero n) (by omega), xorBytes_comm (bytesAt n pt 0),
      xorBytes_cancel]
    rfl
  · exact fun _ => rfl

theorem genericCfb_taken (hfile : FeedbackMode.cfb.Encrypts c iv pt ct) :
    genericCfb c spt sct len (UInt64.ofNat (m * n)) = some (FeedbackMode.cfb.foundIv iv m) := by
  have hpad {k : Nat} (hk : k * n + n ≤ ct.length) :
      padAt n pt ct (k * n) = c.encrypt (chainedTo iv ct (k * n)) :=
    padAt_of_keystream hn (fun k => c.encrypt (chainedTo iv ct (k * n))) hfile hk
  have hnext : padAt n pt ct (m * n + n) = c.encrypt (bytesAt n ct (m * n)) := by
    have h := hpad (k := m + 1) (by rw [succ_mul]; omega)
    rwa [succ_mul, chainedTo_next hn] at h
  apply findSome_range_zero hn
  have hmatch : xorBytes (c.encrypt (bytesAt n sct 0)) (bytesAt n sct (0 + n)) =
      bytesAt n spt (0 + n) := by
    rw [bytesAt_sample htaken.ciphertext (by omega), bytesAt_sample htaken.ciphertext (by omega),
      bytesAt_sample htaken.plaintext (by omega), zero_add, add_zero, ← hnext,
      SemanticsAr.padAt, xorBytes_cancel]
  rw [if_pos ⟨by omega, hmatch⟩, ite_congr (propext (ofNat_offset_eq_zero_iff hn (by omega)))
    (fun _ => rfl) (fun _ => rfl)]
  apply congrArg some
  apply ite_congr rfl
  · rintro rfl
    rw [htaken.padAt (by omega), add_zero, hpad (by omega), chainedTo,
      if_pos (zero_mul n), hc]
  · exact fun _ => rfl

theorem genericOfb_taken (hfile : FeedbackMode.ofb.Encrypts c iv pt ct) :
    genericOfb c spt sct len (UInt64.ofNat (m * n)) = some (FeedbackMode.ofb.foundIv iv m) := by
  have hfirst : padAt n spt sct 0 = c.encrypt^[m + 1] iv := by
    rw [htaken.padAt (by omega)]
    exact padAt_of_keystream hn (fun k => c.encrypt^[k + 1] iv) hfile (by omega)
  have hsecond : padAt n spt sct (0 + n) = c.encrypt^[m + 2] iv := by
    rw [htaken.padAt (by omega), zero_add, ← succ_mul]
    exact padAt_of_keystream hn (fun k => c.encrypt^[k + 1] iv) hfile (by rw [succ_mul]; omega)
  have hm : m < 2 ^ 64 := by
    have hle : m * 1 ≤ m * n := mul_le_mul_left m hn
    omega
  apply findSome_range_zero hn
  rw [if_pos ⟨by omega, by rw [hfirst, hsecond, Function.iterate_succ_apply' _ (m + 1)]⟩,
    blockNumber_aligned hn (by omega)]
  show some (ivOfBlock (c.decrypt (c.decrypt^[(UInt64.ofNat m).toNat] (padAt n spt sct 0))) 0) = _
  rw [UInt64.toNat_ofNat_of_lt' hm, hfirst, ← Function.iterate_succ_apply' c.decrypt]
  have hback : c.decrypt^[m + 1] (c.encrypt^[m + 1] iv) = iv :=
    Function.LeftInverse.iterate hc (m + 1) iv
  rw [hback]
  rfl

/-- **The test of the file's mode succeeds on the sample**, with the file's own IV where it
    reports one. -/
theorem FeedbackMode.test_taken {mode : FeedbackMode} (hfile : mode.Encrypts c iv pt ct) :
    mode.test c spt sct len (UInt64.ofNat (m * n)) = some (mode.foundIv iv m) := by
  cases mode with
  | cbc => exact genericCbc_taken hc hn hsize htaken hlen hin hfile
  | cfb => exact genericCfb_taken hc hn hsize htaken hlen hin hfile
  | ofb => exact genericOfb_taken hc hn hsize htaken hlen hin hfile

end

/-! ### Recovery from what the test reports -/

theorem keyFromVerdict_ivOut {v : Verdict} (h : v.ivOut.Packed) :
    (sarRecoveryKeyFromVerdict v).ivOut = v.ivOut := by
  obtain ⟨hlen, hiv⟩ := h
  have hlen : ¬ v.ivLength.toNat > SEMANTICS_AR_IV_MAX := not_lt.mpr hlen
  have hiv : bytesAt _ (v.iv.toList.take v.ivLength.toNat) 0 = v.iv := hiv
  simp only [RecoveryKey.ivOut, sarRecoveryKeyFromVerdict, if_neg hlen, hiv]

section

variable {c : BlockCipher n} {iv : Vector UInt8 n} {mode : FeedbackMode} {rk : RecoveryKey}

theorem FeedbackMode.foundIv_packed (hn : n ≤ SEMANTICS_AR_IV_MAX) :
    (mode.foundIv iv m).Packed := by
  have hfront : (if m = 0 then ivOfBlock iv 0 else ivClear).Packed := by
    split
    · exact ivOfBlock_packed hn iv 0
    · exact ivClear_packed
  cases mode with
  | cbc => exact hfront
  | cfb => exact hfront
  | ofb => exact ivOfBlock_packed hn iv 0

theorem chainBlock_found (hpos : 0 < n) (hn : n ≤ SEMANTICS_AR_IV_MAX)
    (hiv : rk.ivOut = if m = 0 then ivOfBlock iv 0 else ivClear) (heap : Memory)
    (hi : i < ct.length) (hreach : m = 0 ∨ n ≤ i) :
    chainBlock n rk policy (fileMemory ct heap) 0 (i / n * n) =
      some (chainedTo iv ct (i / n * n)) := by
  have hdvd : n ∣ i / n * n := dvd_mul_left n (i / n)
  have hle : i / n * n ≤ ct.length := (div_mul_le_self i n).trans hi.le
  rcases hreach with rfl | hreach
  · exact chainBlock_front .refl heap policy hn hiv hdvd hle
  · have hne : i / n * n ≠ 0 := mul_ne_zero (div_pos hreach hpos).ne' hpos.ne'
    exact chainBlock_inner .refl heap iv hdvd hne hle

section

variable (hc : c.Lawful) (hpos : 0 < n) (hn : n ≤ SEMANTICS_AR_IV_MAX)
  (hfile : mode.Encrypts c iv pt ct) (hmode : rk.mode = mode.code)
  (hiv : rk.ivOut = mode.foundIv iv m) (heap : Memory)

include hc hpos hn hfile hmode hiv heap

theorem FeedbackMode.rangeByte_found (hi : i < ct.length) (hreach : mode.Reaches n m ct.length i) :
    rangeByte rk policy (.block ⟨n, c⟩) (fileMemory ct heap) 0 0 ct.length i =
      some (pt.getD i 0) := by
  cases mode with
  | cbc =>
    obtain ⟨hwhole, hreach⟩ := hreach
    exact rangeByte_cbc_chained hc hpos .refl heap hmode hwhole
      (chainBlock_found hpos hn hiv heap hi hreach)
      (hfile _ (dvd_mul_left _ _) hwhole)
  | cfb =>
    exact rangeByte_cfb_chained .refl heap hmode hi
      (chainBlock_found hpos hn hiv heap hi hreach) (hfile i hi)
  | ofb =>
    have hblock : rk.ivBlock n = iv := by
      have h := bytesAt_ivOfBlock hn iv 0
      rwa [← show rk.ivOut = ivOfBlock iv 0 from hiv] at h
    exact rangeByte_ofb_keyed hpos .refl heap hmode policy hblock hi (hfile i hi)

theorem FeedbackMode.recoverOneRange_found (out : Nat → UInt8) (hi : i < ct.length)
    (hreach : mode.Reaches n m ct.length i) :
    recoverOneRange stack rk policy (.block ⟨n, c⟩) (fileMemory ct heap) out 0 0 ct.length 0 i =
      pt.getD i 0 := by
  have hone := recoverOneRange_block_apply stack rk policy hpos c (fileMemory ct heap) out
    (le_refl 0) (le_refl 0) (zero_le i) (show i < 0 + ct.length by omega)
  rw [view_zero, zero_add,
    FeedbackMode.rangeByte_found hc hpos hn hfile hmode hiv heap hi hreach] at hone
  exact hone

end

end

/-- **Feedback-mode inference and recovery agree.**  For a file in CBC, CFB or OFB, the test of the
    mode succeeds on a sample of at least two blocks at any block, and recovery under the IV that it
    reports, or leaves empty, gives the plaintext back: for OFB at every byte, for CBC in every
    whole block and for CFB at every byte, but for the first block where the sample starts
    elsewhere. -/
theorem feedback_inference {n : Nat} {c : BlockCipher n} (hc : c.Lawful) (hpos : 0 < n)
    (hn : n ≤ SEMANTICS_AR_IV_MAX) {mode : FeedbackMode} {iv : Vector UInt8 n}
    {pt ct : List UInt8} (hfile : mode.Encrypts c iv pt ct) (hsize : ct.length < 2 ^ 64)
    {m len : Nat} {spt sct : List UInt8} (htaken : TakenAt pt ct (m * n) len spt sct)
    (hlen : 2 * n ≤ len) (hin : m * n + len ≤ ct.length) {v : Verdict}
    (hmode : v.mode = mode.code) (stack : XtsBuffers) (heap : Memory) (policy : CounterPolicy)
    (out : Nat → UInt8) :
    ∃ found, mode.test c spt sct len (UInt64.ofNat (m * n)) = some found ∧
      ∀ i < ct.length, mode.Reaches n m ct.length i →
        recoverOneRange stack (sarRecoveryKeyFromVerdict (applyIv v found)) policy (.block ⟨n, c⟩)
          (fileMemory ct heap) out 0 0 ct.length 0 i = pt.getD i 0 := by
  refine ⟨_, FeedbackMode.test_taken hc hpos hsize htaken hlen hin hfile, ?_⟩
  intro i hi hreach
  have hpacked : (applyIv v (mode.foundIv iv m)).ivOut.Packed := FeedbackMode.foundIv_packed hn
  have hiv : (sarRecoveryKeyFromVerdict (applyIv v (mode.foundIv iv m))).ivOut =
      mode.foundIv iv m := keyFromVerdict_ivOut hpacked
  have hkey : (sarRecoveryKeyFromVerdict (applyIv v (mode.foundIv iv m))).mode = mode.code := by
    simp only [sarRecoveryKeyFromVerdict, applyIv, hmode]
  exact FeedbackMode.recoverOneRange_found hc hpos hn hfile hkey hiv heap out hi hreach

theorem chainedOnes_encrypts : FeedbackMode.cbc.Encrypts (xorCipher 16 []) (Vector.replicate 16 1)
    (List.replicate 50 0) (List.replicate 50 1) := by
  intro o hdvd ho
  have ho : o + 16 ≤ 50 := ho
  obtain ⟨k, rfl⟩ := hdvd
  have hk : k = 0 ∨ k = 1 ∨ k = 2 := by omega
  rcases hk with rfl | rfl | rfl <;> decide +kernel

theorem feedback_inference_second_block :
    ∃ found, genericCbc (xorCipher 16 []) (List.replicate 32 0) (List.replicate 32 1) 32 16 =
        some found ∧
      ∀ i < 50, 16 ≤ i → i < 48 → recoverOneRange zeroBuffers (sarRecoveryKeyFromVerdict
        (applyIv (fill [] 0 SAR_ALG_AES_128 SAR_MODE_CBC 0) found)) .continuous
        (.block ⟨16, xorCipher 16 []⟩) (fileMemory (List.replicate 50 1) fun _ => 0)
        (fun _ => 7) 0 0 50 0 i = (List.replicate 50 (0 : UInt8)).getD i 0 := by
  have htaken : TakenAt (List.replicate 50 0) (List.replicate 50 1) (1 * 16) 32
      (List.replicate 32 0) (List.replicate 32 1) := ⟨by decide +kernel, by decide +kernel⟩
  obtain ⟨found, htest, hbytes⟩ := feedback_inference (xorCipher_lawful 16 [])
    (by decide) (by decide) chainedOnes_encrypts (by decide) htaken (by decide) (by decide)
    (v := fill [] 0 SAR_ALG_AES_128 SAR_MODE_CBC 0) rfl zeroBuffers (fun _ => 0) .continuous
    (fun _ => 7)
  refine ⟨found, htest, ?_⟩
  intro i hi hlow hhigh
  exact hbytes i hi ⟨by show i / 16 * 16 + 16 ≤ 50; omega, .inr hlow⟩

end SemanticsAr
