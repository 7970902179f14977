import SemanticsAr.ConvictRecover

/-!
# Stream ciphers: from the verdict to the file

A file encrypted with ChaCha20, Salsa20, one of their variants with an extended nonce, or
RC4 is its plaintext under a keystream that the position alone determines.  The verdict
packs the rounds and the origin of the block counter into one parameter; `stream_block` of
`recover.c` reads them back and counts from the position.  Whatever the sample was, a verdict
that names what the file was encrypted with decrypts the whole file.
-/

namespace SemanticsAr

open List hiding Vector

/-! ### What a file is encrypted with -/

inductive StreamCipher where
  | chacha20
  | xchacha20
  | salsa20
  | xsalsa20
deriving DecidableEq

namespace StreamCipher

def alg : StreamCipher → UInt32
  | .chacha20 => SAR_ALG_CHACHA20
  | .xchacha20 => SAR_ALG_XCHACHA20
  | .salsa20 => SAR_ALG_SALSA20
  | .xsalsa20 => SAR_ALG_XSALSA20

def nonceLength : StreamCipher → Nat
  | .chacha20 => 12
  | .salsa20 => 8
  | .xchacha20 | .xsalsa20 => 24

def counterBits : StreamCipher → Nat
  | .chacha20 | .xchacha20 => 32
  | .salsa20 | .xsalsa20 => 64

/-- The keystream block of a counter.  The extended nonces go into a key of their own, but
    for their last eight bytes. -/
def block (key nonce : List UInt8) (counter rounds : Nat) : StreamCipher → Vector UInt8 64
  | .chacha20 => chachaBlock key nonce (UInt32.ofNat counter) rounds
  | .xchacha20 => chachaBlock (hchacha20 key nonce) (replicate 4 0 ++ (nonce.drop 16).take 8)
      (UInt32.ofNat counter) rounds
  | .salsa20 => salsaBlock key nonce (UInt64.ofNat counter) rounds
  | .xsalsa20 => salsaBlock (hsalsa20 key nonce) ((nonce.drop 16).take 8) (UInt64.ofNat counter)
      rounds

end StreamCipher

/-- A key, a nonce, a number of rounds and an origin of the counter that the engine tries. -/
structure StreamParams (cipher : StreamCipher) where
  key : List UInt8
  nonce : List UInt8
  rounds : Nat
  origin : Nat
  key_length : key.length = 32
  nonce_length : nonce.length = cipher.nonceLength
  rounds_mem : rounds ∈ STREAM_ROUNDS
  origin_le : origin ≤ 1

def StreamParams.counter {cipher : StreamCipher} (p : StreamParams cipher) (pos : Nat) : Nat :=
  p.origin + pos / 64

def StreamParams.keystream {cipher : StreamCipher} (p : StreamParams cipher) (pos : Nat) : UInt8 :=
  (cipher.block p.key p.nonce (p.counter pos) p.rounds).toList.getD (pos % 64) 0

inductive StreamSpec where
  | counter (cipher : StreamCipher) (p : StreamParams cipher)
  | rc4 (key : List UInt8) (hkey : key ≠ [])

namespace StreamSpec

def keystream : StreamSpec → Nat → UInt8
  | .counter _ p, pos => p.keystream pos
  | .rc4 key _, pos => (rc4Ksa key key.length).keystream pos

def Fits : StreamSpec → Nat → Prop
  | .counter cipher p, pos => p.counter pos < 2 ^ cipher.counterBits
  | .rc4 _ _, _ => True

/-- Wherever the counter has not wrapped, the file is the plaintext under the keystream. -/
def Encrypts (spec : StreamSpec) (pt file : List UInt8) : Prop :=
  ∀ i < file.length, spec.Fits i → file.getD i 0 = pt.getD i 0 ^^^ spec.keystream i

def NamedBy (v : Verdict) : StreamSpec → Prop
  | .counter cipher p => v.algorithm = cipher.alg ∧
      v.key.toList.take v.keyLength.toNat = p.key ∧ v.iv.toList.take v.ivLength.toNat = p.nonce ∧
      v.modeParams = (UInt64.ofNat p.rounds <<< 8) ||| UInt64.ofNat p.origin
  | .rc4 key _ => v.algorithm = SAR_ALG_RC4 ∧ v.keyLength.toNat = key.length ∧
      v.key.toList.take v.keyLength.toNat = key

end StreamSpec

/-! ### The keystream of a verdict -/

theorem streamBlock_congr {v w : Verdict} (halg : v.algorithm = w.algorithm) (hkey : v.key = w.key)
    (hiv : v.iv = w.iv) (hparams : v.modeParams = w.modeParams) (blk : UInt64) :
    streamBlock v blk = streamBlock w blk := by
  simp only [streamBlock, halg, hkey, hiv, hparams]

section

variable {cipher : StreamCipher} {p : StreamParams cipher} {v : Verdict}

theorem origin_mem {origin : Nat} (h : origin ≤ 1) :
    UInt64.ofNat origin ∈ ([0, 1] : List UInt64) := by
  have hcases : origin = 0 ∨ origin = 1 := by omega
  rcases hcases with rfl | rfl <;> decide

theorem counter_add (a b : Nat) : UInt64.ofNat a + UInt64.ofNat b = UInt64.ofNat (b + a) := by
  rw [Nat.add_comm, UInt64.ofNat_add]

theorem streamBlock_named (hpacked : v.Packed) (h : (StreamSpec.counter cipher p).NamedBy v)
    (k : Nat) :
    streamBlock v (UInt64.ofNat k) = cipher.block p.key p.nonce (p.origin + k) p.rounds := by
  obtain ⟨halg, hkey, hnonce, hparams⟩ := h
  have hiv : bytesAt _ (v.iv.toList.take v.ivLength.toNat) 0 = v.iv := hpacked.iv.bytes_eq
  have hsame : streamBlock v (UInt64.ofNat k) =
      streamBlock (fillStream p.key cipher.alg p.nonce cipher.nonceLength p.rounds
        (UInt64.ofNat p.origin)) (UInt64.ofNat k) := by
    apply streamBlock_congr halg
    · rw [← hpacked.key_eq, hkey]
      show bytesAt _ p.key 0 = bytesAt _ (p.key.take 32) 0
      rw [take_of_length_le p.key_length.le]
    · rw [← hiv, hnonce]
      show bytesAt _ p.nonce 0 = bytesAt _ (p.nonce.take cipher.nonceLength) 0
      rw [take_of_length_le p.nonce_length.le]
    · exact hparams
  have horigin := origin_mem p.origin_le
  rw [hsame]
  cases cipher with
  | chacha20 =>
    refine (streamBlock_chacha p.key_length p.nonce_length _ horigin _ p.rounds_mem _).trans ?_
    rw [counter_add]
    dsimp only
    rw [UInt64.toUInt32_ofNat']
    rfl
  | xchacha20 =>
    refine (streamBlock_xchacha p.key_length p.nonce_length _ horigin _ p.rounds_mem _).trans ?_
    rw [counter_add]
    dsimp only
    rw [UInt64.toUInt32_ofNat']
    rfl
  | salsa20 =>
    refine (streamBlock_salsa p.key_length p.nonce_length _ horigin _ p.rounds_mem _).trans ?_
    rw [counter_add]
    rfl
  | xsalsa20 =>
    refine (streamBlock_xsalsa p.key_length p.nonce_length _ horigin _ p.rounds_mem _).trans ?_
    rw [counter_add]
    rfl

theorem recStreamByte_named (hpacked : v.Packed) (h : (StreamSpec.counter cipher p).NamedBy v)
    (pos : Nat) : recStreamByte v pos = p.keystream pos := by
  rw [recStreamByte, streamBlock_named hpacked h]
  rfl

end

/-! ### Recovery -/

theorem isStream_alg (cipher : StreamCipher) :
    isBlockAlg cipher.alg = false ∧ cipher.alg ≠ SAR_ALG_RC4 := by
  cases cipher <;> decide

theorem Found.stream_mode {suite : CipherSuite} {sample : Sample} {v : Verdict}
    (h : Found suite sample v) (halg : isBlockAlg v.algorithm = false) :
    v.mode = SAR_MODE_STREAM := by
  cases h with
  | block c hcipher hmode =>
    rw [isBlockAlg_of_makeBlock hcipher] at halg
    cases halg
  | xts c1 c2 hmode hcipher hunit =>
    rw [isBlockAlg_of_makeXts hcipher] at halg
    cases halg
  | stream hmode => exact hmode
  | rc4 hmode => exact hmode

theorem StreamSpec.NamedBy.not_blockAlg {spec : StreamSpec} {v : Verdict} (h : spec.NamedBy v) :
    isBlockAlg v.algorithm = false := by
  cases spec with
  | counter cipher p =>
    rw [h.1]
    exact (isStream_alg cipher).1
  | rc4 key hkey =>
    rw [h.1]
    decide

theorem StreamSpec.NamedBy.ne_state {spec : StreamSpec} (h : spec.NamedBy rc4StateVerdict) :
    False := by
  cases spec with
  | counter cipher p => exact (isStream_alg cipher).2 h.1.symm
  | rc4 key hkey => exact hkey h.2.2.symm

/-- **Stream-cipher verdicts recover the file.**  For a file under ChaCha20, XChaCha20, Salsa20,
    XSalsa20 or RC4: if `sar_convict`, from any sample, reports a verdict with the algorithm, key,
    nonce, rounds and counter origin of the file, then `sar_recover_buffer` accepts it and gives
    every byte back whose block counter has not wrapped. -/
theorem stream_verdict_recovers {suite : CipherSuite} {input : EngineInput} {v : Verdict}
    (hconvict : sarConvict suite input = some v) {file pt : List UInt8}
    (hfile : file.length < 2 ^ 64)
    (hsample : input.fileOffset.toNat + input.sample.size ≤ file.length) {spec : StreamSpec}
    (henc : spec.Encrypts pt file) (hnamed : spec.NamedBy v) (stack : XtsBuffers) (heap : Memory)
    (out : Nat → UInt8) :
    let result := sarRecoverBuffer suite stack (sarRecoveryKeyFromVerdict v) none
      (fileMemory file heap) out (UInt64.ofNat file.length)
    result.1 = .ok ∧ ∀ i < file.length, spec.Fits i → result.2 i = pt.getD i 0 := by
  have hne : file ≠ [] := by
    rintro rfl
    have hsize := sarConvict_size hconvict
    have hempty : input.fileOffset.toNat + input.sample.size ≤ 0 := hsample
    omega
  rcases sarConvict_reported hconvict with ⟨hpacked, hfound⟩ | ⟨rfl, -⟩
  swap
  · exact hnamed.ne_state.elim
  have hcheck := hfound.precheck_ok
  have hmode := hfound.stream_mode hnamed.not_blockAlg
  have hciphers : buildCiphers suite v = some .stream :=
    buildCiphers_of_stream hmode hnamed.not_blockAlg
  have hxts : ¬ v.ShortXts := fun h => absurd (hmode.symm.trans h.1) (by decide)
  rw [keyFromVerdict_packed hpacked]
  refine ⟨by rw [sarRecoverBuffer_whole hcheck hciphers hfile hne], ?_⟩
  intro i hi hfits
  have hcancel : file.getD i 0 ^^^ spec.keystream i = pt.getD i 0 := by
    rw [henc i hi hfits, UInt8.xor_assoc, UInt8.xor_self, UInt8.xor_zero]
  cases spec with
  | counter cipher p =>
    have hrc4 : ¬ v.IsRc4 := by
      rintro ⟨-, h⟩
      rw [hnamed.1] at h
      exact (isStream_alg cipher).2 h
    apply sarRecoverBuffer_whole_byte hcheck hciphers hfile hne stack heap out hrc4 hxts hi
    simp only [rangeByte, if_pos hmode, policyPosition]
    rw [fileMemory_natCast hi, recStreamByte_named hpacked hnamed]
    exact congrArg some hcancel
  | rc4 key hkey =>
    obtain ⟨halg, hlen, hbytes⟩ := hnamed
    have hksa : rc4Ksa v.key.toList v.keyLength.toNat = rc4Ksa key key.length := by
      rw [hlen] at hbytes ⊢
      apply rc4Ksa_congr (List.length_pos_of_ne_nil hkey)
      rw [hbytes, List.take_length]
    rw [sarRecoverBuffer_whole hcheck hciphers hfile hne]
    simp only [recoverOneRange, if_pos hmode, if_pos halg]
    rw [recRc4_apply heap _ hi, hksa]
    exact hcancel

/-- ChaCha20 from block zero on, under the zero nonce. -/
def zeroNonceParams (key : List UInt8) (rounds : Nat) (key_length : key.length = 32)
    (rounds_mem : rounds ∈ STREAM_ROUNDS) : StreamParams .chacha20 where
  key := key
  nonce := replicate 12 0
  rounds := rounds
  origin := 0
  key_length := key_length
  nonce_length := rfl
  rounds_mem := rounds_mem
  origin_le := by decide

def zeroStreamParams : StreamParams .chacha20 :=
  zeroNonceParams ((range 32).map UInt8.ofNat) 8 rfl (by decide)

def zeroStreamFile : List UInt8 := (range 64).map zeroStreamParams.keystream

theorem zeroStream_encrypted :
    (StreamSpec.counter _ zeroStreamParams).Encrypts (replicate 64 0) zeroStreamFile := by
  intro i hi _
  have hi : i < 64 := by simpa [zeroStreamFile] using hi
  have hfile : zeroStreamFile.getD i 0 = zeroStreamParams.keystream i := by
    simp [zeroStreamFile, hi]
  have hpt : (replicate 64 (0 : UInt8)).getD i 0 = 0 := getD_replicate 0 hi
  rw [hfile, hpt, UInt8.zero_xor]
  rfl

def zeroStreamInput : EngineInput where
  candidates := []
  scanBuffer := SAR_STREAM_SIGMA ++ zeroStreamParams.key ++ replicate 4 0 ++ zeroStreamParams.nonce
  plaintext := some (replicate 16 0)
  ciphertext := some [143, 131, 29, 39, 199, 176, 223, 147, 179, 185, 237, 130, 56, 162, 86, 214]
  sampleSize := 16
  fileOffset := 48

def zeroStreamVerdict : Verdict :=
  fillStream zeroStreamParams.key SAR_ALG_CHACHA20 zeroStreamParams.nonce 12 8 0

theorem stream_verdict_recovers_zeros :
    sarConvict xorSuite zeroStreamInput = some zeroStreamVerdict ∧
      ∀ i < 64, (sarRecoverBuffer xorSuite zeroBuffers (sarRecoveryKeyFromVerdict zeroStreamVerdict)
        none (fileMemory zeroStreamFile fun _ => 0) (fun _ => 7) 64).2 i = 0 := by
  have hconvict : sarConvict xorSuite zeroStreamInput = some zeroStreamVerdict := by decide +kernel
  have hlength : zeroStreamFile.length = 64 := by simp [zeroStreamFile]
  have hnamed : (StreamSpec.counter _ zeroStreamParams).NamedBy zeroStreamVerdict :=
    ⟨rfl, by decide +kernel, by decide +kernel, by decide +kernel⟩
  have hrecovers := stream_verdict_recovers hconvict (by rw [hlength]; decide)
    (by rw [hlength]; decide) zeroStream_encrypted hnamed zeroBuffers (fun _ => 0) (fun _ => 7)
  refine ⟨hconvict, ?_⟩
  intro i hi
  have hbyte := hrecovers.2 i (by rwa [hlength]) (by
    show 0 + i / 64 < 2 ^ 32
    omega)
  rw [hlength] at hbyte
  exact hbyte.trans (List.getD_replicate 0 hi)

end SemanticsAr
