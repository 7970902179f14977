import SemanticsAr.AesSchedule
import SemanticsAr.Modes

/-!
# The conviction battery

`engine/src/battery.c`: from candidate keys and from a snapshot of the writer's memory,
find a key that explains how the plaintext of a sample became its ciphertext.  Every
loop of the source stops at its first success, so each function is a search for a
verdict.  The verdict is zeroed first and written only by the search that succeeds.
-/

namespace SemanticsAr

open List hiding Vector

abbrev SAR_CANDIDATE_SIZE : Nat := 16
abbrev SAR_ENGINE_KEY_MAX : Nat := SEMANTICS_AR_MAX_KEY_BYTES
def SAR_SCAN_BRUTE_CAP : Nat := 65536

/-- The sample of `sar_engine_input_t`, once its pointers are known not to be null. -/
structure Sample where
  plaintext : List UInt8
  ciphertext : List UInt8
  size : Nat
  fileOffset : UInt64

/-- `sar_engine_input_t`; a null scan buffer is an empty one. -/
structure EngineInput where
  candidates : List (Vector UInt8 SAR_CANDIDATE_SIZE)
  scanBuffer : List UInt8
  plaintext : Option (List UInt8)
  ciphertext : Option (List UInt8)
  sampleSize : UInt32
  fileOffset : UInt64

/-! ### Candidates -/

def candidateViable (d : List UInt8) : Bool :=
  let unique := (range 16).countP fun i =>
    !(range i).any fun j => d.getD j 0 == d.getD i 0
  decide (unique ≥ 4) && (range' 1 15).any fun i => d.getD i 0 != d.getD 0 0

/-- No byte occurs twice; the bits of `seen` are the flags of the array of the source. -/
def distinctBytes : List UInt8 → Nat → Bool
  | [], _ => true
  | b :: bs, seen =>
    if seen.testBit b.toNat then false else distinctBytes bs (seen ||| 1 <<< b.toNat)

def isRc4Sbox (d : Vector UInt8 256) : Bool := distinctBytes d.toList 0

/-! ### Verdicts -/

def fill (key : List UInt8) (klen : Nat) (alg mode : UInt32) (mp : UInt64) : Verdict where
  algorithm := alg
  mode := mode
  keyLength := UInt32.ofNat klen
  key := bytesAt _ (key.take klen) 0
  modeParams := mp
  iv := Vector.replicate _ 0
  ivLength := 0
  ctrLayoutTag := 0

def applyIv (v : Verdict) (iv : IvOut) : Verdict :=
  { v with iv := iv.bytes, ivLength := iv.length, ctrLayoutTag := iv.tag }

def fillStream (reportKey : List UInt8) (alg : UInt32) (nonce : List UInt8) (nlen rounds : Nat)
    (origin : UInt64) : Verdict :=
  { fill reportKey 32 alg SAR_MODE_STREAM ((UInt64.ofNat rounds <<< 8) ||| origin) with
    iv := bytesAt _ (nonce.take nlen) 0
    ivLength := UInt8.ofNat nlen
    ctrLayoutTag := 0 }

/-! ### Block ciphers -/

section

variable (suite : CipherSuite) (sample : Sample)

def blockTry {n : Nat} (bc : BlockCipher n) (key : List UInt8) (klen : Nat) (alg : UInt32) :
    Option Verdict :=
  (engineTryBlockModes bc sample.plaintext sample.ciphertext sample.size sample.fileOffset).map
    fun m => applyIv (fill key klen alg m.1 0) m.2

def aesTryMaster (master : List UInt8) (klen : Nat) (alg : UInt32) : Option Verdict :=
  blockTry sample (suite.aes (master.take klen)) master klen alg

/-- The window as it stands and with its words byte-swapped; each as the key itself
    and as a later part of the key's schedule. -/
def aesWindowBattery (window : List UInt8) (klen : Nat) (alg : UInt32) (maxBlock : Nat) :
    Option Verdict :=
  [window.take klen, aesWordByteswap window klen].findSome? fun variant =>
    aesTryMaster suite sample variant klen alg <|>
    (range' 1 maxBlock).findSome? fun b =>
      (aesMasterFromWindow klen variant b).bind fun master =>
        aesTryMaster suite sample master klen alg

def xtsTry (bc1 bc2 : BlockCipher 16) (keybytes : List UInt8) (klen : Nat) (alg : UInt32) :
    Option Verdict :=
  (engineVerifyXts bc1 bc2 sample.plaintext sample.ciphertext sample.size sample.fileOffset).map
    fun du => fill keybytes klen alg SAR_MODE_XTS du

def tryBlockSingle (key : List UInt8) : Option Verdict :=
  aesWindowBattery suite sample key 16 SAR_ALG_AES_128 10 <|>
  blockTry sample (suite.sm4 (key.take 16)) key 16 SAR_ALG_SM4 <|>
  blockTry sample (suite.camellia (key.take 16)) key 16 SAR_ALG_CAMELLIA <|>
  blockTry sample (suite.aria (key.take 16)) key 16 SAR_ALG_ARIA <|>
  blockTry sample (suite.seed (key.take 16)) key 16 SAR_ALG_SEED

def tryBlockPair (a b : List UInt8) : Option Verdict :=
  let k32 := a.take 16 ++ b.take 16
  let k24a := a.take 16 ++ b.take 8
  let k24b := (a.drop 8).take 8 ++ b.take 16
  aesWindowBattery suite sample k32 32 SAR_ALG_AES_256 7 <|>
  aesWindowBattery suite sample k24a 24 SAR_ALG_AES_192 7 <|>
  aesWindowBattery suite sample k24b 24 SAR_ALG_AES_192 7 <|>
  blockTry sample (suite.des3 k24a) k24a 24 SAR_ALG_3DES <|>
  blockTry sample (suite.des3 k24b) k24b 24 SAR_ALG_3DES <|>
  blockTry sample (suite.camellia k32) k32 32 SAR_ALG_CAMELLIA <|>
  blockTry sample (suite.aria k32) k32 32 SAR_ALG_ARIA <|>
  xtsTry sample (suite.aes (a.take 16)) (suite.aes (b.take 16)) k32 32 SAR_ALG_AES_128 <|>
  xtsTry sample (suite.sm4 (a.take 16)) (suite.sm4 (b.take 16)) k32 32 SAR_ALG_SM4 <|>
  xtsTry sample (suite.camellia (a.take 16)) (suite.camellia (b.take 16)) k32 32
    SAR_ALG_CAMELLIA <|>
  xtsTry sample (suite.aria (a.take 16)) (suite.aria (b.take 16)) k32 32 SAR_ALG_ARIA <|>
  xtsTry sample (suite.seed (a.take 16)) (suite.seed (b.take 16)) k32 32 SAR_ALG_SEED

def aes256XtsWindow (win64 : List UInt8) : Option Verdict :=
  xtsTry sample (suite.aes (win64.take 32)) (suite.aes ((win64.drop 32).take 32)) win64 64
    SAR_ALG_AES_256

/-! ### Stream ciphers -/

def compareLength : Nat := min (64 - (sample.fileOffset % 64).toNat) sample.size

def keystreamMatches (ks : Vector UInt8 64) : Bool :=
  (range (compareLength sample)).all fun m =>
    sample.plaintext.getD m 0 ^^^ ks.toList.getD ((sample.fileOffset % 64).toNat + m) 0 ==
      sample.ciphertext.getD m 0

def tryChacha (genKey reportKey genNonce persistNonce : List UInt8) (persistLen : Nat)
    (alg : UInt32) : Option Verdict :=
  ([0, 1] : List UInt64).findSome? fun origin =>
    STREAM_ROUNDS.findSome? fun rounds =>
      let blk := (sample.fileOffset / 64).toUInt32 + origin.toUInt32
      if compareLength sample ≥ 16 ∧
          keystreamMatches sample (chachaBlock genKey genNonce blk rounds) = true then
        some (fillStream reportKey alg persistNonce persistLen rounds origin)
      else none

def trySalsa (genKey reportKey genNonce persistNonce : List UInt8) (persistLen : Nat)
    (alg : UInt32) : Option Verdict :=
  ([0, 1] : List UInt64).findSome? fun origin =>
    let ctr := sample.fileOffset / 64 + origin
    STREAM_ROUNDS.findSome? fun rounds =>
      if compareLength sample ≥ 16 ∧
          keystreamMatches sample (salsaBlock genKey genNonce ctr rounds) = true then
        some (fillStream reportKey alg persistNonce persistLen rounds origin)
      else none

def tryStreamNonce (cands : List (Vector UInt8 SAR_CANDIDATE_SIZE)) (key32 : List UInt8)
    (k : Nat) : Option Verdict :=
  let cand i := (cands.getD i (Vector.replicate _ 0)).toList
  tryChacha sample key32 key32 ((cand k).take 12) ((cand k).take 12) 12 SAR_ALG_CHACHA20 <|>
  trySalsa sample key32 key32 ((cand k).take 8) ((cand k).take 8) 8 SAR_ALG_SALSA20 <|>
  (if k + 1 < cands.length then
    let nonce24 := cand k ++ (cand (k + 1)).take 8
    let tail := (nonce24.drop 16).take 8
    tryChacha sample (hchacha20 key32 nonce24) key32 (replicate 4 0 ++ tail) nonce24 24
      SAR_ALG_XCHACHA20 <|>
    trySalsa sample (hsalsa20 key32 nonce24) key32 tail nonce24 24 SAR_ALG_XSALSA20
  else none)

def tryStream (cands : List (Vector UInt8 SAR_CANDIDATE_SIZE)) : Option Verdict :=
  let cand i := (cands.getD i (Vector.replicate _ 0)).toList
  (range (cands.length - 1)).findSome? fun i =>
    if candidateViable (cand i) then
      (range cands.length).findSome? fun k =>
        if k = i ∨ k = i + 1 then none
        else tryStreamNonce sample cands (cand i ++ cand (i + 1)) k
    else none

def tryRc4Shortkey (key : List UInt8) : Option Verdict :=
  [5, 8, 16].findSome? fun klen =>
    if rc4Verify key klen sample.plaintext sample.ciphertext sample.size sample.fileOffset then
      some (fill key klen SAR_ALG_RC4 SAR_MODE_STREAM 0)
    else none

/-! ### The memory snapshot -/

def aesScheduleScan (buf : List UInt8) : Option Verdict :=
  (range (buf.length + 1 - 176)).findSome? fun off =>
    [(16, 176, SAR_ALG_AES_128), (24, 208, SAR_ALG_AES_192), (32, 240, SAR_ALG_AES_256)].findSome?
      fun (klen, slen, alg) =>
        if off + slen ≤ buf.length ∧ aesScheduleIsValid (buf.drop off) klen = true then
          aesTryMaster suite sample (buf.drop off) klen alg
        else none

def SAR_STREAM_SIGMA : List UInt8 :=
  [0x65, 0x78, 0x70, 0x61, 0x6e, 0x64, 0x20, 0x33, 0x32, 0x2d, 0x62, 0x79, 0x74, 0x65, 0x20, 0x6b]

/-- `sar_memcmp(buf + pos, SAR_STREAM_SIGMA + from, n) == 0`. -/
def sigmaAt (buf : List UInt8) (pos start n : Nat) : Bool :=
  (buf.drop pos).take n == (SAR_STREAM_SIGMA.drop start).take n

def streamSigmaScan (buf : List UInt8) : Option Verdict :=
  (range (buf.length + 1 - 64)).findSome? fun off =>
    if buf.getD off 0 ≠ SAR_STREAM_SIGMA.getD 0 0 then none
    else
      (if sigmaAt buf off 0 16 then
        let key := (buf.drop (off + 16)).take 32
        let nonce := (buf.drop (off + 52)).take 12
        tryChacha sample key key nonce nonce 12 SAR_ALG_CHACHA20
      else none) <|>
      (if sigmaAt buf off 0 4 ∧ sigmaAt buf (off + 20) 4 4 ∧ sigmaAt buf (off + 40) 8 4 ∧
          sigmaAt buf (off + 60) 12 4 then
        let key := (buf.drop (off + 4)).take 16 ++ (buf.drop (off + 44)).take 16
        let nonce := (buf.drop (off + 24)).take 8
        trySalsa sample key key nonce nonce 8 SAR_ALG_SALSA20
      else none)

def rc4StateVerdict : Verdict := fill [] 0 SAR_ALG_RC4 SAR_MODE_STREAM 0

/-- Permutations of the byte values in the snapshot, with the indices in the two
    layouts the source knows. -/
def rc4StateScan (buf : List UInt8) : Option Verdict :=
  (range (min buf.length SAR_SCAN_BRUTE_CAP + 1 - 256)).findSome? fun off =>
    let box := bytesAt 256 buf off
    let fits si sj := rc4VerifyState box si sj sample.plaintext sample.ciphertext sample.size
    if isRc4Sbox box then
      (if off + 258 ≤ buf.length ∧ fits (buf.getD (off + 256) 0) (buf.getD (off + 257) 0) then
        some rc4StateVerdict
      else none) <|>
      (if off + 264 ≤ buf.length ∧ fits (buf.getD (off + 256) 0) (buf.getD (off + 260) 0) then
        some rc4StateVerdict
      else none)
    else none

def bruteScan (buf : List UInt8) : Option Verdict :=
  let brute := min buf.length SAR_SCAN_BRUTE_CAP
  (range (brute / 16)).findSome? fun i =>
    let off := i * 16
    if candidateViable (buf.drop off) then
      tryBlockSingle suite sample (buf.drop off) <|>
      (if off + 32 ≤ brute ∧ candidateViable (buf.drop (off + 16)) then
        tryBlockPair suite sample (buf.drop off) (buf.drop (off + 16))
      else none) <|>
      (if off + 64 ≤ brute then aes256XtsWindow suite sample (buf.drop off) else none) <|>
      tryRc4Shortkey sample (buf.drop off)
    else none

def scanBattery (buf : List UInt8) : Option Verdict :=
  aesScheduleScan suite sample buf <|> streamSigmaScan sample buf <|> rc4StateScan sample buf <|>
  bruteScan suite sample buf

/-! ### The battery -/

def convictSample (cands : List (Vector UInt8 SAR_CANDIDATE_SIZE)) (buf : List UInt8) :
    Option Verdict :=
  (cands.findSome? fun c =>
    if candidateViable c.toList then tryBlockSingle suite sample c.toList else none) <|>
  (cands.zipIdx.findSome? fun (c, i) =>
    if candidateViable c.toList then
      cands.zipIdx.findSome? fun (d, j) =>
        if i = j then none else tryBlockPair suite sample c.toList d.toList
    else none) <|>
  tryStream sample cands <|>
  (cands.findSome? fun c =>
    if candidateViable c.toList then tryRc4Shortkey sample c.toList else none) <|>
  (if buf.length ≥ 16 then scanBattery suite sample buf else none)

end

def sarConvict (suite : CipherSuite) (input : EngineInput) : Option Verdict :=
  match input.plaintext, input.ciphertext with
  | some pt, some ct =>
    if input.sampleSize < 16 then none
    else
      convictSample suite ⟨pt, ct, input.sampleSize.toNat, input.fileOffset⟩ input.candidates
        input.scanBuffer
  | _, _ => none

end SemanticsAr
