import SemanticsAr.CtrLayout
import SemanticsAr.Format
import SemanticsAr.Stream

/-!
# Verdicts and the keys they name

The verdict of `conviction_engine.h`, the recovery key of `sar_recover.h`, and how
`engine/src/recover.c` reads algorithm, key and parameters off it: the block ciphers
of `make_block` and `make_xts` and the keystream of `stream_block`.  The block ciphers
themselves are a parameter, one function from key bytes to a cipher for each of them.
-/

namespace SemanticsAr

variable {alg : UInt32} {key : List UInt8} {klen n : Nat}

def SAR_ALG_AES_128 : UInt32 := 1
def SAR_ALG_AES_192 : UInt32 := 2
def SAR_ALG_AES_256 : UInt32 := 3
def SAR_ALG_3DES : UInt32 := 4
def SAR_ALG_SM4 : UInt32 := 5
def SAR_ALG_CAMELLIA : UInt32 := 6
def SAR_ALG_ARIA : UInt32 := 7
def SAR_ALG_SEED : UInt32 := 8
def SAR_ALG_CHACHA20 : UInt32 := 9
def SAR_ALG_XCHACHA20 : UInt32 := 10
def SAR_ALG_SALSA20 : UInt32 := 11
def SAR_ALG_XSALSA20 : UInt32 := 12
def SAR_ALG_RC4 : UInt32 := 13

def SAR_MODE_ECB : UInt32 := 1
def SAR_MODE_CBC : UInt32 := 2
def SAR_MODE_CTR : UInt32 := 3
def SAR_MODE_XTS : UInt32 := 4
def SAR_MODE_CFB : UInt32 := 5
def SAR_MODE_OFB : UInt32 := 6
def SAR_MODE_STREAM : UInt32 := 7

structure CipherSuite where
  aes : List UInt8 → BlockCipher 16
  des3 : List UInt8 → BlockCipher 8
  sm4 : List UInt8 → BlockCipher 16
  camellia : List UInt8 → BlockCipher 16
  aria : List UInt8 → BlockCipher 16
  seed : List UInt8 → BlockCipher 16

variable {suite : CipherSuite}

structure CipherSuite.Lawful (suite : CipherSuite) : Prop where
  aes : ∀ key, (suite.aes key).Lawful
  des3 : ∀ key, (suite.des3 key).Lawful
  sm4 : ∀ key, (suite.sm4 key).Lawful
  camellia : ∀ key, (suite.camellia key).Lawful
  aria : ∀ key, (suite.aria key).Lawful
  seed : ∀ key, (suite.seed key).Lawful

def xorCipher (n : Nat) (key : List UInt8) : BlockCipher n where
  encrypt x := xorBytes x (bytesAt n key 0)
  decrypt x := xorBytes x (bytesAt n key 0)

theorem xorCipher_lawful (n : Nat) (key : List UInt8) : (xorCipher n key).Lawful := by
  intro x
  exact xorBytes_cancel x _

def xorSuite : CipherSuite :=
  ⟨xorCipher 16, xorCipher 8, xorCipher 16, xorCipher 16, xorCipher 16, xorCipher 16⟩

theorem xorSuite_lawful : xorSuite.Lawful :=
  ⟨xorCipher_lawful 16, xorCipher_lawful 8, xorCipher_lawful 16, xorCipher_lawful 16,
    xorCipher_lawful 16, xorCipher_lawful 16⟩

/-- A cipher that adds its key byte by byte; unlike `xorCipher` it does not commute with
    a pad. -/
def addCipher (n : Nat) (key : List UInt8) : BlockCipher n where
  encrypt x := Vector.ofFn fun i => x.get i + key.getD i.val 0
  decrypt x := Vector.ofFn fun i => x.get i - key.getD i.val 0

theorem addCipher_lawful : (addCipher n key).Lawful := by
  intro x
  apply ext_get
  intro i
  simp only [addCipher, get_ofFn]
  exact UInt8.add_sub_cancel _ _

def addSuite : CipherSuite :=
  ⟨addCipher 16, addCipher 8, addCipher 16, addCipher 16, addCipher 16, addCipher 16⟩

/-- `sar_recovery_key_t`, and the fields of `sar_verdict_t`, which are the same. -/
structure RecoveryKey where
  algorithm : UInt32
  mode : UInt32
  keyLength : UInt32
  key : Vector UInt8 SEMANTICS_AR_MAX_KEY_BYTES
  modeParams : UInt64
  iv : Vector UInt8 SEMANTICS_AR_IV_MAX
  ivLength : UInt8
  ctrLayoutTag : UInt8
deriving DecidableEq

/-- `sar_verdict_t`; that a verdict is there says `convicted`. -/
abbrev Verdict := RecoveryKey

/-! ### Block ciphers -/

abbrev AnyCipher := (n : Nat) × BlockCipher n

variable {bc : AnyCipher} {bcs : AnyCipher × AnyCipher}

def makeBlock (suite : CipherSuite) (alg : UInt32) (key : List UInt8) (klen : Nat) :
    Option AnyCipher :=
  if alg = SAR_ALG_AES_128 ∨ alg = SAR_ALG_AES_192 ∨ alg = SAR_ALG_AES_256 then
    some ⟨16, suite.aes (key.take klen)⟩
  else if alg = SAR_ALG_3DES then some ⟨8, suite.des3 (key.take 24)⟩
  else if alg = SAR_ALG_SM4 then some ⟨16, suite.sm4 (key.take 16)⟩
  else if alg = SAR_ALG_CAMELLIA then some ⟨16, suite.camellia (key.take klen)⟩
  else if alg = SAR_ALG_ARIA then some ⟨16, suite.aria (key.take klen)⟩
  else if alg = SAR_ALG_SEED then some ⟨16, suite.seed (key.take 16)⟩
  else none

def makeXts (suite : CipherSuite) (alg : UInt32) (key : List UInt8) (klen : Nat) :
    Option (AnyCipher × AnyCipher) :=
  let half := klen / 2
  if half = 0 then none
  else
    match makeBlock suite alg key half, makeBlock suite alg (key.drop half) half with
    | some bc1, some bc2 => some (bc1, bc2)
    | _, _ => none

def isBlockAlg (alg : UInt32) : Bool :=
  alg == SAR_ALG_AES_128 || alg == SAR_ALG_AES_192 || alg == SAR_ALG_AES_256 ||
    alg == SAR_ALG_3DES || alg == SAR_ALG_SM4 || alg == SAR_ALG_CAMELLIA ||
    alg == SAR_ALG_ARIA || alg == SAR_ALG_SEED

theorem makeBlock_size (h : makeBlock suite alg key klen = some bc) :
    (alg = SAR_ALG_3DES ∧ bc.1 = 8) ∨ (alg ≠ SAR_ALG_3DES ∧ bc.1 = 16) := by
  unfold makeBlock at h
  by_cases haes : alg = SAR_ALG_AES_128 ∨ alg = SAR_ALG_AES_192 ∨ alg = SAR_ALG_AES_256
  · rw [if_pos haes] at h
    cases h
    rcases haes with rfl | rfl | rfl <;> exact .inr ⟨by decide, rfl⟩
  rw [if_neg haes] at h
  by_cases hdes : alg = SAR_ALG_3DES
  · rw [if_pos hdes] at h
    cases h
    exact .inl ⟨hdes, rfl⟩
  rw [if_neg hdes] at h
  refine Or.inr ⟨hdes, ?_⟩
  repeat' split at h
  all_goals cases h
  all_goals rfl

theorem makeXts_size (h : makeXts suite alg key klen = some bcs) :
    (alg = SAR_ALG_3DES ∧ bcs.1.1 = 8 ∧ bcs.2.1 = 8) ∨
      (alg ≠ SAR_ALG_3DES ∧ bcs.1.1 = 16 ∧ bcs.2.1 = 16) := by
  simp only [makeXts] at h
  split at h
  · cases h
  · split at h
    next bc1 bc2 h1 h2 =>
      cases h
      rcases makeBlock_size h1 with ⟨halg, hs1⟩ | ⟨halg, hs1⟩
      · rcases makeBlock_size h2 with ⟨-, hs2⟩ | ⟨hne, -⟩
        · exact .inl ⟨halg, hs1, hs2⟩
        · exact absurd halg hne
      · rcases makeBlock_size h2 with ⟨heq, -⟩ | ⟨-, hs2⟩
        · exact absurd heq halg
        · exact .inr ⟨halg, hs1, hs2⟩
    · cases h

theorem makeBlock_lawful (hsuite : suite.Lawful) (h : makeBlock suite alg key klen = some bc) :
    bc.2.Lawful := by
  unfold makeBlock at h
  repeat' split at h
  all_goals cases h
  · exact hsuite.aes _
  · exact hsuite.des3 _
  · exact hsuite.sm4 _
  · exact hsuite.camellia _
  · exact hsuite.aria _
  · exact hsuite.seed _

theorem makeXts_lawful (hsuite : suite.Lawful) (h : makeXts suite alg key klen = some bcs) :
    bcs.1.2.Lawful := by
  simp only [makeXts] at h
  split at h
  · cases h
  · split at h
    next bc1 bc2 h1 h2 =>
      cases h
      exact makeBlock_lawful hsuite h1
    · cases h

theorem isBlockAlg_of_makeBlock (h : makeBlock suite alg key klen = some bc) :
    isBlockAlg alg = true := by
  by_contra hnot
  have hnone : makeBlock suite alg key klen = none := by
    simp only [isBlockAlg, Bool.or_eq_true, beq_iff_eq, not_or] at hnot
    simp [makeBlock, hnot]
  rw [hnone] at h
  cases h

theorem isBlockAlg_of_makeXts (h : makeXts suite alg key klen = some bcs) :
    isBlockAlg alg = true := by
  simp only [makeXts] at h
  split at h
  · cases h
  · split at h
    next bc1 bc2 h1 h2 =>
      exact isBlockAlg_of_makeBlock h1
    · cases h

/-! ### Keystreams -/

def isChachaAlg (alg : UInt32) : Bool := alg == SAR_ALG_CHACHA20 || alg == SAR_ALG_XCHACHA20

def isSalsaAlg (alg : UInt32) : Bool := alg == SAR_ALG_SALSA20 || alg == SAR_ALG_XSALSA20

/-- Keystream block `blockIndex` under the key, nonce, rounds and origin reported. -/
def streamBlock (rk : RecoveryKey) (blockIndex : UInt64) : Vector UInt8 64 :=
  let rounds := ((rk.modeParams >>> 8) &&& 0xff).toNat
  let origin := rk.modeParams &&& 0xff
  let counter := blockIndex + origin
  let key := rk.key.toList
  let iv := rk.iv.toList
  if isChachaAlg rk.algorithm then
    if rk.algorithm = SAR_ALG_XCHACHA20 then
      chachaBlock (hchacha20 key iv) (List.replicate 4 0 ++ (iv.drop 16).take 8)
        counter.toUInt32 rounds
    else chachaBlock key iv counter.toUInt32 rounds
  else if rk.algorithm = SAR_ALG_XSALSA20 then
    salsaBlock (hsalsa20 key iv) ((iv.drop 16).take 8) counter rounds
  else salsaBlock key iv counter rounds

def streamByte (rk : RecoveryKey) (pos : UInt64) : UInt8 :=
  (streamBlock rk (pos / 64)).toList.getD (pos % 64).toNat 0

end SemanticsAr
