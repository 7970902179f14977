import SemanticsAr.Geometry
import SemanticsAr.Modes
import SemanticsAr.PreserveStore

/-!
# Decrypting a range

`engine/src/recover.c`: a recovery key taken from a verdict or a ledger record, the checks
it has to pass, and the decryption of ranges under it.  The ciphertext is memory behind a
pointer, since the chained modes reach back in front of a block; the plaintext buffer keeps
whatever a mode does not write.
-/

namespace SemanticsAr

/-- `sar_recover_status_t`. -/
inductive RecoverStatus where
  | ok
  | declinedKey
  | declinedIv
  | declinedGeometry
  | declinedStateOnly
  | declinedMismatch
  | invalid
  | declinedNoKeyId
  | declinedTargetIo
deriving DecidableEq, Repr

abbrev Memory := Int → UInt8

/-- The two block buffers of `rec_xts`, which its blocks share. -/
structure XtsBuffers where
  tweak : Vector UInt8 16
  dec : Vector UInt8 16

/-- Memory that a call may read without anybody having written it: what lies around the
    ciphertext, and the block buffers on the stack. -/
structure Stray where
  heap : Memory
  stack : XtsBuffers

def blockAt (n : Nat) (mem : Memory) (pos : Int) : Vector UInt8 n :=
  Vector.ofFn fun i => mem (pos + i.val)

/-! ### Recovery keys -/

/-- `sar_recovery_key_from_verdict`; a verdict has the fields of a recovery key. -/
def sarRecoveryKeyFromVerdict (v : Verdict) : RecoveryKey where
  algorithm := v.algorithm
  mode := v.mode
  keyLength := v.keyLength
  key := bytesAt _ (v.key.toList.take v.keyLength.toNat) 0
  modeParams := v.modeParams
  iv := bytesAt _ (v.iv.toList.take v.ivLength.toNat) 0
  ivLength := if v.ivLength.toNat > SEMANTICS_AR_IV_MAX then 24 else v.ivLength
  ctrLayoutTag := v.ctrLayoutTag

/-- `sar_recovery_key_from_record`; the record's fields are those of the verdict it was
    made from. -/
def sarRecoveryKeyFromRecord (rec : KeystoreRecord) : RecoveryKey :=
  sarRecoveryKeyFromVerdict
    { algorithm := rec.algorithm
      mode := rec.mode
      keyLength := rec.keyLength
      key := rec.keyBytes
      modeParams := rec.modeParams
      iv := rec.iv
      ivLength := rec.ivLength
      ctrLayoutTag := rec.ctrLayoutTag }

def RecoveryKey.ivBlock (rk : RecoveryKey) (n : Nat) : Vector UInt8 n := bytesAt n rk.iv.toList 0

def precheck (rk : RecoveryKey) : RecoverStatus :=
  if rk.mode = SAR_MODE_ECB ∨ rk.mode = SAR_MODE_CBC ∨ rk.mode = SAR_MODE_CFB then
    if isBlockAlg rk.algorithm = false then .declinedKey else .ok
  else if rk.mode = SAR_MODE_OFB then
    if isBlockAlg rk.algorithm = false then .declinedKey
    else if rk.ivLength = 0 then .declinedIv
    else .ok
  else if rk.mode = SAR_MODE_CTR then
    if isBlockAlg rk.algorithm = false then .declinedKey
    else if rk.ivLength = 0 ∨ rk.ctrLayoutTag = 0 ∨
        rk.ctrLayoutTag.toNat > SAR_CTR_LAYOUT_COUNT then .declinedIv
    else .ok
  else if rk.mode = SAR_MODE_XTS then
    if isBlockAlg rk.algorithm = false then .declinedKey
    else if rk.modeParams ≠ 512 ∧ rk.modeParams ≠ 4096 then .declinedKey
    else .ok
  else if rk.mode = SAR_MODE_STREAM then
    if rk.algorithm = SAR_ALG_RC4 then
      if rk.keyLength = 0 then .declinedStateOnly else .ok
    else if isChachaAlg rk.algorithm = false ∧ isSalsaAlg rk.algorithm = false then .declinedKey
    else if rk.ivLength = 0 then .declinedIv
    else .ok
  else .declinedKey

/-! ### One range under each mode

The block loops differ in what a block is replaced by; the positions of a loop are file
positions, and `base` is the file position of the two buffers. -/

/-- Pieces `0`, `1`, … of a loop written `n` bytes apart; `none` skips one. -/
def fillBlocks (n count first : Nat) (piece : Nat → Option (List UInt8)) (pt : Nat → UInt8) :
    Nat → UInt8 :=
  (List.range count).foldl (fun pt k =>
    match piece k with
    | none => pt
    | some bytes => writeData pt (first + k * n) bytes) pt

def recBlocks (n : Nat) (block : Nat → Option (Vector UInt8 n)) (pt : Nat → UInt8)
    (start length base : Nat) : Nat → UInt8 :=
  fillBlocks n (length / n) (start - base)
    (fun k => (block (start + k * n)).map Vector.toList) pt

def ctBlock (n : Nat) (ct : Memory) (base o : Nat) : Vector UInt8 n :=
  blockAt n ct ((o : Int) - base)

/-- A loop over all blocks of the range, the last one possibly cut, with the keystream
    block at each position. -/
def recKeystream (n : Nat) (ks : Nat → Vector UInt8 n) (ct : Memory) (pt : Nat → UInt8)
    (start length base : Nat) : Nat → UInt8 :=
  fillBlocks n ((length + n - 1) / n) (start - base)
    (fun k => some ((xorBytes (ctBlock n ct base (start + k * n)) (ks (start + k * n))).toList.take
      (length - k * n))) pt

def policyPosition (policy : CounterPolicy) (origin o : Nat) : Nat :=
  match policy with
  | .continuous => o
  | .resetPerChunk => o - origin

section

variable {n : Nat} (bc : BlockCipher n) (rk : RecoveryKey) (policy : CounterPolicy)
  (ct : Memory) (pt : Nat → UInt8) (origin start length base : Nat)

def recEcb : Nat → UInt8 :=
  recBlocks n (fun o => some (bc.decrypt (ctBlock n ct base o))) pt start length base

/-- `range_iv_block`: what the block at a position is chained to. -/
def rangeIvBlock (n o : Nat) : Option (Vector UInt8 n) :=
  if o = 0 ∨ (policy = .resetPerChunk ∧ o = origin) then
    if rk.ivLength.toNat < n then none else some (rk.ivBlock n)
  else some (blockAt n ct ((o : Int) - n - base))

def recCbc : Nat → UInt8 :=
  recBlocks n (fun o => (rangeIvBlock rk policy ct origin base n o).map fun prev =>
    xorBytes (bc.decrypt (ctBlock n ct base o)) prev) pt start length base

def recCfb : Nat → UInt8 :=
  fillBlocks n ((length + n - 1) / n) (start - base)
    (fun k => (rangeIvBlock rk policy ct origin base n (start + k * n)).map fun prev =>
      (xorBytes (ctBlock n ct base (start + k * n)) (bc.encrypt prev)).toList.take
        (length - k * n)) pt

def ofbBlock (rk : RecoveryKey) (blk : Nat) : Vector UInt8 n :=
  bc.encrypt^[blk] (bc.encrypt (rk.ivBlock n))

def recOfb : Nat → UInt8 :=
  recKeystream n (fun o => bc.encrypt^[(o - start) / n]
    (ofbBlock bc rk (policyPosition policy origin start / n))) ct pt start length base

/-- The layout of a tag; `precheck` accepts only tags of the table. -/
def tagLayout (tag : UInt8) : CtrLayout := SAR_CTR_LAYOUTS.getD (tag.toNat - 1) ⟨0, 0, false, 0⟩

def recCtrBlock (rk : RecoveryKey) (blk : Nat) : Vector UInt8 n :=
  let L := tagLayout rk.ctrLayoutTag
  bc.encrypt (sarCtrFieldWrite (rk.ivBlock n) L (sarCtrFieldRead rk.iv L + UInt64.ofNat blk))

def recCtr : Nat → UInt8 :=
  recKeystream n (fun o => recCtrBlock bc rk (policyPosition policy origin o / n))
    ct pt start length base

/-- The loop of `rec_stream`, from position `o` on: to the end of a keystream block at most. -/
def recStreamLoop (stop o : Nat) (pt : Nat → UInt8) : Nat → UInt8 :=
  if o < stop then
    let eo := policyPosition policy origin o
    let ks := streamBlock rk (UInt64.ofNat (eo / 64))
    let within := eo % 64
    let span := min (64 - within) (stop - o)
    recStreamLoop stop (o + span) (writeData pt (o - base) ((List.range span).map fun i =>
      ct ((o + i : Nat) - (base : Int)) ^^^ ks.toList.getD (within + i) 0))
  else pt
termination_by stop - o
decreasing_by
  have := Nat.mod_lt (policyPosition policy origin o) (show 0 < 64 by decide)
  omega

def recStream : Nat → UInt8 := recStreamLoop rk policy ct origin base (start + length) start pt

/-- `rec_rc4`, which does not know a base: its caller makes sure that it is zero. -/
def recRc4 : Nat → UInt8 :=
  let skip := match policy with
    | .continuous => start
    | .resetPerChunk => 0
  let r := rc4Ksa rk.key.toList rk.keyLength.toNat
  writeData pt start ((List.range length).map fun i =>
    ct ((start + i : Nat) : Int) ^^^ r.keystream (skip + i))

end

def overwrite (buf : Vector UInt8 16) (block : List UInt8) : Vector UInt8 16 :=
  Vector.ofFn fun i => block.getD i.val (buf.get i)

/-- One block of `rec_xts`: the tweak and the decrypted block as the buffers hold them. -/
def recXtsBlock (bc1 bc2 : AnyCipher) (dataUnit : UInt64) (ct : Memory) (base o : Nat)
    (buf : XtsBuffers) : XtsBuffers :=
  let unit := UInt64.ofNat o / dataUnit
  let blockInUnit := ((UInt64.ofNat o % dataUnit) / 16).toNat
  let tweak := gf128MulAlpha^[blockInUnit]
    (overwrite buf.tweak (bc2.2.encrypt (bytesAt bc2.1 (leNat 8 unit.toNat) 0)).toList)
  let tmp := xorBytes (ctBlock 16 ct base o) tweak
  ⟨tweak, overwrite buf.dec (bc1.2.decrypt (bytesAt bc1.1 tmp.toList 0)).toList⟩

def recXts (bc1 bc2 : AnyCipher) (dataUnit : UInt64) (stack : XtsBuffers) (ct : Memory)
    (pt : Nat → UInt8) (start length base : Nat) : Nat → UInt8 :=
  ((List.range (length / 16)).foldl (fun (s : (Nat → UInt8) × XtsBuffers) k =>
    let buf := recXtsBlock bc1 bc2 dataUnit ct base (start + k * 16) s.2
    (writeData s.1 (start - base + k * 16) (xorBytes buf.dec buf.tweak).toList, buf))
    (pt, stack)).1

/-! ### The dispatcher -/

inductive Ciphers where
  | stream
  | block (bc : AnyCipher)
  | xts (bc1 bc2 : AnyCipher)

def buildCiphers (suite : CipherSuite) (rk : RecoveryKey) : Option Ciphers :=
  if rk.mode = SAR_MODE_XTS then
    (makeXts suite rk.algorithm rk.key.toList rk.keyLength.toNat).map fun bcs => .xts bcs.1 bcs.2
  else if isBlockAlg rk.algorithm then
    (makeBlock suite rk.algorithm rk.key.toList rk.keyLength.toNat).map .block
  else some .stream

/-- `recover_one_range`, called with a key that `precheck` has accepted and the ciphers
    set up for it. -/
def recoverOneRange (stack : XtsBuffers) (rk : RecoveryKey) (policy : CounterPolicy)
    (ciphers : Ciphers) (ct : Memory) (pt : Nat → UInt8) (origin start length base : Nat) :
    Nat → UInt8 :=
  match ciphers with
  | .block ⟨_, bc⟩ =>
    if rk.mode = SAR_MODE_ECB then recEcb bc ct pt start length base
    else if rk.mode = SAR_MODE_CBC then recCbc bc rk policy ct pt origin start length base
    else if rk.mode = SAR_MODE_CFB then recCfb bc rk policy ct pt origin start length base
    else if rk.mode = SAR_MODE_OFB then recOfb bc rk policy ct pt origin start length base
    else if rk.mode = SAR_MODE_CTR then recCtr bc rk policy ct pt origin start length base
    else pt
  | .xts bc1 bc2 => recXts bc1 bc2 rk.modeParams stack ct pt start length base
  | .stream =>
    if rk.mode = SAR_MODE_STREAM then
      if rk.algorithm = SAR_ALG_RC4 then recRc4 rk policy ct pt start length
      else recStream rk policy ct pt origin start length base
    else pt

def RecoveryKey.IsRc4 (rk : RecoveryKey) : Prop :=
  rk.mode = SAR_MODE_STREAM ∧ rk.algorithm = SAR_ALG_RC4

instance (rk : RecoveryKey) : Decidable rk.IsRc4 := inferInstanceAs (Decidable (_ ∧ _))

section

variable (suite : CipherSuite) (stack : XtsBuffers) (rk : RecoveryKey)

def sarRecoverChunk (policy : CounterPolicy) (ct : Memory) (pt : Nat → UInt8)
    (origin start length base fileSize : Nat) : RecoverStatus × (Nat → UInt8) :=
  if length = 0 then (.ok, pt)
  else if start < origin ∨ start > fileSize ∨ fileSize - start < length then (.invalid, pt)
  else if precheck rk ≠ .ok then (precheck rk, pt)
  else if rk.IsRc4 then (.declinedGeometry, pt)
  else
    match buildCiphers suite rk with
    | none => (.declinedKey, pt)
    | some ciphers => (.ok, recoverOneRange stack rk policy ciphers ct pt origin start length base)

def recoverRangesInto (ranges : List FileRange) (policy : CounterPolicy) (ct : Memory)
    (pt : Nat → UInt8) (fileSize base : Nat) : RecoverStatus × (Nat → UInt8) :=
  if precheck rk ≠ .ok then (precheck rk, pt)
  else if base ≠ 0 ∧ rk.IsRc4 then (.declinedGeometry, pt)
  else
    match buildCiphers suite rk with
    | none => (.declinedKey, pt)
    | some ciphers =>
      (.ok, ranges.foldl (fun pt r =>
        let start := r.offset.toNat
        let length := r.length.toNat
        if start > fileSize ∨ fileSize - start < length then pt
        else recoverOneRange stack rk policy ciphers ct pt start start length base) pt)

/-- `sar_recover_buffer`; without a geometry the whole file is one range. -/
def sarRecoverBuffer (geom : Option Geometry) (ct : Memory) (pt : Nat → UInt8)
    (fileSize : UInt64) : RecoverStatus × (Nat → UInt8) :=
  let g := geom.getD ⟨.full, .continuous⟩
  match sarGeometryExpand g.mode fileSize SAR_MAX_RANGES with
  | none => (.declinedGeometry, pt)
  | some ranges =>
    recoverRangesInto suite stack rk ranges g.counterPolicy ct
      (fun i => if i < fileSize.toNat then ct i else pt i) fileSize.toNat 0

def sarRecoverRange (ct : Memory) (pt : Nat → UInt8) (fileSize : Nat) (range : FileRange) :
    RecoverStatus × (Nat → UInt8) :=
  if range.length = 0 then (.ok, pt)
  else recoverRangesInto suite stack rk [range] .continuous ct pt fileSize 0

end

end SemanticsAr
