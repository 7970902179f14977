import SemanticsAr.ConvictRecover
import SemanticsAr.Gate
import SemanticsAr.Keystore
import SemanticsAr.Operations
import SemanticsAr.Provenance

/-!
# The commit of a captured key

From a write to the ledger: `SarCaptureWorker` hands the first bytes of a write and what they
replace to `sar_capture_run`, which makes a ledger record of a conviction, and
`SarCaptureCommit` appends the record and discards the originals that lie in the range of the
write.  The notification of the service is left out.
-/

namespace SemanticsAr

variable {input : EngineInput} {gateScratch : GateMap} {macKey : Mac} {gate : GateResult}
  {rec : KeystoreRecord} {v : Verdict} {suite : CipherSuite}

/-! ### Ledger records -/

def sarKeystoreKeyId (macKey : Mac) (algorithm mode keyLength : UInt32)
    (keyBytes : Vector UInt8 SEMANTICS_AR_MAX_KEY_BYTES) : Vector UInt8 SEMANTICS_AR_KEY_ID_SIZE :=
  sarHmacSha256 macKey.toList (0x01 :: (FixedCodec.u32.put algorithm ++ FixedCodec.u32.put mode ++
    FixedCodec.u32.put keyLength ++ keyBytes.toList.take keyLength.toNat))

/-- `sar_keystore_record_init`; of a sample as much as `SEMANTICS_AR_SAMPLE_TAG_MAX` bytes is
    tagged. -/
def sarKeystoreRecordInit (macKey : Mac) (verdict : Verdict) (provenancePath : Option ProvPath)
    (provenanceOffset provenanceLength : UInt64) (sample : List UInt8) (sampleLen : UInt32)
    (sampleOffset captureTime actorStartKey : UInt64) : KeystoreRecord :=
  let keyBytes := bytesAt _ (verdict.key.toList.take verdict.keyLength.toNat) 0
  let sl := min sampleLen (UInt32.ofNat SEMANTICS_AR_SAMPLE_TAG_MAX)
  { algorithm := verdict.algorithm
    mode := verdict.mode
    keyLength := verdict.keyLength
    keyBytes := keyBytes
    iv := bytesAt _ (verdict.iv.toList.take verdict.ivLength.toNat) 0
    ivLength := if verdict.ivLength.toNat > SEMANTICS_AR_IV_MAX then 24 else verdict.ivLength
    ctrLayoutTag := verdict.ctrLayoutTag
    modeParams := verdict.modeParams
    provenanceOffset := provenanceOffset
    provenanceLength := provenanceLength
    provenancePath := (provenancePath.map copyPath).getD (Vector.replicate _ 0)
    sampleOffset := sampleOffset
    captureTime := captureTime
    actorStartKey := actorStartKey
    sampleLength := sl
    sampleTag := if sampleLen > 0 then sarSampleTag (sample.take sl.toNat) else zeroMac
    keyId := sarKeystoreKeyId macKey verdict.algorithm verdict.mode verdict.keyLength keyBytes }

theorem keyFromRecord_recordInit (h : v.Packed) (path : Option ProvPath)
    (offset length : UInt64) (sample : List UInt8) (sampleLen : UInt32)
    (sampleOffset captureTime actorStartKey : UInt64) :
    sarRecoveryKeyFromRecord (sarKeystoreRecordInit macKey v path offset length sample sampleLen
      sampleOffset captureTime actorStartKey) = v := by
  calc sarRecoveryKeyFromRecord (sarKeystoreRecordInit macKey v path offset length sample sampleLen
      sampleOffset captureTime actorStartKey)
      = sarRecoveryKeyFromVerdict (sarRecoveryKeyFromVerdict v) := rfl
    _ = v := by rw [keyFromVerdict_packed h, keyFromVerdict_packed h]

/-! ### The capture of a write -/

/-- `sar_capture_request_t`. -/
structure CaptureRequest where
  plaintext : Option (List UInt8)
  ciphertext : Option (List UInt8)
  sampleSize : UInt32
  fileOffset : UInt64
  candidates : List (Vector UInt8 SAR_CANDIDATE_SIZE)
  scanBuffer : List UInt8
  provenancePath : Option ProvPath
  provenanceOffset : UInt64
  provenanceLength : UInt64
  captureTime : UInt64
  actorStartKey : UInt64

/-- `sar_capture_outcome_t` with what `sar_capture_result_t` holds for it. -/
inductive CaptureOutcome where
  | invalid
  | skipGate (gate : GateResult)
  | noConviction (gate : GateResult)
  | convicted (gate : GateResult) (verdict : Verdict) (record : KeystoreRecord)

def CaptureRequest.engineInput (req : CaptureRequest) : EngineInput where
  candidates := req.candidates
  scanBuffer := req.scanBuffer
  plaintext := req.plaintext
  ciphertext := req.ciphertext
  sampleSize := req.sampleSize
  fileOffset := req.fileOffset

def sarCaptureRun (suite : CipherSuite) (gateScratch : GateMap) (macKey : Mac)
    (req : CaptureRequest) : CaptureOutcome :=
  match req.plaintext, req.ciphertext with
  | some plaintext, some ciphertext =>
    if req.sampleSize.toNat < SAR_CANDIDATE_SIZE then .invalid
    else
      let gate := (sarGateClassify gateScratch plaintext ciphertext req.sampleSize.toNat).2
      if gate.candidate = false then .skipGate gate
      else
        match sarConvict suite req.engineInput with
        | none => .noConviction gate
        | some verdict =>
          .convicted gate verdict
            (sarKeystoreRecordInit macKey verdict req.provenancePath req.provenanceOffset
              req.provenanceLength plaintext req.sampleSize req.fileOffset req.captureTime
              req.actorStartKey)
  | _, _ => .invalid

/-- A write and what `SAR_CAPTURE_WORK` has of it: the file offset, all the data, the first
    bytes that it replaces, the snapshot of the writer's memory and the path. -/
structure CapturedWrite where
  offset : UInt64
  data : List UInt8
  preImage : List UInt8
  scan : List UInt8
  path : ProvPath
  captureTime : UInt64
  actorStartKey : UInt64
  length_lt : data.length < 2 ^ 32
  preImage_le : preImage.length ≤ SAR_CAPTURE_BUFFER_BYTES.toNat

variable {w : CapturedWrite}

namespace CapturedWrite

/-- `SarCaptureCopyWritten`. -/
def written (w : CapturedWrite) : List UInt8 := w.data.take SAR_CAPTURE_BUFFER_BYTES.toNat

/-- The request of `SarCaptureWorker`. -/
def request (w : CapturedWrite) : CaptureRequest where
  plaintext := some w.preImage
  ciphertext := some w.written
  sampleSize := UInt32.ofNat (min w.preImage.length w.written.length)
  fileOffset := w.offset
  candidates := []
  scanBuffer := w.scan
  provenancePath := some w.path
  provenanceOffset := w.offset
  provenanceLength := UInt64.ofNat w.data.length
  captureTime := w.captureTime
  actorStartKey := w.actorStartKey

def record (w : CapturedWrite) (macKey : Mac) (v : Verdict) : KeystoreRecord :=
  sarKeystoreRecordInit macKey v w.request.provenancePath w.request.provenanceOffset
    w.request.provenanceLength w.preImage w.request.sampleSize w.request.fileOffset
    w.request.captureTime w.request.actorStartKey

def tagged (w : CapturedWrite) : Nat :=
  min (min w.preImage.length w.written.length) SEMANTICS_AR_SAMPLE_TAG_MAX

def LeftIn (w : CapturedWrite) (target : TargetFile) : Prop :=
  (target.bytes.drop w.offset.toNat).take w.data.length = w.data

instance (w : CapturedWrite) (target : TargetFile) : Decidable (w.LeftIn target) :=
  inferInstanceAs (Decidable (_ = _))

theorem tagged_le : w.tagged ≤ w.data.length := by
  have hwritten : w.written.length ≤ w.data.length := List.length_take_le' _ _
  unfold tagged
  omega

theorem tagged_le_max : w.tagged ≤ SEMANTICS_AR_SAMPLE_TAG_MAX :=
  Nat.min_le_right _ _

/-- The sample's length is a `ULONG` of at most `SAR_CAPTURE_BUFFER_BYTES`. -/
theorem toNat_sampleSize : w.request.sampleSize.toNat = min w.preImage.length w.written.length := by
  have hle := w.preImage_le
  have hmax : SAR_CAPTURE_BUFFER_BYTES.toNat < UInt32.size := by decide
  exact UInt32.toNat_ofNat_of_lt' (by omega)

theorem LeftIn.end_le {target : TargetFile} (h : w.LeftIn target) (hpos : 0 < w.data.length) :
    w.offset.toNat + w.data.length ≤ target.bytes.length := by
  have hlen := congrArg List.length h
  rw [List.length_take, List.length_drop] at hlen
  omega

structure Recorded (w : CapturedWrite) (suite : CipherSuite) (v : Verdict) (rec : KeystoreRecord) :
    Prop where
  convicted : sarConvict suite w.request.engineInput = some v
  key : sarRecoveryKeyFromRecord rec = v
  path : rec.provenancePath = copyPath w.path
  offset : rec.provenanceOffset = w.offset
  length : rec.provenanceLength.toNat = w.data.length
  sampleOffset : rec.sampleOffset = w.offset
  sampleLength : rec.sampleLength.toNat = w.tagged
  sampleTag : rec.sampleTag = sarSampleTag (w.preImage.take w.tagged)
  sampled : SAR_CANDIDATE_SIZE ≤ w.tagged

end CapturedWrite

theorem rc4StateVerdict_packed : rc4StateVerdict.Packed := ⟨by decide, by decide, by decide⟩

theorem sarConvict_packed (h : sarConvict suite input = some v) : v.Packed := by
  rcases sarConvict_reported h with hkey | ⟨rfl, -⟩
  · exact hkey.packed
  · exact rc4StateVerdict_packed

theorem sarConvict_usable (h : sarConvict suite input = some v) (hrc4 : v.algorithm ≠ SAR_ALG_RC4) :
    v.Usable suite := by
  rcases sarConvict_reported h with ⟨-, hfound⟩ | ⟨rfl, -⟩
  · exact ⟨hfound.precheck_ok, fun hkey => hrc4 hkey.2, hfound.ciphers⟩
  · exact absurd rfl hrc4

theorem RecoveryKey.Usable.ne_rc4 {rk : RecoveryKey} (h : rk.Usable suite) :
    rk.algorithm ≠ SAR_ALG_RC4 := by
  intro halg
  have hstream : rk.mode ≠ SAR_MODE_STREAM := fun hmode => h.2.1 ⟨hmode, halg⟩
  have hblock : isBlockAlg SAR_ALG_RC4 = false := by decide
  have hdeclined : precheck rk = .declinedKey := by
    simp only [precheck, halg, hblock, hstream, if_true, if_false, ite_self]
  rw [h.1] at hdeclined
  cases hdeclined

theorem sarCaptureRun_convicted_iff :
    sarCaptureRun suite gateScratch macKey w.request = .convicted gate v rec ↔
      SAR_CANDIDATE_SIZE ≤ w.request.sampleSize.toNat ∧
      gate = (sarGateClassify gateScratch w.preImage w.written w.request.sampleSize.toNat).2 ∧
      gate.candidate = true ∧ sarConvict suite w.request.engineInput = some v ∧
      rec = w.record macKey v := by
  have hrun : sarCaptureRun suite gateScratch macKey w.request =
      if w.request.sampleSize.toNat < SAR_CANDIDATE_SIZE then .invalid
      else
        let gate := (sarGateClassify gateScratch w.preImage w.written w.request.sampleSize.toNat).2
        if gate.candidate = false then .skipGate gate
        else
          match sarConvict suite w.request.engineInput with
          | none => .noConviction gate
          | some verdict => .convicted gate verdict (w.record macKey verdict) := rfl
  rw [hrun]
  by_cases hsize : w.request.sampleSize.toNat < SAR_CANDIDATE_SIZE
  · rw [if_pos hsize]
    exact iff_of_false nofun fun h => absurd h.1 (Nat.not_le.mpr hsize)
  rw [if_neg hsize]
  by_cases hgate : (sarGateClassify gateScratch w.preImage w.written
      w.request.sampleSize.toNat).2.candidate = false
  · rw [if_pos hgate]
    refine iff_of_false nofun ?_
    rintro ⟨-, rfl, hpass, -⟩
    rw [hgate] at hpass
    cases hpass
  rw [if_neg hgate]
  cases sarConvict suite w.request.engineInput with
  | none => exact iff_of_false nofun fun h => by cases h.2.2.2.1
  | some verdict =>
    constructor
    · intro h
      injection h with hg hv hrec
      subst hg hv hrec
      exact ⟨Nat.not_lt.mp hsize, rfl, Bool.eq_true_of_not_eq_false hgate, rfl, rfl⟩
    · rintro ⟨-, rfl, -, hv, rfl⟩
      cases hv
      rfl

theorem sarCaptureRun_recorded
    (h : sarCaptureRun suite gateScratch macKey w.request = .convicted gate v rec) :
    w.Recorded suite v rec := by
  obtain ⟨hsample, -, -, hconvict, rfl⟩ := sarCaptureRun_convicted_iff.mp h
  have hsize := w.toNat_sampleSize
  have htagged : (min w.request.sampleSize (UInt32.ofNat SEMANTICS_AR_SAMPLE_TAG_MAX)).toNat =
      w.tagged := by
    rw [UInt32.toNat_min, hsize]
    rfl
  have hlen : (UInt64.ofNat w.data.length).toNat = w.data.length :=
    UInt64.toNat_ofNat_of_lt' (w.length_lt.trans (by decide))
  have hpos : w.request.sampleSize > 0 := by
    rw [gt_iff_lt, UInt32.lt_iff_toNat_lt]
    exact Nat.lt_of_lt_of_le (by decide) hsample
  refine ⟨hconvict, keyFromRecord_recordInit (sarConvict_packed hconvict) .., rfl, rfl, hlen, rfl,
    htagged, ?_, ?_⟩
  · simp only [CapturedWrite.record, sarKeystoreRecordInit, if_pos hpos, htagged]
  · rw [hsize] at hsample
    exact Nat.le_min.mpr ⟨hsample, by decide⟩

/-! ### The commit -/

/-- The reconcile in `SarCaptureCommit`, which is made unless the ledger is full. -/
def commitReconcile (record : KeystoreRecord) (K : Keystore) (P : Preserve) : Preserve :=
  if (sarKeystoreAppend K.records K.recordCapacity record).2 = .full then P
  else
    sarPreserveReconcileRange record.provenancePath record.provenanceOffset
      record.provenanceLength P

/-- `SarCaptureCommit` on the ledger and the store. -/
def sarCaptureCommit (record : KeystoreRecord) (startKey : UInt64) (K : Keystore) (P : Preserve) :
    Keystore × Preserve :=
  let appended := sarKeystoreAppend K.records K.recordCapacity record
  ({ K with records := appended.1, dirty := K.dirty || decide (appended.2 = .appended) },
    sarPreservePromoteActor startKey (commitReconcile record K P))

def Discards (record : KeystoreRecord) (K : Keystore) (P : Preserve) (r : PreserveRecord) : Prop :=
  r ∈ P.records ∧ r ∉ (commitReconcile record K P).records

theorem discards_iff {record : KeystoreRecord} {K : Keystore} {P : Preserve} {r : PreserveRecord} :
    Discards record K P r ↔ r ∈ P.records ∧ P.ready = true ∧
      (sarKeystoreAppend K.records K.recordCapacity record).2 ≠ .full ∧
      reconcileRemoves record.provenancePath record.provenanceOffset record.provenanceLength r =
        true := by
  refine and_congr_right fun hr => ?_
  unfold commitReconcile sarPreserveReconcileRange
  by_cases hfull : (sarKeystoreAppend K.records K.recordCapacity record).2 = .full
  · simp [hfull, hr]
  by_cases hready : P.ready = false
  · simp [hfull, hready, hr]
  rw [if_neg hfull, if_neg hready]
  constructor
  · intro hgone
    refine ⟨Bool.eq_true_of_not_eq_false hready, hfull, ?_⟩
    by_contra hkeep
    rw [Bool.not_eq_true] at hkeep
    refine hgone (List.mem_filter.mpr ⟨mem_reapLoop.mpr ⟨hr, ?_⟩, by simp [hkeep]⟩)
    rw [hkeep, Bool.and_false]
  · rintro ⟨-, -, hremoves⟩ hmem
    have hkeep := (List.mem_filter.mp hmem).2
    rw [hremoves] at hkeep
    cases hkeep

end SemanticsAr
