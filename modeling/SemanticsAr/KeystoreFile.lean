import SemanticsAr.StoreFile

/-!
# The captured-key ledger file

`sar_keystore_serialize` and `sar_keystore_verify` of `engine/src/keystore.c`
and the loader and persister of `engine/src/keystore_mgr.c` above them.  The
ledger has the layout of the preservation index, with two differences that this
module follows through: its chain starts from the zero MAC, so the head MAC
does not commit to generation and record count, and the announced size is
compared modulo `2 ^ 64` without a bound on the count first.
-/

namespace SemanticsAr

open ChainedLog

variable {buf : List UInt8} {macKey : Mac} {records : List KeystoreRecord} {generation : UInt64}
  {anchor : Option KeystoreAnchor}

/-- `sar_ks_status_t`. -/
inductive KsStatus where
  | ok
  | invalidArg
  | full
  | bufferTooSmall
  | badMagic
  | truncated
  | recordMac
  | countMismatch
  | rollback
deriving DecidableEq, Repr

/-- `sar_ksm_status_t`. -/
inductive KsmStatus where
  | ok
  | empty
  | invalidArg
  | corrupt
  | rollback
  | overflow
  | bufferTooSmall
deriving DecidableEq, Repr

/-! ### The model -/

def zeroMac : Mac := Vector.replicate SEMANTICS_AR_MAC_SIZE 0

def sarKeystoreSerializedSize (count : UInt64) : Nat :=
  (HEADER_SIZE + count.toNat * KEYSTORE_DISK_RECORD_SIZE) % 2 ^ 64

def ledgerHead (macKey : Mac) (records : List KeystoreRecord) : Mac :=
  chainHead keystoreRecordCodec macCodec (macOf macKey) zeroMac records

def ledgerBytes (macKey : Mac) (records : List KeystoreRecord) (generation : UInt64) : List UInt8 :=
  fileBytes keystoreRecordCodec SEMANTICS_AR_KEYSTORE_MAGIC macKey zeroMac records generation

def sarKeystoreSerialize (macKey : Mac) (records : List KeystoreRecord) (generation : UInt64)
    (outCap : UInt64) : Except KsStatus (List UInt8) :=
  if outCap.toNat < sarKeystoreSerializedSize (UInt64.ofNat records.length) then
    .error .bufferTooSmall
  else
    .ok (ledgerBytes macKey records generation)

/-- The anchor test that ends `sar_keystore_verify`. -/
def ksAnchorAccepts (anchor : Option KeystoreAnchor) (hdr : StoreHeader) : Bool :=
  match anchor with
  | none => true
  | some a =>
    if a.present then
      if hdr.generation ≠ a.generation then false
      else if hdr.headMac ≠ a.headMac then false
      else true
    else true

/-- `sar_keystore_verify` behind the header read. -/
def sarKeystoreVerifyBody (buf : List UInt8) (macKey : Mac) (anchor : Option KeystoreAnchor)
    (hdr : StoreHeader) : Except ReadFault (Except KsStatus UInt64) :=
  if hdr.magic ≠ SEMANTICS_AR_KEYSTORE_MAGIC then
    .ok (.error .badMagic)
  else if buf.length < sarKeystoreSerializedSize hdr.recordCount then
    .ok (.error .truncated)
  else if buf.length ≠ sarKeystoreSerializedSize hdr.recordCount then
    .ok (.error .countMismatch)
  else do
    if ← checkRecords keystoreRecordCodec macKey zeroMac buf hdr then
      if ksAnchorAccepts anchor hdr then .ok (.ok hdr.recordCount)
      else .ok (.error .rollback)
    else
      .ok (.error .recordMac)

/-- `sar_keystore_verify`; a null buffer is the empty one. -/
def sarKeystoreVerify (buf : List UInt8) (macKey : Mac) (anchor : Option KeystoreAnchor) :
    Except ReadFault (Except KsStatus UInt64) :=
  if buf.length < HEADER_SIZE then .ok (.error .truncated)
  else do
    let hdr := headerCodec.get (← readAt buf 0 HEADER_SIZE)
    sarKeystoreVerifyBody buf macKey anchor hdr

/-- What `sar_ksm_load` hands back: the records, the new anchor and
    `sar_ksm_load_result_t`. -/
structure KsmLoad where
  records : List KeystoreRecord
  anchorOut : KeystoreAnchor
  generation : UInt64
  anchorAdvanced : Bool

/-- The generation tests of `sar_ksm_load`: `none` is a rollback, `some` says
    whether the anchor advances. -/
def ksmAnchorAdvances (anchor : Option KeystoreAnchor) (hdr : StoreHeader) : Option Bool :=
  match anchor with
  | none => some true
  | some a =>
    if a.present then
      if hdr.generation < a.generation then none
      else if hdr.generation = a.generation then
        if hdr.headMac ≠ a.headMac then none else some false
      else some true
    else some true

/-- `sar_ksm_load`.  The ledger is verified without the anchor, which is then
    compared with the header. -/
def sarKsmLoad (buf : List UInt8) (macKey : Mac) (anchor : Option KeystoreAnchor)
    (recordsCapacity : UInt64) : Except ReadFault (Except KsmStatus KsmLoad) :=
  if buf.length = 0 then
    match anchor with
    | some a =>
      if a.present ∧ 0 < a.generation then .ok (.error .rollback) else .ok (.error .empty)
    | none => .ok (.error .empty)
  else do
    match ← sarKeystoreVerify buf macKey none with
    | .error _ => .ok (.error .corrupt)
    | .ok count =>
      if recordsCapacity < count then .ok (.error .overflow)
      else
        let hdr := headerCodec.get (← readAt buf 0 HEADER_SIZE)
        match ksmAnchorAdvances anchor hdr with
        | none => .ok (.error .rollback)
        | some advanced =>
          let records ← readLog keystoreRecordCodec macCodec buf count.toNat HEADER_SIZE
          .ok (.ok ⟨records, ⟨true, hdr.generation, hdr.headMac⟩, hdr.generation, advanced⟩)

/-- `sar_ksm_persist`: the serialized ledger and the anchor for it. -/
def sarKsmPersist (macKey : Mac) (records : List KeystoreRecord) (prevGeneration : UInt64)
    (outCap : UInt64) : Except KsmStatus (List UInt8 × KeystoreAnchor) :=
  match sarKeystoreSerialize macKey records (prevGeneration + 1) outCap with
  | .error .bufferTooSmall => .error .bufferTooSmall
  | .error _ => .error .corrupt
  | .ok buf => .ok (buf, ⟨true, prevGeneration + 1, (headerOf buf).headMac⟩)

/-! ### Reads stay in the buffer -/

def wholeRecords (buf : List UInt8) : Nat :=
  (buf.length - HEADER_SIZE) / KEYSTORE_DISK_RECORD_SIZE

theorem sarKeystoreVerify_of_le (h : HEADER_SIZE ≤ buf.length) :
    sarKeystoreVerify buf macKey anchor =
      sarKeystoreVerifyBody buf macKey anchor (headerOf buf) := by
  rw [sarKeystoreVerify, if_neg (by omega), readAt_of_le (by omega)]
  rfl

/-- The inputs on which the announced size wraps around to the buffer's length
    and the records that are there pass their checks. -/
def SizeWraps (buf : List UInt8) (macKey : Mac) : Prop :=
  HEADER_SIZE ≤ buf.length ∧ (headerOf buf).magic = SEMANTICS_AR_KEYSTORE_MAGIC ∧
    buf.length = sarKeystoreSerializedSize (headerOf buf).recordCount ∧
    wholeRecords buf < (headerOf buf).recordCount.toNat ∧
    ∃ head, checkLog keystoreRecordCodec macCodec (macOf macKey) buf (wholeRecords buf)
      HEADER_SIZE zeroMac = .ok (some head)

theorem wholeRecords_spec (h : HEADER_SIZE ≤ buf.length) :
    HEADER_SIZE + wholeRecords buf * KEYSTORE_DISK_RECORD_SIZE ≤ buf.length ∧
      buf.length < HEADER_SIZE + (wholeRecords buf + 1) * KEYSTORE_DISK_RECORD_SIZE := by
  simp only [wholeRecords, HEADER_SIZE, KEYSTORE_DISK_RECORD_SIZE] at *
  omega

theorem sarKeystoreVerify_fault_iff (buf : List UInt8) (macKey : Mac)
    (anchor : Option KeystoreAnchor) :
    (∃ f, sarKeystoreVerify buf macKey anchor = .error f) ↔ SizeWraps buf macKey := by
  by_cases hshort : buf.length < HEADER_SIZE
  · constructor
    · rintro ⟨f, h⟩
      rw [sarKeystoreVerify, if_pos hshort] at h
      simp at h
    · rintro ⟨hlen, -⟩
      omega
  have hlen : HEADER_SIZE ≤ buf.length := by omega
  obtain ⟨hk, hk'⟩ := wholeRecords_spec hlen
  have hfault : (∃ f, checkRecords keystoreRecordCodec macKey zeroMac buf (headerOf buf) =
      .error f) ↔ wholeRecords buf < (headerOf buf).recordCount.toNat ∧
        ∃ head, checkLog keystoreRecordCodec macCodec (macOf macKey) buf (wholeRecords buf)
          HEADER_SIZE zeroMac = .ok (some head) :=
    (checkRecords_fault_iff keystoreRecordCodec macKey zeroMac).trans
      (checkLog_fault_iff keystoreRecordCodec macCodec (macOf macKey) hk hk')
  rw [sarKeystoreVerify_of_le hlen, sarKeystoreVerifyBody]
  constructor
  · rintro ⟨f, h⟩
    rcases hrec : checkRecords keystoreRecordCodec macKey zeroMac buf (headerOf buf) with f | _ | _
    all_goals
      rw [hrec] at h
      split_ifs at h with hmagic _ hsize <;> cases h
    all_goals exact ⟨hlen, not_not.mp hmagic, not_not.mp hsize, hfault.mp ⟨f, hrec⟩⟩
  · rintro ⟨-, hmagic, hsize, hover⟩
    obtain ⟨f, hf⟩ := hfault.mpr hover
    rw [if_neg (not_not.mpr hmagic), if_neg (by omega), if_neg (not_not.mpr hsize), hf]
    exact ⟨f, rfl⟩

/-! ### Exact acceptance -/

@[simp] theorem length_ledgerBytes (macKey : Mac) (records : List KeystoreRecord)
    (generation : UInt64) :
    (ledgerBytes macKey records generation).length =
      HEADER_SIZE + records.length * KEYSTORE_DISK_RECORD_SIZE := by
  rw [ledgerBytes, length_fileBytes, keystoreRecordCodec_pair_width]

theorem headerOf_ledgerBytes : headerOf (ledgerBytes macKey records generation) =
      fileHeader keystoreRecordCodec SEMANTICS_AR_KEYSTORE_MAGIC macKey zeroMac records
        generation :=
  headerOf_fileBytes _ _ _ _ _ _

theorem sarKeystoreVerify_ok_tests {count : UInt64} :
    sarKeystoreVerify buf macKey none = .ok (.ok count) ↔
      HEADER_SIZE ≤ buf.length ∧ (headerOf buf).magic = SEMANTICS_AR_KEYSTORE_MAGIC ∧
      (headerOf buf).recordCount = count ∧
      buf.length = sarKeystoreSerializedSize count ∧
      checkRecords keystoreRecordCodec macKey zeroMac buf (headerOf buf) = .ok true := by
  by_cases hshort : buf.length < HEADER_SIZE
  · constructor
    · intro h
      rw [sarKeystoreVerify, if_pos hshort] at h
      simp at h
    · rintro ⟨hlen, -⟩
      omega
  have hlen : HEADER_SIZE ≤ buf.length := by omega
  rw [sarKeystoreVerify_of_le hlen, sarKeystoreVerifyBody]
  constructor
  · intro h
    rcases hrec : checkRecords keystoreRecordCodec macKey zeroMac buf (headerOf buf) with f | _ | _
    all_goals
      rw [hrec] at h
      split_ifs at h with hmagic _ hsize <;> cases h
    exact ⟨hlen, not_not.mp hmagic, rfl, not_not.mp hsize, rfl⟩
  · rintro ⟨-, hmagic, rfl, hsize, hrec⟩
    rw [if_neg (not_not.mpr hmagic), if_neg (by omega), if_neg (not_not.mpr hsize), hrec]
    rfl

/-- **An accepted ledger is a serialized ledger.**  The chain check itself reads
    every announced record, so on acceptance the size cannot have wrapped. -/
theorem sarKeystoreVerify_ok_iff {count : UInt64} :
    sarKeystoreVerify buf macKey none = .ok (.ok count) ↔
      ∃ records generation, buf = ledgerBytes macKey records generation ∧
        HEADER_SIZE + records.length * KEYSTORE_DISK_RECORD_SIZE < 2 ^ 64 ∧
        count = UInt64.ofNat records.length := by
  rw [sarKeystoreVerify_ok_tests]
  constructor
  · rintro ⟨hlen, hmagic, rfl, hsize, hrec⟩
    obtain ⟨rs, hcount, -, hbody⟩ := (checkLog_eq_some_iff keystoreRecordCodec macCodec
      (macOf macKey) hlen).mp ((checkRecords_eq_true_iff _ _ _).mp hrec)
    have hbytes := congrArg List.length hbody
    rw [length_chainBody, hcount, List.length_take, List.length_drop,
      keystoreRecordCodec_pair_width] at hbytes
    -- the records the loop has read are inside the buffer, so nothing wrapped
    have hexact : buf.length =
        HEADER_SIZE + (headerOf buf).recordCount.toNat * KEYSTORE_DISK_RECORD_SIZE := by
      rw [sarKeystoreSerializedSize, Nat.mod_eq_of_lt (by omega)] at hsize
      exact hsize
    obtain ⟨records, hcount', hbuf⟩ := (checkRecords_iff_fileBytes keystoreRecordCodec
      SEMANTICS_AR_KEYSTORE_MAGIC macKey zeroMac hexact hmagic).mp hrec
    refine ⟨records, (headerOf buf).generation, hbuf, ?_, ?_⟩
    · rw [hcount', ← hexact, hsize, sarKeystoreSerializedSize]
      exact Nat.mod_lt _ (by decide)
    · rw [hcount', UInt64.ofNat_toNat]
  · rintro ⟨records, generation, rfl, hlt, rfl⟩
    have hn : records.length < 2 ^ 64 := by
      simp only [HEADER_SIZE, KEYSTORE_DISK_RECORD_SIZE] at hlt; omega
    have hcount : (UInt64.ofNat records.length).toNat = records.length := by
      rw [UInt64.toNat_ofNat', Nat.mod_eq_of_lt hn]
    rw [headerOf_ledgerBytes, length_ledgerBytes]
    refine ⟨by omega, rfl, rfl, ?_,
      checkRecords_fileBytes keystoreRecordCodec _ macKey zeroMac hn generation⟩
    rw [sarKeystoreSerializedSize, hcount, Nat.mod_eq_of_lt hlt]

theorem sarKsmLoad_ledgerBytes {records : List KeystoreRecord} {generation : UInt64}
    (hfits : HEADER_SIZE + records.length * KEYSTORE_DISK_RECORD_SIZE < 2 ^ 64)
    (recordsCapacity : UInt64) :
    sarKsmLoad (ledgerBytes macKey records generation) macKey anchor recordsCapacity =
      if recordsCapacity < UInt64.ofNat records.length then .ok (.error .overflow)
      else
        match ksmAnchorAdvances anchor
          (headerOf (ledgerBytes macKey records generation)) with
        | none => .ok (.error .rollback)
        | some advanced =>
          .ok (.ok ⟨records, ⟨true, generation, ledgerHead macKey records⟩, generation,
            advanced⟩) := by
  have hlen := length_ledgerBytes macKey records generation
  have hn : records.length < 2 ^ 64 := by
    simp only [HEADER_SIZE, KEYSTORE_DISK_RECORD_SIZE] at hfits; omega
  have hver : sarKeystoreVerify (ledgerBytes macKey records generation) macKey none =
      .ok (.ok (UInt64.ofNat records.length)) :=
    sarKeystoreVerify_ok_iff.mpr ⟨records, generation, rfl, hfits, rfl⟩
  have hread : readLog keystoreRecordCodec macCodec (ledgerBytes macKey records generation)
      (UInt64.ofNat records.length).toNat HEADER_SIZE = .ok records := by
    rw [UInt64.toNat_ofNat', Nat.mod_eq_of_lt hn]
    exact readLog_fileBytes keystoreRecordCodec _ macKey zeroMac records generation
  have hheader : headerCodec.get
      ((ledgerBytes macKey records generation).take HEADER_SIZE) = _ :=
    headerOf_ledgerBytes
  unfold sarKsmLoad
  rw [if_neg (by rw [hlen, HEADER_SIZE]; omega), hver]
  simp only [bind, Except.bind]
  split
  · rfl
  · rw [readAt_of_le (by rw [hlen]; omega), List.drop_zero]
    dsimp only
    rw [headerOf_ledgerBytes, hheader, hread]
    rfl

theorem sarKsmLoad_ok {anchor : Option KeystoreAnchor} {recordsCapacity : UInt64} {load : KsmLoad}
    (h : sarKsmLoad buf macKey anchor recordsCapacity = .ok (.ok load)) :
    ∃ generation, buf = ledgerBytes macKey load.records generation ∧
      (ksmAnchorAdvances anchor (headerOf buf)).isSome = true := by
  have hver : ∃ count, sarKeystoreVerify buf macKey none = .ok (.ok count) := by
    unfold sarKsmLoad at h
    split at h
    · repeat' split at h
      all_goals cases h
    · rcases hv : sarKeystoreVerify buf macKey none with f | st | count
      · rw [hv] at h; cases h
      · rw [hv] at h; cases h
      · exact ⟨count, rfl⟩
  obtain ⟨count, hver⟩ := hver
  obtain ⟨records, generation, rfl, hfits, rfl⟩ := sarKeystoreVerify_ok_iff.mp hver
  rw [sarKsmLoad_ledgerBytes hfits] at h
  split at h
  · cases h
  · split at h
    · cases h
    next hadv =>
      cases h
      exact ⟨generation, rfl, by rw [hadv]; rfl⟩

/-! ### The parser and its buffer -/

theorem sarKsmLoad_fault_iff (buf : List UInt8) (macKey : Mac) (anchor : Option KeystoreAnchor)
    (recordsCapacity : UInt64) :
    (∃ f, sarKsmLoad buf macKey anchor recordsCapacity = .error f) ↔ SizeWraps buf macKey := by
  rw [← sarKeystoreVerify_fault_iff buf macKey none]
  rcases hver : sarKeystoreVerify buf macKey none with f | st | count
  · -- the verifier's own read is outside: the buffer is not empty, so the loader gets there
    have hne : ¬ buf.length = 0 := by
      intro hzero
      rw [sarKeystoreVerify, if_pos (by rw [hzero]; decide)] at hver
      simp at hver
    unfold sarKsmLoad
    rw [if_neg hne, hver]
    exact ⟨fun _ => ⟨f, rfl⟩, fun _ => ⟨f, rfl⟩⟩
  · constructor
    · rintro ⟨f, h⟩
      unfold sarKsmLoad at h
      rw [hver] at h
      repeat' split at h
      all_goals cases h
    · rintro ⟨f, ⟨⟩⟩
  · obtain ⟨records, generation, rfl, hfits, rfl⟩ := sarKeystoreVerify_ok_iff.mp hver
    rw [sarKsmLoad_ledgerBytes hfits]
    constructor
    · rintro ⟨f, h⟩
      repeat' split at h
      all_goals cases h
    · rintro ⟨f, ⟨⟩⟩

/-- **When the ledger parser stays in its buffer.**  Verifier and loader read only inside the
    buffer, except when the announced size wraps modulo `2 ^ 64` to the length of the buffer, with
    more records announced than there are and every record passing its MAC check. -/
theorem ledger_parser_in_bounds_iff (buf : List UInt8) (macKey : Mac)
    (anchor : Option KeystoreAnchor) (recordsCapacity : UInt64) :
    ((∃ r, sarKeystoreVerify buf macKey anchor = .ok r) ∧
      (∃ r, sarKsmLoad buf macKey anchor recordsCapacity = .ok r)) ↔
    ¬ SizeWraps buf macKey := by
  have hverify := sarKeystoreVerify_fault_iff buf macKey anchor
  have hload := sarKsmLoad_fault_iff buf macKey anchor recordsCapacity
  constructor
  · rintro ⟨⟨r, hr⟩, -⟩ hwraps
    obtain ⟨f, hf⟩ := hverify.mpr hwraps
    rw [hr] at hf
    simp at hf
  · intro hno
    constructor
    · rcases hv : sarKeystoreVerify buf macKey anchor with f | r
      · exact absurd (hverify.mp ⟨f, hv⟩) hno
      · exact ⟨r, rfl⟩
    · rcases hl : sarKsmLoad buf macKey anchor recordsCapacity with f | r
      · exact absurd (hload.mp ⟨f, hl⟩) hno
      · exact ⟨r, rfl⟩

/-- A header alone that announces `2 ^ 63` records: `770 * 2 ^ 63` is a multiple of `2 ^ 64`, so the
    size test passes and the first record is read behind the end of the buffer. -/
theorem ledger_parser_reads_outside :
    (headerCodec.put ⟨SEMANTICS_AR_KEYSTORE_MAGIC, 0x8000000000000000, 1, zeroMac⟩).length = 52 ∧
    sarKeystoreVerify
      (headerCodec.put ⟨SEMANTICS_AR_KEYSTORE_MAGIC, 0x8000000000000000, 1, zeroMac⟩)
      zeroMac none = .error ⟨822⟩ := by
  set hdr : StoreHeader := ⟨SEMANTICS_AR_KEYSTORE_MAGIC, 0x8000000000000000, 1, zeroMac⟩ with hhdr
  have hlen : (headerCodec.put hdr).length = HEADER_SIZE := headerCodec.put_length hdr
  have hheader : headerOf (headerCodec.put hdr) = hdr := by
    rw [headerOf, List.take_of_length_le (le_of_eq hlen), headerCodec.get_put]
  have hsize : HEADER_SIZE = sarKeystoreSerializedSize hdr.recordCount := by decide
  refine ⟨hlen, ?_⟩
  rw [sarKeystoreVerify_of_le (le_of_eq hlen.symm), hheader, sarKeystoreVerifyBody,
    if_neg (not_not.mpr rfl), hlen, if_neg (by rw [← hsize]; omega),
    if_neg (not_not.mpr hsize), checkRecords]
  have hcount : hdr.recordCount.toNat = 9223372036854775807 + 1 := by decide
  rw [hcount, checkLog_succ_of_lt keystoreRecordCodec macCodec (macOf zeroMac)
    (by rw [hlen]; decide)]
  rfl

end SemanticsAr
