import SemanticsAr.StoreFile

/-!
# The preservation index file

`sar_preserve_serialize` and `sar_preserve_verify` of `engine/src/preserve.c`.
The chain starts from a MAC over generation and record count, so the head MAC
of an accepted file commits to those two numbers as well as to every record.
The main results are that the serializer and the verifier agree exactly
(`preserve_index_exact`) and that two accepted files with the same head MAC are
the same file (`preserve_index_authentic`).
-/

namespace SemanticsAr

open ChainedLog UInt64 Nat

variable {anchor : Option KeystoreAnchor} {count g g' generation n : UInt64}
  {records : List PreserveRecord}
  {buf : List UInt8} {macKey t : Mac}

/-- `sar_pres_status_t`. -/
inductive PresStatus where
  | ok
  | invalidArg
  | full
  | bufferTooSmall
  | badMagic
  | truncated
  | recordMac
  | countMismatch
  | rollback
  | restoreMismatch
deriving DecidableEq, Repr

/-! ### The model -/

/-- The message of `sar_pres_mac_head`: generation, then record count. -/
def presHeadMsg (generation recordCount : UInt64) : List UInt8 :=
  FixedCodec.u64.put generation ++ FixedCodec.u64.put recordCount

def sarPresMacHead (macKey : Mac) (generation recordCount : UInt64) : Mac :=
  macOf macKey (presHeadMsg generation recordCount)

/-- `size_t` arithmetic: the product and the sum are taken modulo `2 ^ 64`. -/
def sarPreserveSerializedSize (count : UInt64) : Nat :=
  (HEADER_SIZE + count.toNat * PRESERVE_DISK_RECORD_SIZE) % 2 ^ 64

def indexBytes (macKey : Mac) (records : List PreserveRecord) (generation : UInt64) : List UInt8 :=
  fileBytes preserveRecordCodec SEMANTICS_AR_PRESERVE_MAGIC macKey
    (sarPresMacHead macKey generation (UInt64.ofNat records.length)) records generation

/-- `sar_preserve_serialize` into a buffer of `outCap` bytes. -/
def sarPreserveSerialize (macKey : Mac) (records : List PreserveRecord) (generation : UInt64)
    (outCap : UInt64) : Except PresStatus (List UInt8) :=
  if outCap.toNat < sarPreserveSerializedSize (UInt64.ofNat records.length) then
    .error .bufferTooSmall
  else
    .ok (indexBytes macKey records generation)

/-- The anchor test that ends `sar_preserve_verify`. -/
def presAnchorAccepts (anchor : Option KeystoreAnchor) (hdr : StoreHeader) : Bool :=
  match anchor with
  | none => true
  | some a =>
    if a.present then
      if hdr.generation < a.generation then false
      else if hdr.generation = a.generation ∧ hdr.headMac ≠ a.headMac then false
      else true
    else true

theorem presAnchorAccepts_spec {a : KeystoreAnchor} {hdr : StoreHeader}
    (h : presAnchorAccepts (some a) hdr = true) (hpresent : a.present = true) :
    a.generation ≤ hdr.generation ∧
      (hdr.generation = a.generation → hdr.headMac = a.headMac) := by
  simp only [presAnchorAccepts, hpresent, if_true] at h
  split_ifs at h with hgen hhead
  exact ⟨UInt64.not_lt.mp hgen, fun heq => not_not.mp fun hne => hhead ⟨heq, hne⟩⟩

/-- `sar_preserve_verify` behind the header read.  The outer error is a read outside the buffer, the
    inner one the status returned; on success it reports the count. -/
def sarPreserveVerifyBody (buf : List UInt8) (macKey : Mac) (anchor : Option KeystoreAnchor)
    (hdr : StoreHeader) : Except ReadFault (Except PresStatus UInt64) :=
  if hdr.magic ≠ SEMANTICS_AR_PRESERVE_MAGIC then
    .ok (.error .badMagic)
  else if (buf.length - HEADER_SIZE) / PRESERVE_DISK_RECORD_SIZE < hdr.recordCount.toNat then
    .ok (.error .truncated)
  else if buf.length ≠ sarPreserveSerializedSize hdr.recordCount then
    .ok (.error .countMismatch)
  else do
    if ← checkRecords preserveRecordCodec macKey
        (sarPresMacHead macKey hdr.generation hdr.recordCount) buf hdr then
      if presAnchorAccepts anchor hdr then .ok (.ok hdr.recordCount)
      else .ok (.error .rollback)
    else
      .ok (.error .recordMac)

/-- `sar_preserve_verify`; a null buffer is the empty one. -/
def sarPreserveVerify (buf : List UInt8) (macKey : Mac) (anchor : Option KeystoreAnchor) :
    Except ReadFault (Except PresStatus UInt64) :=
  if buf.length < HEADER_SIZE then .ok (.error .truncated)
  else do
    let hdr := headerCodec.get (← readAt buf 0 HEADER_SIZE)
    sarPreserveVerifyBody buf macKey anchor hdr

def readIndexRecords (buf : List UInt8) (count : UInt64) : Except ReadFault (List PreserveRecord) :=
  readLog preserveRecordCodec macCodec buf count.toNat HEADER_SIZE

/-! ### Exact acceptance -/

theorem sarPreserveSerializedSize_of_fits {n : Nat}
    (h : HEADER_SIZE + n * PRESERVE_DISK_RECORD_SIZE < 2 ^ 64) :
    sarPreserveSerializedSize (UInt64.ofNat n) = HEADER_SIZE + n * PRESERVE_DISK_RECORD_SIZE := by
  have hn : n < 2 ^ 64 := by
    simp only [HEADER_SIZE, PRESERVE_DISK_RECORD_SIZE] at h; omega
  rw [sarPreserveSerializedSize, toNat_ofNat', mod_eq_of_lt hn, mod_eq_of_lt h]

@[simp] theorem length_indexBytes : (indexBytes macKey records generation).length =
      HEADER_SIZE + records.length * PRESERVE_DISK_RECORD_SIZE := by
  rw [indexBytes, length_fileBytes, preserveRecordCodec_pair_width]

theorem headerOf_indexBytes : headerOf (indexBytes macKey records generation) =
      fileHeader preserveRecordCodec SEMANTICS_AR_PRESERVE_MAGIC macKey
        (sarPresMacHead macKey generation (UInt64.ofNat records.length)) records generation :=
  headerOf_fileBytes _ _ _ _ _ _

/-- The length tests pass exactly for a buffer of the announced size, computed
    without wrap-around: the quotient test bounds the count before the product. -/
theorem pres_length_tests (count : UInt64) (h : HEADER_SIZE ≤ buf.length) :
    (¬ (buf.length - HEADER_SIZE) / PRESERVE_DISK_RECORD_SIZE < count.toNat ∧
        buf.length = sarPreserveSerializedSize count) ↔
      buf.length = HEADER_SIZE + count.toNat * PRESERVE_DISK_RECORD_SIZE ∧ buf.length < 2 ^ 64 := by
  simp only [sarPreserveSerializedSize, HEADER_SIZE, PRESERVE_DISK_RECORD_SIZE] at *
  constructor
  · rintro ⟨hquot, hneed⟩
    have hlt : buf.length < 2 ^ 64 := by omega
    refine ⟨?_, hlt⟩
    rw [hneed, mod_eq_of_lt (by omega)]
  · rintro ⟨hlen, hlt⟩
    refine ⟨?_, ?_⟩
    · rw [not_lt, hlen, Nat.add_sub_cancel_left, Nat.mul_div_cancel _ (by omega)]
    · rw [← hlen, mod_eq_of_lt hlt]

theorem sarPreserveVerify_of_le (h : HEADER_SIZE ≤ buf.length) :
    sarPreserveVerify buf macKey anchor =
      sarPreserveVerifyBody buf macKey anchor (headerOf buf) := by
  rw [sarPreserveVerify, if_neg (by omega), readAt_of_le (by omega)]
  rfl

theorem sarPreserveVerify_ok_tests : sarPreserveVerify buf macKey anchor = .ok (.ok count) ↔
      HEADER_SIZE ≤ buf.length ∧ (headerOf buf).magic = SEMANTICS_AR_PRESERVE_MAGIC ∧
      (headerOf buf).recordCount = count ∧
      buf.length = HEADER_SIZE + count.toNat * PRESERVE_DISK_RECORD_SIZE ∧
      buf.length < 2 ^ 64 ∧
      checkRecords preserveRecordCodec macKey
        (sarPresMacHead macKey (headerOf buf).generation count) buf (headerOf buf) = .ok true ∧
      presAnchorAccepts anchor (headerOf buf) = true := by
  by_cases hshort : buf.length < HEADER_SIZE
  · rw [sarPreserveVerify, if_pos hshort]
    constructor
    · intro h; simp at h
    · rintro ⟨hlen, -⟩; omega
  have hlen : HEADER_SIZE ≤ buf.length := by omega
  have hlengths := pres_length_tests (headerOf buf).recordCount hlen
  rw [sarPreserveVerify_of_le hlen, sarPreserveVerifyBody]
  constructor
  · intro h
    rcases hlog : checkRecords preserveRecordCodec macKey
      (sarPresMacHead macKey (headerOf buf).generation (headerOf buf).recordCount) buf
      (headerOf buf) with f | _ | _
    all_goals
      rw [hlog] at h
      split_ifs at h with hmagic hquot hneed hanchor <;> cases h
    obtain ⟨heq, hlt⟩ := hlengths.mp ⟨hquot, not_not.mp hneed⟩
    exact ⟨hlen, not_not.mp hmagic, rfl, heq, hlt, hlog, hanchor⟩
  · rintro ⟨-, hmagic, rfl, heq, hlt, hlog, hanchor⟩
    obtain ⟨hquot, hneed⟩ := hlengths.mpr ⟨heq, hlt⟩
    rw [if_neg (not_not.mpr hmagic), if_neg hquot, if_neg (not_not.mpr hneed), hlog]
    simp [bind, Except.bind, hanchor]

theorem sarPreserveVerify_ok_iff : sarPreserveVerify buf macKey anchor = .ok (.ok count) ↔
      ∃ records generation, buf = indexBytes macKey records generation ∧
        HEADER_SIZE + records.length * PRESERVE_DISK_RECORD_SIZE < 2 ^ 64 ∧
        count = UInt64.ofNat records.length ∧
        presAnchorAccepts anchor (headerOf buf) = true := by
  rw [sarPreserveVerify_ok_tests]
  constructor
  · rintro ⟨-, hmagic, rfl, hlen, hlt, hlog, hanchor⟩
    obtain ⟨records, hcount, hbuf⟩ :=
      (checkRecords_iff_fileBytes preserveRecordCodec _ macKey _ hlen hmagic).mp hlog
    have hof : (headerOf buf).recordCount = UInt64.ofNat records.length := by
      rw [hcount, UInt64.ofNat_toNat]
    refine ⟨records, (headerOf buf).generation, ?_, ?_, hof, hanchor⟩
    · rw [indexBytes, ← hof]; exact hbuf
    · rw [hcount, ← hlen]; exact hlt
  · rintro ⟨records, generation, rfl, hlt, rfl, hanchor⟩
    have hn : records.length < 2 ^ 64 := by
      simp only [HEADER_SIZE, PRESERVE_DISK_RECORD_SIZE] at hlt; omega
    have hcount : (UInt64.ofNat records.length).toNat = records.length := by
      rw [toNat_ofNat', mod_eq_of_lt hn]
    rw [headerOf_indexBytes, length_indexBytes] at *
    exact ⟨by omega, rfl, rfl, by rw [hcount], hlt,
      checkRecords_fileBytes preserveRecordCodec _ macKey _ hn generation, hanchor⟩

theorem readIndexRecords_indexBytes (macKey : Mac) (generation : UInt64)
    (hfits : HEADER_SIZE + records.length * PRESERVE_DISK_RECORD_SIZE < 2 ^ 64) :
    readIndexRecords (indexBytes macKey records generation) (UInt64.ofNat records.length) =
      .ok records := by
  have hn : records.length < 2 ^ 64 := by
    simp only [HEADER_SIZE, PRESERVE_DISK_RECORD_SIZE] at hfits; omega
  rw [readIndexRecords, toNat_ofNat', mod_eq_of_lt hn]
  exact readLog_fileBytes preserveRecordCodec _ macKey _ records generation

/-- **Serializer and verifier agree exactly.**  What is serialized is accepted
    with its count and reads back unchanged; what is accepted without an anchor
    is the serialization of the records and the generation it holds. -/
theorem preserve_index_exact (macKey : Mac) :
    (∀ (records : List PreserveRecord) (generation outCap : UInt64),
      HEADER_SIZE + records.length * PRESERVE_DISK_RECORD_SIZE ≤ outCap.toNat →
      ∃ buf, sarPreserveSerialize macKey records generation outCap = .ok buf ∧
        buf.length = sarPreserveSerializedSize (UInt64.ofNat records.length) ∧
        (UInt64.ofNat records.length).toNat = records.length ∧
        sarPreserveVerify buf macKey none = .ok (.ok (UInt64.ofNat records.length)) ∧
        readIndexRecords buf (UInt64.ofNat records.length) = .ok records) ∧
    (∀ (buf : List UInt8) (count : UInt64),
      sarPreserveVerify buf macKey none = .ok (.ok count) →
      ∃ records, readIndexRecords buf count = .ok records ∧
        sarPreserveSerialize macKey records (headerOf buf).generation
          (UInt64.ofNat buf.length) = .ok buf) := by
  constructor
  · intro records generation outCap hcap
    have hfits : HEADER_SIZE + records.length * PRESERVE_DISK_RECORD_SIZE < 2 ^ 64 :=
      lt_of_le_of_lt hcap outCap.toNat_lt
    have hsize := sarPreserveSerializedSize_of_fits hfits
    refine ⟨indexBytes macKey records generation, ?_, ?_, ?_, ?_, ?_⟩
    · rw [sarPreserveSerialize, hsize, if_neg (by omega)]
    · rw [hsize, length_indexBytes]
    · rw [toNat_ofNat', mod_eq_of_lt]
      simp only [HEADER_SIZE, PRESERVE_DISK_RECORD_SIZE] at hfits; omega
    · exact sarPreserveVerify_ok_iff.mpr ⟨records, generation, rfl, hfits, rfl, rfl⟩
    · exact readIndexRecords_indexBytes macKey generation hfits
  · intro buf count haccept
    obtain ⟨records, generation, hbuf, hfits, rfl, -⟩ := sarPreserveVerify_ok_iff.mp haccept
    have hsize := sarPreserveSerializedSize_of_fits hfits
    have hlen : buf.length = HEADER_SIZE + records.length * PRESERVE_DISK_RECORD_SIZE := by
      rw [hbuf, length_indexBytes]
    have hgen : (headerOf buf).generation = generation := by
      rw [hbuf, headerOf_indexBytes, fileHeader]
    refine ⟨records, ?_, ?_⟩
    · rw [hbuf]; exact readIndexRecords_indexBytes macKey generation hfits
    · rw [sarPreserveSerialize, hsize, if_neg, hgen, ← hbuf]
      rw [hlen, toNat_ofNat', mod_eq_of_lt hfits]
      omega

def firstHold : PreserveRecord :=
  { preserveRecordCodec.get [] with
    provenanceLength := 16, captureTime := 1, payloadLength := 16, actorId := 7 }

def secondHold : PreserveRecord :=
  { firstHold with provenanceOffset := 16, captureTime := 2, payloadOffset := 16 }

theorem preserve_index_exact_two_records :
    (∃ buf, sarPreserveSerialize (Vector.replicate 32 7) [firstHold, secondHold] 3 4096 =
        .ok buf ∧
      sarPreserveVerify buf (Vector.replicate 32 7) none = .ok (.ok 2) ∧
      readIndexRecords buf 2 = .ok [firstHold, secondHold] ∧
      ∃ records, readIndexRecords buf 2 = .ok records ∧
        sarPreserveSerialize (Vector.replicate 32 7) records (headerOf buf).generation
          (UInt64.ofNat buf.length) = .ok buf) := by
  obtain ⟨hforward, hback⟩ := preserve_index_exact (Vector.replicate 32 7)
  obtain ⟨buf, hser, -, -, hver, hread⟩ := hforward [firstHold, secondHold] 3 4096 (by decide)
  exact ⟨buf, hser, hver, hread, hback buf 2 hver⟩

/-! ### Authenticity -/

def verifyMsgs (macKey : Mac) (buf : List UInt8) : List (List UInt8) :=
  let hdr := headerOf buf
  presHeadMsg hdr.generation hdr.recordCount ::
    match readIndexRecords buf hdr.recordCount with
    | .ok records =>
      chainMsgs preserveRecordCodec macCodec (macOf macKey)
        (sarPresMacHead macKey hdr.generation hdr.recordCount) records
    | .error _ => []

theorem verifyMsgs_indexBytes (macKey : Mac) (generation : UInt64)
    (hfits : HEADER_SIZE + records.length * PRESERVE_DISK_RECORD_SIZE < 2 ^ 64) :
    verifyMsgs macKey (indexBytes macKey records generation) =
      presHeadMsg generation (UInt64.ofNat records.length) ::
        chainMsgs preserveRecordCodec macCodec (macOf macKey)
          (sarPresMacHead macKey generation (UInt64.ofNat records.length)) records := by
  simp only [verifyMsgs, headerOf_indexBytes, fileHeader,
    readIndexRecords_indexBytes macKey generation hfits]

theorem presHeadMsg_inj {n n' : UInt64} (h : presHeadMsg g n = presHeadMsg g' n') :
    g = g' ∧ n = n' := by
  have hpair : (FixedCodec.u64.pair FixedCodec.u64).put (g, n) =
      (FixedCodec.u64.pair FixedCodec.u64).put (g', n') := h
  exact Prod.mk.inj ((FixedCodec.u64.pair FixedCodec.u64).put_injective hpair)

theorem presHeadMsg_ne_recordMsg (r : PreserveRecord) :
    presHeadMsg g n ≠ recordMsg preserveRecordCodec macCodec r t := by
  intro h
  have hlen := congrArg List.length h
  rw [length_recordMsg] at hlen
  simp only [presHeadMsg, List.length_append, FixedCodec.put_length] at hlen
  exact absurd hlen (by decide)

theorem indexBytes_inj_of_head {rs ss : List PreserveRecord} {S : Set (List UInt8)}
    (hinj : Set.InjOn (macOf macKey) S) (hrsHead : presHeadMsg g (UInt64.ofNat rs.length) ∈ S)
    (hssHead : presHeadMsg g' (UInt64.ofNat ss.length) ∈ S)
    (hrs : ∀ m ∈ chainMsgs preserveRecordCodec macCodec (macOf macKey) (sarPresMacHead macKey g
      (UInt64.ofNat rs.length)) rs, m ∈ S)
    (hss : ∀ m ∈ chainMsgs preserveRecordCodec macCodec (macOf macKey) (sarPresMacHead macKey g'
      (UInt64.ofNat ss.length)) ss, m ∈ S)
    (hhead : (headerOf (indexBytes macKey rs g)).headMac =
      (headerOf (indexBytes macKey ss g')).headMac) :
    g = g' ∧ rs = ss := by
  -- no record message can have the MAC of a head message
  have hstart : ∀ h ∈ S, (∃ k n, h = presHeadMsg k n) →
      ∀ m ∈ S, (∃ r t, m = recordMsg preserveRecordCodec macCodec r t) →
        macOf macKey m ≠ macOf macKey h := by
    rintro h hmem ⟨k, n, rfl⟩ m hm ⟨r, t, rfl⟩ heq
    exact presHeadMsg_ne_recordMsg r (hinj hm hmem heq).symm
  rw [headerOf_indexBytes, headerOf_indexBytes] at hhead
  obtain ⟨hleft, hlists⟩ := chainHead_injOn preserveRecordCodec macCodec (macOf macKey) hinj
    (hstart _ hrsHead ⟨_, _, rfl⟩) (hstart _ hssHead ⟨_, _, rfl⟩) hrs hss hhead
  exact ⟨(presHeadMsg_inj (hinj hrsHead hssHead hleft)).1, hlists⟩

/-- **Index authenticity.**  As long as HMAC-SHA-256 under the key does not collide on the messages
    authenticated, the head MAC determines the whole accepted file, so no other buffer is accepted
    with the same head.  A present anchor is a lower bound for the generation, and fixes the head at
    equality. -/
theorem preserve_index_authentic (macKey : Mac) (b₁ b₂ : List UInt8)
    (a₁ a₂ : Option KeystoreAnchor) (n₁ n₂ : UInt64)
    (h₁ : sarPreserveVerify b₁ macKey a₁ = .ok (.ok n₁))
    (h₂ : sarPreserveVerify b₂ macKey a₂ = .ok (.ok n₂))
    (hinj : Set.InjOn (macOf macKey)
      {m | m ∈ verifyMsgs macKey b₁ ∨ m ∈ verifyMsgs macKey b₂}) :
    ((headerOf b₁).headMac = (headerOf b₂).headMac →
      (headerOf b₁).generation = (headerOf b₂).generation ∧ n₁ = n₂ ∧
        (∃ records, readIndexRecords b₁ n₁ = .ok records ∧
          readIndexRecords b₂ n₂ = .ok records) ∧ b₁ = b₂) ∧
    (b₁ ≠ b₂ → (headerOf b₁).headMac ≠ (headerOf b₂).headMac) ∧
    (∀ a, a₁ = some a → a.present = true →
      a.generation ≤ (headerOf b₁).generation ∧
        ((headerOf b₁).generation = a.generation → (headerOf b₁).headMac = a.headMac)) := by
  obtain ⟨rs, g, hb₁, hfit₁, rfl, hanchor⟩ := sarPreserveVerify_ok_iff.mp h₁
  obtain ⟨ss, g', hb₂, hfit₂, rfl, -⟩ := sarPreserveVerify_ok_iff.mp h₂
  have hmsgs₁ := verifyMsgs_indexBytes macKey g hfit₁
  have hmsgs₂ := verifyMsgs_indexBytes macKey g' hfit₂
  rw [← hb₁] at hmsgs₁
  rw [← hb₂] at hmsgs₂
  have hsame : (headerOf b₁).headMac = (headerOf b₂).headMac → g = g' ∧ rs = ss := by
    intro hhead
    rw [hb₁, hb₂] at hhead
    refine indexBytes_inj_of_head hinj (.inl ?_) (.inr ?_) (fun m hm => Or.inl ?_)
      (fun m hm => Or.inr ?_) hhead
    · rw [hmsgs₁]; exact List.mem_cons_self
    · rw [hmsgs₂]; exact List.mem_cons_self
    · rw [hmsgs₁]; exact List.mem_cons_of_mem _ hm
    · rw [hmsgs₂]; exact List.mem_cons_of_mem _ hm
  refine ⟨?_, ?_, ?_⟩
  · intro hhead
    obtain ⟨rfl, rfl⟩ := hsame hhead
    have hread := readIndexRecords_indexBytes macKey g hfit₁
    rw [← hb₁] at hread
    have heq : b₁ = b₂ := hb₁.trans hb₂.symm
    refine ⟨by rw [heq], rfl, ⟨rs, hread, ?_⟩, heq⟩
    rw [← heq]; exact hread
  · intro hne hhead
    obtain ⟨rfl, rfl⟩ := hsame hhead
    exact hne (hb₁.trans hb₂.symm)
  · rintro a rfl hpresent
    exact presAnchorAccepts_spec hanchor hpresent

def holdsKey : Mac := Vector.replicate 32 7

def holdsHead : Mac := sarPresMacHead holdsKey 3 1

theorem holds_macs :
    ([presHeadMsg 3 1, recordMsg preserveRecordCodec macCodec firstHold holdsHead,
      recordMsg preserveRecordCodec macCodec secondHold holdsHead].map (macOf holdsKey)).Nodup := by
  decide +kernel

/-- Two indexes of one record each under one generation have different heads. -/
theorem preserve_index_authentic_edited : ∃ b₁ b₂ : List UInt8, ∃ a : KeystoreAnchor,
      sarPreserveVerify b₁ holdsKey (some a) = .ok (.ok 1) ∧
      sarPreserveVerify b₂ holdsKey none = .ok (.ok 1) ∧
      readIndexRecords b₁ 1 = .ok [firstHold] ∧ readIndexRecords b₂ 1 = .ok [secondHold] ∧
      (headerOf b₁).headMac ≠ (headerOf b₂).headMac ∧
      a.generation ≤ (headerOf b₁).generation ∧ (headerOf b₁).headMac = a.headMac := by
  set b₁ := indexBytes holdsKey [firstHold] 3 with hb₁
  set b₂ := indexBytes holdsKey [secondHold] 3 with hb₂
  set a : KeystoreAnchor := ⟨true, (headerOf b₁).generation, (headerOf b₁).headMac⟩ with ha
  have h₁ : sarPreserveVerify b₁ holdsKey (some a) = .ok (.ok 1) := sarPreserveVerify_ok_iff.mpr
    ⟨[firstHold], 3, hb₁, by decide, rfl, by simp [presAnchorAccepts, ha]⟩
  have h₂ : sarPreserveVerify b₂ holdsKey none = .ok (.ok 1) :=
    sarPreserveVerify_ok_iff.mpr ⟨[secondHold], 3, hb₂, by decide, rfl, rfl⟩
  have hread₁ : readIndexRecords b₁ 1 = .ok [firstHold] :=
    readIndexRecords_indexBytes holdsKey 3 (by decide)
  have hread₂ : readIndexRecords b₂ 1 = .ok [secondHold] :=
    readIndexRecords_indexBytes holdsKey 3 (by decide)
  have hinj : Set.InjOn (macOf holdsKey)
      {m | m ∈ verifyMsgs holdsKey b₁ ∨ m ∈ verifyMsgs holdsKey b₂} := by
    have hmem : ∀ m, m ∈ verifyMsgs holdsKey b₁ ∨ m ∈ verifyMsgs holdsKey b₂ →
        m ∈ [presHeadMsg 3 1, recordMsg preserveRecordCodec macCodec firstHold holdsHead,
          recordMsg preserveRecordCodec macCodec secondHold holdsHead] := by
      rw [hb₁, hb₂, verifyMsgs_indexBytes _ 3 (by decide), verifyMsgs_indexBytes _ 3 (by decide)]
      intro m hm
      simp only [chainMsgs, List.mem_cons, List.not_mem_nil, or_false] at hm ⊢
      rcases hm with (rfl | rfl) | (rfl | rfl)
      · exact .inl rfl
      · exact .inr (.inl rfl)
      · exact .inl rfl
      · exact .inr (.inr rfl)
    intro m hm m' hm' heq
    exact List.inj_on_of_nodup_map holds_macs (hmem m hm) (hmem m' hm') heq
  have hne : b₁ ≠ b₂ := by
    intro heq
    rw [heq, hread₂] at hread₁
    exact absurd (congrArg (fun r => r.map (·.map PreserveRecord.captureTime)) hread₁) (by decide)
  obtain ⟨-, hheads, hbound⟩ :=
    preserve_index_authentic holdsKey b₁ b₂ (some a) none 1 1 h₁ h₂ hinj
  obtain ⟨hgen, hhead⟩ := hbound a rfl rfl
  exact ⟨b₁, b₂, a, h₁, h₂, hread₁, hread₂, hheads hne, hgen, hhead rfl⟩

end SemanticsAr
