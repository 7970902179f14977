import SemanticsAr.CaptureCommit

/-!
# What a captured key gives back

A commit discards the originals in the range of the write, since the captured key is to give
them back.  The new record is the last of the ledger, so nothing that `SarRecoveryExecute`
decrypts later lies over its range: whether it gives an original back is settled by the tests
that the record has to pass and by what the range decrypts to.
-/

namespace SemanticsAr

open List hiding Vector

variable {b k i : Nat} {r : PreserveRecord} {original ptchunk : Nat → UInt8} {x : UInt8}
  {s mid : RecoveryState}

/-! ### Giving a hold back -/

def PreserveRecord.Holds (r : PreserveRecord) (b : Nat) : Prop :=
  r.provenanceOffset.toNat ≤ b ∧ b < r.provenanceOffset.toNat + r.provenanceLength.toNat

def Returns (outcome : RecoveryOutcome) (r : PreserveRecord) (original : Nat → UInt8) : Prop :=
  outcome.status = .ok ∧ ∃ out, outcome.temp = some out ∧
    ∀ b, r.Holds b → b < out.length ∧ out.data b = original b

/-- The ledger gives the hold back: there is a key id for which `SarRecoveryExecute` does,
    whatever the memory outside its buffers holds, as long as no system call fails. -/
def Recoverable (suite : CipherSuite) (target : TargetFile) (ledger : List KeystoreRecord)
    (r : PreserveRecord) (original : Nat → UInt8) : Prop :=
  ∃ keyId, ∀ io : RecoveryIo, io.Works → ∀ firstUnit, firstUnit ≠ 0 →
    Returns (sarRecoveryExecute suite target io ledger ⟨keyId, firstUnit⟩) r original

/-! ### The last record of a ledger -/

section

variable {suite : CipherSuite} {target : TargetFile}
  {keyId : Vector UInt8 SEMANTICS_AR_KEY_ID_SIZE} {io : RecordIo} {rec : KeystoreRecord}

variable (suite target io rec) in
def patchRecord (range : FileRange) (ptchunk : Nat → UInt8) (copy : OutFile) :
    (Nat → UInt8) × OutFile × RecoverStatus :=
  patchLoop suite target (sarRecoveryKeyFromRecord rec) io range.offset.toNat
    (range.offset.toNat + range.length.toNat) range.offset.toNat ptchunk copy

theorem recoverySteps_concat (io : RecoveryIo) (ledger : List KeystoreRecord) :
    recoverySteps io (ledger ++ [rec]) =
      recoverySteps io ledger ++ [(rec, io.record ledger.length)] := by
  simp [recoverySteps, zipIdx_append]

theorem recoverLoop_concat {steps : List (KeystoreRecord × RecordIo)}
    (h : recoverLoop suite target keyId steps s = (mid, .ok)) :
    recoverLoop suite target keyId (steps ++ [(rec, io)]) s =
      recoverRecord suite target keyId io rec mid := by
  induction steps generalizing s with
  | nil =>
    obtain rfl := (Prod.mk.inj h).1
    rcases hrec : recoverRecord suite target keyId io rec s with ⟨s', status⟩
    simp only [nil_append, recoverLoop, hrec]
    cases status <;> rfl
  | cons step steps ih =>
    obtain ⟨first, firstIo⟩ := step
    obtain ⟨next, hnext, hrest⟩ := recoverLoop_cons h
    simp only [cons_append, recoverLoop, hnext]
    exact ih hrest

theorem finishRecovery_applied {io : RecoveryIo} (h : (finishRecovery target io s).status = .ok) :
    s.applied ≠ [] := by
  intro hnil
  simp only [finishRecovery, hnil, if_true] at h
  split at h <;> cases h

theorem finishRecovery_passed {io : RecoveryIo} (hio : io.Works) (hinv : RunInv target mid)
    {matched : Bool} (hmatched : mid.matched = true → matched = true)
    (hok : (finishRecovery target io { mid with matched := matched, ptchunk := ptchunk }).status =
      .ok) :
    finishRecovery target io { mid with matched := matched, ptchunk := ptchunk } =
      finishRecovery target io mid := by
  have hinv' : RunInv target { mid with matched := matched, ptchunk := ptchunk } :=
    hinv.of_eq rfl hmatched rfl rfl
  have hne := finishRecovery_applied hok
  rw [finishRecovery_works hio hinv hne, finishRecovery_works hio hinv' hne]

theorem finishRecovery_admitted {io : RecoveryIo} {range : FileRange} (hio : io.Works)
    (hinv : RunInv target mid)
    (hadm : Admitted suite target keyId (io.record k) rec mid.ptchunk range)
    (hstep : recoverRecord suite target keyId (io.record k) rec mid = (s, .ok)) :
    ∃ ptchunk copy out, (finishRecovery target io s).status = .ok ∧
      (finishRecovery target io s).temp = some out ∧
      (patchRecord suite target (io.record k) rec range ptchunk copy).2.2 = .ok ∧
      ∀ b, range.Has b → b < out.length ∧ out.data b =
        (patchRecord suite target (io.record k) rec range ptchunk copy).2.1.data b := by
  have hinv' := hinv.step hstep
  rcases recoverRecord_cases suite target keyId (io.record k) rec mid with
    ⟨range', hadm', heq⟩ | ⟨hnot, -⟩
  · obtain rfl : range' = range := Option.some.inj (hadm'.2.1.symm.trans hadm.2.1)
    rw [heq] at hstep
    obtain ⟨copy, patched, ptchunk, -, hpatch, htemp, -, happlied, -⟩ := applyRecord_ok hstep
    have hpatch : patchRecord suite target (io.record k) rec range' _ copy = _ := hpatch
    have hrec : rec ∈ s.applied := happlied ▸ mem_append_right _ (mem_singleton_self rec)
    have hreach := UInt64.le_iff_toNat_le.mp (hinv'.reach rec hrec range' hadm.2.1)
    rw [recordRange_end hadm.2.1] at hreach
    have hinside := (recordRange_spec hadm.2.1).2.2
    rw [target.toNat_size] at hinside
    have hlength := hinv'.length_eq patched htemp
    rw [finishRecovery_works hio hinv' (ne_nil_of_mem hrec), htemp]
    by_cases hcut : s.recoveredEnd < target.size
    · refine ⟨_, copy, patched.truncate s.recoveredEnd.toNat, rfl, ?_, by rw [hpatch], ?_⟩
      · simp [hcut]
      · intro b hb
        exact ⟨hb.2.trans_le hreach, by rw [hpatch]; rfl⟩
    · refine ⟨_, copy, patched, rfl, ?_, by rw [hpatch], ?_⟩
      · simp [hcut]
      · intro b hb
        exact ⟨hlength ▸ hb.2.trans_le hinside, by rw [hpatch]⟩
  · exact absurd hadm (hnot range)

theorem sarRecoveryExecute_concat {io : RecoveryIo} {firstUnit : UInt16} (hio : io.Works)
    (hunit : firstUnit ≠ 0) (hsize : target.size ≠ 0) (ledger : List KeystoreRecord)
    (rec : KeystoreRecord) :
    ∃ mid s, RunInv target mid ∧
      recoverRecord suite target keyId (io.record ledger.length) rec mid = (s, .ok) ∧
      sarRecoveryExecute suite target io ledger ⟨keyId, firstUnit⟩ = finishRecovery target io mid ∧
      sarRecoveryExecute suite target io (ledger ++ [rec]) ⟨keyId, firstUnit⟩ =
        finishRecovery target io s := by
  obtain ⟨mid, hmid, hexec⟩ := @sarRecoveryExecute_run target io ⟨keyId, firstUnit⟩ suite ledger
    hio hunit hsize
  obtain ⟨s, hs, hexec'⟩ := @sarRecoveryExecute_run target io ⟨keyId, firstUnit⟩ suite
    (ledger ++ [rec]) hio hunit hsize
  rw [recoverySteps_concat, recoverLoop_concat hmid] at hs
  exact ⟨mid, s, RunInv.initial.run hmid, hs, hexec, hexec'⟩

/-- **What the last record of a ledger adds**: a hold is given back without it, or the record
    is admitted in some run and its windows write the original bytes. -/
theorem Recoverable.concat {ledger : List KeystoreRecord} (hsize : target.size ≠ 0)
    (h : Recoverable suite target (ledger ++ [rec]) r original) :
    Recoverable suite target ledger r original ∨
      ∃ (keyId : Vector UInt8 SEMANTICS_AR_KEY_ID_SIZE) (io : RecordIo) (before : Nat → UInt8)
        (range : FileRange) (ptchunk : Nat → UInt8) (copy : OutFile),
        Admitted suite target keyId io rec before range ∧
        (patchRecord suite target io rec range ptchunk copy).2.2 = .ok ∧
        ∀ b, r.Holds b → range.Has b →
          (patchRecord suite target io rec range ptchunk copy).2.1.data b = original b := by
  obtain ⟨keyId, h⟩ := h
  by_cases hadm : ∃ (io : RecoveryIo) (firstUnit : UInt16) (mid s : RecoveryState)
      (range : FileRange), io.Works ∧ firstUnit ≠ 0 ∧ RunInv target mid ∧
      recoverRecord suite target keyId (io.record ledger.length) rec mid = (s, .ok) ∧
      sarRecoveryExecute suite target io (ledger ++ [rec]) ⟨keyId, firstUnit⟩ =
        finishRecovery target io s ∧
      Admitted suite target keyId (io.record ledger.length) rec mid.ptchunk range
  · obtain ⟨io, firstUnit, mid, s, range, hio, hunit, hinv, hstep, hexec, hadm⟩ := hadm
    obtain ⟨-, out, hout, hbytes⟩ := hexec ▸ h io hio firstUnit hunit
    obtain ⟨ptchunk, copy, out', -, hout', hok, hdata⟩ :=
      finishRecovery_admitted hio hinv hadm hstep
    obtain rfl := Option.some.inj (hout.symm.trans hout')
    refine .inr ⟨keyId, io.record ledger.length, mid.ptchunk, range, ptchunk, copy, hadm, hok, ?_⟩
    intro b hb hin
    rw [← (hdata b hin).2]
    exact (hbytes b hb).2
  · refine .inl ⟨keyId, fun io hio firstUnit hunit => ?_⟩
    obtain ⟨mid, s, hinv, hstep, hexec, hexec'⟩ :=
      @sarRecoveryExecute_concat suite target keyId io firstUnit hio hunit hsize ledger rec
    have hreturns := hexec' ▸ h io hio firstUnit hunit
    rcases recoverRecord_cases suite target keyId (io.record ledger.length) rec mid with
      ⟨range, hin, -⟩ | ⟨-, matched, ptchunk, hmatched, heq⟩
    · exact absurd ⟨io, firstUnit, mid, s, range, hio, hunit, hinv, hstep, hexec', hin⟩ hadm
    · rw [heq] at hstep
      obtain rfl := (Prod.mk.inj hstep).1
      rwa [finishRecovery_passed hio hinv hmatched hreturns.1, ← hexec] at hreturns

theorem not_recoverable_nil (hsize : target.size ≠ 0) :
    ¬ Recoverable suite target [] r original := by
  rintro ⟨keyId, h⟩
  have hok := (h workingIo workingIo_works 1 (by decide)).1
  obtain ⟨s, hrun, hexec⟩ := @sarRecoveryExecute_run target workingIo ⟨keyId, 1⟩ suite []
    workingIo_works (show (1 : UInt16) ≠ 0 by decide) hsize
  obtain rfl := (Prod.mk.inj hrun).1
  rw [hexec] at hok
  cases hok

/-- What is given back lies inside the file, and so ends before `2 ^ 64`. -/
theorem Recoverable.fits {ledger : List KeystoreRecord} (hsize : target.size ≠ 0)
    (h : Recoverable suite target ledger r original) :
    r.provenanceOffset.toNat + r.provenanceLength.toNat < 2 ^ 64 := by
  obtain ⟨keyId, h⟩ := h
  obtain ⟨s, hrun, hexec⟩ := @sarRecoveryExecute_run target workingIo ⟨keyId, 1⟩ suite ledger
    workingIo_works (show (1 : UInt16) ≠ 0 by decide) hsize
  obtain ⟨hok, out, hout, hbytes⟩ := hexec ▸ h workingIo workingIo_works 1 (by decide)
  have hinv := RunInv.initial.run hrun
  have hlength : out.length ≤ target.bytes.length := by
    rw [finishRecovery_works workingIo_works hinv (finishRecovery_applied hok)] at hout
    dsimp only at hout
    split at hout
    next hcut =>
      obtain ⟨copy, -, rfl⟩ := Option.map_eq_some_iff.mp hout
      rw [← target.toNat_size]
      exact (UInt64.lt_iff_toNat_lt.mp hcut.2).le
    next => exact (hinv.length_eq out hout).le
  by_contra hwraps
  have hlast := (hbytes (2 ^ 64 - 1) ⟨by have := r.provenanceOffset.toNat_lt; omega, by omega⟩).1
  have hbound := target.bound
  omega

end

/-! ### What a range decrypts to -/

/-- The byte of a file that a key decrypts in a range; `none` where the mode leaves it. -/
def decryptedByte (suite : CipherSuite) (rk : RecoveryKey) (target : TargetFile)
    (start length b : Nat) : Option UInt8 :=
  (buildCiphers suite rk).bind fun ciphers =>
    rangeByte rk .continuous ciphers (fileMemory target.bytes fun _ => 0) start start
      (start + length) b

theorem WindowsSafe.mono {rk : RecoveryKey} {policy : CounterPolicy} {start length : Nat}
    (h : WindowsSafe rk policy start length) (hk : k ≤ length) :
    WindowsSafe rk policy start k := by
  refine ⟨fun hback => h.1 ⟨⟨hback.1.1, hback.1.2.1, ?_⟩, hback.2⟩,
    fun hshort => h.2 ⟨hshort.1, hshort.2.trans hk⟩⟩
  exact hback.1.2.2.imp (fun hcbc => ⟨hcbc.1, hcbc.2.trans hk⟩)
    fun hcfb => ⟨hcfb.1, hcfb.2.trans_le hk⟩

section

variable {suite : CipherSuite} {rk : RecoveryKey} {target : TargetFile} {start length : Nat}
  (hkey : rk.Usable suite) (hsafe : WindowsSafe rk .continuous start length) (hlen : 16 ≤ length)
  (hfile : start + length ≤ target.bytes.length)

include hkey hsafe hlen hfile

theorem patchLoop_decrypted {io : RecordIo} {out : OutFile}
    (hok : (patchLoop suite target rk io start (start + length) start ptchunk out).2.2 = .ok)
    (hb : start ≤ b) (hend : b < start + length)
    (hx : decryptedByte suite rk target start length b = some x) :
    (patchLoop suite target rk io start (start + length) start ptchunk out).2.1.data b = x := by
  obtain ⟨hcheck, hrc4, ciphers, hciphers⟩ := hkey
  rw [decryptedByte, hciphers, Option.bind_some] at hx
  exact patchLoop_apply hcheck hrc4 hciphers (fun hxts => hsafe.2 ⟨hxts, hlen⟩) hfile hsafe.1 _
    ptchunk out (Nat.le_refl start) (by simp) hok hb hend hx

theorem targetChunk_decrypted (stray : Stray) (ptchunk : Nat → UInt8) (hi : i < length)
    (hx : decryptedByte suite rk target start length (start + i) = some x) :
    (targetChunk suite target rk stray start start length ptchunk).2 i = x := by
  obtain ⟨hcheck, hrc4, ciphers, hciphers⟩ := hkey
  rw [decryptedByte, hciphers, Option.bind_some] at hx
  rw [targetChunk_eq hcheck hrc4 hciphers stray (by omega) (Nat.le_refl start) hfile]
  dsimp only
  rw [recoverOneRange_window stray.stack hciphers hrc4 (fun hxts => hsafe.2 ⟨hxts, hlen⟩)
      (Nat.le_refl start) (by simp) (.inl rfl) hfile ?_ _ (fun _ => 0) ptchunk hi, hx,
    Option.getD_some]
  rw [Nat.add_sub_cancel_left]
  exact hsafe.1

omit hsafe hlen hfile in
theorem decryptedByte_filled (hfilled : Filled rk start length) (hb : start ≤ b)
    (hend : b < start + length) : ∃ x, decryptedByte suite rk target start length b = some x := by
  obtain ⟨hcheck, -, ciphers, hciphers⟩ := hkey
  rw [decryptedByte, hciphers, Option.bind_some]
  exact rangeByte_filled hcheck hciphers hfilled hb hend

end

/-! ### The record of a write -/

def SampleDecrypts (suite : CipherSuite) (w : CapturedWrite) (v : Verdict) (target : TargetFile) :
    Prop :=
  ∃ bytes : List UInt8, bytes.length = w.tagged ∧
    sarSampleTag bytes = sarSampleTag (w.preImage.take w.tagged) ∧
    ∀ i < w.tagged, decryptedByte suite v target w.offset.toNat w.tagged (w.offset.toNat + i) =
      some (bytes.getD i 0)

namespace CapturedWrite.Recorded

variable {w : CapturedWrite} {suite : CipherSuite} {v : Verdict} {rec : KeystoreRecord}
  {target : TargetFile} (h : w.Recorded suite v rec) (hleft : w.LeftIn target)

include h

theorem data_pos : 16 ≤ w.data.length := h.sampled.trans w.tagged_le

include hleft

theorem end_le : w.offset.toNat + w.data.length ≤ target.bytes.length :=
  hleft.end_le (Nat.lt_of_lt_of_le (by decide) h.data_pos)

theorem range : recordRange rec target.size =
    some ⟨rec.provenanceOffset, rec.provenanceLength⟩ := by
  have hend := h.end_le hleft
  have hpos := h.data_pos
  have hlen := h.length
  rw [← h.offset] at hend
  have hsize := target.toNat_size
  have hoff : ¬ rec.provenanceOffset ≥ target.size := by
    rw [ge_iff_le, UInt64.le_iff_toNat_le]
    omega
  have hrest : (target.size - rec.provenanceOffset).toNat =
      target.size.toNat - rec.provenanceOffset.toNat := by
    apply UInt64.toNat_sub_of_le
    rw [UInt64.le_iff_toNat_le]
    omega
  have hwhole : ¬ (rec.provenanceLength = 0 ∨
      rec.provenanceLength > target.size - rec.provenanceOffset) := by
    rw [gt_iff_lt, UInt64.lt_iff_toNat_lt, ← UInt64.toNat_inj, UInt64.toNat_zero]
    omega
  rw [recordRange, if_neg hoff]
  simp only [if_neg hwhole]

theorem sampleInside : SampleInside rec ⟨rec.provenanceOffset, rec.provenanceLength⟩ := by
  have hend : (rec.provenanceOffset + rec.provenanceLength).toNat =
      w.offset.toNat + w.data.length := by
    rw [← h.offset, ← h.length]
    exact recordRange_end (h.range hleft)
  have hle := h.end_le hleft
  have htagged := w.tagged_le
  have hsampled : 16 ≤ w.tagged := h.sampled
  have hbound := target.bound
  have hsum : (rec.sampleOffset + rec.sampleLength.toUInt64).toNat = w.offset.toNat + w.tagged := by
    rw [UInt64.toNat_add, UInt32.toNat_toUInt64, h.sampleOffset, h.sampleLength,
      Nat.mod_eq_of_lt (by omega)]
  rintro (hzero | hlarge | hlow | hhigh)
  · have hlength := h.sampleLength
    rw [hzero, UInt32.toNat_zero] at hlength
    omega
  · rw [h.sampleLength] at hlarge
    exact absurd (hlarge.trans_le w.tagged_le_max) (by decide)
  · rw [h.sampleOffset, h.offset] at hlow
    exact absurd hlow (UInt64.lt_irrefl _)
  · rw [gt_iff_lt, UInt64.lt_iff_toNat_lt, hend, hsum] at hhigh
    omega

variable (hkey : v.Usable suite)
  (hsafe : WindowsSafe v .continuous w.offset.toNat w.data.length)

include hkey hsafe

theorem sampleChunk_decrypted (io : RecordIo) (ptchunk : Nat → UInt8) (hi : i < w.tagged)
    (hx : decryptedByte suite v target w.offset.toNat w.tagged (w.offset.toNat + i) = some x) :
    (sampleChunk suite target io rec ⟨rec.provenanceOffset, rec.provenanceLength⟩ ptchunk).2 i =
      x := by
  simp only [sampleChunk, h.key, h.offset, h.sampleOffset, h.sampleLength]
  exact targetChunk_decrypted hkey (hsafe.mono w.tagged_le) h.sampled
    ((Nat.add_le_add_left w.tagged_le _).trans (h.end_le hleft)) io.sampleStray ptchunk hi hx

theorem admitted (hsample : SampleDecrypts suite w v target) {io : RecordIo} (hio : io.Works)
    (ptchunk : Nat → UInt8) :
    Admitted suite target rec.keyId io rec ptchunk
      ⟨rec.provenanceOffset, rec.provenanceLength⟩ := by
  obtain ⟨bytes, hlength, htag, hbytes⟩ := hsample
  have hread : readData (sampleChunk suite target io rec
      ⟨rec.provenanceOffset, rec.provenanceLength⟩ ptchunk).2 0 rec.sampleLength.toNat = bytes := by
    rw [h.sampleLength]
    apply ext_getElem
    · simp [readData, hlength]
    · intro i hi hi'
      have hbyte := h.sampleChunk_decrypted hleft hkey hsafe io ptchunk (hlength ▸ hi')
        (hbytes i (hlength ▸ hi'))
      simp only [readData, getElem_map, getElem_range, Nat.zero_add, hbyte]
      exact getD_eq_getElem _ _ hi'
  refine ⟨rfl, h.range hleft, h.sampleInside hleft, hio.sampleRead, ?_, ?_⟩
  · have hpos : 0 < rec.sampleLength.toNat := by
      rw [h.sampleLength]
      exact Nat.lt_of_lt_of_le (by decide) h.sampled
    refine (sarRecoverChunk_ok_iff hpos).mpr ⟨⟨?_, ?_⟩, h.key ▸ hkey⟩
    · rw [h.sampleOffset, h.offset]
    · rw [h.sampleOffset, h.sampleLength]
      exact (Nat.add_le_add_left w.tagged_le _).trans (h.end_le hleft)
  · rw [hread, htag, h.sampleTag]

theorem patched {io : RecordIo} {copy : OutFile}
    (hok : (patchRecord suite target io rec ⟨rec.provenanceOffset,
      rec.provenanceLength⟩ ptchunk copy).2.2 = .ok)
    (hb : (⟨rec.provenanceOffset, rec.provenanceLength⟩ : FileRange).Has b)
    (hx : decryptedByte suite v target w.offset.toNat w.data.length b = some x) :
    (patchRecord suite target io rec ⟨rec.provenanceOffset, rec.provenanceLength⟩ ptchunk
      copy).2.1.data b = x := by
  simp only [patchRecord, FileRange.Has, h.key, h.offset, h.length] at hok hb ⊢
  exact patchLoop_decrypted hkey hsafe h.data_pos (h.end_le hleft) hok hb.1 hb.2 hx

theorem sampleDecrypts_of_admitted (hfilled : Filled v w.offset.toNat w.tagged)
    {keyId : Vector UInt8 SEMANTICS_AR_KEY_ID_SIZE} {io : RecordIo} {range : FileRange}
    (hadm : Admitted suite target keyId io rec ptchunk range) :
    SampleDecrypts suite w v target := by
  obtain ⟨-, hrange, -, -, -, htag⟩ := hadm
  obtain rfl := Option.some.inj ((h.range hleft).symm.trans hrange)
  rw [h.sampleLength, h.sampleTag] at htag
  refine ⟨_, by simp [readData], htag, fun i hi => ?_⟩
  obtain ⟨x, hx⟩ := @decryptedByte_filled (w.offset.toNat + i) suite v target w.offset.toNat
    w.tagged hkey hfilled (by omega) (by omega)
  rw [hx, ← h.sampleChunk_decrypted hleft hkey hsafe io ptchunk hi hx]
  simp [readData, hi]

end CapturedWrite.Recorded

/-! ### Discarded holds -/

/-- The captured key supersedes the hold, whose end does not wrap around: it is new to the ledger
    for this path and offset and not one for RC4, and the range of the write decrypts to the sample
    and to the original bytes of the hold, without reading memory outside the buffers. -/
structure Supersedes (suite : CipherSuite) (K : Keystore) (w : CapturedWrite) (v : Verdict)
    (rec : KeystoreRecord) (target : TargetFile) (r : PreserveRecord) (original : Nat → UInt8) :
    Prop where
  fresh : K.records.any (sameCapture rec) = false
  notRc4 : v.algorithm ≠ SAR_ALG_RC4
  safe : WindowsSafe v .continuous w.offset.toNat w.data.length
  sample : SampleDecrypts suite w v target
  fits : r.provenanceOffset.toNat + r.provenanceLength.toNat < 2 ^ 64
  hold : ∀ b, r.Holds b →
    decryptedByte suite v target w.offset.toNat w.data.length b = some (original b)

def WhollyDecrypted (v : Verdict) (w : CapturedWrite) : Prop :=
  WindowsSafe v .continuous w.offset.toNat w.data.length ∧
    Filled v w.offset.toNat w.data.length ∧ Filled v w.offset.toNat w.tagged

section

variable {suite : CipherSuite} {K : Keystore} {P : Preserve} {w : CapturedWrite} {v : Verdict}
  {rec : KeystoreRecord} {target : TargetFile} (h : w.Recorded suite v rec)
  (hleft : w.LeftIn target) (hgone : Discards rec K P r)

include h hleft

theorem CapturedWrite.Recorded.size_ne_zero : target.size ≠ 0 := by
  have hend := h.end_le hleft
  have hpos := h.data_pos
  rw [ne_eq, ← UInt64.toNat_inj, target.toNat_size, UInt64.toNat_zero]
  omega

include hgone

theorem Discards.has (hfits : r.provenanceOffset.toNat + r.provenanceLength.toNat < 2 ^ 64)
    (hb : r.Holds b) :
    (⟨rec.provenanceOffset, rec.provenanceLength⟩ : FileRange).Has b := by
  obtain ⟨-, -, -, hremoves⟩ := discards_iff.mp hgone
  simp only [reconcileRemoves, sarPresContains, Bool.and_eq_true, decide_eq_true_eq,
    UInt64.le_iff_toNat_le] at hremoves
  have hend : (rec.provenanceOffset + rec.provenanceLength).toNat = _ :=
    recordRange_end (h.range hleft)
  rw [hend, UInt64.toNat_add, Nat.mod_eq_of_lt hfits] at hremoves
  exact ⟨hremoves.2.1.trans hb.1, hb.2.trans_le hremoves.2.2⟩

theorem Supersedes.recoverable (hs : Supersedes suite K w v rec target r original) :
    Recoverable suite target (K.records ++ [rec]) r original := by
  have hkey := sarConvict_usable h.convicted hs.notRc4
  refine ⟨rec.keyId, fun io hio firstUnit hunit => ?_⟩
  obtain ⟨mid, s, hinv, hstep, -, hexec⟩ := @sarRecoveryExecute_concat suite target rec.keyId io
    firstUnit hio hunit (h.size_ne_zero hleft) K.records rec
  have hadm := h.admitted hleft hkey hs.safe hs.sample (hio.record K.records.length) mid.ptchunk
  obtain ⟨ptchunk, copy, out, hok, hout, hpatched, hdata⟩ :=
    finishRecovery_admitted hio hinv hadm hstep
  rw [hexec]
  refine ⟨hok, out, hout, fun b hb => ?_⟩
  have hin := hgone.has h hleft hs.fits hb
  exact ⟨(hdata b hin).1, (hdata b hin).2.trans
    (h.patched hleft hkey hs.safe hpatched hin (hs.hold b hb))⟩

theorem supersedes_of_recoverable (hfresh : K.records.any (sameCapture rec) = false)
    (hplain : v.algorithm = SAR_ALG_RC4 ∨ WhollyDecrypted v w)
    (hrec : Recoverable suite target (K.records ++ [rec]) r original) :
    Supersedes suite K w v rec target r original ∨
      Recoverable suite target K.records r original := by
  rcases hrec.concat (h.size_ne_zero hleft) with hbefore | hlast
  · exact .inr hbefore
  obtain ⟨keyId, io, before, range, ptchunk, copy, hadm, hok, hbytes⟩ := hlast
  have hkey : v.Usable suite := h.key ▸ hadm.usable
  obtain ⟨hsafe, hfilled, htagged⟩ := hplain.resolve_left hkey.ne_rc4
  have hsample := h.sampleDecrypts_of_admitted hleft hkey hsafe htagged hadm
  obtain rfl := Option.some.inj ((h.range hleft).symm.trans hadm.2.1)
  have hfits := hrec.fits (h.size_ne_zero hleft)
  refine .inl ⟨hfresh, hkey.ne_rc4, hsafe, hsample, hfits, fun b hb => ?_⟩
  have hin := hgone.has h hleft hfits hb
  obtain ⟨x, hx⟩ := @decryptedByte_filled b suite v target w.offset.toNat w.data.length hkey
    hfilled (h.offset ▸ hin.1) (by
      have hend := hin.2
      rwa [h.offset, h.length] at hend)
  rw [hx, ← hbytes b hb hin, h.patched hleft hkey hsafe hok hin hx]

end

/-- **What a commit discards.**  An original that `SarCaptureCommit` discards is given back by the
    ledger if the captured key supersedes it; for a known key, for an RC4 key, and wherever the mode
    decrypts every byte of the write, in no other case, unless the ledger could before the write. -/
theorem discarded_hold_recoverable {suite : CipherSuite} {gateScratch : GateMap} {macKey : Mac}
    {w : CapturedWrite} {gate : GateResult} {v : Verdict} {rec : KeystoreRecord}
    (hrun : sarCaptureRun suite gateScratch macKey w.request = .convicted gate v rec)
    {K : Keystore} {P : Preserve} {r : PreserveRecord} (hgone : Discards rec K P r)
    {target : TargetFile} (hleft : w.LeftIn target) (startKey : UInt64)
    (original : Nat → UInt8) :
    let ledger := (sarCaptureCommit rec startKey K P).1.records
    (Supersedes suite K w v rec target r original → Recoverable suite target ledger r original) ∧
      (K.records.any (sameCapture rec) = true ∨ v.algorithm = SAR_ALG_RC4 ∨ WhollyDecrypted v w →
        Recoverable suite target ledger r original →
          Supersedes suite K w v rec target r original ∨
            Recoverable suite target K.records r original) := by
  have h := sarCaptureRun_recorded hrun
  intro ledger
  have hfull := (discards_iff.mp hgone).2.2.1
  by_cases hfresh : K.records.any (sameCapture rec) = true
  · have hledger : ledger = K.records := by
      simp only [ledger, sarCaptureCommit, sarKeystoreAppend, if_pos hfresh]
    refine ⟨fun hs => ?_, fun _ hrec => .inr (hledger ▸ hrec)⟩
    rw [hs.fresh] at hfresh
    cases hfresh
  · have hledger : ledger = K.records ++ [rec] := by
      simp only [sarKeystoreAppend, if_neg hfresh] at hfull
      simp only [ledger, sarCaptureCommit, sarKeystoreAppend, if_neg hfresh]
      split at hfull
      · exact absurd rfl hfull
      · rw [if_neg (by assumption)]
    rw [hledger]
    rw [Bool.not_eq_true] at hfresh
    refine ⟨fun hs => hs.recoverable h hleft hgone, fun hkind hrec => ?_⟩
    rcases hkind with hdup | hplain
    · rw [hfresh] at hdup
      cases hdup
    · exact supersedes_of_recoverable h hleft hgone hfresh hplain hrec

/-! ### Sixteen bytes of zeros -/

def overwriteZeros (data scan : List UInt8) (hlen : data.length < 2 ^ 32) : CapturedWrite where
  offset := 0
  data := data
  preImage := replicate 16 0
  scan := scan
  path := pathOf [97] fileA_fits
  captureTime := 0
  actorStartKey := 7
  length_lt := hlen
  preImage_le := by decide

def heldZeros : PreserveRecord :=
  sarPreserveRecordInit (pathOf [97] fileA_fits) 0 16 0 0 16 7 [] (replicate 16 0)

def zerosStore : Preserve := { readyStore with records := [heldZeros] }

theorem heldZeros_discarded {suite : CipherSuite} {v : Verdict} {rec : KeystoreRecord}
    {data scan : List UInt8} {hlen : data.length < 2 ^ 32} (hdata : data.length = 16)
    (h : (overwriteZeros data scan hlen).Recorded suite v rec) :
    Discards rec sarKeystoreCreate zerosStore heldZeros := by
  have hlength : rec.provenanceLength = 16 := by
    rw [← UInt64.toNat_inj, h.length]
    exact hdata
  have hoffset : rec.provenanceOffset = 0 := h.offset
  have hpath : rec.provenancePath = heldZeros.provenancePath := h.path
  refine discards_iff.mpr ⟨mem_singleton_self _, rfl, nofun, ?_⟩
  rw [reconcileRemoves, hpath, hoffset, hlength, beq_self_eq_true, Bool.true_and]
  decide

def leftFile (data : List UInt8) (hlen : data.length < 2 ^ 32) : TargetFile :=
  ⟨data, hlen.trans (by decide)⟩

def countingKey : List UInt8 := [1, 2, 3, 4, 5, 6, 7, 8, 9, 10, 11, 12, 13, 14, 15, 16]

def countingWrite : CapturedWrite := overwriteZeros countingKey countingKey (by decide)

theorem sarConvict_countingWrite :
    sarConvict xorSuite countingWrite.request.engineInput = some addedKeyVerdict := by
  decide +kernel

theorem countingWrite_supersedes (rec : KeystoreRecord) :
    Supersedes xorSuite sarKeystoreCreate countingWrite addedKeyVerdict rec
      (leftFile countingKey (by decide)) heldZeros fun _ => 0 := by
  have hbytes : ∀ b < 16, decryptedByte xorSuite addedKeyVerdict
      (leftFile countingKey (by decide)) 0 16 b = some 0 := by decide +kernel
  refine ⟨rfl, by decide, by decide, ⟨replicate 16 0, rfl, rfl, ?_⟩, by decide, ?_⟩
  · intro i hi
    have hi : i < 16 := hi
    rw [getD_replicate 0 hi]
    show decryptedByte _ _ _ 0 16 (0 + i) = _
    rw [Nat.zero_add, hbytes i hi]
  · rintro b ⟨-, hb⟩
    exact hbytes b hb

/-- A key found in memory gives the zeros back. -/
theorem discarded_hold_recoverable_zeros :
    ∃ gate rec, sarCaptureRun xorSuite ⟨fun _ => 0⟩ zeroMac countingWrite.request =
        .convicted gate addedKeyVerdict rec ∧
      Discards rec sarKeystoreCreate zerosStore heldZeros ∧
      Recoverable xorSuite (leftFile countingKey (by decide))
        (sarCaptureCommit rec 7 sarKeystoreCreate zerosStore).1.records heldZeros fun _ => 0 := by
  have hgate : (sarGateClassify ⟨fun _ => 0⟩ countingWrite.preImage countingWrite.written
      countingWrite.request.sampleSize.toNat).2.candidate = true := by decide +kernel
  have hrun := sarCaptureRun_convicted_iff.mpr ⟨by decide, rfl, hgate, sarConvict_countingWrite,
    @rfl _ (countingWrite.record zeroMac addedKeyVerdict)⟩
  have hgone := heldZeros_discarded rfl (sarCaptureRun_recorded hrun)
  exact ⟨_, _, hrun, hgone, (discarded_hold_recoverable hrun hgone (by decide) 7 _).1
    (countingWrite_supersedes _)⟩

def generatorWrite : CapturedWrite :=
  overwriteZeros [2, 5, 7, 13, 13, 23, 31, 40, 40, 56, 50, 72, 86, 101, 117, 134]
    generatorInput.scanBuffer (by decide)

/-- An RC4 generator in memory: the zeros are discarded for a key that is not there, and no
    run of the recovery gives them back. -/
theorem rc4_hold_lost : ∃ (w : CapturedWrite) (target : TargetFile) (K : Keystore) (P : Preserve)
    (r : PreserveRecord), w.LeftIn target ∧ (∀ b, r.Holds b → w.preImage.getD b 0 = 0) ∧
    ∀ suite gateScratch macKey, ∃ gate v rec,
      sarCaptureRun suite gateScratch macKey w.request = .convicted gate v rec ∧
      Discards rec K P r ∧ ∀ startKey,
        ¬ Recoverable suite target (sarCaptureCommit rec startKey K P).1.records r fun _ => 0 := by
  refine ⟨generatorWrite, leftFile generatorWrite.data generatorWrite.length_lt, sarKeystoreCreate,
    zerosStore, heldZeros, by decide, ?_, fun suite gateScratch macKey => ?_⟩
  · rintro b ⟨-, hb⟩
    exact List.getD_replicate 0 hb
  have hgate : (sarGateClassify gateScratch generatorWrite.preImage generatorWrite.written
      generatorWrite.request.sampleSize.toNat).2.candidate = true := by
    rw [sarGateClassify_scratch gateScratch ⟨fun _ => 0⟩]
    decide +kernel
  have hrun := sarCaptureRun_convicted_iff.mpr ⟨by decide, rfl, hgate,
    sarConvict_generatorInput suite, @rfl _ (generatorWrite.record macKey rc4StateVerdict)⟩
  have h := sarCaptureRun_recorded hrun
  refine ⟨_, _, _, hrun, heldZeros_discarded rfl h, fun startKey hrec => ?_⟩
  have hsize : (leftFile generatorWrite.data generatorWrite.length_lt).size ≠ 0 := by decide
  rcases Recoverable.concat hsize hrec with hbefore | ⟨_, _, _, _, _, _, hadm, -⟩
  · exact not_recoverable_nil hsize hbefore
  · exact (h.key ▸ hadm.usable).ne_rc4 rfl

end SemanticsAr
