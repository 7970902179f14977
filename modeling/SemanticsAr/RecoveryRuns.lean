import SemanticsAr.Recovery

/-!
# Runs of the driver's key recovery

What the loop of `SarRecoveryExecute` over the ledger leaves in the output file.  A step
either passes a record over or applies it, and what decides is the record, the target and
the buffer as it is before the step.  The output is the target but for the ranges of the
applied records; at its end it is cut.
-/

namespace SemanticsAr

open Nat
open List hiding Vector

variable {rec first : KeystoreRecord} {s s' : RecoveryState} {stop origin pos wlen b : Nat}
  {length : UInt64}
  {suite : CipherSuite} {target : TargetFile} {rk : RecoveryKey} {r : FileRange} {out : OutFile}
  {copies : Nat → Bool} {win : Nat → UInt8}

/-! ### Ranges of records -/

def FileRange.Has (r : FileRange) (b : Nat) : Prop :=
  r.offset.toNat ≤ b ∧ b < r.offset.toNat + r.length.toNat

instance (r : FileRange) (b : Nat) : Decidable (r.Has b) := inferInstanceAs (Decidable (_ ∧ _))

theorem TargetFile.toNat_size : target.size.toNat = target.bytes.length :=
  UInt64.toNat_ofNat_of_lt' (target.bound.trans (by decide))

theorem recordRange_spec {n : UInt64} (h : recordRange rec n = some r) :
    r.offset = rec.provenanceOffset ∧ 0 < r.length.toNat ∧
      r.offset.toNat + r.length.toNat ≤ n.toNat := by
  unfold recordRange at h
  split at h
  · cases h
  next hoff =>
    cases h
    rw [ge_iff_le, UInt64.le_iff_toNat_le, not_le] at hoff
    have hrest : (n - rec.provenanceOffset).toNat = n.toNat - rec.provenanceOffset.toNat :=
      UInt64.toNat_sub_of_le _ _ (UInt64.le_iff_toNat_le.mpr hoff.le)
    refine ⟨rfl, ?_, ?_⟩ <;> dsimp only <;> split
    · omega
    next hlen =>
      rw [not_or] at hlen
      exact pos_of_ne_zero fun hzero => hlen.1 (UInt64.toNat_inj.mp hzero)
    · omega
    next hlen =>
      rw [not_or, gt_iff_lt, UInt64.lt_iff_toNat_lt] at hlen
      omega

theorem recordRange_end (h : recordRange rec target.size = some r) :
    (r.offset + r.length).toNat = r.offset.toNat + r.length.toNat := by
  have hle := (recordRange_spec h).2.2
  have hbound := target.bound
  rw [target.toNat_size] at hle
  rw [UInt64.toNat_add, mod_eq_of_lt (by omega)]

/-! ### Files being written -/

theorem OutFile.length_write (bytes : List UInt8) :
    (out.write pos bytes).length = max out.length (pos + bytes.length) := rfl

theorem copyLoop_spec
    (hlen : out.length = min pos target.bytes.length)
    (hdata : ∀ b < out.length, out.data b = target.bytes.getD b 0)
    (hok : (copyLoop target copies pos out).2 = true) :
    (copyLoop target copies pos out).1.length = target.bytes.length ∧ ∀ b < target.bytes.length,
        (copyLoop target copies pos out).1.data b = target.bytes.getD b 0 := by
  fun_induction copyLoop target copies pos out with
  | case1 pos out hpos hcopy ih =>
    refine ih ?_ ?_ hok
    · rw [OutFile.length_write, length_take, length_drop, hlen]
      omega
    · intro b hb
      rw [OutFile.length_write, length_take, length_drop, hlen] at hb
      by_cases hold : b < pos
      · rw [OutFile.write]
        dsimp only
        rw [writeData, if_neg (by omega)]
        exact hdata b (by omega)
      · rw [OutFile.write]
        dsimp only
        rw [writeData, if_pos (by omega), getD_eq_getElem?_getD,
          getElem?_take_of_lt (by omega), getElem?_drop,
          Nat.add_sub_cancel' (Nat.not_lt.mp hold),
          getElem?_eq_getElem (by omega), Option.getD_some, getD_eq_getElem?_getD,
          getElem?_eq_getElem (by omega), Option.getD_some]
  | case2 pos out hpos hcopy => cases hok
  | case3 pos out hpos =>
    have hall : out.length = target.bytes.length := by omega
    exact ⟨hall, fun b hb => hdata b (hall ▸ hb)⟩

section

/-- **A rule for the windows**: what holds where the loop ends, where a call fails, and of a
    window in front of windows of which it holds, holds of the whole loop. -/
theorem patchLoop_rule {io : RecordIo}
    {P : Nat → (Nat → UInt8) → OutFile → (Nat → UInt8) × OutFile × RecoverStatus → Prop}
    (done : ∀ pos ptchunk out, ¬ pos < stop → P pos ptchunk out (ptchunk, out, .ok))
    (fail : ∀ pos ptchunk out ptchunk' status, status ≠ .ok →
      P pos ptchunk out (ptchunk', out, status))
    (step : ∀ pos ptchunk out win result, pos < stop →
      targetChunk suite target rk (io.windowStrays pos) origin pos (min (stop - pos)
      SAR_PRESERVE_STAGE_MAX) ptchunk = (.ok, win) →
      P (pos + SAR_PRESERVE_STAGE_MAX) win (out.write pos (readData win 0 (min (stop - pos)
      SAR_PRESERVE_STAGE_MAX))) result → P pos ptchunk out result) (pos : Nat)
    (ptchunk : Nat → UInt8) (out : OutFile) :
    P pos ptchunk out (patchLoop suite target rk io origin stop pos ptchunk out) := by
  rw [patchLoop]
  split
  next hpos =>
    dsimp only
    split
    · exact fail _ _ _ _ _ (by decide)
    split
    · exact fail _ _ _ _ _ (by decide)
    rename_i hchunk
    split
    · exact fail _ _ _ _ _ (by decide)
    · exact step _ _ _ _ _ hpos (Prod.ext (not_not.mp hchunk) rfl)
        (patchLoop_rule done fail step _ _ _)
  next hpos =>
    exact done _ _ _ hpos
termination_by stop - pos
decreasing_by
  simp only [SAR_PRESERVE_STAGE_MAX]
  omega

theorem data_write_readData : (out.write pos (readData win 0 wlen)).data b =
      if pos ≤ b ∧ b < pos + wlen then win (b - pos) else out.data b :=
  writeData_readData win

theorem length_write_readData :
    (out.write pos (readData win 0 wlen)).length = max out.length (pos + wlen) := by
  rw [OutFile.length_write, readData, length_map, length_range]

theorem patchLoop_frame (suite : CipherSuite) (target : TargetFile) (rk : RecoveryKey)
    (io : RecordIo) (origin stop pos : Nat) (ptchunk : Nat → UInt8) (out : OutFile) :
    let patched := (patchLoop suite target rk io origin stop pos ptchunk out).2.1
    out.length ≤ patched.length ∧ patched.length ≤ max out.length stop ∧
      ∀ b, ¬ (pos ≤ b ∧ b < stop) → patched.data b = out.data b := by
  refine patchLoop_rule (P := fun pos ptchunk out result => out.length ≤ result.2.1.length ∧
    result.2.1.length ≤ max out.length stop ∧
      ∀ b, ¬ (pos ≤ b ∧ b < stop) → result.2.1.data b = out.data b) ?_ ?_ ?_ pos ptchunk out
  · intro pos ptchunk out hpos
    exact ⟨le_refl _, le_max_left _ _, fun _ _ => rfl⟩
  · intro pos ptchunk out ptchunk' status hstatus
    exact ⟨le_refl _, le_max_left _ _, fun _ _ => rfl⟩
  · intro pos ptchunk out win result hpos hchunk hrest
    rw [length_write_readData] at hrest
    obtain ⟨hge, hle, hdata⟩ := hrest
    refine ⟨by omega, by omega, fun b hb => ?_⟩
    rw [hdata b (by omega), data_write_readData, if_neg (by omega)]

/-! ### Steps -/

/-- The record passes every test: it has the requested key id, its range starts in the target, its
    sample lies in the range, and what the sample decrypts to in the buffer has the record's tag. -/
def Admitted (suite : CipherSuite) (target : TargetFile)
    (keyId : Vector UInt8 SEMANTICS_AR_KEY_ID_SIZE) (io : RecordIo) (rec : KeystoreRecord)
    (ptchunk : Nat → UInt8) (r : FileRange) : Prop :=
  rec.keyId = keyId ∧ recordRange rec target.size = some r ∧ SampleInside rec r ∧
    io.sampleRead = true ∧ (sampleChunk suite target io rec r ptchunk).1 = .ok ∧
    sarSampleTag (readData (sampleChunk suite target io rec r ptchunk).2 0
      rec.sampleLength.toNat) = rec.sampleTag

/-- **A step**: the record is admitted and applied, or it is passed over and only the
    buffer and the match flag may change. -/
theorem recoverRecord_cases (suite : CipherSuite) (target : TargetFile)
    (keyId : Vector UInt8 SEMANTICS_AR_KEY_ID_SIZE) (io : RecordIo) (rec : KeystoreRecord)
    (s : RecoveryState) :
    (∃ r, Admitted suite target keyId io rec s.ptchunk r ∧
      recoverRecord suite target keyId io rec s = applyRecord suite target io rec r
        { s with matched := true, ptchunk := (sampleChunk suite target io rec r s.ptchunk).2 }) ∨
    (∀ r, ¬ Admitted suite target keyId io rec s.ptchunk r) ∧
      ∃ matched ptchunk, (s.matched = true → matched = true) ∧
        recoverRecord suite target keyId io rec s =
          ({ s with matched := matched, ptchunk := ptchunk }, .ok) := by
  unfold recoverRecord
  by_cases hkey : rec.keyId = keyId
  · rw [if_neg (not_not.mpr hkey)]
    cases hr : recordRange rec target.size with
    | none =>
      right
      refine ⟨?_, _, _, fun _ => rfl, rfl⟩
      rintro r ⟨-, hrange, -⟩
      rw [hr] at hrange
      cases hrange
    | some r =>
      have honly {r' : FileRange} (h : Admitted suite target keyId io rec s.ptchunk r') :
          Admitted suite target keyId io rec s.ptchunk r := by
        have hrange := h.2.1
        rw [hr] at hrange
        cases hrange
        exact h
      dsimp only
      split
      next hskip =>
        right
        refine ⟨?_, _, _, fun _ => rfl, rfl⟩
        intro r' h
        obtain ⟨-, -, hinside, hread, -⟩ := honly h
        rcases hskip with hout | hfail
        · exact hout hinside
        · rw [hread] at hfail
          cases hfail
      rename_i htry
      split
      next hchunk =>
        exact .inr ⟨fun r' h => hchunk (honly h).2.2.2.2.1, _, _, fun _ => rfl, rfl⟩
      rename_i hchunk
      split
      next htag =>
        exact .inr ⟨fun r' h => htag (honly h).2.2.2.2.2, _, _, fun _ => rfl, rfl⟩
      next htag =>
        left
        rw [not_or, not_not, Bool.not_eq_false] at htry
        exact ⟨r, ⟨hkey, hr, htry.1, htry.2, not_not.mp hchunk, not_not.mp htag⟩, rfl⟩
  · right
    rw [if_pos hkey]
    exact ⟨fun r h => hkey h.1, _, _, id, rfl⟩

variable {keyId : Vector UInt8 SEMANTICS_AR_KEY_ID_SIZE} {io : RecordIo}

theorem applyRecord_ok (h : applyRecord suite target io rec r s = (s', .ok)) :
    ∃ out patched ptchunk, openTemp target io s.temp = (some out, true) ∧
      patchLoop suite target (sarRecoveryKeyFromRecord rec) io r.offset.toNat
        (r.offset.toNat + r.length.toNat) r.offset.toNat s.ptchunk out = (ptchunk, patched, .ok) ∧
      s'.temp = some patched ∧ s'.matched = s.matched ∧ s'.applied = s.applied ++ [rec] ∧
      s'.recoveredEnd = if r.offset + r.length > s.recoveredEnd then r.offset + r.length
        else s.recoveredEnd := by
  unfold applyRecord at h
  split at h
  next out hopen =>
    dsimp only at h
    split at h
    next hfail =>
      exact absurd (congrArg Prod.snd h) hfail
    next hok =>
      obtain rfl := (Prod.mk.inj h).1
      exact ⟨out, _, _, hopen, Prod.ext rfl (Prod.ext rfl (not_not.mp hok)), rfl, rfl, rfl, rfl⟩
  · cases (Prod.mk.inj h).2

theorem openTemp_ok {temp : Option OutFile} {out : OutFile}
    (h : openTemp target io temp = (some out, true)) :
    temp = some out ∨ temp = none ∧ out.length = target.bytes.length ∧
      ∀ b < target.bytes.length, out.data b = target.bytes.getD b 0 := by
  unfold openTemp at h
  cases temp with
  | some old => exact .inl (Prod.mk.inj h).1
  | none =>
    dsimp only at h
    split at h
    · obtain ⟨hout, hok⟩ := Prod.mk.inj h
      cases hout
      refine Or.inr ⟨rfl, copyLoop_spec ?_ ?_ hok⟩
      · simp [OutFile.empty]
      · intro b hb
        exact absurd hb (not_lt_zero b)
    · cases (Prod.mk.inj h).1

/-! ### Runs -/

/-- What holds between two steps: the output is the target but for the ranges applied so
    far, and `recoveredEnd` is the highest end of those. -/
structure RunInv (target : TargetFile) (s : RecoveryState) : Prop where
  unopened : s.temp = none → s.applied = []
  matched : s.applied ≠ [] → s.matched = true
  fresh : s.applied = [] → s.recoveredEnd = 0
  length_eq : ∀ out, s.temp = some out → out.length = target.bytes.length
  frame : ∀ out, s.temp = some out → ∀ b < target.bytes.length,
    (∀ rec ∈ s.applied, ∀ r, recordRange rec target.size = some r → ¬ r.Has b) →
      out.data b = target.bytes.getD b 0
  reach : ∀ rec ∈ s.applied, ∀ r, recordRange rec target.size = some r →
    r.offset + r.length ≤ s.recoveredEnd
  last : s.applied ≠ [] → ∃ rec ∈ s.applied, ∃ r, recordRange rec target.size = some r ∧
    r.offset + r.length = s.recoveredEnd

theorem RunInv.initial : RunInv target .initial where
  unopened _ := rfl
  matched h := absurd rfl h
  fresh _ := rfl
  length_eq _ h := by cases h
  frame _ h := by cases h
  reach _ h := by cases h
  last h := absurd rfl h

theorem RunInv.of_eq (h : RunInv target s) (htemp : s'.temp = s.temp)
    (hmatched : s.matched = true → s'.matched = true) (happlied : s'.applied = s.applied)
    (hend : s'.recoveredEnd = s.recoveredEnd) : RunInv target s' where
  unopened hnone := happlied.trans (h.unopened (htemp ▸ hnone))
  matched hne := hmatched (h.matched (happlied ▸ hne))
  fresh hnil := hend.trans (h.fresh (happlied ▸ hnil))
  length_eq out hout := h.length_eq out (htemp ▸ hout)
  frame out hout b hb hfree := h.frame out (htemp ▸ hout) b hb (happlied ▸ hfree)
  reach rec hrec r hr := hend ▸ h.reach rec (happlied ▸ hrec) r hr
  last hne := by
    rw [happlied] at hne ⊢
    rw [hend]
    exact h.last hne

theorem RunInv.apply (h : RunInv target s) (hmatched : s.matched = true)
    (hr : recordRange rec target.size = some r)
    (happly : applyRecord suite target io rec r s = (s', .ok)) : RunInv target s' := by
  obtain ⟨out, patched, ptchunk, hopen, hpatch, htemp, hkept, happlied, hend⟩ :=
    applyRecord_ok happly
  have hrange := recordRange_spec hr
  rw [target.toNat_size] at hrange
  have hframe := patchLoop_frame suite target (sarRecoveryKeyFromRecord rec) io r.offset.toNat
    (r.offset.toNat + r.length.toNat) r.offset.toNat s.ptchunk out
  rw [hpatch] at hframe
  dsimp only at hframe
  obtain ⟨hge, hle, hdata⟩ := hframe
  have hout : out.length = target.bytes.length := by
    rcases openTemp_ok hopen with hsome | ⟨-, hlen, -⟩
    · exact h.length_eq out hsome
    · exact hlen
  have hcopy : ∀ b < target.bytes.length,
      (∀ rec ∈ s.applied, ∀ r, recordRange rec target.size = some r → ¬ r.Has b) →
        out.data b = target.bytes.getD b 0 := by
    rcases openTemp_ok hopen with hsome | ⟨-, -, hfresh⟩
    · exact h.frame out hsome
    · exact fun b hb _ => hfresh b hb
  have hmax : s.recoveredEnd ≤ s'.recoveredEnd ∧ r.offset + r.length ≤ s'.recoveredEnd := by
    rw [hend]
    split
    next hgt =>
      exact ⟨UInt64.le_of_lt hgt, UInt64.le_refl _⟩
    next hnot =>
      exact ⟨UInt64.le_refl _, UInt64.not_lt.mp hnot⟩
  refine ⟨?_, fun _ => hkept.trans hmatched, ?_, ?_, ?_, ?_, ?_⟩
  · intro hnone
    rw [htemp] at hnone
    cases hnone
  · intro hnil
    rw [happlied] at hnil
    exact absurd hnil (append_ne_nil_of_right_ne_nil _ (cons_ne_nil _ _))
  · intro out' hout'
    rw [htemp] at hout'
    obtain rfl := Option.some.inj hout'
    omega
  · intro out' hout' b hb hfree
    rw [htemp] at hout'
    obtain rfl := Option.some.inj hout'
    rw [happlied] at hfree
    rw [hdata b (hfree rec (mem_append_right _ (mem_singleton_self rec)) r hr)]
    exact hcopy b hb fun rec' hrec' => hfree rec' (mem_append_left _ hrec')
  · intro rec' hrec' r' hr'
    rw [happlied, mem_append, mem_singleton] at hrec'
    rcases hrec' with hold | rfl
    · exact UInt64.le_trans (h.reach rec' hold r' hr') hmax.1
    · rw [hr] at hr'
      obtain rfl := Option.some.inj hr'
      exact hmax.2
  · intro _
    rw [happlied]
    by_cases hgt : r.offset + r.length > s.recoveredEnd
    · refine ⟨rec, mem_append_right _ (mem_singleton_self rec), r, hr, ?_⟩
      rw [hend, if_pos hgt]
    · rw [if_neg hgt] at hend
      -- the first record always ends behind zero
      by_cases hnil : s.applied = []
      · rw [h.fresh hnil, gt_iff_lt, UInt64.lt_iff_toNat_lt, recordRange_end hr] at hgt
        exact absurd (hrange.2.1.trans_le (le_add_left _ _)) hgt
      · obtain ⟨rec', hrec', r', hr', hlast⟩ := h.last hnil
        exact ⟨rec', mem_append_left _ hrec', r', hr', hlast.trans hend.symm⟩

theorem RunInv.step (h : RunInv target s)
    (hstep : recoverRecord suite target keyId io rec s = (s', .ok)) : RunInv target s' := by
  rcases recoverRecord_cases suite target keyId io rec s with
    ⟨r, hadm, heq⟩ | ⟨-, matched, ptchunk, hmatched, heq⟩
  · rw [heq] at hstep
    have hmid : RunInv target { s with
        matched := true, ptchunk := (sampleChunk suite target io rec r s.ptchunk).2 } :=
      h.of_eq rfl (fun _ => rfl) rfl rfl
    exact hmid.apply rfl hadm.2.1 hstep
  · rw [heq] at hstep
    obtain rfl := (Prod.mk.inj hstep).1
    exact h.of_eq rfl hmatched rfl rfl

variable {steps : List (KeystoreRecord × RecordIo)}

theorem recoverLoop_cons (h : recoverLoop suite target keyId ((rec, io) :: steps) s = (s', .ok)) :
    ∃ mid, recoverRecord suite target keyId io rec s = (mid, .ok) ∧
      recoverLoop suite target keyId steps mid = (s', .ok) := by
  rcases hrec : recoverRecord suite target keyId io rec s with ⟨mid, status⟩
  rw [recoverLoop, hrec] at h
  cases status with
  | ok => exact ⟨mid, rfl, h⟩
  | _ => cases (Prod.mk.inj h).2

def AdmittedIn (suite : CipherSuite) (target : TargetFile)
    (keyId : Vector UInt8 SEMANTICS_AR_KEY_ID_SIZE) (steps : List (KeystoreRecord × RecordIo))
    (s : RecoveryState) (rec : KeystoreRecord) (r : FileRange) : Prop :=
  ∃ before io after, steps = before ++ (rec, io) :: after ∧
    Admitted suite target keyId io rec (recoverLoop suite target keyId before s).1.ptchunk r

theorem admittedIn_nil : ¬ AdmittedIn suite target keyId [] s rec r := by
  rintro ⟨before, io, after, hsteps, -⟩
  exact append_ne_nil_of_right_ne_nil _ (cons_ne_nil _ _) hsteps.symm

theorem admittedIn_cons {mid : RecoveryState}
    (hmid : recoverRecord suite target keyId io first s = (mid, .ok)) :
    AdmittedIn suite target keyId ((first, io) :: steps) s rec r ↔
      rec = first ∧ Admitted suite target keyId io first s.ptchunk r ∨
        AdmittedIn suite target keyId steps mid rec r := by
  have hrun (before : List (KeystoreRecord × RecordIo)) :
      recoverLoop suite target keyId ((first, io) :: before) s =
        recoverLoop suite target keyId before mid := by
    rw [recoverLoop, hmid]
  constructor
  · rintro ⟨before, io', after, hsteps, hadm⟩
    cases before with
    | nil =>
      obtain ⟨hhead, rfl⟩ := cons.inj hsteps
      cases hhead
      exact .inl ⟨rfl, hadm⟩
    | cons step before =>
      obtain ⟨rfl, htail⟩ := cons.inj hsteps
      rw [hrun] at hadm
      exact .inr ⟨before, io', after, htail, hadm⟩
  · rintro (⟨rfl, hadm⟩ | ⟨before, io', after, rfl, hadm⟩)
    · exact ⟨[], io, steps, rfl, hadm⟩
    · refine ⟨(first, io) :: before, io', after, rfl, ?_⟩
      rw [hrun]
      exact hadm

theorem mem_applied_step (hstep : recoverRecord suite target keyId io first s = (s', .ok)) :
    rec ∈ s'.applied ↔ rec ∈ s.applied ∨
      rec = first ∧ ∃ r, Admitted suite target keyId io first s.ptchunk r := by
  rcases recoverRecord_cases suite target keyId io first s with
    ⟨r, hadm, heq⟩ | ⟨hnot, matched, ptchunk, -, heq⟩
  · rw [heq] at hstep
    obtain ⟨-, -, -, -, -, -, -, happlied, -⟩ := applyRecord_ok hstep
    rw [happlied, mem_append, mem_singleton]
    exact or_congr_right (and_iff_left ⟨r, hadm⟩).symm
  · rw [heq] at hstep
    obtain rfl := (Prod.mk.inj hstep).1
    exact (or_iff_left fun h => h.2.elim hnot).symm

/-- **The records a run applies are the admitted ones.** -/
theorem mem_applied_run (hrun : recoverLoop suite target keyId steps s = (s', .ok)) :
    rec ∈ s'.applied ↔ rec ∈ s.applied ∨ ∃ r, AdmittedIn suite target keyId steps s rec r := by
  induction steps generalizing s with
  | nil =>
    obtain rfl := (Prod.mk.inj hrun).1
    exact (or_iff_left fun h => h.elim fun _ => admittedIn_nil).symm
  | cons step steps ih =>
    obtain ⟨mid, hmid, hrest⟩ := recoverLoop_cons hrun
    rw [ih hrest, mem_applied_step hmid, or_assoc]
    simp only [admittedIn_cons hmid, exists_or, exists_and_left]

/-- **What holds before the first step holds after the last.** -/
theorem RunInv.run (h : RunInv target s)
    (hrun : recoverLoop suite target keyId steps s = (s', .ok)) :
    RunInv target s' := by
  induction steps generalizing s with
  | nil =>
    obtain rfl := (Prod.mk.inj hrun).1
    exact h
  | cons step steps ih =>
    obtain ⟨mid, hmid, hrest⟩ := recoverLoop_cons hrun
    exact ih (h.step hmid) hrest

/-! ### Runs without failing calls -/

/-- A key that `sar_recover_chunk` takes. -/
def RecoveryKey.Usable (suite : CipherSuite) (rk : RecoveryKey) : Prop :=
  precheck rk = .ok ∧ ¬ rk.IsRc4 ∧ ∃ ciphers, buildCiphers suite rk = some ciphers

theorem sarRecoverChunk_ok_iff {stack : XtsBuffers} {policy : CounterPolicy} {ct : Memory}
    {pt : Nat → UInt8} {start length base fileSize : Nat} (hlen : 0 < length) :
    (sarRecoverChunk suite stack rk policy ct pt origin start length base fileSize).1 = .ok ↔
      (origin ≤ start ∧ start + length ≤ fileSize) ∧ rk.Usable suite := by
  unfold sarRecoverChunk RecoveryKey.Usable
  rw [if_neg (pos_iff_ne_zero.mp hlen)]
  split
  next hout =>
    exact iff_of_false nofun fun h => by omega
  rename_i hin
  rw [and_iff_right (show origin ≤ start ∧ start + length ≤ fileSize by omega)]
  split
  next hcheck =>
    exact iff_of_false hcheck fun h => hcheck h.1
  rename_i hcheck
  rw [and_iff_right (not_not.mp hcheck)]
  split
  next hrc4 =>
    exact iff_of_false nofun fun h => h.1 hrc4
  rename_i hrc4
  rw [and_iff_right hrc4]
  split
  next hnone =>
    refine iff_of_false nofun ?_
    rintro ⟨ciphers, hsome⟩
    rw [hnone] at hsome
    cases hsome
  next ciphers hsome =>
    exact iff_of_true rfl ⟨ciphers, hsome⟩

structure RecordIo.Works (io : RecordIo) : Prop where
  sampleRead : io.sampleRead = true
  tempOpens : io.tempOpens = true
  copies : ∀ pos, io.copies pos = true
  windowReads : ∀ pos, io.windowReads pos = true
  windowWrites : ∀ pos, io.windowWrites pos = true

theorem copyLoop_works {copies : Nat → Bool} (h : ∀ pos, copies pos = true) :
    (copyLoop target copies pos out).2 = true := by
  fun_induction copyLoop target copies pos out with
  | case1 pos out hpos hcopy ih => exact ih
  | case2 pos out hpos hcopy => exact absurd (h pos) hcopy
  | case3 pos out hpos => rfl

theorem openTemp_works (target : TargetFile) (h : io.Works) (temp : Option OutFile) :
    ∃ out, openTemp target io temp = (some out, true) := by
  cases temp with
  | some out => exact ⟨out, rfl⟩
  | none =>
    refine ⟨(copyLoop target io.copies 0 .empty).1, ?_⟩
    simp only [openTemp, h.tempOpens, if_true, copyLoop_works h.copies]

theorem patchLoop_works (h : io.Works) (hkey : rk.Usable suite) (hstop : stop ≤ target.bytes.length)
    {pos : Nat} (hpos : origin ≤ pos) (ptchunk : Nat → UInt8) (out : OutFile) :
    (patchLoop suite target rk io origin stop pos ptchunk out).2.2 = .ok := by
  fun_induction patchLoop suite target rk io origin stop pos ptchunk out with
  | case1 pos ptchunk out hlt hread => exact absurd hread (by simp [h.windowReads])
  | case2 pos ptchunk out hlt wlen hread chunk hchunk =>
    refine absurd ((sarRecoverChunk_ok_iff ?_).mpr ⟨⟨hpos, ?_⟩, hkey⟩) hchunk
    · exact Nat.lt_min.mpr ⟨by omega, by decide⟩
    · omega
  | case3 pos ptchunk out hlt wlen hread chunk hchunk hwrite =>
    exact absurd hwrite (by simp [h.windowWrites])
  | case4 pos ptchunk out hlt wlen hread chunk hchunk hwrite ih => exact ih (by omega)
  | case5 pos ptchunk out hlt => rfl

theorem Admitted.usable {ptchunk : Nat → UInt8} (h : Admitted suite target keyId io rec ptchunk r) :
    (sarRecoveryKeyFromRecord rec).Usable suite := by
  obtain ⟨-, -, hinside, -, hchunk, -⟩ := h
  have hlen : 0 < rec.sampleLength.toNat :=
    pos_of_ne_zero fun hzero => hinside (.inl (UInt32.toNat_inj.mp hzero))
  exact ((sarRecoverChunk_ok_iff hlen).mp hchunk).2

theorem recoverRecord_works
    (h : io.Works) :
    ∃ s', recoverRecord suite target keyId io rec s = (s', .ok) := by
  rcases recoverRecord_cases suite target keyId io rec s with
    ⟨r, hadm, heq⟩ | ⟨-, matched, ptchunk, hmatched, heq⟩
  · have hrange := (recordRange_spec hadm.2.1).2.2
    rw [target.toNat_size] at hrange
    obtain ⟨out, hopen⟩ := openTemp_works target h s.temp
    have hpatch := patchLoop_works h hadm.usable hrange (le_refl r.offset.toNat)
      (sampleChunk suite target io rec r s.ptchunk).2 out
    rw [heq]
    simp only [applyRecord, hopen, hpatch, ne_eq, not_true_eq_false, if_false]
    exact ⟨_, rfl⟩
  · exact ⟨_, heq⟩

theorem recoverLoop_works (h : ∀ step ∈ steps, step.2.Works) :
    ∃ s', recoverLoop suite target keyId steps s = (s', .ok) := by
  induction steps generalizing s with
  | nil => exact ⟨s, rfl⟩
  | cons step steps ih =>
    obtain ⟨rec, io⟩ := step
    obtain ⟨mid, hmid⟩ := recoverRecord_works
      (h (rec, io) mem_cons_self)
    rw [recoverLoop, hmid]
    exact ih fun step hstep => h step (mem_cons_of_mem _ hstep)

end

/-! ### What the output keeps -/

section

variable {io : RecoveryIo} {keystore : List KeystoreRecord} {request : RecoveryExec}

theorem finishRecovery_ok (hok : (finishRecovery target io s).status = .ok) :
    (finishRecovery target io s).applied = s.applied ∧ (finishRecovery target io s).temp =
        if s.temp.isSome ∧ s.recoveredEnd < target.size then
          s.temp.map (·.truncate s.recoveredEnd.toNat)
        else s.temp := by
  unfold finishRecovery at hok ⊢
  by_cases hmatched : s.matched = false
  · rw [if_pos hmatched] at hok
    cases hok
  by_cases hnone : s.applied = []
  · rw [if_neg hmatched, if_pos hnone] at hok
    cases hok
  rw [if_neg hmatched, if_neg hnone] at hok ⊢
  dsimp only at hok ⊢
  by_cases hcut : (s.temp.isSome = true ∧ s.recoveredEnd < target.size) ∧ io.truncates = false
  · rw [if_pos hcut] at hok
    cases hok
  rw [if_neg hcut] at hok ⊢
  generalize (if s.temp.isSome = true ∧ s.recoveredEnd < target.size then
    s.temp.map (·.truncate s.recoveredEnd.toNat) else s.temp) = temp at hok ⊢
  by_cases hflush : temp.isSome = true ∧ io.flushes = false
  · rw [if_pos hflush] at hok
    cases hok
  · rw [if_neg hflush]
    exact ⟨rfl, rfl⟩

/-- A successful run that applied something went through the ledger, and its output is cut
    at `recoveredEnd` if the target goes on behind it. -/
theorem sarRecoveryExecute_ok
    (hok : (sarRecoveryExecute suite target io keystore request).status = .ok)
    (happlied : (sarRecoveryExecute suite target io keystore request).applied ≠ []) :
    ∃ s, recoverLoop suite target request.keyId (recoverySteps io keystore) .initial = (s, .ok) ∧
      (sarRecoveryExecute suite target io keystore request).applied = s.applied ∧
      (sarRecoveryExecute suite target io keystore request).temp =
        if s.temp.isSome ∧ s.recoveredEnd < target.size then
          s.temp.map (·.truncate s.recoveredEnd.toNat)
        else s.temp := by
  unfold sarRecoveryExecute at hok happlied ⊢
  split_ifs at hok happlied ⊢
  · -- an empty target is done without the ledger
    exact absurd rfl happlied
  rcases hrun : recoverLoop suite target request.keyId (recoverySteps io keystore) .initial with
    ⟨s, status⟩
  rw [hrun] at hok happlied
  cases status with
  | ok =>
    exact ⟨s, rfl, finishRecovery_ok hok⟩
  | _ => cases hok

def FrameKept (target : TargetFile) (outcome : RecoveryOutcome) : Prop :=
  ∃ out, outcome.temp = some out ∧ out.length = target.bytes.length ∧ ∀ b < target.bytes.length,
      (∀ rec ∈ outcome.applied, ∀ r, recordRange rec target.size = some r → ¬ r.Has b) →
        out.data b = target.bytes.getD b 0

section

variable (hok : (sarRecoveryExecute suite target io keystore request).status = .ok)
  (happlied : (sarRecoveryExecute suite target io keystore request).applied ≠ [])

include hok happlied

theorem FrameKept.reaches_end
    (h : FrameKept target (sarRecoveryExecute suite target io keystore request)) :
    ∃ rec r, AdmittedIn suite target request.keyId (recoverySteps io keystore) .initial rec r ∧
      r.offset + r.length = target.size := by
  obtain ⟨s, hrun, hlist, htemp⟩ := sarRecoveryExecute_ok hok happlied
  have hinv := RunInv.initial.run hrun
  rw [hlist] at happlied
  obtain ⟨out, hout, hlen, -⟩ := h
  obtain ⟨full, hfull⟩ : ∃ full, s.temp = some full :=
    Option.ne_none_iff_exists'.mp fun hnone => happlied (hinv.unopened hnone)
  obtain ⟨rec, hrec, r, hr, hend⟩ := hinv.last happlied
  obtain ⟨r', hadm⟩ := ((mem_applied_run hrun).mp hrec).resolve_left not_mem_nil
  obtain rfl : r' = r := by
    obtain ⟨_, _, _, _, hr'⟩ := hadm
    exact Option.some.inj (hr'.2.1.symm.trans hr)
  refine ⟨rec, r', hadm, ?_⟩
  by_contra hne
  have hlt : s.recoveredEnd < target.size := by
    rw [← hend, UInt64.lt_iff_toNat_lt, recordRange_end hr]
    have hle := (recordRange_spec hr).2.2
    refine lt_of_le_of_ne hle fun heq => hne (UInt64.toNat_inj.mp ?_)
    rw [recordRange_end hr, heq]
  rw [htemp, hfull, if_pos ⟨rfl, hlt⟩] at hout
  cases hout
  rw [UInt64.lt_iff_toNat_lt, target.toNat_size] at hlt
  exact Nat.ne_of_lt hlt hlen

/-- **The frame of a recovery.**  A successful run that applied a record keeps the target's
    length and everything outside the applied ranges exactly if an admitted record's range
    ends where the target ends. -/
theorem recovery_frame_iff :
    FrameKept target (sarRecoveryExecute suite target io keystore request) ↔
      ∃ rec r, AdmittedIn suite target request.keyId (recoverySteps io keystore) .initial rec r ∧
        r.offset + r.length = target.size := by
  refine ⟨fun h => h.reaches_end hok happlied, ?_⟩
  rintro ⟨rec, r, hadm, hend⟩
  obtain ⟨s, hrun, hlist, htemp⟩ := sarRecoveryExecute_ok hok happlied
  have hinv := RunInv.initial.run hrun
  rw [hlist] at happlied
  obtain ⟨out, hout⟩ : ∃ out, s.temp = some out :=
    Option.ne_none_iff_exists'.mp fun hnone => happlied (hinv.unopened hnone)
  have hr : recordRange rec target.size = some r := by
    obtain ⟨_, _, _, _, hr⟩ := hadm
    exact hr.2.1
  have hfull : ¬ s.recoveredEnd < target.size := by
    have hreach := hinv.reach rec ((mem_applied_run hrun).mpr (.inr ⟨r, hadm⟩)) r hr
    rw [hend] at hreach
    exact UInt64.not_lt.mpr hreach
  refine ⟨out, ?_, hinv.length_eq out hout, ?_⟩
  · rw [htemp, if_neg fun h => hfull h.2, hout]
  · rw [hlist]
    exact hinv.frame out hout

end

theorem AdmittedIn.mem
    (h : AdmittedIn suite target request.keyId (recoverySteps io keystore) s rec r) :
    rec ∈ keystore ∧ rec.keyId = request.keyId ∧ recordRange rec target.size = some r := by
  obtain ⟨before, io', after, hsteps, hadm⟩ := h
  refine ⟨?_, hadm.1, hadm.2.1⟩
  have hmem : (rec, io') ∈ recoverySteps io keystore := by
    rw [hsteps]
    exact mem_append_right _ mem_cons_self
  obtain ⟨entry, hentry, heq⟩ := mem_map.mp hmem
  rw [← (Prod.mk.inj heq).1]
  exact fst_mem_of_mem_zipIdx hentry

/-- Only records of the path `p` were applied, and only bytes that the ledger has under that
    path and the requested key were changed. -/
def OwnRangesOnly (target : TargetFile) (keystore : List KeystoreRecord)
    (keyId : Vector UInt8 SEMANTICS_AR_KEY_ID_SIZE) (p : ProvPath) (outcome : RecoveryOutcome) :
    Prop :=
  (∀ rec ∈ outcome.applied, rec.provenancePath = p) ∧
    ∀ out, outcome.temp = some out → ∀ b < out.length,
      (∀ rec ∈ keystore, rec.provenancePath = p → rec.keyId = keyId →
        ∀ r, recordRange rec target.size = some r → ¬ r.Has b) →
      out.data b = target.bytes.getD b 0

/-- **Recovery and the paths of the ledger.**  A successful run on a file with the path `p` keeps to
    records of that path exactly if no record of another path is admitted. -/
theorem recovery_own_ranges_iff (p : ProvPath)
    (hok : (sarRecoveryExecute suite target io keystore request).status = .ok)
    (happlied : (sarRecoveryExecute suite target io keystore request).applied ≠ []) :
    OwnRangesOnly target keystore request.keyId p
        (sarRecoveryExecute suite target io keystore request) ↔
      ∀ rec r, rec.provenancePath ≠ p →
        ¬ AdmittedIn suite target request.keyId (recoverySteps io keystore) .initial rec r := by
  obtain ⟨s, hrun, hlist, htemp⟩ := sarRecoveryExecute_ok hok happlied
  have hinv := RunInv.initial.run hrun
  have hmem (rec : KeystoreRecord) : rec ∈ s.applied ↔ ∃ r, AdmittedIn suite target request.keyId
      (recoverySteps io keystore) .initial rec r :=
    (mem_applied_run hrun).trans (or_iff_right List.not_mem_nil)
  unfold OwnRangesOnly
  rw [hlist, htemp]
  constructor
  · rintro ⟨hown, -⟩ rec r hforeign hadm
    exact hforeign (hown rec ((hmem rec).mpr ⟨r, hadm⟩))
  · intro hnone
    have hown (rec : KeystoreRecord) (hrec : rec ∈ s.applied) : rec.provenancePath = p := by
      obtain ⟨r, hadm⟩ := (hmem rec).mp hrec
      by_contra hforeign
      exact hnone rec r hforeign hadm
    refine ⟨hown, fun out hout b hb hfree => ?_⟩
    -- no applied range has the byte, since each is one of the ledger's under the path
    have hkept (rec : KeystoreRecord) (hrec : rec ∈ s.applied) (r : FileRange)
        (hr : recordRange rec target.size = some r) : ¬ r.Has b := by
      obtain ⟨r', hadm⟩ := (hmem rec).mp hrec
      obtain ⟨hin, hkey, -⟩ := hadm.mem
      exact hfree rec hin (hown rec hrec) hkey r hr
    split at hout
    next hcut =>
      obtain ⟨full, hfull, rfl⟩ := Option.map_eq_some_iff.mp hout
      have hlt := UInt64.lt_iff_toNat_lt.mp hcut.2
      rw [target.toNat_size] at hlt
      exact hinv.frame full hfull b (hb.trans hlt) hkept
    · rw [hinv.length_eq out hout] at hb
      exact hinv.frame out hout b hb hkept

structure RecoveryIo.Works (io : RecoveryIo) : Prop where
  ready : io.ready = true
  pathPool : io.pathPool = true
  chunkPools : io.chunkPools = true
  targetOpens : io.targetOpens = true
  querySize : io.querySize = true
  record : ∀ k, (io.record k).Works
  truncates : io.truncates = true
  flushes : io.flushes = true

theorem sarRecoveryExecute_run (suite : CipherSuite) (keystore : List KeystoreRecord)
    (h : io.Works) (hpath : request.firstUnit ≠ 0) (hsize : target.size ≠ 0) :
    ∃ s, recoverLoop suite target request.keyId (recoverySteps io keystore) .initial = (s, .ok) ∧
      sarRecoveryExecute suite target io keystore request = finishRecovery target io s := by
  obtain ⟨s, hrun⟩ : ∃ s, recoverLoop suite target request.keyId (recoverySteps io keystore)
      .initial = (s, .ok) := by
    apply recoverLoop_works
    intro step hstep
    obtain ⟨entry, -, rfl⟩ := mem_map.mp hstep
    exact h.record entry.2
  refine ⟨s, hrun, ?_⟩
  simp only [sarRecoveryExecute, h.ready, h.pathPool, h.chunkPools, h.targetOpens, h.querySize,
    hpath, hsize, hrun, Bool.true_eq_false, or_self, if_false]

theorem finishRecovery_works (h : io.Works) (hinv : RunInv target s) (hne : s.applied ≠ []) :
    finishRecovery target io s =
      ⟨.ok, s.recovered, if s.temp.isSome ∧ s.recoveredEnd < target.size then
        s.temp.map (·.truncate s.recoveredEnd.toNat) else s.temp, s.applied⟩ := by
  simp only [finishRecovery, hinv.matched hne, hne, h.truncates, h.flushes, Bool.true_eq_false,
    and_false, if_false]

theorem sarRecoveryExecute_works (h : io.Works) (hpath : request.firstUnit ≠ 0)
    (hsize : target.size ≠ 0)
    (hadm : AdmittedIn suite target request.keyId (recoverySteps io keystore) .initial rec r) :
    (sarRecoveryExecute suite target io keystore request).status = .ok ∧
      rec ∈ (sarRecoveryExecute suite target io keystore request).applied := by
  obtain ⟨s, hrun, hexec⟩ := sarRecoveryExecute_run suite keystore h hpath hsize
  have hrec : rec ∈ s.applied := (mem_applied_run hrun).mpr (.inr ⟨r, hadm⟩)
  rw [hexec, finishRecovery_works h (RunInv.initial.run hrun) (ne_nil_of_mem hrec)]
  exact ⟨rfl, hrec⟩

end

/-! ### A ledger of one record -/

def noStray : Stray := ⟨fun _ => 0, zeroBuffers⟩

def workingIo : RecoveryIo where
  ready := true
  pathPool := true
  chunkPools := true
  targetOpens := true
  querySize := true
  writesEmpty := true
  record := fun _ => ⟨true, noStray, true, fun _ => true, fun _ => true, fun _ => noStray,
    fun _ => true⟩
  truncates := true
  flushes := true

theorem workingIo_works : workingIo.Works :=
  ⟨rfl, rfl, rfl, rfl, rfl, fun _ => ⟨rfl, rfl, fun _ => rfl, fun _ => rfl, fun _ => rfl⟩, rfl, rfl⟩

def onesPath : ProvPath := Vector.replicate _ 1

def onesRecord (length : UInt64) : KeystoreRecord where
  keyId := Vector.replicate _ 0
  algorithm := SAR_ALG_AES_128
  mode := SAR_MODE_ECB
  keyLength := 16
  keyBytes := Vector.replicate _ 1
  iv := Vector.replicate _ 0
  ivLength := 0
  ctrLayoutTag := 0
  modeParams := 0
  provenanceOffset := 0
  provenanceLength := length
  provenancePath := onesPath
  sampleOffset := 0
  sampleLength := 16
  sampleTag := sarSampleTag (replicate 16 1)
  captureTime := 0
  actorStartKey := 0

def zeroTarget : TargetFile := ⟨replicate 32 0, by decide⟩

def zeroRequest : RecoveryExec := ⟨Vector.replicate _ 0, 1⟩

theorem onesRecord_admitted (hlen : length = 16 ∨ length = 32) :
    AdmittedIn xorSuite zeroTarget zeroRequest.keyId (recoverySteps workingIo [onesRecord length])
      .initial (onesRecord length) ⟨0, length⟩ := by
  refine ⟨[], workingIo.record 0, [], rfl, rfl, ?_, ?_, rfl, ?_, ?_⟩
  · rcases hlen with rfl | rfl <;> decide
  · rcases hlen with rfl | rfl <;> decide
  · rfl
  · refine congrArg sarSampleTag ?_
    rcases hlen with rfl | rfl <;> decide +kernel

theorem onesRecord_recovers (hlen : length = 16 ∨ length = 32) :
    (sarRecoveryExecute xorSuite zeroTarget workingIo [onesRecord length] zeroRequest).status =
        .ok ∧
      (sarRecoveryExecute xorSuite zeroTarget workingIo [onesRecord length] zeroRequest).applied ≠
        [] := by
  obtain ⟨hok, hmem⟩ := sarRecoveryExecute_works workingIo_works (by decide) (by decide)
    (onesRecord_admitted hlen)
  exact ⟨hok, ne_nil_of_mem hmem⟩

theorem recovery_frame_whole_target : FrameKept zeroTarget
    (sarRecoveryExecute xorSuite zeroTarget workingIo [onesRecord 32] zeroRequest) :=
  (recovery_frame_iff (onesRecord_recovers (.inr rfl)).1 (onesRecord_recovers (.inr rfl)).2).mpr
    ⟨onesRecord 32, _, onesRecord_admitted (.inr rfl), by decide⟩

/-- The first block of two is recovered, and the second one is gone. -/
theorem recovery_cuts_the_rest : ¬ FrameKept zeroTarget
    (sarRecoveryExecute xorSuite zeroTarget workingIo [onesRecord 16] zeroRequest) := by
  intro h
  obtain ⟨hok, hne⟩ := onesRecord_recovers (.inl rfl)
  obtain ⟨rec, r, hadm, hend⟩ := h.reaches_end hok hne
  obtain ⟨hmem, -, hr⟩ := hadm.mem
  obtain rfl := List.mem_singleton.mp hmem
  have hrange : recordRange (onesRecord 16) zeroTarget.size = some ⟨0, 16⟩ := by decide
  obtain rfl := Option.some.inj (hrange.symm.trans hr)
  exact absurd hend (by decide)

theorem recovery_own_ranges_single : OwnRangesOnly zeroTarget [onesRecord 32] zeroRequest.keyId
    onesPath (sarRecoveryExecute xorSuite zeroTarget workingIo [onesRecord 32] zeroRequest) :=
  (recovery_own_ranges_iff onesPath (onesRecord_recovers (.inr rfl)).1
    (onesRecord_recovers (.inr rfl)).2).mpr fun _ _ hforeign hadm =>
      hforeign (List.mem_singleton.mp hadm.mem.1 ▸ rfl)

/-- A record of another file under the same key is applied to a target that starts with the
    same ciphertext. -/
theorem recovery_applies_foreign_record : ¬ OwnRangesOnly zeroTarget [onesRecord 32]
    zeroRequest.keyId (Vector.replicate _ 2)
    (sarRecoveryExecute xorSuite zeroTarget workingIo [onesRecord 32] zeroRequest) := by
  rintro ⟨hown, -⟩
  obtain ⟨-, hmem⟩ := sarRecoveryExecute_works workingIo_works (by decide) (by decide)
    (onesRecord_admitted (.inr rfl))
  have hpath : onesPath = Vector.replicate _ 2 := hown _ hmem
  exact absurd (congrArg (fun p : ProvPath => p.get 0) hpath) (by decide)

end SemanticsAr
