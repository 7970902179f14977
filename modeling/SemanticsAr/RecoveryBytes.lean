import SemanticsAr.RecoveryRuns

/-!
# The bytes the driver writes

`SarRecoveryExecute` decrypts a record's range through one buffer that nobody fills with
ciphertext first.  A byte that the mode leaves alone is therefore whatever the buffer held,
while `sar_recover_range` leaves it as the caller's copy of the ciphertext.  The two agree
where the mode leaves nothing alone and reads nothing from outside the buffers.
-/

namespace SemanticsAr

open List Option Nat

variable {bc : AnyCipher} {policy : CounterPolicy} {origin wlen start length b stop pos : Nat}
  {file : List UInt8} {target' : TargetFile} {v : UInt8} {stray : Stray}

/-! ### Bytes a mode leaves alone -/

/-- The mode writes every byte of the range: the block modes have no short block at its
    end, and a chained mode has an IV for the first block of a file. -/
def Filled (rk : RecoveryKey) (start length : Nat) : Prop :=
  (rk.mode = SAR_MODE_ECB ∨ rk.mode = SAR_MODE_CBC → rk.blockSize ∣ length) ∧
    (rk.mode = SAR_MODE_XTS → 16 ∣ length) ∧
    (rk.mode = SAR_MODE_CBC ∨ rk.mode = SAR_MODE_CFB → start = 0 → rk.blockSize ≤ rk.ivLength.toNat)

instance (rk : RecoveryKey) (start length : Nat) : Decidable (Filled rk start length) :=
  inferInstanceAs (Decidable (_ ∧ _ ∧ _))

section

variable {suite : CipherSuite} {rk : RecoveryKey} {ciphers : Ciphers}

theorem mode_of_block (hcheck : precheck rk = .ok)
    (hciphers : buildCiphers suite rk = some (.block bc)) :
    rk.mode = SAR_MODE_ECB ∨ rk.mode = SAR_MODE_CBC ∨ rk.mode = SAR_MODE_CFB ∨
      rk.mode = SAR_MODE_OFB ∨ rk.mode = SAR_MODE_CTR := by
  have halg := isBlockAlg_of_makeBlock (buildCiphers_spec hciphers).2
  have hxts := (buildCiphers_spec hciphers).1
  by_contra hnone
  simp only [not_or] at hnone
  obtain ⟨hecb, hcbc, hcfb, hofb, hctr⟩ := hnone
  rw [precheck, if_neg (by tauto), if_neg hofb, if_neg hctr, if_neg hxts] at hcheck
  split at hcheck
  · -- a stream cipher is no block cipher
    split at hcheck
    next hrc4 =>
      rw [hrc4] at halg
      cases halg
    split at hcheck
    · cases hcheck
    rename_i hstream
    simp only [isChachaAlg, isSalsaAlg, Bool.or_eq_false_iff, beq_eq_false_iff_ne, ne_eq,
      not_and_or, not_not] at hstream
    rcases hstream with (h | h) | (h | h) <;> · rw [h] at halg; cases halg
  · cases hcheck

theorem blockStart_last {n : Nat} (hn : 0 < n) (hdvd : ¬ n ∣ length) (hlen : 0 < length) :
    ¬ blockStart n start (start + length - 1) + n ≤ start + length := by
  intro hle
  apply hdvd
  have hdiv := div_add_mod' (length - 1) n
  have hsub : start + length - 1 - start = length - 1 := by omega
  rw [blockStart, hsub] at hle
  have hmod : (length - 1) % n < n := mod_lt _ hn
  refine ⟨(length - 1) / n + 1, ?_⟩
  rw [mul_add, mul_one, mul_comm]
  omega

variable {mem mem' : Memory}

theorem rangeByte_filled (hcheck : precheck rk = .ok)
    (hciphers : buildCiphers suite rk = some ciphers) (hfilled : Filled rk start length)
    (hb : start ≤ b) (hend : b < start + length) :
    ∃ v, rangeByte rk .continuous ciphers mem start start (start + length) b = some v := by
  cases ciphers with
  | stream =>
    simp only [rangeByte, if_pos (mode_of_stream hcheck hciphers)]
    exact ⟨_, rfl⟩
  | xts bc1 bc2 =>
    have hwhole := blockStart_whole (by decide) (hfilled.2.1 (buildCiphers_spec hciphers).1) hb hend
    simp only [rangeByte, if_pos hwhole]
    exact ⟨_, rfl⟩
  | block bc =>
    obtain ⟨bc, rfl⟩ := block_of_ciphers hciphers
    have hchain (hmode : rk.mode = SAR_MODE_CBC ∨ rk.mode = SAR_MODE_CFB) (o : Nat)
        (ho : start ≤ o) :
        ∃ prev, chainBlock rk.blockSize rk .continuous mem start o = some prev := by
      unfold chainBlock
      split
      next hiv =>
        have hzero : start = 0 := by
          rcases hiv with h | ⟨h, -⟩
          · omega
          · cases h
        rw [if_neg (not_lt.mpr (hfilled.2.2 hmode hzero))]
        exact ⟨_, rfl⟩
      · exact ⟨_, rfl⟩
    have hstart : start ≤ blockStart rk.blockSize start b := le_add_right _ _
    rcases mode_of_block hcheck hciphers with hmode | hmode | hmode | hmode | hmode
    · have hwhole := blockStart_whole (blockSize_pos rk) (hfilled.1 (.inl hmode)) hb hend
      simp only [rangeByte, if_pos hmode, if_pos hwhole]
      exact ⟨_, rfl⟩
    · have hwhole := blockStart_whole (blockSize_pos rk) (hfilled.1 (.inr hmode)) hb hend
      obtain ⟨prev, hprev⟩ := hchain (.inl hmode) _ hstart
      rw [rangeByte_cbc hmode, if_pos hwhole, hprev]
      exact ⟨_, rfl⟩
    · obtain ⟨prev, hprev⟩ := hchain (.inr hmode) _ hstart
      rw [rangeByte_cfb hmode, hprev]
      exact ⟨_, rfl⟩
    all_goals
      simp only [rangeByte, hmode]
      exact ⟨_, rfl⟩

def RecoveryKey.WholeBlocks (rk : RecoveryKey) : Prop :=
  rk.mode = SAR_MODE_ECB ∨ rk.mode = SAR_MODE_CBC ∨ rk.mode = SAR_MODE_XTS

def RecoveryKey.unit (rk : RecoveryKey) : Nat :=
  if rk.mode = SAR_MODE_XTS then 16 else rk.blockSize

theorem unit_pos : 0 < rk.unit := by
  unfold RecoveryKey.unit
  split
  · decide
  · exact blockSize_pos rk

theorem unit_dvd : rk.unit ∣ 16 := by
  unfold RecoveryKey.unit
  split
  · exact dvd_refl 16
  · exact blockSize_dvd

theorem RecoveryKey.WholeBlocks.ne_stream (h : rk.WholeBlocks) : rk.mode ≠ SAR_MODE_STREAM := by
  rcases h with h | h | h <;> · rw [h]; decide

theorem rangeByte_short (hmode : rk.WholeBlocks) (hciphers : buildCiphers suite rk = some ciphers)
    (hshort : ¬ blockStart rk.unit start b + rk.unit ≤ stop) :
    rangeByte rk policy ciphers mem origin start stop b = none := by
  cases ciphers with
  | stream =>
    simp only [rangeByte, if_neg hmode.ne_stream]
  | xts bc1 bc2 =>
    rw [show rk.unit = 16 from if_pos (buildCiphers_spec hciphers).1] at hshort
    simp only [rangeByte, if_neg hshort]
  | block bc =>
    obtain ⟨bc, rfl⟩ := block_of_ciphers hciphers
    rw [show rk.unit = rk.blockSize from if_neg (buildCiphers_spec hciphers).1] at hshort
    rcases hmode with hecb | hcbc | hxts
    · simp only [rangeByte, if_pos hecb, if_neg hshort]
    · rw [rangeByte_cbc hcbc, if_neg hshort]
    · exact absurd hxts (buildCiphers_spec hciphers).1

theorem rangeByte_whole (hmode : rk.WholeBlocks) (hciphers : buildCiphers suite rk = some ciphers)
    (lim : Nat)
    (hlim : blockStart rk.unit start b + rk.unit ≤ stop →
      blockStart rk.unit start b + rk.unit ≤ lim) (hmem : ∀ q : Int, q < lim → mem q = mem' q) :
    rangeByte rk policy ciphers mem origin start stop b =
      rangeByte rk policy ciphers mem' origin start stop b := by
  by_cases hwhole : blockStart rk.unit start b + rk.unit ≤ stop
  · have hle := hlim hwhole
    cases ciphers with
    | stream =>
      simp only [rangeByte, if_neg hmode.ne_stream]
    | xts bc1 bc2 =>
      rw [show rk.unit = 16 from if_pos (buildCiphers_spec hciphers).1] at hle
      simp only [rangeByte]
      rw [xtsPlain_congr fun q hlo hhi => hmem q (by omega)]
    | block bc =>
      obtain ⟨bc, rfl⟩ := block_of_ciphers hciphers
      rw [show rk.unit = rk.blockSize from if_neg (buildCiphers_spec hciphers).1] at hle
      have hblock : blockAt rk.blockSize mem (blockStart rk.blockSize start b) =
          blockAt rk.blockSize mem' (blockStart rk.blockSize start b) :=
        blockAt_congr fun q hlo hhi => hmem q (by omega)
      have hchain : chainBlock rk.blockSize rk policy mem origin
            (blockStart rk.blockSize start b) =
          chainBlock rk.blockSize rk policy mem' origin (blockStart rk.blockSize start b) :=
        chainBlock_congr fun _ _ q hlo hhi => hmem q (by omega)
      rcases hmode with hecb | hcbc | hxts
      · simp only [rangeByte, if_pos hecb, hblock]
      · rw [rangeByte_cbc hcbc, rangeByte_cbc hcbc, hblock, hchain]
      · exact absurd hxts (buildCiphers_spec hciphers).1
  · rw [rangeByte_short hmode hciphers hwhole, rangeByte_short hmode hciphers hwhole]

theorem rangeByte_no_iv (hcheck : precheck rk = .ok)
    (hciphers : buildCiphers suite rk = some ciphers)
    (hmode : rk.mode = SAR_MODE_CBC ∨ rk.mode = SAR_MODE_CFB)
    (hiv : rk.ivLength.toNat < rk.blockSize) :
    rangeByte rk .continuous ciphers mem 0 0 stop 0 = none := by
  obtain ⟨bc, rfl⟩ := buildCiphers_mode hcheck hciphers hmode
  have hfirst : blockStart rk.blockSize 0 0 = 0 := by
    simp [blockStart]
  have hchain : chainBlock rk.blockSize rk .continuous mem 0 0 = none := by
    rw [chainBlock, if_pos (.inl rfl), if_pos hiv]
  rcases hmode with hcbc | hcfb
  · rw [rangeByte_cbc hcbc, hfirst, hchain, map_none, ite_self]
  · rw [rangeByte_cfb hcfb, hfirst, hchain, map_none]

/-! ### The windows of the driver -/

variable {target : TargetFile} {io : RecordIo}

section

variable (hcheck : precheck rk = .ok) (hrc4 : ¬ rk.IsRc4)
  (hciphers : buildCiphers suite rk = some ciphers)

include hcheck hrc4 hciphers

theorem targetChunk_eq (stray : Stray) (hwlen : 0 < wlen) (horigin : origin ≤ pos)
    (hfile : pos + wlen ≤ target.bytes.length) (ptchunk : Nat → UInt8) :
    targetChunk suite target rk stray origin pos wlen ptchunk =
      (.ok, recoverOneRange stray.stack rk .continuous ciphers
        (windowMemory target.bytes pos wlen stray.heap) ptchunk origin pos wlen pos) := by
  rw [targetChunk, sarRecoverChunk_eq _ hcheck hrc4 _ _ _ hwlen horigin hfile, hciphers]

theorem patchLoop_first (hio : io.Works) (hlt : start < stop) (hstop : stop ≤ target.bytes.length)
    (ptchunk : Nat → UInt8) (out : OutFile) {i : Nat}
    (hi : i < min (stop - start) SAR_PRESERVE_STAGE_MAX) :
    (patchLoop suite target rk io start stop start ptchunk out).2.1.data (start + i) =
      recoverOneRange (io.windowStrays start).stack rk .continuous ciphers
        (windowMemory target.bytes start (min (stop - start) SAR_PRESERVE_STAGE_MAX)
          (io.windowStrays start).heap)
        ptchunk start start (min (stop - start) SAR_PRESERVE_STAGE_MAX) start i := by
  have hchunk := targetChunk_eq hcheck hrc4 hciphers (io.windowStrays start)
    (zero_lt_of_lt hi) (le_refl start)
    (show start + min (stop - start) SAR_PRESERVE_STAGE_MAX ≤ target.bytes.length by omega) ptchunk
  rw [patchLoop, if_pos hlt]
  simp only [hio.windowReads, hio.windowWrites, hchunk, Bool.true_eq_false, if_false, ne_eq,
    not_true_eq_false]
  rw [(patchLoop_frame suite target rk io start stop _ _ _).2.2 (start + i) (by omega),
    data_write_readData, if_pos (by omega), Nat.add_sub_cancel_left]

section

variable (hxts : ¬ rk.ShortXts) (hfile : start + length ≤ target.bytes.length)
  (hback : ¬ (ChainsBack rk .continuous start length ∧ start < 16))

include hxts hfile hback

/-- **What the driver writes over a range** is what the range decrypts to. -/
theorem patchLoop_apply (heap : Memory) (ptchunk : Nat → UInt8) (out : OutFile) (hpos : start ≤ pos)
    (haligned : 16 ∣ pos - start)
    (hok : (patchLoop suite target rk io start (start + length) pos ptchunk out).2.2 = .ok)
    (hb : pos ≤ b) (hend : b < start + length) {v : UInt8}
    (hv : rangeByte rk .continuous ciphers (fileMemory target.bytes heap) start start
      (start + length) b = some v) :
    (patchLoop suite target rk io start (start + length) pos ptchunk out).2.1.data b = v := by
  have hmax : 16 ∣ SAR_PRESERVE_STAGE_MAX := by decide
  have hwindow (pos : Nat) (hlt : pos < start + length) :
      pos + min (start + length - pos) SAR_PRESERVE_STAGE_MAX = start + length ∨
        16 ∣ min (start + length - pos) SAR_PRESERVE_STAGE_MAX ∧
          pos + min (start + length - pos) SAR_PRESERVE_STAGE_MAX ≤ start + length := by
    rcases le_total (start + length - pos) SAR_PRESERVE_STAGE_MAX with hle | hle
    · rw [min_eq_left hle]
      exact .inl (by omega)
    · rw [min_eq_right hle]
      exact .inr ⟨hmax, by omega⟩
  refine (patchLoop_rule (P := fun pos ptchunk out result => start ≤ pos → 16 ∣ pos - start →
    result.2.2 = .ok → (∀ b < pos, result.2.1.data b = out.data b) ∧ (pos ≤ b →
      result.2.1.data b = v)) ?_ ?_ ?_ pos ptchunk out hpos haligned hok).2 hb
  · intro pos ptchunk out hge _ _ _
    exact ⟨fun _ _ => rfl, fun hb => absurd hend (by omega)⟩
  · intro pos ptchunk out ptchunk' status hstatus _ _ hok
    exact absurd hok hstatus
  · intro pos ptchunk out win result hlt hchunk hrest hpos haligned hok
    have hwlen : 0 < min (start + length - pos) SAR_PRESERVE_STAGE_MAX :=
      Nat.lt_min.mpr ⟨by omega, by decide⟩
    rw [targetChunk_eq hcheck hrc4 hciphers _ hwlen hpos (by omega)] at hchunk
    obtain rfl := (Prod.mk.inj hchunk).2
    obtain ⟨hbefore, hafter⟩ := hrest (by omega) (by
      rw [Nat.sub_add_comm hpos]
      exact Nat.dvd_add haligned hmax) hok
    refine ⟨fun b hb => ?_, fun hb => ?_⟩
    · rw [hbefore b (by omega), data_write_readData, if_neg (by omega)]
    · by_cases hlater : pos + SAR_PRESERVE_STAGE_MAX ≤ b
      · exact hafter hlater
      · rw [hbefore b (by omega), data_write_readData, if_pos (by omega),
          recoverOneRange_window _ hciphers hrc4 hxts hpos haligned (hwindow pos hlt) hfile
            (by rwa [Nat.add_sub_cancel_left]) _ heap _ (by omega),
          Nat.add_sub_cancel' hb, hv, getD_some]

theorem patchLoop_filled (hfilled : Filled rk start length) (heap : Memory) (ptchunk : Nat → UInt8)
    (out : OutFile) (hpos : start ≤ pos) (haligned : 16 ∣ pos - start)
    (hok : (patchLoop suite target rk io start (start + length) pos ptchunk out).2.2 = .ok)
    (hb : pos ≤ b) (hend : b < start + length) :
    some ((patchLoop suite target rk io start (start + length) pos ptchunk out).2.1.data b) =
      rangeByte rk .continuous ciphers (fileMemory target.bytes heap) start start (start + length)
        b := by
  obtain ⟨v, hv⟩ := rangeByte_filled hcheck hciphers hfilled
    (hpos.trans hb) hend
  rw [patchLoop_apply hcheck hrc4 hciphers hxts hfile hback heap ptchunk out hpos haligned hok hb
    hend hv, hv]

end

/-- The bytes of `sar_recover_range` over a copy of the file. -/
theorem sarRecoverRange_apply (stack : XtsBuffers) (heap : Memory) {r : FileRange}
    (hlen : 0 < r.length.toNat) (hinside : r.offset.toNat + r.length.toNat ≤ file.length)
    (hxts : ¬ rk.ShortXts) (hb : r.Has b) :
    (sarRecoverRange suite stack rk (fileMemory file heap) (fun i => file.getD i 0) file.length
        r).2 b =
      (rangeByte rk .continuous ciphers (fileMemory file heap) r.offset.toNat r.offset.toNat
        (r.offset.toNat + r.length.toNat) b).getD (file.getD b 0) := by
  have hne : r.length ≠ 0 := by
    rintro hzero
    rw [hzero] at hlen
    exact absurd hlen (by decide)
  have hin : ¬ (r.offset.toNat > file.length ∨ file.length - r.offset.toNat < r.length.toNat) := by
    omega
  have hone := recoverOneRange_apply stack hrc4 .continuous (buildCiphers_regular hciphers hxts)
    (fileMemory file heap) (fun i => file.getD i 0) (le_refl r.offset.toNat) (zero_le _)
    hb.1 hb.2
  simp only [view_zero] at hone
  simp only [sarRecoverRange, if_neg hne, recoverRangesInto, hcheck, hciphers, ne_eq,
    not_true_eq_false, if_false, false_and, foldl_cons, foldl_nil, if_neg hin]
  exact hone

end

/-! ### Targets that differ in a short block -/

theorem patchLoop_congr
    (h : ∀ pos ptchunk, start ≤ pos → 16 ∣ pos - start → pos < stop →
      targetChunk suite target rk (io.windowStrays pos) start pos (min (stop - pos)
      SAR_PRESERVE_STAGE_MAX) ptchunk =
      targetChunk suite target' rk (io.windowStrays pos) start pos (min (stop - pos)
      SAR_PRESERVE_STAGE_MAX) ptchunk) (pos : Nat) (hpos : start ≤ pos)
    (haligned : 16 ∣ pos - start) (ptchunk : Nat → UInt8) (out : OutFile) :
    patchLoop suite target rk io start stop pos ptchunk out =
      patchLoop suite target' rk io start stop pos ptchunk out := by
  rw [patchLoop]
  conv => rhs; rw [patchLoop]
  by_cases hlt : pos < stop
  · rw [if_pos hlt, if_pos hlt]
    dsimp only
    rw [h pos ptchunk hpos haligned hlt]
    split
    · rfl
    split
    · rfl
    split
    · rfl
    · refine patchLoop_congr h _ (by omega) ?_ _ _
      rw [Nat.sub_add_comm hpos]
      exact Nat.dvd_add haligned (by decide)
  · rw [if_neg hlt, if_neg hlt]
termination_by stop - pos
decreasing_by
  simp only [SAR_PRESERVE_STAGE_MAX]
  omega

theorem targetChunk_congr (hmode : rk.WholeBlocks) (hkey : rk.Usable suite)
    (hsafe : ¬ (rk.ShortXts ∧ 16 ≤ length)) (hlength : target.bytes.length = target'.bytes.length)
    (hfile : start + length ≤ target.bytes.length)
    (hsame : ∀ k < start + length / rk.unit * rk.unit, target.bytes.getD k 0 =
      target'.bytes.getD k 0) (hwlen : 0 < wlen) (hpos : start ≤ pos)
    (haligned : 16 ∣ pos - start) (hstop : pos + wlen ≤ start + length) (ptchunk : Nat → UInt8) :
    targetChunk suite target rk stray start pos wlen ptchunk =
      targetChunk suite target' rk stray start pos wlen ptchunk := by
  obtain ⟨hcheck, hrc4, ciphers, hciphers⟩ := hkey
  rw [targetChunk_eq hcheck hrc4 hciphers stray hwlen hpos (by omega),
    targetChunk_eq hcheck hrc4 hciphers stray hwlen hpos (by omega)]
  congr 1
  by_cases hxts : rk.ShortXts
  · obtain ⟨bc1, bc2, rfl, -⟩ := buildCiphers_xts hciphers hxts.1
    have hshort : wlen < 16 := by
      by_contra hge
      exact hsafe ⟨hxts, by omega⟩
    simp only [recoverOneRange, recXts_of_lt _ _ _ hshort]
  · have hreg := buildCiphers_regular hciphers hxts
    funext i
    rw [show i = pos + i - pos by omega]
    by_cases hi : i < wlen
    · rw [recoverOneRange_apply stray.stack hrc4 .continuous hreg _ ptchunk hpos (le_refl pos)
          (le_add_right pos i) (show pos + i < pos + wlen by omega),
        recoverOneRange_apply stray.stack hrc4 .continuous hreg _ ptchunk hpos (le_refl pos)
          (le_add_right pos i) (show pos + i < pos + wlen by omega)]
      congr 1
      refine rangeByte_whole hmode hciphers (start + length / rk.unit * rk.unit) ?_ ?_
      · intro hwhole
        rw [blockStart_window unit_pos hpos (unit_dvd.trans haligned)
          (le_add_right pos i)] at hwhole ⊢
        rw [blockStart] at hwhole ⊢
        have hcount : (pos + i - start) / rk.unit + 1 ≤ length / rk.unit := by
          rw [le_div_iff_mul_le unit_pos, add_mul]
          omega
        have hmul := mul_le_mul_right rk.unit hcount
        rw [add_mul] at hmul
        omega
      · intro q hq
        simp only [view, windowMemory]
        split
        next hin =>
          have hlead := windowLead_le pos
          exact hsame _ (by omega)
        · rfl
    · rw [recoverOneRange_outside stray.stack hrc4 .continuous hreg _ ptchunk hpos (le_refl pos)
          (le_add_right pos i) (.inr (show pos + wlen ≤ pos + i by omega)),
        recoverOneRange_outside stray.stack hrc4 .continuous hreg _ ptchunk hpos (le_refl pos)
          (le_add_right pos i) (.inr (show pos + wlen ≤ pos + i by omega))]

/-- `sar_recover_range` leaves the short block at the end as it was. -/
theorem sarRecoverRange_last (stack : XtsBuffers) (heap : Memory) {r : FileRange}
    (hmode : rk.WholeBlocks) (hkey : rk.Usable suite)
    (hsafe : ¬ (rk.ShortXts ∧ 16 ≤ r.length.toNat)) (hlen : 0 < r.length.toNat)
    (hinside : r.offset.toNat + r.length.toNat ≤ file.length) (hdvd : ¬ rk.unit ∣ r.length.toNat) :
    (sarRecoverRange suite stack rk (fileMemory file heap) (fun i => file.getD i 0) file.length
        r).2 (r.offset.toNat + r.length.toNat - 1) =
      file.getD (r.offset.toNat + r.length.toNat - 1) 0 := by
  obtain ⟨hcheck, hrc4, ciphers, hciphers⟩ := hkey
  by_cases hxts : rk.ShortXts
  · obtain ⟨bc1, bc2, rfl, -⟩ := buildCiphers_xts hciphers hxts.1
    have hshort : r.length.toNat < 16 := not_le.mp fun hle => hsafe ⟨hxts, hle⟩
    have hne : r.length ≠ 0 := by
      rintro hzero
      rw [hzero] at hlen
      exact absurd hlen (by decide)
    simp only [sarRecoverRange, if_neg hne, recoverRangesInto, hcheck, hciphers, ne_eq,
      not_true_eq_false, if_false, false_and, foldl_cons, foldl_nil, recoverOneRange,
      recXts_of_lt _ _ _ hshort, ite_self]
  · rw [sarRecoverRange_apply hcheck hrc4 hciphers stack heap hlen hinside hxts
      ⟨by omega, by omega⟩]
    rw [rangeByte_short hmode hciphers (blockStart_last unit_pos hdvd hlen), getD_none]

/-! ### The driver and the engine -/

def withSample (rec : KeystoreRecord) (offset : UInt64) (length : UInt32) (tag : Mac) :
    KeystoreRecord :=
  { rec with sampleOffset := offset, sampleLength := length, sampleTag := tag }

/-- **The driver writes what the engine would**: for every target of `n` bytes and every sample
    found right, the bytes written over the record's range are those of `sar_recover_range`,
    whatever is outside the buffers.  `ptchunk` is the buffer before the record's turn. -/
def WritesEngineBytes (suite : CipherSuite) (rec : KeystoreRecord) (n : Nat) (r : FileRange)
    (ptchunk : Nat → UInt8) : Prop :=
  ∀ (target : TargetFile) (io : RecordIo) (offset : UInt64) (length : UInt32) (tag : Mac),
    target.bytes.length = n → io.Works →
    Admitted suite target rec.keyId io (withSample rec offset length tag) ptchunk r →
    ∀ (stray : Stray) (out : OutFile) (b : Nat), r.Has b →
      (patchLoop suite target (sarRecoveryKeyFromRecord rec) io r.offset.toNat
          (r.offset.toNat + r.length.toNat) r.offset.toNat
          (sampleChunk suite target io (withSample rec offset length tag) r ptchunk).2
          out).2.1.data b =
        (sarRecoverRange suite stray.stack (sarRecoveryKeyFromRecord rec)
          (fileMemory target.bytes stray.heap) (fun i => target.bytes.getD i 0)
          target.bytes.length r).2 b

variable {rec : KeystoreRecord} {n : Nat} {r : FileRange} {ptchunk : Nat → UInt8}

theorem exists_admitted (hr : recordRange rec target.size = some r)
    (hkey : (sarRecoveryKeyFromRecord rec).Usable suite) (hio : io.Works) : ∃ tag,
      Admitted suite target rec.keyId io (withSample rec r.offset 1 tag) ptchunk r := by
  obtain ⟨-, hlen, hle⟩ := recordRange_spec hr
  have hend := recordRange_end hr
  rw [target.toNat_size] at hle
  refine ⟨sarSampleTag (readData (targetChunk suite target (sarRecoveryKeyFromRecord rec)
    io.sampleStray r.offset.toNat r.offset.toNat 1 ptchunk).2 0 1), rfl, hr, ?_, hio.sampleRead, ?_,
    rfl⟩
  · rintro (hzero | hlarge | hlow | hhigh)
    · exact absurd hzero (show ¬ (1 : UInt32) = 0 by decide)
    · exact absurd hlarge (show ¬ (1 : UInt32).toNat > SAR_PRESERVE_STAGE_MAX by decide)
    · exact absurd hlow (UInt64.lt_irrefl _)
    · rw [gt_iff_lt, UInt64.lt_iff_toNat_lt, hend] at hhigh
      have hone : (r.offset + (1 : UInt32).toUInt64).toNat ≤ r.offset.toNat + 1 := by
        rw [UInt64.toNat_add]
        exact mod_le _ _
      exact absurd (hhigh.trans_le hone) (by omega)
  · have hone : r.offset.toNat + (1 : UInt32).toNat ≤ target.bytes.length :=
      (Nat.add_le_add_left hlen _).trans hle
    exact (sarRecoverChunk_ok_iff (show 0 < (1 : UInt32).toNat by decide)).mpr
      ⟨⟨le_refl _, hone⟩, hkey⟩

def recordIoWith (stray : Stray) : RecordIo :=
  ⟨true, noStray, true, fun _ => true, fun _ => true, fun _ => stray, fun _ => true⟩

theorem recordIoWith_works : (recordIoWith stray).Works :=
  ⟨rfl, rfl, fun _ => rfl, fun _ => rfl, fun _ => rfl⟩

def constantTarget (n : Nat) (hn : n < 2 ^ 63) (v : UInt8) : TargetFile :=
  ⟨List.replicate n v, by rwa [length_replicate]⟩

theorem length_constantTarget (hn : n < 2 ^ 63) :
    (constantTarget n hn v).bytes.length = n := length_replicate

theorem getD_constantTarget (hn : n < 2 ^ 63) (hb : b < n) :
    (constantTarget n hn v).bytes.getD b 0 = v := by
  rw [getD_eq_getElem?_getD, constantTarget, List.getElem?_replicate_of_lt hb, getD_some]

theorem size_eq_of_length (h : target.bytes.length = n) :
    target.size = UInt64.ofNat n := congrArg UInt64.ofNat h

/-- The bytes of a turn whose sample is the first byte of the range, and in which every call
    works. -/
def SampledBytes (suite : CipherSuite) (rk : RecoveryKey) (n : Nat) (r : FileRange)
    (ptchunk : Nat → UInt8) : Prop :=
  ∀ (target : TargetFile) (stray : Stray) (b : Nat), target.bytes.length = n → r.Has b →
    (patchLoop suite target rk (recordIoWith stray) r.offset.toNat
        (r.offset.toNat + r.length.toNat) r.offset.toNat
        (targetChunk suite target rk noStray r.offset.toNat r.offset.toNat 1 ptchunk).2
        .empty).2.1.data b =
      (sarRecoverRange suite noStray.stack rk (fileMemory target.bytes noStray.heap)
        (fun i => target.bytes.getD i 0) target.bytes.length r).2 b

theorem WritesEngineBytes.sampled (h : WritesEngineBytes suite rec n r ptchunk)
    (hr : recordRange rec (UInt64.ofNat n) = some r)
    (hkey : (sarRecoveryKeyFromRecord rec).Usable suite) :
    SampledBytes suite (sarRecoveryKeyFromRecord rec) n r ptchunk := by
  intro target stray b htarget hb
  obtain ⟨tag, hadm⟩ := exists_admitted (size_eq_of_length htarget ▸ hr) hkey recordIoWith_works
  exact h target (recordIoWith stray) r.offset 1 tag htarget recordIoWith_works hadm noStray .empty
    b hb

theorem recordRange_bounds (hn : n < 2 ^ 63) (hr : recordRange rec (UInt64.ofNat n) = some r) :
    0 < r.length.toNat ∧ r.offset.toNat + r.length.toNat ≤ n := by
  obtain ⟨-, hlen, hle⟩ := recordRange_spec hr
  rw [UInt64.toNat_ofNat_of_lt' (hn.trans (by decide))] at hle
  exact ⟨hlen, hle⟩

section

variable (hsuite : suite.Lawful) (hn : n < 2 ^ 63) (hlen : 0 < r.length.toNat)
  (hle : r.offset.toNat + r.length.toNat ≤ n) (hkey : rk.Usable suite)
  (h : SampledBytes suite rk n r ptchunk)

include hsuite hn hlen hle hkey h

theorem SampledBytes.safe : WindowsSafe rk .continuous r.offset.toNat r.length.toNat := by
  by_contra hstray
  obtain ⟨hcheck, hrc4, ciphers, hciphers⟩ := hkey
  have htarget : (constantTarget n hn 0).bytes.length = n := length_constantTarget hn
  have hspan : r.offset.toNat + r.length.toNat - r.offset.toNat = r.length.toNat :=
    Nat.add_sub_cancel_left _ _
  obtain ⟨i, hi, s, t, hne⟩ := stray_byte hsuite hcheck hciphers hstray
    (Nat.lt_min.mpr ⟨hlen, show 0 < SAR_PRESERVE_STAGE_MAX by decide⟩)
    (fun k hk hle => Nat.le_min.mpr ⟨hle, hk.trans (by decide)⟩)
  have hbyte (u : Stray) := h (constantTarget n hn 0) u (r.offset.toNat + i) htarget
    ⟨by omega, by omega⟩
  have hs := hbyte s
  have ht := hbyte t
  rw [patchLoop_first hcheck hrc4 hciphers recordIoWith_works (by omega) (by omega) _ _
    (by rwa [hspan]), hspan] at hs ht
  exact hne _ _ (hs.trans ht.symm)

theorem SampledBytes.whole (hmode : rk.WholeBlocks) : rk.unit ∣ r.length.toNat := by
  by_contra hdvd
  have hsafe := (h.safe hsuite hn hlen hle hkey).2
  let last := r.offset.toNat + r.length.toNat - 1
  -- two targets that differ in the last byte of the range
  let target := constantTarget n hn 0
  let target' : TargetFile := ⟨target.bytes.set last 1, length_set.symm ▸ target.bound⟩
  have htarget : target.bytes.length = n := length_constantTarget hn
  have htarget' : target'.bytes.length = n := length_set.trans htarget
  have hlast : r.offset.toNat + r.length.toNat / rk.unit * rk.unit ≤ last := by
    have hdiv := Nat.div_mul_le_self r.length.toNat rk.unit
    have hne : r.length.toNat / rk.unit * rk.unit ≠ r.length.toNat :=
      fun heq => hdvd ⟨_, (heq.symm.trans (Nat.mul_comm _ _))⟩
    omega
  have hsame (k : Nat) (hk : k < r.offset.toNat + r.length.toNat / rk.unit * rk.unit) :
      target.bytes.getD k 0 = target'.bytes.getD k 0 := by
    rw [getD_eq_getElem?_getD, getD_eq_getElem?_getD, List.getElem?_set_ne (by omega)]
  have hchunk (stray : Stray) {pos wlen : Nat} (hwlen : 0 < wlen) (hpos : r.offset.toNat ≤ pos)
      (haligned : 16 ∣ pos - r.offset.toNat)
      (hstop : pos + wlen ≤ r.offset.toNat + r.length.toNat) (pt : Nat → UInt8) :
      targetChunk suite target rk stray r.offset.toNat pos wlen pt =
        targetChunk suite target' rk stray r.offset.toNat pos wlen pt :=
    targetChunk_congr hmode hkey hsafe (htarget.trans htarget'.symm) (hle.trans_eq htarget.symm)
      hsame hwlen hpos haligned hstop pt
  have hwrites {target : TargetFile} (htarget : target.bytes.length = n) :=
    (h target noStray last htarget ⟨by omega, by omega⟩).trans
      (sarRecoverRange_last _ _ hmode hkey hsafe hlen (hle.trans_eq htarget.symm) hdvd)
  have hself : 16 ∣ r.offset.toNat - r.offset.toNat := by
    rw [Nat.sub_self]
    exact dvd_zero 16
  have heq := hwrites htarget
  rw [patchLoop_congr (fun pos pt hpos haligned hlt => hchunk _ (Nat.lt_min.mpr ⟨by omega,
      by decide⟩) hpos haligned (by omega) pt) _ (Nat.le_refl _) hself,
    hchunk noStray Nat.one_pos (Nat.le_refl _) hself (by omega), hwrites htarget',
    getD_constantTarget hn (by omega), getD_eq_getElem?_getD,
    List.getElem?_set_self (by omega), getD_some] at heq
  exact absurd heq (by decide)

omit hsuite in
theorem SampledBytes.iv (hmode : rk.mode = SAR_MODE_CBC ∨ rk.mode = SAR_MODE_CFB)
    (hstart : r.offset.toNat = 0) : rk.blockSize ≤ rk.ivLength.toNat := by
  by_contra hiv
  rw [not_le] at hiv
  obtain ⟨hcheck, hrc4, ciphers, hciphers⟩ := hkey
  have hxts := (chained_regular hmode).2
  -- a target whose first byte is not the buffer's
  let target := constantTarget n hn (ptchunk 0 + 1)
  have htarget : target.bytes.length = n := length_constantTarget hn
  have hwrite := h target noStray 0 htarget ⟨by omega, by omega⟩
  have hkept (stray : Stray) {wlen : Nat} (hwlen : 0 < wlen) (pt : Nat → UInt8) :
      recoverOneRange stray.stack rk .continuous ciphers
        (windowMemory target.bytes 0 wlen stray.heap) pt 0 0 wlen 0 0 = pt 0 := by
    have hone := recoverOneRange_apply stray.stack hrc4 .continuous
      (buildCiphers_regular hciphers hxts) (windowMemory target.bytes 0 wlen stray.heap) pt
      (le_refl 0) (le_refl 0) (le_refl 0) (show 0 < 0 + wlen by omega)
    rwa [rangeByte_no_iv hcheck hciphers hmode hiv, getD_none, Nat.sub_zero] at hone
  have hwlen : 0 < min (0 + r.length.toNat - 0) SAR_PRESERVE_STAGE_MAX :=
    Nat.lt_min.mpr ⟨by omega, by decide⟩
  have hfirst := patchLoop_first hcheck hrc4 hciphers
    (recordIoWith_works : (recordIoWith noStray).Works) (show 0 < 0 + r.length.toNat by omega)
    (show 0 + r.length.toNat ≤ target.bytes.length by omega)
    (targetChunk suite target rk noStray 0 0 1 ptchunk).2 .empty hwlen
  have hsample : (targetChunk suite target rk noStray 0 0 1 ptchunk).2 0 = ptchunk 0 := by
    rw [targetChunk_eq hcheck hrc4 hciphers _ one_pos (le_refl 0) (by omega)]
    exact hkept _ one_pos _
  rw [hkept _ hwlen, hsample] at hfirst
  rw [sarRecoverRange_apply hcheck hrc4 hciphers _ _ hlen (hle.trans_eq htarget.symm) hxts
      ⟨by omega, by omega⟩, hstart, rangeByte_no_iv hcheck hciphers hmode hiv, getD_none,
    getD_constantTarget hn (by omega)] at hwrite
  have heq : ptchunk 0 = ptchunk 0 + 1 := hfirst.symm.trans hwrite
  exact absurd heq (by simp)

end

/-- **Driver and engine.**  Over the range of a record the driver writes what the engine would,
    exactly if the key is declined, or the range reads nothing from outside the buffers and the mode
    writes every byte of it. -/
theorem driver_writes_engine_bytes_iff (hsuite : suite.Lawful) (hn : n < 2 ^ 63)
    (hr : recordRange rec (UInt64.ofNat n) = some r) (ptchunk : Nat → UInt8) :
    WritesEngineBytes suite rec n r ptchunk ↔
      ((sarRecoveryKeyFromRecord rec).Usable suite →
        WindowsSafe (sarRecoveryKeyFromRecord rec) .continuous r.offset.toNat r.length.toNat ∧
          Filled (sarRecoveryKeyFromRecord rec) r.offset.toNat r.length.toNat) := by
  constructor
  · intro h hkey
    have hbytes := h.sampled hr hkey
    obtain ⟨hlen, hle⟩ := recordRange_bounds hn hr
    refine ⟨hbytes.safe hsuite hn hlen hle hkey, fun hmode => ?_, fun hmode => ?_,
      hbytes.iv hn hlen hle hkey⟩
    · have hnot : (sarRecoveryKeyFromRecord rec).mode ≠ SAR_MODE_XTS := by
        rcases hmode with h | h <;> · rw [h]; decide
      have hdvd := hbytes.whole hsuite hn hlen hle hkey (hmode.imp_right Or.inl)
      rwa [RecoveryKey.unit, if_neg hnot] at hdvd
    · have hdvd := hbytes.whole hsuite hn hlen hle hkey (.inr (.inr hmode))
      rwa [RecoveryKey.unit, if_pos hmode] at hdvd
  · intro h target io offset length tag htarget hio hadm stray out b hb
    have husable : (sarRecoveryKeyFromRecord rec).Usable suite := hadm.usable
    obtain ⟨⟨hback, hshort⟩, hfilled⟩ := h husable
    obtain ⟨hcheck, hrc4, ciphers, hciphers⟩ := husable
    obtain ⟨hlen, hle⟩ := recordRange_bounds hn hr
    have hfile := hle.trans_eq htarget.symm
    have hxts : ¬ (sarRecoveryKeyFromRecord rec).ShortXts := fun hxts =>
      hshort ⟨hxts, le_of_dvd hlen (hfilled.2.1 hxts.1)⟩
    have hok := patchLoop_works hio ⟨hcheck, hrc4, ciphers, hciphers⟩ hfile
      (le_refl r.offset.toNat)
      (sampleChunk suite target io (withSample rec offset length tag) r ptchunk).2 out
    have hwritten := patchLoop_filled hcheck hrc4 hciphers hxts hfile hback hfilled stray.heap _ out
      (Nat.le_refl _) (by rw [Nat.sub_self]; exact dvd_zero 16) hok hb.1 hb.2
    rw [sarRecoverRange_apply hcheck hrc4 hciphers stray.stack stray.heap hlen hfile hxts hb,
      ← hwritten, getD_some]

end

/-- The record of a whole block decrypts as the engine would have it. -/
theorem driver_writes_engine_bytes_block :
    WritesEngineBytes xorSuite (onesRecord 16) 32 ⟨0, 16⟩ fun _ => 0 :=
  (driver_writes_engine_bytes_iff xorSuite_lawful (by decide) (by decide) _).mpr
    fun _ => by decide

/-- Twenty bytes under ECB: the four behind the first block come out of the buffer. -/
theorem driver_leaves_buffer_bytes :
    ¬ WritesEngineBytes xorSuite (onesRecord 20) 32 ⟨0, 20⟩ fun _ => 0 := by
  intro h
  have hkey : (sarRecoveryKeyFromRecord (onesRecord 20)).Usable xorSuite :=
    ⟨by decide, by decide, _, rfl⟩
  have hdvd := (h.sampled (by decide) hkey).whole xorSuite_lawful (by decide) (by decide)
    (by decide) hkey (.inl rfl)
  exact absurd hdvd (by decide)

end SemanticsAr
