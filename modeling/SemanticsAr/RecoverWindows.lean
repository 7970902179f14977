import SemanticsAr.RecoverBytes

/-!
# Recovery in windows

`sar_recover_chunk` decrypts a window of a range: the ciphertext of the window is in a
buffer of its own, behind up to sixteen bytes of what comes before it in the file.  The
windows of a range together should give what `sar_recover_buffer` gives on the whole file.
They do, unless a block is chained to bytes that no buffer holds.
-/

namespace SemanticsAr

open Option Nat
open List hiding Vector map_map

variable {n origin start pos wlen length base o b stop i : Nat} {ciphers : Ciphers} {mem : Memory}
  {bc bc1 bc2 : AnyCipher} {q : Int} {rk : RecoveryKey} {suite : CipherSuite} {file : List UInt8}
  {r : FileRange} {ws : List Nat} {dataUnit : UInt64} {out : Nat → UInt8}

/-! ### What the byte at a position depends on -/

section

variable {policy : CounterPolicy} {mem' : Memory}

theorem blockAt_congr {p : Int} (h : ∀ q, p ≤ q → q < p + n → mem q = mem' q) :
    blockAt n mem p = blockAt n mem' p := by
  apply ext_get
  intro i
  rw [get_blockAt, get_blockAt]
  exact h _ (by omega) (by omega)

theorem chainBlock_congr
    (h : o ≠ 0 → ¬ (policy = .resetPerChunk ∧ o = origin) → ∀ q : Int, (o : Int) - n ≤ q → q < o →
      mem q = mem' q) :
    chainBlock n rk policy mem origin o = chainBlock n rk policy mem' origin o := by
  unfold chainBlock
  by_cases hiv : o = 0 ∨ (policy = .resetPerChunk ∧ o = origin)
  · simp only [if_pos hiv]
  · simp only [if_neg hiv]
    rw [not_or] at hiv
    congr 1
    apply blockAt_congr
    intro q hlo hhi
    exact h hiv.1 hiv.2 q hlo (by omega)

theorem xtsPlain_congr {dataUnit : UInt64} (h : ∀ q : Int, o ≤ q → q < o + 16 → mem q = mem' q) :
    xtsPlain bc1 bc2 dataUnit mem o = xtsPlain bc1 bc2 dataUnit mem' o := by
  have hblock : blockAt 16 mem o = blockAt 16 mem' o := blockAt_congr (by simpa using h)
  simp only [xtsPlain, recXtsBlock, ctBlock, cast_zero, Int.sub_zero, hblock]

def RecoveryKey.blockSize (rk : RecoveryKey) : Nat :=
  if rk.algorithm = SAR_ALG_3DES then 8 else 16

def ChainsBack (rk : RecoveryKey) (policy : CounterPolicy) (start length : Nat) : Prop :=
  policy = .continuous ∧ start ≠ 0 ∧
    (rk.mode = SAR_MODE_CBC ∧ rk.blockSize ≤ length ∨ rk.mode = SAR_MODE_CFB ∧ 0 < length)

instance (rk : RecoveryKey) (policy : CounterPolicy) (start length : Nat) :
    Decidable (ChainsBack rk policy start length) := inferInstanceAs (Decidable (_ ∧ _))

theorem block_of_ciphers {c : AnyCipher} (h : buildCiphers suite rk = some (.block c)) :
    ∃ bc : BlockCipher rk.blockSize, c = ⟨rk.blockSize, bc⟩ := by
  obtain ⟨n, bc⟩ := c
  obtain rfl : n = rk.blockSize := by
    unfold RecoveryKey.blockSize
    rcases makeBlock_size (buildCiphers_spec h).2 with ⟨hdes, hsize⟩ | ⟨hdes, hsize⟩
    · rwa [if_pos hdes]
    · rwa [if_neg hdes]
  exact ⟨bc, rfl⟩

theorem blockSize_pos (rk : RecoveryKey) : 0 < rk.blockSize := by
  unfold RecoveryKey.blockSize
  split <;> decide

theorem blockSize_dvd : rk.blockSize ∣ 16 := by
  unfold RecoveryKey.blockSize
  split <;> decide

theorem blockStart_whole (hn : 0 < n) (hdvd : n ∣ length) (hb : start ≤ b)
    (hend : b < start + length) : blockStart n start b + n ≤ start + length := by
  obtain ⟨q, rfl⟩ := hdvd
  have hlt : (b - start) / n < q := by
    rw [div_lt_iff_lt_mul hn, mul_comm]
    omega
  have hmul : ((b - start) / n + 1) * n ≤ q * n := mul_le_mul_right n hlt
  rw [add_mul, one_mul, mul_comm q n] at hmul
  rw [blockStart]
  omega

theorem blockStart_cases (start b : Nat) :
    blockStart n start b = start ∨ start + n ≤ blockStart n start b := by
  unfold blockStart
  rcases Nat.eq_zero_or_pos ((b - start) / n) with hzero | hpos
  · exact .inl (by rw [hzero, zero_mul, add_zero])
  · exact .inr (Nat.add_le_add_left (Nat.le_mul_of_pos_left n hpos) start)

/-- **Two memories that agree on a window and on what its first block is chained to decrypt
    the window alike.** -/
theorem rangeByte_congr (hciphers : buildCiphers suite rk = some ciphers) (hb : start ≤ b)
    (hend : b < stop) (hmem : ∀ q : Int, start ≤ q → q < stop → mem q = mem' q)
    (hback : (∀ q : Int, (start : Int) - 16 ≤ q → q < start → mem q = mem' q) ∨ start = origin ∧
      ¬ ChainsBack rk policy start (stop - start)) :
    rangeByte rk policy ciphers mem origin start stop b =
      rangeByte rk policy ciphers mem' origin start stop b := by
  have hbyte : mem b = mem' b := hmem b (by omega) (by omega)
  cases ciphers with
  | stream => simp only [rangeByte, hbyte]
  | xts bc1 bc2 =>
    simp only [rangeByte]
    rcases blockStart_cases (n := 16) start b with ho | ho <;>
    · split
      · rw [xtsPlain_congr (fun q hlo hhi => hmem q (by omega) (by omega))]
      · rfl
  | block bc =>
    obtain ⟨bc, rfl⟩ := block_of_ciphers hciphers
    have hle := blockStart_le hb (n := rk.blockSize)
    have hsize : rk.blockSize ≤ 16 := le_of_dvd (by decide) blockSize_dvd
    have hcases := blockStart_cases (n := rk.blockSize) start b
    simp only [rangeByte, hbyte]
    generalize blockStart rk.blockSize start b = o at *
    have hblock (hwhole : o + rk.blockSize ≤ stop) :
        blockAt rk.blockSize mem o = blockAt rk.blockSize mem' o := by
      apply blockAt_congr
      intro q hlo hhi
      rcases hcases with ho | ho <;> exact hmem q (by omega) (by omega)
    have hchain (hmode : rk.mode = SAR_MODE_CBC ∧ o + rk.blockSize ≤ stop ∨
        rk.mode = SAR_MODE_CFB) : chainBlock rk.blockSize rk policy mem origin o =
          chainBlock rk.blockSize rk policy mem' origin o := by
      apply chainBlock_congr
      intro hzero hreset q hlo hhi
      rcases hcases with rfl | ho
      · rcases hback with hagree | ⟨horigin, hnot⟩
        · exact hagree q (by omega) hhi
        · -- the block would be chained to bytes in front of the range
          refine absurd ⟨?_, hzero, ?_⟩ hnot
          · cases policy with
            | continuous => rfl
            | resetPerChunk => exact absurd ⟨rfl, horigin⟩ hreset
          · rcases hmode with ⟨hcbc, hwhole⟩ | hcfb
            · exact .inl ⟨hcbc, by omega⟩
            · exact .inr ⟨hcfb, by omega⟩
      · exact hmem q (by omega) (by omega)
    by_cases hwhole : o + rk.blockSize ≤ stop
    · simp only [if_pos hwhole, hblock hwhole]
      split_ifs with hecb hcbc hcfb
      · rfl
      · rw [hchain (.inl ⟨hcbc, hwhole⟩)]
      · rw [hchain (.inr hcfb)]
      all_goals rfl
    · simp only [if_neg hwhole]
      split_ifs with hecb hcbc hcfb
      · rfl
      · rfl
      · rw [hchain (.inr hcfb)]
      all_goals rfl

theorem rangeByte_window (hciphers : buildCiphers suite rk = some ciphers) (hpos : start ≤ pos)
    (haligned : 16 ∣ pos - start) (hb : pos ≤ b) (hend : b < pos + wlen)
    (hlast : pos + wlen = stop ∨ 16 ∣ wlen ∧ pos + wlen ≤ stop) :
    rangeByte rk policy ciphers mem origin pos (pos + wlen) b =
      rangeByte rk policy ciphers mem origin start stop b := by
  -- a block of the window is whole in it exactly if it is whole in the range
  have hgrid {n : Nat} (hn : 0 < n) (hdvd : n ∣ 16) : blockStart n pos b = blockStart n start b ∧
        (blockStart n start b + n ≤ pos + wlen ↔ blockStart n start b + n ≤ stop) := by
    have hstart := blockStart_window hn hpos (hdvd.trans haligned) hb
    refine ⟨hstart, ?_⟩
    rcases hlast with hlast | ⟨hwlen, hle⟩
    · rw [hlast]
    · have hwhole := hstart ▸ blockStart_whole hn (hdvd.trans hwlen) hb hend
      exact iff_of_true hwhole (hwhole.trans hle)
  cases ciphers with
  | stream => rfl
  | xts bc1 bc2 =>
    obtain ⟨hstart, hwhole⟩ := hgrid (n := 16) (by decide) (dvd_refl 16)
    simp only [rangeByte, hstart, hwhole]
  | block bc =>
    obtain ⟨bc, rfl⟩ := block_of_ciphers hciphers
    obtain ⟨hstart, hwhole⟩ := hgrid (blockSize_pos rk) blockSize_dvd
    simp only [rangeByte, hstart, hwhole]

end

/-! ### Windows -/

def windowLead (pos : Nat) : Nat := if pos ≥ 16 then 16 else 0

/-- The buffer of a window, from the pointer that `sar_recover_chunk` gets. -/
def windowMemory (file : List UInt8) (pos wlen : Nat) (heap : Memory) : Memory := fun i =>
  if -(windowLead pos : Int) ≤ i ∧ i < wlen then file.getD (pos + i).toNat 0 else heap i

theorem windowLead_le (pos : Nat) : windowLead pos ≤ pos := by
  unfold windowLead
  split <;> omega

theorem view_windowMemory {heap heap' : Memory} (hlo : (pos : Int) - windowLead pos ≤ q)
    (hhi : q < pos + wlen) (hfile : pos + wlen ≤ file.length) :
    view (windowMemory file pos wlen heap) pos q = fileMemory file heap' q := by
  have hlead := windowLead_le pos
  rw [view, windowMemory, if_pos ⟨by omega, by omega⟩, fileMemory, if_pos ⟨by omega, by omega⟩]
  congr 2
  omega

section

variable (stack : XtsBuffers) (hcheck : precheck rk = .ok) (hrc4 : ¬ rk.IsRc4)
  (policy : CounterPolicy) (ct : Memory) (pt : Nat → UInt8) {fileSize : Nat} (hwlen : 0 < wlen)
  (horigin : origin ≤ pos) (hfile : pos + wlen ≤ fileSize)

include hcheck hrc4 hwlen horigin hfile

theorem sarRecoverChunk_eq :
    sarRecoverChunk suite stack rk policy ct pt origin pos wlen pos fileSize =
      match buildCiphers suite rk with
      | none => (.declinedKey, pt)
      | some ciphers =>
        (.ok, recoverOneRange stack rk policy ciphers ct pt origin pos wlen pos) := by
  have hin : ¬ (pos < origin ∨ pos > fileSize ∨ fileSize - pos < wlen) := by omega
  cases hciphers : buildCiphers suite rk <;>
    simp only [sarRecoverChunk, if_neg (pos_iff_ne_zero.mp hwlen), if_neg hin, hcheck, ne_eq,
      not_true_eq_false, if_false, if_neg hrc4, hciphers]

end

/-- **A window decrypts the bytes of the range**, whatever lies around its buffer; bytes
    the mode leaves alone stay as they were. -/
theorem recoverOneRange_window (stack : XtsBuffers)
    (hciphers : buildCiphers suite rk = some ciphers) (hrc4 : ¬ rk.IsRc4) (hxts : ¬ rk.ShortXts)
    {policy : CounterPolicy} (hpos : start ≤ pos) (haligned : 16 ∣ pos - start)
    (hlast : pos + wlen = stop ∨ 16 ∣ wlen ∧ pos + wlen ≤ stop) (hfile : stop ≤ file.length)
    (hback : ¬ (ChainsBack rk policy start (stop - start) ∧ start < 16)) (heap heap' : Memory)
    (pt : Nat → UInt8) (hi : i < wlen) :
    recoverOneRange stack rk policy ciphers (windowMemory file pos wlen heap) pt start pos wlen
        pos i =
      (rangeByte rk policy ciphers (fileMemory file heap') start start stop (pos + i)).getD
        (pt i) := by
  have hone := recoverOneRange_apply stack hrc4 policy (buildCiphers_regular hciphers hxts)
    (windowMemory file pos wlen heap) pt hpos (le_refl pos) (le_add_right pos i)
    (show pos + i < pos + wlen by omega)
  rw [Nat.add_sub_cancel_left] at hone
  rw [hone]
  congr 1
  rw [← rangeByte_window hciphers hpos haligned (le_add_right pos i) (by omega) hlast]
  apply rangeByte_congr hciphers (le_add_right pos i) (by omega)
  · intro q hlo hhi
    exact view_windowMemory (by omega) (by omega) (by omega)
  · by_cases hlead : 16 ≤ pos
    · refine Or.inl fun q hlo hhi => view_windowMemory ?_ (by omega) (by omega)
      rw [windowLead, if_pos hlead]
      exact_mod_cast hlo
    · -- a window that starts this early is the first one
      obtain rfl : pos = start := by
        obtain ⟨k, hk⟩ := haligned
        omega
      refine Or.inr ⟨rfl, fun hchain => hback ⟨?_, by omega⟩⟩
      refine ⟨hchain.1, hchain.2.1, ?_⟩
      rcases hchain.2.2 with ⟨hmode, hle⟩ | ⟨hmode, hlt⟩
      · exact .inl ⟨hmode, by omega⟩
      · exact .inr ⟨hmode, by omega⟩

/-! ### The windows of a range -/

/-- A split of `length` bytes into windows: all but the last have a multiple of sixteen. -/
def IsSplit : Nat → List Nat → Prop
  | length, [] => length = 0
  | length, w :: ws => 0 < w ∧ w ≤ length ∧ (w = length ∨ 16 ∣ w) ∧ IsSplit (length - w) ws

instance decidableIsSplit : (length : Nat) → (ws : List Nat) → Decidable (IsSplit length ws)
  | length, [] => inferInstanceAs (Decidable (length = 0))
  | length, w :: ws =>
    have := decidableIsSplit (length - w) ws
    inferInstanceAs (Decidable (_ ∧ _ ∧ _ ∧ IsSplit (length - w) ws))

theorem IsSplit.eq_nil (h : IsSplit 0 ws) : ws = [] := by
  cases ws with
  | nil => rfl
  | cons w ws => exact absurd h.1 (by have := h.2.1; omega)

theorem IsSplit.le_first {w k : Nat} (h : IsSplit length (w :: ws)) (hk : k ≤ 16)
    (hle : k ≤ length) : k ≤ w := by
  obtain ⟨hpos, -, hlast | hdvd, -⟩ := h
  · omega
  · exact hk.trans (le_of_dvd hpos hdvd)

/-- `decrypt_windowed` on one range: a window is read with the ciphertext in front of it, the output
    window is filled with ciphertext, and `sar_recover_chunk` works on it. -/
def recoverWindows (suite : CipherSuite) (strays : Nat → Stray) (rk : RecoveryKey)
    (policy : CounterPolicy) (file : List UInt8) (origin : Nat) :
    List Nat → Nat → (Nat → UInt8) → RecoverStatus × (Nat → UInt8)
  | [], _, out => (.ok, out)
  | wlen :: ws, pos, out =>
    match sarRecoverChunk suite (strays pos).stack rk policy
        (windowMemory file pos wlen (strays pos).heap) (fun i => file.getD (pos + i) 0)
        origin pos wlen pos file.length with
    | (.ok, win) =>
      recoverWindows suite strays rk policy file origin ws (pos + wlen)
        (writeData out pos (readData win 0 wlen))
    | (status, _) => (status, out)

theorem writeData_readData (win : Nat → UInt8) : writeData out pos (readData win 0 wlen) b =
      if pos ≤ b ∧ b < pos + wlen then win (b - pos) else out b := by
  rw [readData, writeData_map_range, zero_add]

section

variable {strays : Nat → Stray} {policy : CounterPolicy}

theorem recoverWindows_before (h : b < pos) :
    (recoverWindows suite strays rk policy file origin ws pos out).2 b = out b := by
  induction ws generalizing pos out with
  | nil => rfl
  | cons wlen ws ih =>
    rw [recoverWindows]
    split
    · rw [ih (by omega), writeData_readData, if_neg (by omega)]
    · rfl

theorem recoverWindows_none (hcheck : precheck rk = .ok) (hrc4 : ¬ rk.IsRc4)
    (hciphers : buildCiphers suite rk = none) (hfile : start + length ≤ file.length)
    (hsplit : IsSplit length ws) :
    (recoverWindows suite strays rk policy file start ws start out).2 = out := by
  cases ws with
  | nil => rfl
  | cons wlen ws =>
    rw [recoverWindows, sarRecoverChunk_eq _ hcheck hrc4 _ _ _ hsplit.1 (le_refl start)
      (by have := hsplit.2.1; omega), hciphers]

section

variable (hciphers : buildCiphers suite rk = some ciphers) (hcheck : precheck rk = .ok)
  (hrc4 : ¬ rk.IsRc4)

include hciphers hcheck hrc4

theorem recoverWindows_first (hsplit : IsSplit length (wlen :: ws))
    (hfile : start + length ≤ file.length) (out : Nat → UInt8) (hi : i < wlen) :
    (recoverWindows suite strays rk policy file start (wlen :: ws) start out).2 (start + i) =
      recoverOneRange (strays start).stack rk policy ciphers
        (windowMemory file start wlen (strays start).heap) (fun i => file.getD (start + i) 0)
        start start wlen start i := by
  have hwlen := hsplit.2.1
  rw [recoverWindows, sarRecoverChunk_eq _ hcheck hrc4 _ _ _ hsplit.1 (le_refl start)
    (by omega), hciphers]
  rw [recoverWindows_before (by omega), writeData_readData, if_pos (by omega),
    Nat.add_sub_cancel_left]

/-- **The windows of a range, byte by byte.** -/
theorem recoverWindows_apply (hxts : ¬ rk.ShortXts) (hfile : stop ≤ file.length)
    (hback : ¬ (ChainsBack rk policy start (stop - start) ∧ start < 16)) (heap : Memory)
    (hpos : start ≤ pos) (haligned : 16 ∣ pos - start) (hle : pos ≤ stop)
    (hsplit : IsSplit (stop - pos) ws) (out : Nat → UInt8) (b : Nat) :
    (recoverWindows suite strays rk policy file start ws pos out).2 b =
      if pos ≤ b ∧ b < stop then
        (rangeByte rk policy ciphers (fileMemory file heap) start start stop b).getD (file.getD b 0)
      else out b := by
  induction ws generalizing pos out with
  | nil =>
    have hempty : stop - pos = 0 := hsplit
    rw [recoverWindows, if_neg (by omega)]
  | cons wlen ws ih =>
    obtain ⟨hwlen, hfits, hlast, hrest⟩ := hsplit
    rw [recoverWindows, sarRecoverChunk_eq _ hcheck hrc4 _ _ _ hwlen hpos (by omega), hciphers]
    have hwindow : pos + wlen = stop ∨ 16 ∣ wlen ∧ pos + wlen ≤ stop := by
      rcases hlast with hlast | hlast
      · exact .inl (by omega)
      · exact .inr ⟨hlast, by omega⟩
    have htail (out : Nat → UInt8) :
        (recoverWindows suite strays rk policy file start ws (pos + wlen) out).2 b =
          if pos + wlen ≤ b ∧ b < stop then
            (rangeByte rk policy ciphers (fileMemory file heap) start start stop b).getD
              (file.getD b 0)
          else out b := by
      rcases hlast with hlast | hlast
      · -- the last window: nothing is left behind it
        rw [hlast, Nat.sub_self] at hrest
        rw [hrest.eq_nil, recoverWindows, if_neg (by omega)]
      · refine ih (by omega) ?_ (by omega) ?_ out
        · rw [Nat.sub_add_comm hpos]
          exact Nat.dvd_add haligned hlast
        · rwa [sub_add_eq]
    rw [htail, writeData_readData]
    by_cases hlater : pos + wlen ≤ b ∧ b < stop
    · rw [if_pos hlater, if_pos (by omega)]
    rw [if_neg hlater]
    by_cases hin : pos ≤ b ∧ b < pos + wlen
    · rw [if_pos hin, if_pos (by omega),
        recoverOneRange_window _ hciphers hrc4 hxts hpos haligned hwindow hfile hback _ heap _
          (by omega)]
      rw [Nat.add_sub_cancel' hin.1]
    · rw [if_neg hin, if_neg (by omega)]

end

end

/-! ### The whole buffer -/

section

variable (hn : 0 < n) (hbase : base ≤ start) (hb : base ≤ b) (hout : b < start ∨ start + length ≤ b)

include hn hbase hb hout

theorem recBlocks_outside (block : Nat → Option (Vector UInt8 n)) (pt : Nat → UInt8) :
    recBlocks n block pt start length base (b - base) = pt (b - base) := by
  refine fillBlocks_outside (fun k hk bytes h => ?_) pt
  obtain ⟨v, -, rfl⟩ := map_eq_some_iff.mp h
  have hle : (k + 1) * n ≤ length := (le_div_iff_mul_le hn).mp hk
  rw [add_mul] at hle
  rw [Vector.length_toList]
  omega

theorem fillCut_outside (piece : Nat → Option (Vector UInt8 n)) (pt : Nat → UInt8) :
    fillBlocks n ((length + n - 1) / n) (start - base) (fun k =>
      (piece k).map fun v => v.toList.take (length - k * n)) pt (b - base) = pt (b - base) := by
  refine fillBlocks_outside (fun k hk bytes h => ?_) pt
  obtain ⟨v, -, rfl⟩ := map_eq_some_iff.mp h
  -- the last block may reach behind the range, but what is written of it is cut
  have hle : (k + 1) * n ≤ length + n - 1 := (le_div_iff_mul_le hn).mp hk
  rw [add_mul] at hle
  rw [length_take]
  omega

end

theorem recoverOneRange_outside (stack : XtsBuffers) (hrc4 : ¬ rk.IsRc4) (policy : CounterPolicy)
    (hreg : ciphers.Regular) (ct : Memory) (pt : Nat → UInt8) (horigin : origin ≤ start)
    (hbase : base ≤ start) (hb : base ≤ b) (hout : b < start ∨ start + length ≤ b) :
    recoverOneRange stack rk policy ciphers ct pt origin start length base (b - base) =
      pt (b - base) := by
  cases ciphers with
  | stream =>
    simp only [recoverOneRange]
    split
    next hmode =>
      rw [if_neg (fun h => hrc4 ⟨hmode, h⟩), recStream,
        recStreamLoop_apply policy ct horigin hbase pt hb, if_neg (by omega)]
    · rfl
  | xts bc1 bc2 =>
    rw [recoverOneRange, recXts_eq hreg.1 hreg.2]
    exact recBlocks_outside (by decide) hbase hb hout _ pt
  | block bc =>
    obtain ⟨n, bc⟩ := bc
    have hn : 0 < n := by
      rcases hreg with h | h <;> · dsimp only at h; omega
    simp only [recoverOneRange]
    split_ifs
    · exact recBlocks_outside hn hbase hb hout _ pt
    · exact recBlocks_outside hn hbase hb hout _ pt
    · have h := fillCut_outside hn hbase hb hout (fun k =>
        (rangeIvBlock rk policy ct origin base n (start + k * n)).map fun prev =>
          xorBytes (ctBlock n ct base (start + k * n)) (bc.encrypt prev)) pt
      simp only [map_map, Function.comp_def] at h
      exact h
    · exact fillCut_outside hn hbase hb hout (fun k => some _) pt
    · exact fillCut_outside hn hbase hb hout (fun k => some _) pt
    · rfl

def rangeGeometry (r : FileRange) (policy : CounterPolicy) : Geometry :=
  ⟨.explicit (some [r]), policy⟩

section

variable (stack : XtsBuffers) {policy : CounterPolicy} (hfile : file.length < 2 ^ 64)
  (hinside : r.offset.toNat + r.length.toNat ≤ file.length) (hcheck : precheck rk = .ok)
  (heap : Memory) (pt : Nat → UInt8) (hb : b < file.length)

include hfile hinside hcheck hb

omit hb in
theorem sarRecoverBuffer_range (hlen : r.length ≠ 0)
    (hciphers : buildCiphers suite rk = some ciphers) :
    (sarRecoverBuffer suite stack rk (some (rangeGeometry r policy)) (fileMemory file heap) pt
        (UInt64.ofNat file.length)).2 b =
      recoverOneRange stack rk policy ciphers (fileMemory file heap)
        (fun i => if i < file.length then fileMemory file heap i else pt i) r.offset.toNat
        r.offset.toNat r.length.toNat 0 b := by
  have hsize : (UInt64.ofNat file.length).toNat = file.length := UInt64.toNat_ofNat_of_lt' hfile
  rw [← hsize] at hinside
  rw [sarRecoverBuffer_single stack (some (rangeGeometry r policy)) hcheck hciphers
    (sarGeometryExpand_single hinside hlen) hinside, hsize]
  rfl

theorem sarRecoverBuffer_copy (h : r.length = 0 ∨ buildCiphers suite rk = none) :
    (sarRecoverBuffer suite stack rk (some (rangeGeometry r policy)) (fileMemory file heap) pt
      (UInt64.ofNat file.length)).2 b = file.getD b 0 := by
  have hsize : (UInt64.ofNat file.length).toNat = file.length := UInt64.toNat_ofNat_of_lt' hfile
  have hcopy : (if b < (UInt64.ofNat file.length).toNat then fileMemory file heap b else pt b) =
      file.getD b 0 := by
    rw [hsize, if_pos hb, fileMemory_natCast hb]
  by_cases hlen : r.length = 0
  · have hexpand : sarGeometryExpand (rangeGeometry r policy).mode (UInt64.ofNat file.length)
        SAR_MAX_RANGES = some [] := by
      simp only [sarGeometryExpand, rangeGeometry, explicitRanges, clipRange, hlen]
      split
      · rfl
      · split
        · rfl
        · rw [if_pos]
          split
          · rfl
          next hnot =>
            exact UInt64.le_zero_iff.mp (UInt64.not_lt.mp hnot)
    rw [← hcopy]
    simp only [sarRecoverBuffer, getD_some, hexpand, recoverRangesInto, hcheck, ne_eq,
      not_true_eq_false, if_false, false_and, foldl_nil]
    split <;> rfl
  · have hnone := h.resolve_left hlen
    rw [← hsize] at hinside
    rw [← hcopy]
    simp only [sarRecoverBuffer, getD_some, rangeGeometry,
      sarGeometryExpand_single hinside hlen, recoverRangesInto, hcheck, hnone, ne_eq,
      not_true_eq_false, if_false, false_and]

/-- **The whole buffer, byte by byte.** -/
theorem sarRecoverBuffer_apply (hrc4 : ¬ rk.IsRc4) (hxts : ¬ rk.ShortXts)
    (hciphers : buildCiphers suite rk = some ciphers) :
    (sarRecoverBuffer suite stack rk (some (rangeGeometry r policy)) (fileMemory file heap) pt
        (UInt64.ofNat file.length)).2 b =
      if r.offset.toNat ≤ b ∧ b < r.offset.toNat + r.length.toNat then
        (rangeByte rk policy ciphers (fileMemory file heap) r.offset.toNat r.offset.toNat
          (r.offset.toNat + r.length.toNat) b).getD (file.getD b 0)
      else file.getD b 0 := by
  by_cases hlen : r.length = 0
  · rw [sarRecoverBuffer_copy stack hfile hinside hcheck heap pt hb (.inl hlen), hlen,
      if_neg (by simp)]
  rw [sarRecoverBuffer_range stack hfile hinside hcheck heap pt hlen hciphers]
  have hreg := buildCiphers_regular hciphers hxts
  split
  next hin =>
    have hone := recoverOneRange_apply stack hrc4 policy hreg (fileMemory file heap)
      (fun i => if i < file.length then fileMemory file heap i else pt i) (le_refl _)
      (zero_le _) hin.1 hin.2
    simpa only [view_zero, Nat.sub_zero, if_pos hb, fileMemory_natCast hb] using hone
  · have hone := recoverOneRange_outside stack hrc4 policy hreg (fileMemory file heap)
      (fun i => if i < file.length then fileMemory file heap i else pt i)
      (le_refl r.offset.toNat) (zero_le _) (zero_le b)
      (show b < r.offset.toNat ∨ r.offset.toNat + r.length.toNat ≤ b by omega)
    simpa only [Nat.sub_zero, if_pos hb, fileMemory_natCast hb] using hone

end

/-! ### Bytes that depend on stray memory -/

theorem recXts_first (bc1 bc2 : AnyCipher) (dataUnit : UInt64) (stack : XtsBuffers) (ct : Memory)
    (pt : Nat → UInt8) (start base : Nat) (hlen : 16 ≤ length) (i : Fin 16) :
    recXts bc1 bc2 dataUnit stack ct pt start length base (start - base + i.val) =
      let buf := recXtsBlock bc1 bc2 dataUnit ct base start stack
      buf.dec.get i ^^^ buf.tweak.get i := by
  obtain ⟨count, hcount⟩ : ∃ count, length / 16 = count + 1 :=
    ⟨length / 16 - 1, by omega⟩
  unfold recXts
  rw [hcount]
  clear hcount
  induction count with
  | zero =>
    simp only [range_succ, range_zero, nil_append, foldl_cons, foldl_nil,
      zero_mul, add_zero, writeData]
    rw [if_pos (by omega), Nat.add_sub_cancel_left, getD_eq_getElem?_getD,
      getElem?_eq_getElem (by simp), getD_some, ← get_xorBytes, ← getD_toList,
      getD_eq_getElem?_getD, getElem?_eq_getElem (by simp), getD_some]
  | succ count ih =>
    rw [range_succ, foldl_append, foldl_cons, foldl_nil]
    dsimp only
    rw [writeData, if_neg (by omega)]
    exact ih

theorem recXts_of_lt (stack : XtsBuffers) (ct : Memory)
    (pt : Nat → UInt8) (hlen : length < 16) :
    recXts bc1 bc2 dataUnit stack ct pt start length base = pt := by
  rw [recXts, div_eq_of_lt hlen]
  rfl

theorem recXtsBlock_short (hsize : bc1.1 = 8) (ct : Memory)
    (buf : XtsBuffers) :
    (recXtsBlock bc1 bc2 dataUnit ct base o buf).dec.get 15 = buf.dec.get 15 := by
  simp only [recXtsBlock, overwrite, get_ofFn]
  rw [getD_eq_getElem?_getD, getElem?_eq_none, getD_none]
  simp [hsize]

section

variable {policy : CounterPolicy}

theorem buildCiphers_xts (hciphers : buildCiphers suite rk = some ciphers)
    (hmode : rk.mode = SAR_MODE_XTS) : ∃ bc1 bc2, ciphers = .xts bc1 bc2 ∧
      makeXts suite rk.algorithm rk.key.toList rk.keyLength.toNat = some (bc1, bc2) := by
  rw [buildCiphers, if_pos hmode] at hciphers
  obtain ⟨⟨bc1, bc2⟩, hbcs, rfl⟩ := map_eq_some_iff.mp hciphers
  exact ⟨bc1, bc2, rfl, hbcs⟩

theorem mode_of_stream (hcheck : precheck rk = .ok)
    (hciphers : buildCiphers suite rk = some .stream) : rk.mode = SAR_MODE_STREAM := by
  unfold precheck at hcheck
  simp only [(buildCiphers_spec hciphers).2, if_true] at hcheck
  repeat' split at hcheck
  all_goals first
    | assumption
    | cases hcheck

theorem buildCiphers_mode (hcheck : precheck rk = .ok)
    (hciphers : buildCiphers suite rk = some ciphers)
    (hmode : rk.mode = SAR_MODE_CBC ∨ rk.mode = SAR_MODE_CFB) :
    ∃ bc : BlockCipher rk.blockSize, ciphers = .block ⟨rk.blockSize, bc⟩ := by
  cases ciphers with
  | stream =>
    rw [mode_of_stream hcheck hciphers] at hmode
    exact absurd hmode (by decide)
  | xts bc1 bc2 =>
    rw [(buildCiphers_spec hciphers).1] at hmode
    exact absurd hmode (by decide)
  | block bc =>
    obtain ⟨bc, rfl⟩ := block_of_ciphers hciphers
    exact ⟨bc, rfl⟩

theorem chained_regular (hmode : rk.mode = SAR_MODE_CBC ∨ rk.mode = SAR_MODE_CFB) :
    ¬ rk.IsRc4 ∧ ¬ rk.ShortXts := by
  constructor <;>
  · rintro ⟨h, -⟩
    rw [h] at hmode
    exact absurd hmode (by decide)

theorem view_windowMemory_before (hpos : pos < 16) (heap : Memory) (hq : q < pos) :
    view (windowMemory file pos wlen heap) pos q = heap (q - pos) := by
  rw [view, windowMemory, if_neg]
  rw [windowLead, if_neg (by omega)]
  omega

def heapBefore {n : Nat} (x : Vector UInt8 n) : Memory := fun i => x.toList.getD (i + n).toNat 0

theorem blockAt_heapBefore (x : Vector UInt8 n) : blockAt n (heapBefore x) (-n) = x := by
  apply ext_get
  intro i
  rw [get_blockAt, heapBefore, show (-(n : Int) + i.val + n).toNat = i.val by omega, getD_toList]

theorem rangeByte_cbc (hmode : rk.mode = SAR_MODE_CBC) {bc : BlockCipher n} :
    rangeByte rk policy (.block ⟨n, bc⟩) mem origin start stop b =
      if blockStart n start b + n ≤ stop then
        (chainBlock n rk policy mem origin (blockStart n start b)).map fun prev =>
          (xorBytes (bc.decrypt (blockAt n mem (blockStart n start b))) prev).toList.getD
            (b - blockStart n start b) 0
      else none := by
  simp only [rangeByte]
  rw [if_neg (by rw [hmode]; decide), if_pos hmode]

theorem rangeByte_cfb (hmode : rk.mode = SAR_MODE_CFB) {bc : BlockCipher n} :
    rangeByte rk policy (.block ⟨n, bc⟩) mem origin start stop b =
      (chainBlock n rk policy mem origin (blockStart n start b)).map fun prev =>
        mem b ^^^ (bc.encrypt prev).toList.getD (b - blockStart n start b) 0 := by
  simp only [rangeByte]
  rw [if_neg (by rw [hmode]; decide), if_neg (by rw [hmode]; decide), if_pos hmode]

/-- The first byte of a range that chains back, decrypted in a window without a lead, is a
    function of stray memory, and not a constant one. -/
theorem chained_first_byte (hsuite : suite.Lawful) (hcheck : precheck rk = .ok)
    (hciphers : buildCiphers suite rk = some ciphers) (hchain : ChainsBack rk policy start wlen)
    (hstart : start < 16) :
    ∃ F : Vector UInt8 rk.blockSize → UInt8, (∃ x y, F x ≠ F y) ∧ ∀ stack x pt,
      recoverOneRange stack rk policy ciphers (windowMemory file start wlen (heapBefore x)) pt
        start start wlen start 0 = F x := by
  obtain ⟨hpolicy, hzero, hmode⟩ := hchain
  have hchained : rk.mode = SAR_MODE_CBC ∨ rk.mode = SAR_MODE_CFB := by tauto
  obtain ⟨bc, rfl⟩ := buildCiphers_mode hcheck hciphers hchained
  have hlawful : bc.Lawful := makeBlock_lawful hsuite (buildCiphers_spec hciphers).2
  have hsize := blockSize_pos rk
  have hone (i : Fin rk.blockSize) : ∃ x y : Vector UInt8 rk.blockSize, x.get i ≠ y.get i :=
    ⟨Vector.ofFn fun _ => 0, Vector.ofFn fun _ => 1, by simp only [get_ofFn]; decide⟩
  obtain ⟨x, y, hxy⟩ := hone ⟨0, hsize⟩
  obtain ⟨hrc4, hxts⟩ := chained_regular hchained
  have hreg := buildCiphers_regular hciphers hxts
  have hwlen : 0 < wlen := by omega
  have hfirst : blockStart rk.blockSize start start = start := by
    simp [blockStart]
  have hbyte (stack : XtsBuffers) (z : Vector UInt8 rk.blockSize) (pt : Nat → UInt8) :=
    recoverOneRange_apply stack hrc4 policy hreg (windowMemory file start wlen (heapBefore z)) pt
      (le_refl start) (le_refl start) (le_refl start)
      (show start < start + wlen by omega)
  have hprev (z : Vector UInt8 rk.blockSize) : chainBlock rk.blockSize rk policy
      (view (windowMemory file start wlen (heapBefore z)) start) start start = some z := by
    rw [chainBlock, if_neg (by rw [hpolicy]; simpa using hzero)]
    congr 1
    rw [← blockAt_heapBefore z]
    apply ext_get
    intro i
    rw [get_blockAt, get_blockAt, view_windowMemory_before hstart _ (by omega), blockAt_heapBefore]
    congr 1
    omega
  have hinside (z : Vector UInt8 rk.blockSize) (q : Int) (hlo : start ≤ q)
      (hhi : q < start + wlen) : view (windowMemory file start wlen (heapBefore z)) start q =
        view (windowMemory file start wlen (heapBefore x)) start q := by
    simp only [view, windowMemory]
    rw [if_pos ⟨by omega, by omega⟩, if_pos ⟨by omega, by omega⟩]
  rw [Nat.sub_self] at hbyte
  rcases hmode with ⟨hcbc, hwhole⟩ | ⟨hcfb, -⟩
  · let B := blockAt rk.blockSize (view (windowMemory file start wlen (heapBefore x)) start) start
    refine ⟨fun z => (xorBytes (bc.decrypt B) z).toList.getD 0 0, ⟨x, y, ?_⟩, fun stack z pt => ?_⟩
    · simp only [getD_xorBytes hsize, getD_toList _ ⟨0, hsize⟩, ne_eq]
      intro h
      exact hxy ((UInt8.xor_right_inj _).mp h)
    · have hblock : blockAt rk.blockSize
          (view (windowMemory file start wlen (heapBefore z)) start) start = B :=
        blockAt_congr fun q hlo hhi => hinside z q hlo (by omega)
      rw [hbyte stack z pt, rangeByte_cbc hcbc, hfirst, hprev, hblock, if_pos (by omega),
        Nat.sub_self]
      rfl
  · refine ⟨fun z => view (windowMemory file start wlen (heapBefore x)) start start ^^^
      (bc.encrypt z).toList.getD 0 0, ⟨bc.decrypt x, bc.decrypt y, ?_⟩, fun stack z pt => ?_⟩
    · simp only [hlawful.encrypt_decrypt, getD_toList _ ⟨0, hsize⟩, ne_eq]
      intro h
      exact hxy ((UInt8.xor_right_inj _).mp h)
    · rw [hbyte stack z pt, rangeByte_cfb hcfb, hfirst, hprev,
        hinside z start (Int.le_refl _) (by omega), Nat.sub_self]
      rfl

def WindowsSafe (rk : RecoveryKey) (policy : CounterPolicy) (start length : Nat) : Prop :=
  ¬ (ChainsBack rk policy start length ∧ start < 16) ∧ ¬ (rk.ShortXts ∧ 16 ≤ length)

instance (rk : RecoveryKey) (policy : CounterPolicy) (start length : Nat) :
    Decidable (WindowsSafe rk policy start length) := inferInstanceAs (Decidable (_ ∧ _))

/-- **Stray bytes.**  Where a range is not safe, some byte of its first window comes out
    differently with different memory outside the buffers. -/
theorem stray_byte (hsuite : suite.Lawful) (hcheck : precheck rk = .ok)
    (hciphers : buildCiphers suite rk = some ciphers)
    (hstray : ¬ WindowsSafe rk policy start length) (hwlen : 0 < wlen)
    (hfirst : ∀ k ≤ 16, k ≤ length → k ≤ wlen) :
    ∃ i < wlen, ∃ s t : Stray, ∀ pt pt',
      recoverOneRange s.stack rk policy ciphers (windowMemory file start wlen s.heap) pt start start
          wlen start i ≠
        recoverOneRange t.stack rk policy ciphers (windowMemory file start wlen t.heap) pt' start
          start wlen start i := by
  rw [WindowsSafe, not_and_or, not_not, not_not] at hstray
  rcases hstray with ⟨⟨hpolicy, hzero, hmode⟩, hstart⟩ | ⟨⟨hxts, hdes⟩, hlen⟩
  · have hchain : ChainsBack rk policy start wlen := by
      refine ⟨hpolicy, hzero, ?_⟩
      rcases hmode with ⟨hcbc, hle⟩ | ⟨hcfb, -⟩
      · exact .inl ⟨hcbc, hfirst _ (Nat.le_of_dvd (by decide) blockSize_dvd) hle⟩
      · exact .inr ⟨hcfb, hwlen⟩
    obtain ⟨F, ⟨x, y, hxy⟩, hF⟩ := chained_first_byte hsuite hcheck hciphers hchain hstart
    refine ⟨0, hwlen, ⟨heapBefore x, zeroBuffers⟩, ⟨heapBefore y, zeroBuffers⟩, fun pt pt' => ?_⟩
    rw [hF, hF]
    exact hxy
  · obtain ⟨bc1, bc2, rfl, hbcs⟩ := buildCiphers_xts hciphers hxts
    have hwlen : 16 ≤ wlen := hfirst 16 (Nat.le_refl 16) hlen
    have hsize : bc1.1 = 8 := by
      rcases makeXts_size hbcs with ⟨-, hsize, -⟩ | ⟨hne, -⟩
      · exact hsize
      · exact absurd hdes hne
    -- two stacks that differ in the last byte of one buffer
    refine ⟨15, by omega, ⟨fun _ => 0, zeroBuffers⟩,
      ⟨fun _ => 0, { zeroBuffers with dec := Vector.replicate 16 1 }⟩, fun pt pt' heq => ?_⟩
    have hbyte (stack : XtsBuffers) (pt : Nat → UInt8) := recXts_first bc1 bc2 rk.modeParams stack
      (windowMemory file start wlen fun _ => 0) pt start start hwlen 15
    simp only [Nat.sub_self, recXtsBlock_short hsize] at hbyte
    have hcut := (hbyte _ pt).symm.trans (heq.trans (hbyte _ pt'))
    have hdec := (UInt8.xor_left_inj _).mp hcut
    exact absurd hdec (by decide)

/-! ### Windows and the whole buffer -/

/-- The windows of a range give the bytes of the whole buffer, whatever the memory around
    any of the buffers holds. -/
def WindowsAgree (suite : CipherSuite) (rk : RecoveryKey) (policy : CounterPolicy)
    (file : List UInt8) (r : FileRange) (sizes : List Nat) : Prop :=
  ∀ (stray : Stray) (strays : Nat → Stray) (pt : Nat → UInt8) (b : Nat), b < file.length →
    (recoverWindows suite strays rk policy file r.offset.toNat sizes r.offset.toNat
      (fun i => file.getD i 0)).2 b =
      (sarRecoverBuffer suite stray.stack rk (some (rangeGeometry r policy))
        (fileMemory file stray.heap) pt (UInt64.ofNat file.length)).2 b

variable {sizes : List Nat}

theorem WindowsAgree.first (hciphers : buildCiphers suite rk = some ciphers)
    (hcheck : precheck rk = .ok) (hrc4 : ¬ rk.IsRc4)
    (hinside : r.offset.toNat + r.length.toNat ≤ file.length)
    (hsplit : IsSplit r.length.toNat (wlen :: ws))
    (h : WindowsAgree suite rk policy file r (wlen :: ws)) (s t : Stray) (hi : i < wlen) :
    recoverOneRange s.stack rk policy ciphers
        (windowMemory file r.offset.toNat wlen s.heap) (fun i => file.getD (r.offset.toNat + i) 0)
        r.offset.toNat r.offset.toNat wlen r.offset.toNat i =
      recoverOneRange t.stack rk policy ciphers
        (windowMemory file r.offset.toNat wlen t.heap) (fun i => file.getD (r.offset.toNat + i) 0)
        r.offset.toNat r.offset.toNat wlen r.offset.toNat i := by
  have hwlen := hsplit.2.1
  have hfirst (u : Stray) := h s (fun _ => u) (fun _ => 0) (r.offset.toNat + i) (by omega)
  have heq := (hfirst s).trans (hfirst t).symm
  rwa [recoverWindows_first hciphers hcheck hrc4 hsplit hinside _ hi,
    recoverWindows_first hciphers hcheck hrc4 hsplit hinside _ hi] at heq

theorem WindowsAgree.safe (hsuite : suite.Lawful) (hciphers : buildCiphers suite rk = some ciphers)
    (hcheck : precheck rk = .ok) (hrc4 : ¬ rk.IsRc4)
    (hinside : r.offset.toNat + r.length.toNat ≤ file.length)
    (hsplit : IsSplit r.length.toNat sizes) (h : WindowsAgree suite rk policy file r sizes) :
    WindowsSafe rk policy r.offset.toNat r.length.toNat := by
  cases sizes with
  | nil =>
    have hempty : r.length.toNat = 0 := hsplit
    have hsize := blockSize_pos rk
    refine ⟨fun hbad => ?_, fun hbad => ?_⟩
    · obtain ⟨⟨-, -, hmode⟩, -⟩ := hbad
      omega
    · have := hbad.2
      omega
  | cons wlen ws =>
    by_contra hstray
    obtain ⟨i, hi, s, t, hne⟩ := stray_byte hsuite hcheck hciphers hstray hsplit.1
      fun k hk hle => hsplit.le_first hk hle
    exact hne _ _ (h.first hciphers hcheck hrc4 hinside hsplit s t hi)

theorem recoverWindows_short (hcheck : precheck rk = .ok) (hrc4 : ¬ rk.IsRc4)
    (hciphers : buildCiphers suite rk = some (.xts bc1 bc2)) {strays : Nat → Stray}
    (hlen : length < 16) (hfile : start + length ≤ file.length) (hsplit : IsSplit length sizes) :
    (recoverWindows suite strays rk policy file start sizes start
      (fun i => file.getD i 0)).2 b = file.getD b 0 := by
  cases sizes with
  | nil => rfl
  | cons wlen ws =>
    obtain rfl : wlen = length :=
      le_antisymm hsplit.2.1 (hsplit.le_first (by omega) (le_refl length))
    have hrest := hsplit.2.2.2
    rw [Nat.sub_self] at hrest
    obtain rfl := hrest.eq_nil
    rw [recoverWindows, sarRecoverChunk_eq _ hcheck hrc4 _ _ _ hsplit.1 (le_refl start) hfile,
      hciphers]
    simp only [recoverOneRange, recXts_of_lt _ _ _ hlen, recoverWindows]
    rw [writeData_readData]
    split
    next hin =>
      rw [Nat.add_sub_cancel' hin.1]
    · rfl

/-- **Windowed recovery.**  The windows of a range give the bytes of the whole buffer exactly if the
    key sets up no cipher, or no byte depends on memory outside the buffers: the range does not
    start in the first sixteen bytes chained to what is before it, and XTS has no blocks of eight
    bytes. -/
theorem windowed_recovery_iff (hsuite : suite.Lawful) (hcheck : precheck rk = .ok)
    (hrc4 : ¬ rk.IsRc4) (hfile : file.length < 2 ^ 64)
    (hinside : r.offset.toNat + r.length.toNat ≤ file.length)
    (hsplit : IsSplit r.length.toNat sizes) :
    WindowsAgree suite rk policy file r sizes ↔
      buildCiphers suite rk = none ∨ WindowsSafe rk policy r.offset.toNat r.length.toNat := by
  cases hciphers : buildCiphers suite rk with
  | none =>
    refine iff_of_true ?_ (.inl rfl)
    intro stray strays pt b hb
    rw [recoverWindows_none hcheck hrc4 hciphers hinside hsplit,
      sarRecoverBuffer_copy _ hfile hinside hcheck _ _ hb (.inr hciphers)]
  | some ciphers =>
    rw [or_iff_right (by simp)]
    refine ⟨fun h => h.safe hsuite hciphers hcheck hrc4 hinside hsplit, ?_⟩
    rintro ⟨hback, hshort⟩ stray strays pt b hb
    by_cases hxts : rk.ShortXts
    · obtain ⟨bc1, bc2, rfl, -⟩ := buildCiphers_xts hciphers hxts.1
      have hlen : r.length.toNat < 16 := not_le.mp fun hle => hshort ⟨hxts, hle⟩
      rw [recoverWindows_short hcheck hrc4 hciphers hlen hinside hsplit]
      by_cases hzero : r.length = 0
      · rw [sarRecoverBuffer_copy _ hfile hinside hcheck _ _ hb (.inl hzero)]
      · rw [sarRecoverBuffer_range _ hfile hinside hcheck _ _ hzero hciphers, recoverOneRange,
          recXts_of_lt _ _ _ hlen]
        simp only [if_pos hb, fileMemory_natCast hb]
    · rw [recoverWindows_apply hciphers hcheck hrc4 hxts hinside
          (by rwa [Nat.add_sub_cancel_left]) stray.heap (Nat.le_refl _) (by simp)
          (Nat.le_add_right _ _) (by rwa [Nat.add_sub_cancel_left]),
        sarRecoverBuffer_apply _ hfile hinside hcheck _ _ hb hrc4 hxts hciphers]

end

def zeroCbcKey (alg : UInt32) : RecoveryKey where
  algorithm := alg
  mode := SAR_MODE_CBC
  keyLength := 16
  key := Vector.replicate _ 0
  modeParams := 0
  iv := Vector.replicate _ 0
  ivLength := 16
  ctrLayoutTag := 0

theorem windowed_recovery_two_windows :
    WindowsAgree xorSuite (zeroCbcKey SAR_ALG_AES_128) .continuous (List.replicate 48 0) ⟨16, 32⟩
      [16, 16] :=
  (windowed_recovery_iff xorSuite_lawful (by decide) (by decide) (by decide) (by decide)
    (by decide)).mpr (.inr (by decide))

/-- A range at offset 8 under a cipher with blocks of eight bytes: the whole buffer chains it
    to the first block of the file, the window to whatever lies in front of its buffer. -/
theorem early_window_reads_stray_memory :
    ¬ WindowsAgree xorSuite (zeroCbcKey SAR_ALG_3DES) .continuous (List.replicate 16 0) ⟨8, 8⟩
      [8] := by
  intro h
  have heq := h ⟨fun _ => 0, zeroBuffers⟩ (fun _ => ⟨fun _ => 1, zeroBuffers⟩) (fun _ => 0) 8
    (by decide)
  revert heq
  decide +kernel

end SemanticsAr
