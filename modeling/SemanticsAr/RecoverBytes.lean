import SemanticsAr.Recover

/-!
# What a range decryption writes, byte by byte

Each mode of `recover.c` is a loop over blocks.  Here every byte of the plaintext buffer
after the loop is given directly: the byte at a file position depends on the block that the
position falls into, on the ciphertext around it and on nothing else, or it is left as it
was.  The ciphertext is seen through file positions, so that buffers with different bases
can be compared.
-/

namespace SemanticsAr

open Option Nat
open List hiding Vector map_map

variable {origin n start length base b i o count first j d : Nat} {rk : RecoveryKey}
  {suite : CipherSuite}
  {file : List UInt8} {bc1 bc2 : AnyCipher} {ciphers : Ciphers} {p : Int} {piece : Nat → Option
  (List UInt8)} {mem : Memory} {dataUnit : UInt64} {stack : XtsBuffers}

/-! ### The loops -/

theorem fillBlocks_succ
    (pt : Nat → UInt8) : fillBlocks n (count + 1) first piece pt =
      match piece count with
      | none => fillBlocks n count first piece pt
      | some bytes => writeData (fillBlocks n count first piece pt) (first + count * n) bytes := by
  rw [fillBlocks, range_succ]
  exact foldl_append

theorem fillBlocks_apply (hn : 0 < n) {piece : Nat → Option (List UInt8)}
    (hpiece : ∀ k bytes, piece k = some bytes → bytes.length ≤ n) (pt : Nat → UInt8) :
    fillBlocks n count first piece pt (first + j) =
      if j / n < count then ((piece (j / n)).bind (·[j % n]?)).getD (pt (first + j))
      else pt (first + j) := by
  induction count with
  | zero => rfl
  | succ count ih =>
    have hdiv := div_add_mod' j n
    -- a byte of the last piece, of an earlier one, or of none
    rcases lt_trichotomy (j / n) count with hlt | heq | hgt
    · have hbefore : j < count * n := (div_lt_iff_lt_mul hn).mp hlt
      rw [if_pos hlt] at ih
      rw [if_pos (lt_succ_of_lt hlt), ← ih, fillBlocks_succ]
      cases hp : piece count with
      | none => rfl
      | some bytes => exact writeData_outside (.inl (by omega))
    · rw [if_neg (by omega)] at ih
      rw [if_pos (by omega), fillBlocks_succ]
      subst heq
      cases hp : piece (j / n) with
      | none => exact ih
      | some bytes =>
        simp only [writeData, if_pos (show first + j / n * n ≤ first + j by omega), ih,
          getD_eq_getElem?_getD, bind_some]
        congr 2
        omega
    · rw [if_neg (by omega)] at ih
      rw [if_neg (by omega), fillBlocks_succ]
      cases hp : piece count with
      | none => exact ih
      | some bytes =>
        have hafter : (count + 1) * n ≤ j := (le_div_iff_mul_le hn).mp hgt
        rw [add_mul] at hafter
        have hlen := hpiece count bytes hp
        exact (writeData_outside (.inr (by omega))).trans ih

theorem fillBlocks_outside (h : ∀ k < count, ∀ bytes, piece k = some bytes →
      i < first + k * n ∨ first + k * n + bytes.length ≤ i) (pt : Nat → UInt8) :
    fillBlocks n count first piece pt i = pt i := by
  induction count with
  | zero => rfl
  | succ count ih =>
    have ih := ih fun k hk => h k (lt_succ_of_lt hk)
    rw [fillBlocks_succ]
    cases hp : piece count with
    | none => exact ih
    | some bytes => exact (writeData_outside (h count (lt_succ_self count) bytes hp)).trans ih

theorem writeData_map_range (out : Nat → UInt8) (g : Nat → UInt8) :
    writeData out first ((range length).map g) b =
      if first ≤ b ∧ b < first + length then g (b - first) else out b := by
  split
  next hin =>
    rw [writeData, if_pos hin.1, getD_eq_getElem?_getD, getElem?_map, getElem?_range (by omega),
      map_some, getD_some]
  · exact writeData_outside (by rw [length_map, length_range]; omega)

def blockStart (n start b : Nat) : Nat := start + (b - start) / n * n

theorem blockStart_le (h : start ≤ b) : blockStart n start b ≤ b := by
  have := div_mul_le_self (b - start) n
  unfold blockStart
  omega

theorem sub_blockStart (h : start ≤ b) : b - blockStart n start b = (b - start) % n := by
  have := div_add_mod' (b - start) n
  unfold blockStart
  omega

theorem blockStart_window {pos : Nat} (hn : 0 < n) (hpos : start ≤ pos) (hdvd : n ∣ pos - start)
    (hb : pos ≤ b) : blockStart n pos b = blockStart n start b := by
  obtain ⟨q, hq⟩ := hdvd
  have hsplit : b - start = (b - pos) + n * q := by omega
  unfold blockStart
  rw [hsplit, add_mul_div_left _ _ hn, add_mul, mul_comm q n]
  omega

section

variable (hn : 0 < n) (hbase : base ≤ start) (hb : start ≤ b)

include hn hbase hb

theorem recBlocks_apply (block : Nat → Option (Vector UInt8 n)) (pt : Nat → UInt8) :
    recBlocks n block pt start length base (b - base) =
      if blockStart n start b + n ≤ start + length then
        ((block (blockStart n start b)).map fun v =>
          v.toList.getD (b - blockStart n start b) 0).getD (pt (b - base))
      else pt (b - base) := by
  have hfirst : b - base = (start - base) + (b - start) := by omega
  have hwhole : (b - start) / n < length / n ↔ blockStart n start b + n ≤ start + length := by
    rw [lt_iff_add_one_le, le_div_iff_mul_le hn, add_mul, blockStart]
    omega
  rw [recBlocks, hfirst, fillBlocks_apply hn (by
    intro k bytes h
    obtain ⟨v, -, rfl⟩ := map_eq_some_iff.mp h
    simp)]
  simp only [hwhole]
  have hmod : (b - start) % n < n := mod_lt _ hn
  rw [sub_blockStart hb]
  congr 1
  rw [← blockStart]
  cases block (blockStart n start b) with
  | none => rfl
  | some v => simp [getD_eq_getElem?_getD, hmod]

theorem fillCut_apply (piece : Nat → Option (Vector UInt8 n)) (pt : Nat → UInt8)
    (hend : b < start + length) :
    fillBlocks n ((length + n - 1) / n) (start - base) (fun k =>
      (piece (start + k * n)).map fun v => v.toList.take (length - k * n)) pt (b - base) =
      ((piece (blockStart n start b)).map fun v =>
        v.toList.getD (b - blockStart n start b) 0).getD (pt (b - base)) := by
  have hfirst : b - base = (start - base) + (b - start) := by omega
  have hdiv := div_add_mod' (b - start) n
  have hmod : (b - start) % n < n := mod_lt _ hn
  have hinside : (b - start) / n < (length + n - 1) / n := by
    rw [lt_iff_add_one_le, le_div_iff_mul_le hn, add_mul]
    omega
  rw [hfirst, fillBlocks_apply hn (by
    intro k bytes h
    obtain ⟨v, -, rfl⟩ := map_eq_some_iff.mp h
    simp), if_pos hinside, sub_blockStart hb]
  rw [← blockStart]
  cases piece (blockStart n start b) with
  | none => rfl
  | some v =>
    have hcut : (b - start) % n < length - (b - start) / n * n := by omega
    simp [getD_eq_getElem?_getD, hmod, hcut]

end

/-! ### Memory by file position -/

def view (ct : Memory) (base : Nat) : Memory := fun p => ct (p - base)

theorem blockAt_view (ct : Memory) : blockAt n ct (p - base) = blockAt n (view ct base) p := by
  apply ext_get
  intro i
  simp only [blockAt, get_ofFn, view]
  congr 1
  omega

theorem get_blockAt (i : Fin n) : (blockAt n mem p).get i = mem (p + i.val) := get_ofFn _ i

theorem getD_toList_blockAt (hi : i < n) : (blockAt n mem p).toList.getD i 0 = mem (p + i) := by
  rw [getD_toList _ ⟨i, hi⟩, get_blockAt]

theorem getD_xorBytes (hi : i < n) (x y : Vector UInt8 n) :
    (xorBytes x y).toList.getD i 0 = x.toList.getD i 0 ^^^ y.toList.getD i 0 := by
  rw [getD_toList _ ⟨i, hi⟩, get_xorBytes, ← getD_toList, ← getD_toList]

def chainBlock (n : Nat) (rk : RecoveryKey) (policy : CounterPolicy) (mem : Memory)
    (origin o : Nat) : Option (Vector UInt8 n) :=
  if o = 0 ∨ (policy = .resetPerChunk ∧ o = origin) then
    if rk.ivLength.toNat < n then none else some (rk.ivBlock n)
  else some (blockAt n mem ((o : Int) - n))

theorem rangeIvBlock_eq (policy : CounterPolicy) (ct : Memory) :
    rangeIvBlock rk policy ct origin base n o =
      chainBlock n rk policy (view ct base) origin o := by
  simp only [rangeIvBlock, chainBlock, blockAt_view]

/-! ### The block modes -/

section

variable (hn : 0 < n) (bc : BlockCipher n) (rk : RecoveryKey) (policy : CounterPolicy) (ct : Memory)
  (pt : Nat → UInt8) (hbase : base ≤ start) (hb : start ≤ b)

include hn hbase hb

theorem recEcb_apply : recEcb bc ct pt start length base (b - base) =
    if blockStart n start b + n ≤ start + length then
      (bc.decrypt (blockAt n (view ct base) (blockStart n start b))).toList.getD
        (b - blockStart n start b) 0
    else pt (b - base) := by
  rw [recEcb, recBlocks_apply hn hbase hb]
  simp only [ctBlock, blockAt_view, map_some, getD_some]

theorem recCbc_apply : recCbc bc rk policy ct pt origin start length base (b - base) =
    if blockStart n start b + n ≤ start + length then
      ((chainBlock n rk policy (view ct base) origin (blockStart n start b)).map fun prev =>
        (xorBytes (bc.decrypt (blockAt n (view ct base) (blockStart n start b))) prev).toList.getD
          (b - blockStart n start b) 0).getD (pt (b - base))
    else pt (b - base) := by
  rw [recCbc, recBlocks_apply hn hbase hb]
  simp only [ctBlock, blockAt_view, rangeIvBlock_eq, map_map, Function.comp_def]

omit hbase in
theorem getD_ctBlock_xor (ks : Vector UInt8 n) :
    (xorBytes (ctBlock n ct base (blockStart n start b)) ks).toList.getD
      (b - blockStart n start b) 0 =
      view ct base b ^^^ ks.toList.getD (b - blockStart n start b) 0 := by
  have hlt : b - blockStart n start b < n := by
    rw [sub_blockStart hb]
    exact mod_lt _ hn
  have hle := blockStart_le hb (n := n)
  rw [getD_xorBytes hlt, ctBlock, blockAt_view, getD_toList_blockAt hlt]
  congr 2
  omega

theorem recCfb_apply (hend : b < start + length) :
    recCfb bc rk policy ct pt origin start length base (b - base) =
      ((chainBlock n rk policy (view ct base) origin (blockStart n start b)).map fun prev =>
        view ct base b ^^^ (bc.encrypt prev).toList.getD (b - blockStart n start b) 0).getD
          (pt (b - base)) := by
  have h := fillCut_apply hn hbase hb (fun o => (rangeIvBlock rk policy ct origin base n o).map
    fun prev => xorBytes (ctBlock n ct base o) (bc.encrypt prev)) pt hend
  simp only [map_map, Function.comp_def] at h
  rw [recCfb, h, rangeIvBlock_eq]
  simp only [getD_ctBlock_xor hn ct hb]

theorem recKeystream_apply (ks : Nat → Vector UInt8 n) (hend : b < start + length) :
    recKeystream n ks ct pt start length base (b - base) =
      view ct base b ^^^ (ks (blockStart n start b)).toList.getD (b - blockStart n start b) 0 := by
  have h := fillCut_apply hn hbase hb
    (fun o => some (xorBytes (ctBlock n ct base o) (ks o))) pt hend
  simp only [map_some, getD_some, getD_ctBlock_xor hn ct hb] at h
  exact h

end

theorem policyPosition_add (policy : CounterPolicy) (h : origin ≤ o) :
    policyPosition policy origin (o + d) = policyPosition policy origin o + d := by
  cases policy with
  | continuous => rfl
  | resetPerChunk =>
    simp only [policyPosition]
    omega

theorem ofbBlock_step (hn : 0 < n) (bc : BlockCipher n) (policy : CounterPolicy)
    (ho : origin ≤ start) :
    bc.encrypt^[(blockStart n start b - start) / n]
      (ofbBlock bc rk (policyPosition policy origin start / n)) =
      ofbBlock bc rk (policyPosition policy origin (blockStart n start b) / n) := by
  have hsub : blockStart n start b - start = (b - start) / n * n := by
    unfold blockStart
    omega
  rw [hsub, Nat.mul_div_cancel _ hn, ofbBlock, ofbBlock, ← Function.iterate_add_apply, blockStart,
    policyPosition_add policy ho, add_mul_div_right _ _ hn, add_comm]

/-! ### XTS -/

theorem overwrite_full (buf buf' : Vector UInt8 16) {block : List UInt8} (h : block.length = 16) :
    overwrite buf block = overwrite buf' block := by
  apply ext_get
  intro i
  have hi : i.val < block.length := by omega
  simp only [overwrite, get_ofFn, getD_eq_getElem?_getD, getElem?_eq_getElem hi, getD_some]

def zeroBuffers : XtsBuffers := ⟨Vector.replicate 16 0, Vector.replicate 16 0⟩

def xtsPlain (bc1 bc2 : AnyCipher) (dataUnit : UInt64) (mem : Memory) (o : Nat) : Vector UInt8 16 :=
  let buf := recXtsBlock bc1 bc2 dataUnit mem 0 o zeroBuffers
  xorBytes buf.dec buf.tweak

theorem recXtsBlock_eq (h1 : bc1.1 = 16) (h2 : bc2.1 = 16) (ct : Memory) (buf : XtsBuffers) :
    recXtsBlock bc1 bc2 dataUnit ct base o buf =
      recXtsBlock bc1 bc2 dataUnit (view ct base) 0 o zeroBuffers := by
  have hview : view (view ct base) 0 = view ct base := by
    funext p
    simp [view]
  simp only [recXtsBlock, ctBlock, blockAt_view, hview]
  rw [overwrite_full buf.tweak zeroBuffers.tweak (by simpa using h2),
    overwrite_full buf.dec zeroBuffers.dec (by simpa using h1)]

theorem recXts_eq (h1 : bc1.1 = 16) (h2 : bc2.1 = 16)
    (ct : Memory) (pt : Nat → UInt8) :
    recXts bc1 bc2 dataUnit stack ct pt start length base =
      recBlocks 16 (fun o => some (xtsPlain bc1 bc2 dataUnit (view ct base) o)) pt start length
        base := by
  unfold recXts recBlocks
  generalize length / 16 = count
  induction count with
  | zero => rfl
  | succ count ih =>
    rw [fillBlocks_succ, range_succ, foldl_append, foldl_cons, foldl_nil, recXtsBlock_eq h1 h2]
    simp only [ih, map_some]
    rfl

theorem recXts_apply (h1 : bc1.1 = 16) (h2 : bc2.1 = 16)
    (ct : Memory) (pt : Nat → UInt8) (hbase : base ≤ start) (hb : start ≤ b) :
    recXts bc1 bc2 dataUnit stack ct pt start length base (b - base) =
      if blockStart 16 start b + 16 ≤ start + length then
        (xtsPlain bc1 bc2 dataUnit (view ct base) (blockStart 16 start b)).toList.getD
          (b - blockStart 16 start b) 0
      else pt (b - base) := by
  rw [recXts_eq h1 h2, recBlocks_apply (by decide) hbase hb]
  simp

/-! ### Stream ciphers -/

def recStreamByte (rk : RecoveryKey) (pos : Nat) : UInt8 :=
  (streamBlock rk (UInt64.ofNat (pos / 64))).toList.getD (pos % 64) 0

theorem recStreamLoop_apply (policy : CounterPolicy) (ct : Memory) {stop : Nat}
    (ho : origin ≤ o) (hbase : base ≤ o) (pt : Nat → UInt8) (hb : base ≤ b) :
    recStreamLoop rk policy ct origin base stop o pt (b - base) =
      if o ≤ b ∧ b < stop then
        view ct base b ^^^ recStreamByte rk (policyPosition policy origin b)
      else pt (b - base) := by
  fun_induction recStreamLoop rk policy ct origin base stop o pt with
  | case1 o pt hlt eo ks within span ih =>
    rw [ih (by omega) (by omega), writeData_map_range]
    by_cases hlater : o + span ≤ b ∧ b < stop
    · rw [if_pos hlater, if_pos (by omega)]
    rw [if_neg hlater]
    by_cases hin : o ≤ b ∧ b < stop
    · -- the byte lies in the part of the keystream block that this turn writes
      rw [if_pos hin, if_pos (by omega)]
      have hpos : policyPosition policy origin b = eo + (b - o) := by
        rw [show b = o + (b - o) by omega, policyPosition_add policy ho]
        congr 1
        omega
      have hdiv : policyPosition policy origin b / 64 = eo / 64 := by
        rw [hpos]
        have : within = eo % 64 := rfl
        omega
      have hmod : policyPosition policy origin b % 64 = within + (b - o) := by
        rw [hpos]
        omega
      have hwrite : b - base - (o - base) = b - o := by omega
      rw [recStreamByte, hdiv, hmod, view, hwrite]
      congr 2
      omega
    · rw [if_neg hin, if_neg (by omega)]
  | case2 o pt hge => rw [if_neg (by omega)]

/-! ### All modes -/

def Ciphers.Regular : Ciphers → Prop
  | .stream => True
  | .block bc => bc.1 = 8 ∨ bc.1 = 16
  | .xts bc1 bc2 => bc1.1 = 16 ∧ bc2.1 = 16

/-- **The byte a range decryption writes at a position**, or `none` where it leaves the
    buffer alone.  Of the range only the grid of its blocks and its end matter. -/
def rangeByte (rk : RecoveryKey) (policy : CounterPolicy) (ciphers : Ciphers) (mem : Memory)
    (origin start stop b : Nat) : Option UInt8 :=
  match ciphers with
  | .block ⟨n, bc⟩ =>
    let o := blockStart n start b
    let prev := chainBlock n rk policy mem origin o
    if rk.mode = SAR_MODE_ECB then
      if o + n ≤ stop then some ((bc.decrypt (blockAt n mem o)).toList.getD (b - o) 0) else none
    else if rk.mode = SAR_MODE_CBC then
      if o + n ≤ stop then
        prev.map fun prev => (xorBytes (bc.decrypt (blockAt n mem o)) prev).toList.getD (b - o) 0
      else none
    else if rk.mode = SAR_MODE_CFB then
      prev.map fun prev => mem b ^^^ (bc.encrypt prev).toList.getD (b - o) 0
    else if rk.mode = SAR_MODE_OFB then
      some (mem b ^^^ (ofbBlock bc rk (policyPosition policy origin o / n)).toList.getD (b - o) 0)
    else if rk.mode = SAR_MODE_CTR then
      some (mem b ^^^
        (recCtrBlock bc rk (policyPosition policy origin o / n)).toList.getD (b - o) 0)
    else none
  | .xts bc1 bc2 =>
    let o := blockStart 16 start b
    if o + 16 ≤ stop then
      some ((xtsPlain bc1 bc2 rk.modeParams mem o).toList.getD (b - o) 0)
    else none
  | .stream =>
    if rk.mode = SAR_MODE_STREAM then
      some (mem b ^^^ recStreamByte rk (policyPosition policy origin b))
    else none

theorem recoverOneRange_block_apply (stack : XtsBuffers) (rk : RecoveryKey) (policy : CounterPolicy)
    (hn : 0 < n) (bc : BlockCipher n) (ct : Memory) (pt : Nat → UInt8) (horigin : origin ≤ start)
    (hbase : base ≤ start) (hb : start ≤ b) (hend : b < start + length) :
    recoverOneRange stack rk policy (.block ⟨n, bc⟩) ct pt origin start length base (b - base) =
      (rangeByte rk policy (.block ⟨n, bc⟩) (view ct base) origin start (start + length) b).getD
        (pt (b - base)) := by
  simp only [recoverOneRange, rangeByte]
  by_cases hecb : rk.mode = SAR_MODE_ECB
  · simp only [if_pos hecb]
    rw [recEcb_apply hn bc ct pt hbase hb]
    split <;> rfl
  by_cases hcbc : rk.mode = SAR_MODE_CBC
  · simp only [if_neg hecb, if_pos hcbc]
    rw [recCbc_apply hn bc rk policy ct pt hbase hb]
    split <;> rfl
  by_cases hcfb : rk.mode = SAR_MODE_CFB
  · simp only [if_neg hecb, if_neg hcbc, if_pos hcfb]
    exact recCfb_apply hn bc rk policy ct pt hbase hb hend
  by_cases hofb : rk.mode = SAR_MODE_OFB
  · simp only [if_neg hecb, if_neg hcbc, if_neg hcfb, if_pos hofb]
    rw [recOfb, recKeystream_apply hn ct pt hbase hb _ hend, ofbBlock_step hn bc policy horigin]
    rfl
  by_cases hctr : rk.mode = SAR_MODE_CTR
  · simp only [if_neg hecb, if_neg hcbc, if_neg hcfb, if_neg hofb, if_pos hctr]
    rw [recCtr, recKeystream_apply hn ct pt hbase hb _ hend]
    rfl
  · simp only [if_neg hecb, if_neg hcbc, if_neg hcfb, if_neg hofb, if_neg hctr, getD_none]

/-- **Range decryption, byte by byte.** -/
theorem recoverOneRange_apply (stack : XtsBuffers) (hrc4 : ¬ rk.IsRc4) (policy : CounterPolicy)
    (hreg : ciphers.Regular) (ct : Memory) (pt : Nat → UInt8) (horigin : origin ≤ start)
    (hbase : base ≤ start) (hb : start ≤ b) (hend : b < start + length) :
    recoverOneRange stack rk policy ciphers ct pt origin start length base (b - base) =
      (rangeByte rk policy ciphers (view ct base) origin start (start + length) b).getD
        (pt (b - base)) := by
  cases ciphers with
  | stream =>
    simp only [recoverOneRange, rangeByte]
    split
    next hmode =>
      rw [if_neg (fun h => hrc4 ⟨hmode, h⟩), recStream,
        recStreamLoop_apply policy ct horigin hbase pt (by omega), if_pos ⟨hb, hend⟩]
      rfl
    · rfl
  | xts bc1 bc2 =>
    simp only [recoverOneRange, rangeByte]
    rw [recXts_apply hreg.1 hreg.2 _ _ hbase hb]
    split <;> simp only [getD_some, getD_none]
  | block bc =>
    obtain ⟨n, bc⟩ := bc
    have hn : 0 < n := by
      rcases hreg with h | h <;> · dsimp only at h; omega
    exact recoverOneRange_block_apply stack rk policy hn bc ct pt horigin hbase hb hend

/-! ### The ciphers of a key -/

def RecoveryKey.ShortXts (rk : RecoveryKey) : Prop :=
  rk.mode = SAR_MODE_XTS ∧ rk.algorithm = SAR_ALG_3DES

instance (rk : RecoveryKey) : Decidable rk.ShortXts := inferInstanceAs (Decidable (_ ∧ _))

/-- What the ciphers of a key say about it. -/
theorem buildCiphers_spec (h : buildCiphers suite rk = some ciphers) :
    match ciphers with
    | .xts bc1 bc2 => rk.mode = SAR_MODE_XTS ∧
        makeXts suite rk.algorithm rk.key.toList rk.keyLength.toNat = some (bc1, bc2)
    | .block bc => rk.mode ≠ SAR_MODE_XTS ∧
        makeBlock suite rk.algorithm rk.key.toList rk.keyLength.toNat = some bc
    | .stream => rk.mode ≠ SAR_MODE_XTS ∧ isBlockAlg rk.algorithm = false := by
  unfold buildCiphers at h
  split at h
  next hmode =>
    obtain ⟨bcs, hbcs, rfl⟩ := map_eq_some_iff.mp h
    exact ⟨hmode, hbcs⟩
  next hmode =>
    split at h
    · obtain ⟨bc, hbc, rfl⟩ := map_eq_some_iff.mp h
      exact ⟨hmode, hbc⟩
    next hnot =>
      obtain rfl := some.inj h
      exact ⟨hmode, Bool.not_eq_true _ ▸ hnot⟩

theorem buildCiphers_regular (h : buildCiphers suite rk = some ciphers) (hxts : ¬ rk.ShortXts) :
    ciphers.Regular := by
  have hspec := buildCiphers_spec h
  cases ciphers with
  | stream => trivial
  | block bc => exact (makeBlock_size hspec.2).imp And.right And.right
  | xts bc1 bc2 =>
    rcases makeXts_size hspec.2 with ⟨halg, -⟩ | ⟨-, hsizes⟩
    · exact absurd ⟨hspec.1, halg⟩ hxts
    · exact hsizes

/-! ### Whole buffers -/

def fileMemory (file : List UInt8) (heap : Memory) : Memory := fun i =>
  if 0 ≤ i ∧ i < file.length then file.getD i.toNat 0 else heap i

theorem fileMemory_natCast {heap : Memory} (h : i < file.length) :
    fileMemory file heap (i : Int) = file.getD i 0 := by
  rw [fileMemory, if_pos ⟨by omega, by omega⟩, Int.toNat_natCast]

theorem blockAt_fileMemory (heap : Memory) (h : o + n ≤ file.length) :
    blockAt n (fileMemory file heap) o = bytesAt n file o := by
  apply ext_get
  intro i
  rw [get_blockAt, get_bytesAt, ← cast_add, fileMemory_natCast (by omega)]

@[simp] theorem view_zero (ct : Memory) : view ct 0 = ct := by
  funext p
  simp [view]

theorem sarRecoverBuffer_single (stack : XtsBuffers) (geom : Option Geometry) {fileSize : UInt64}
    {r : FileRange} (hcheck : precheck rk = .ok) (hciphers : buildCiphers suite rk = some ciphers)
    (hexpand : sarGeometryExpand (geom.getD ⟨.full, .continuous⟩).mode fileSize SAR_MAX_RANGES =
      some [r]) (hinside : r.offset.toNat + r.length.toNat ≤ fileSize.toNat) (ct : Memory)
    (pt : Nat → UInt8) :
    sarRecoverBuffer suite stack rk geom ct pt fileSize =
      (.ok, recoverOneRange stack rk (geom.getD ⟨.full, .continuous⟩).counterPolicy ciphers ct
        (fun i => if i < fileSize.toNat then ct i else pt i) r.offset.toNat r.offset.toNat
        r.length.toNat 0) := by
  have hin : ¬ (r.offset.toNat > fileSize.toNat ∨
      fileSize.toNat - r.offset.toNat < r.length.toNat) := by omega
  simp only [sarRecoverBuffer, hexpand, recoverRangesInto, hcheck, hciphers, ne_eq,
    not_true_eq_false, if_false, false_and, foldl_cons, foldl_nil, if_neg hin]

end SemanticsAr
