import SemanticsAr.Battery

/-!
# Finding AES keys

The schedule of a key, the check of a schedule in memory, the unwinding of a window of one, and
what a snapshot with a schedule in it makes of the battery.
-/

namespace SemanticsAr

open List Nat

/-! ### The key schedule -/

/-- One turn of the loop of `aes_setkey`: word `i` behind the words before it. -/
def expandWord (nk : Nat) (w : List UInt8) (i : Nat) : List UInt8 :=
  w ++ (xorBytes (wordAt w (i - nk)) (scheduleTemp nk i (wordAt w (i - 1)))).toList

/-- `aes_setkey`: the round keys. -/
def aesSetkey (key : List UInt8) (keyLen : Nat) : List UInt8 :=
  let nk := keyLen / 4
  (range' nk (4 * (nk + 7) - nk)).foldl (expandWord nk) (key.take keyLen)

/-- Word `i` is the one that the schedule has there. -/
def Follows (nk : Nat) (buf : List UInt8) (i : Nat) : Prop :=
  wordAt buf i = xorBytes (wordAt buf (i - nk)) (scheduleTemp nk i (wordAt buf (i - 1)))

variable {nk m i : Nat} {buf : List UInt8}

theorem wordAt_take (h : i < m) : wordAt (buf.take (4 * m)) i = wordAt buf i := by
  apply ext_get
  intro j
  have hj := j.isLt
  simp [wordAt, show i * 4 + j.val < 4 * m by omega]

theorem take_succ_word (h : 4 * (m + 1) ≤ buf.length) :
    buf.take (4 * (m + 1)) = buf.take (4 * m) ++ (wordAt buf m).toList := by
  have hword : (wordAt buf m).toList = (buf.drop (4 * m)).take 4 := by
    apply ext_getElem
    · simp
      omega
    · intro j hj hj'
      have hlt : 4 * m + j < buf.length := by
        simp at hj
        omega
      simp [wordAt, bytesAt, getD_eq_getElem?_getD, mul_comm m, hlt]
  rw [hword, mul_succ, take_add]

theorem flatMap_words (h : 4 * m ≤ buf.length) :
    ((range m).map (wordAt buf)).flatMap Vector.toList = buf.take (4 * m) := by
  induction m with
  | zero => simp
  | succ m ih =>
    rw [range_succ, map_append, flatMap_append, ih (by omega), take_succ_word h]
    simp

theorem expand_eq_take_iff (hnk : 0 < nk) (h : 4 * (nk + m) ≤ buf.length) :
    (range' nk m).foldl (expandWord nk) (buf.take (4 * nk)) = buf.take (4 * (nk + m)) ↔
      ∀ i ∈ range' nk m, Follows nk buf i := by
  induction m with
  | zero => simp
  | succ m ih =>
    have ih := ih (by omega)
    rw [← add_assoc, take_succ_word (m := nk + m) h, range'_concat, foldl_append,
      one_mul, foldl_cons, foldl_nil, forall_mem_append, ← ih, forall_mem_singleton]
    constructor
    · intro heq
      obtain ⟨hfront, hword⟩ := append_inj' heq (by simp)
      refine ⟨hfront, ?_⟩
      rw [hfront, wordAt_take (by omega), wordAt_take (by omega)] at hword
      exact (Vector.toList_inj.mp hword).symm
    · rintro ⟨hfront, hword⟩
      rw [hfront, expandWord, wordAt_take (by omega), wordAt_take (by omega), hword]

theorem expand_spec (key : List UInt8) :
    ((range' nk m).foldl (expandWord nk) key).length = key.length + 4 * m ∧
      key <+: (range' nk m).foldl (expandWord nk) key := by
  induction m with
  | zero => simp
  | succ m ih =>
    rw [range'_concat, foldl_append]
    exact ⟨by simp [expandWord, ih.1]; omega, ih.2.trans (prefix_append _ _)⟩

/-! ### Unwinding a window -/

theorem unwindWords_eq {W : Nat → AesWord} (hnk : 1 < nk) {b : Nat}
    (h : ∀ i, nk ≤ i → i < (b + 1) * nk →
      W i = xorBytes (W (i - nk)) (scheduleTemp nk i (W (i - 1)))) :
    unwindWords nk b ((range nk).map fun i => W (b * nk + i)) = (range nk).map W := by
  induction b with
  | zero => simp [unwindWords]
  | succ b ih =>
    have hgroup : (b + 1) * nk = b * nk + nk := succ_mul b nk
    have hnext : (b + 1 + 1) * nk = (b + 1) * nk + nk := succ_mul (b + 1) nk
    have hword : ∀ i < nk, ((range nk).map fun i => W ((b + 1) * nk + i)).getD i
        (Vector.replicate 4 0) = W ((b + 1) * nk + i) := by
      intro i hi
      simp [hi]
    -- what was added to word `i` is added again, once the word before it is known
    have hback : ∀ i < nk, ∀ j, j + 1 = (b + 1) * nk + i →
        xorBytes (W ((b + 1) * nk + i)) (scheduleTemp nk ((b + 1) * nk + i) (W j)) =
          W (b * nk + i) := by
      intro i hi j hj
      rw [h _ (by omega) (by omega), ← hj, Nat.add_sub_cancel, xorBytes_cancel]
      congr 1
      omega
    rw [unwindWords, ← ih fun i hi hlt => h i hi (by omega)]
    congr 1
    apply map_congr_left
    intro i hi
    have hi := mem_range.mp hi
    dsimp only
    split
    next hzero =>
      subst hzero
      rw [hword 0 hi, hword _ (by omega), hword _ (by omega),
        hback (nk - 1) (by omega) _ (by omega)]
      exact hback 0 hi _ (by omega)
    next hpos =>
      rw [hword i hi, hword _ (by omega), hback i hi _ (by omega)]

/-! ### Keys found by their schedules -/

section

variable {key : List UInt8}

theorem four_mul_div : 4 * nk / 4 = nk := Nat.mul_div_cancel_left nk (by decide)

theorem validNk_cases (h : validNk nk = true) : nk = 4 ∨ nk = 6 ∨ nk = 8 := by
  simpa [validNk, or_assoc] using h

theorem aesScheduleIsValid_iff_follows (hnk : validNk nk = true) :
    aesScheduleIsValid buf (4 * nk) = true ↔ ∀ i, nk ≤ i → i < 4 * (nk + 7) → Follows nk buf i := by
  have hend : nk + (4 * (nk + 7) - nk) = 4 * (nk + 7) := by omega
  simp [aesScheduleIsValid, hnk, Follows, hend]

theorem aesScheduleIsValid_iff (hnk : validNk nk = true) (hbuf : buf.length = 16 * (nk + 7)) :
    aesScheduleIsValid buf (4 * nk) = true ↔ buf = aesSetkey (buf.take (4 * nk)) (4 * nk) := by
  have hpos : 0 < nk := by rcases validNk_cases hnk with rfl | rfl | rfl <;> decide
  have hall : 4 * (nk + (4 * (nk + 7) - nk)) = buf.length := by omega
  have h := expand_eq_take_iff hpos (m := 4 * (nk + 7) - nk) hall.le
  rw [hall, take_length] at h
  rw [aesScheduleIsValid_iff_follows hnk, aesSetkey, four_mul_div, take_take, min_self, eq_comm, h]
  simp only [mem_range'_1, and_imp, show nk + (4 * (nk + 7) - nk) = 4 * (nk + 7) by omega]

theorem aesSetkey_spec (hkey : key.length = 4 * nk) :
    (aesSetkey key (4 * nk)).length = 16 * (nk + 7) ∧
      (aesSetkey key (4 * nk)).take (4 * nk) = key := by
  obtain ⟨hlen, hprefix⟩ := expand_spec key
  rw [aesSetkey, four_mul_div, ← hkey, take_length]
  exact ⟨by rw [hlen]; omega, (prefix_iff_eq_take.mp hprefix).symm⟩

theorem aesSetkey_isValid (hnk : validNk nk = true) (hkey : key.length = 4 * nk) :
    aesScheduleIsValid (aesSetkey key (4 * nk)) (4 * nk) = true := by
  obtain ⟨hlen, hfront⟩ := aesSetkey_spec hkey
  exact (aesScheduleIsValid_iff hnk hlen).mpr (by rw [hfront])

theorem aesMasterFromWindow_eq (hnk : validNk nk = true) (hkey : key.length = 4 * nk) {b : Nat}
    (hb : 1 ≤ b) (hin : (b + 1) * nk ≤ 4 * (nk + 7)) :
    aesMasterFromWindow (4 * nk) (((aesSetkey key (4 * nk)).drop (b * (4 * nk))).take (4 * nk)) b =
      some key := by
  obtain ⟨hlen, hfront⟩ := aesSetkey_spec hkey
  have hvalid := (aesScheduleIsValid_iff_follows hnk).mp (aesSetkey_isValid hnk hkey)
  have hwide : 1 < nk := by rcases validNk_cases hnk with rfl | rfl | rfl <;> decide
  generalize aesSetkey key (4 * nk) = schedule at hlen hfront hvalid ⊢
  have hwords : (range nk).map (wordAt ((schedule.drop (b * (4 * nk))).take (4 * nk))) =
      (range nk).map fun i => wordAt schedule (b * nk + i) := by
    apply map_congr_left
    intro i hi
    rw [wordAt_take (mem_range.mp hi), mul_left_comm]
    apply ext_get
    intro j
    simp only [wordAt, get_bytesAt, getD_eq_getElem?_getD, getElem?_drop]
    congr 2
    omega
  simp only [aesMasterFromWindow, four_mul_div, hnk, hwords, Bool.true_eq_false, if_false,
    if_neg (not_lt.mpr hb)]
  rw [unwindWords_eq hwide fun i hi hlt => hvalid i hi (by omega), flatMap_words (by omega), hfront]

end

theorem aesScheduleScan_isSome {suite : CipherSuite} (sample : Sample) {key : List UInt8}
    {off : Nat} (hnk : validNk nk = true) (hkey : key.length = 4 * nk)
    (hbuf : (buf.drop off).take (16 * (nk + 7)) = aesSetkey key (4 * nk))
    (haccepts : (engineTryBlockModes (suite.aes key) sample.plaintext sample.ciphertext sample.size
      sample.fileOffset).isSome = true) :
    (aesScheduleScan suite sample buf).isSome = true := by
  obtain ⟨hlen, hfront⟩ := aesSetkey_spec hkey
  have hvalid := aesSetkey_isValid hnk hkey
  have hin : off + 16 * (nk + 7) ≤ buf.length := by
    rw [← hbuf, length_take, length_drop] at hlen
    omega
  rw [← hbuf, take_take, min_eq_left (by omega)] at hfront
  rw [← hbuf, show 16 * (nk + 7) = 4 * (4 * (nk + 7)) by omega] at hvalid
  replace hvalid : aesScheduleIsValid (buf.drop off) (4 * nk) = true := by
    rw [aesScheduleIsValid_iff_follows hnk] at hvalid ⊢
    intro i hi hlt
    have h := hvalid i hi hlt
    rwa [Follows, wordAt_take hlt, wordAt_take (by omega), wordAt_take (by omega)] at h
  obtain ⟨alg, hmem⟩ : ∃ alg, (4 * nk, 16 * (nk + 7), alg) ∈ [(16, 176, SAR_ALG_AES_128),
      (24, 208, SAR_ALG_AES_192), (32, 240, SAR_ALG_AES_256)] := by
    rcases validNk_cases hnk with rfl | rfl | rfl <;> simp
  have hleast : 4 ≤ nk := by rcases validNk_cases hnk with rfl | rfl | rfl <;> decide
  refine findSome?_isSome_iff.mpr ⟨off, mem_range.mpr (by omega), ?_⟩
  refine findSome?_isSome_iff.mpr ⟨_, hmem, ?_⟩
  dsimp only
  rw [if_pos ⟨hin, hvalid⟩, aesTryMaster, blockTry, Option.isSome_map, hfront]
  exact haccepts

theorem le_of_engineTryBlockModes {c : BlockCipher 16} {pt ct : List UInt8} {len : Nat}
    {fileOffset : UInt64} (h : (engineTryBlockModes c pt ct len fileOffset).isSome = true) :
    16 ≤ len := by
  by_contra hlt
  have hno : ∀ s, ¬ s + 16 ≤ len := fun s => by omega
  simp [engineTryBlockModes, genericEcb, hno] at h

/-- **AES keys are found from every place of their schedule.**  A buffer passes the check exactly
    if it is the schedule of its own first bytes, every later window of a schedule unwinds to
    the key, and a snapshot with a whole schedule in it, at any offset, convicts on every sample
    that the key explains. -/
theorem aes_keys_found (nk : Nat) (hnk : nk = 4 ∨ nk = 6 ∨ nk = 8) :
    (∀ buf : List UInt8, buf.length = 16 * (nk + 7) →
      (aesScheduleIsValid buf (4 * nk) = true ↔
        buf = aesSetkey (buf.take (4 * nk)) (4 * nk))) ∧
    ∀ key : List UInt8, key.length = 4 * nk →
      (∀ b, 1 ≤ b → (b + 1) * (4 * nk) ≤ (aesSetkey key (4 * nk)).length →
        aesMasterFromWindow (4 * nk)
          (((aesSetkey key (4 * nk)).drop (b * (4 * nk))).take (4 * nk)) b = some key) ∧
      ∀ (suite : CipherSuite) (input : EngineInput) (pt ct : List UInt8) (off : Nat),
        input.plaintext = some pt → input.ciphertext = some ct →
        (input.scanBuffer.drop off).take (16 * (nk + 7)) = aesSetkey key (4 * nk) →
        (engineTryBlockModes (suite.aes key) pt ct input.sampleSize.toNat
          input.fileOffset).isSome = true →
        (sarConvict suite input).isSome = true := by
  have hnk : validNk nk = true := by rcases hnk with rfl | rfl | rfl <;> rfl
  refine ⟨fun buf => aesScheduleIsValid_iff hnk, fun key hkey => ⟨fun b hb hin => ?_, ?_⟩⟩
  · rw [(aesSetkey_spec hkey).1, mul_left_comm] at hin
    exact aesMasterFromWindow_eq hnk hkey hb (by omega)
  · intro suite input pt ct off hpt hct hbuf haccepts
    have hsize := le_of_engineTryBlockModes haccepts
    have hscan := aesScheduleScan_isSome ⟨pt, ct, input.sampleSize.toNat, input.fileOffset⟩
      hnk hkey hbuf haccepts
    have hlong : 16 ≤ input.scanBuffer.length := by
      have hlen := (aesSetkey_spec hkey).1
      rw [← hbuf, length_take, length_drop] at hlen
      omega
    have hnot : ¬ input.sampleSize < 16 := fun h =>
      not_lt.mpr hsize (UInt32.lt_iff_toNat_lt.mp h)
    simp [sarConvict, hpt, hct, hnot, convictSample, hlong, scanBattery, hscan]

/-- The schedule of a key passes the check, its last group unwinds to the key, and a snapshot that
    has it behind one other byte convicts. -/
theorem aes_keys_found_last_group :
    let key : List UInt8 := List.replicate 16 7
    aesScheduleIsValid (aesSetkey key 16) 16 = true ∧
      aesMasterFromWindow 16 (((aesSetkey key 16).drop 160).take 16) 10 = some key ∧
      (sarConvict addSuite ⟨[], 9 :: aesSetkey key 16, some (List.replicate 16 0),
        some (List.replicate 16 7), 16, 0⟩).isSome = true := by
  obtain ⟨hvalid, hfound⟩ := aes_keys_found 4 (.inl rfl)
  obtain ⟨hwindow, hconvicts⟩ := hfound (List.replicate 16 7) rfl
  refine ⟨(hvalid (aesSetkey (List.replicate 16 7) 16) (by decide +kernel)).mpr (by decide +kernel),
    hwindow 10 (by decide) (by decide +kernel), ?_⟩
  exact hconvicts addSuite _ _ _ 1 rfl rfl (by decide +kernel) (by decide +kernel)

end SemanticsAr
