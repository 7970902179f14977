import SemanticsAr.StreamRecovery

/-!
# The scan for the stream-cipher constant

`stream_sigma_scan` of `battery.c` looks for a ChaCha20 or Salsa20 state block in the
snapshot, by the constant "expand 32-byte k" in its place, and compares the sample with
keystream from one block of 64 bytes, the one that the file offset falls into.  It compares
no bytes of the next block, and gives up where fewer than sixteen are left.
-/

namespace SemanticsAr

open List hiding Vector

variable {origin rounds i : Nat} {cipher : StreamCipher} {fileOffset : UInt64}

/-! ### State blocks in the snapshot -/

inductive StateBlock (key nonce : List UInt8) : StreamCipher → List UInt8 → Prop where
  | chacha20 (counter : List UInt8) (hcounter : counter.length = 4) :
      StateBlock key nonce .chacha20 (SAR_STREAM_SIGMA ++ key ++ counter ++ nonce)
  | salsa20 (counter : List UInt8) (hcounter : counter.length = 8) :
      StateBlock key nonce .salsa20
        (SAR_STREAM_SIGMA.take 4 ++ key.take 16 ++ (SAR_STREAM_SIGMA.drop 4).take 4 ++ nonce ++
          counter ++ (SAR_STREAM_SIGMA.drop 8).take 4 ++ key.drop 16 ++ SAR_STREAM_SIGMA.drop 12)

/-- The state block of a cipher with twenty rounds stands somewhere in the snapshot, and the
    sample, of at least 64 bytes, is encrypted with its keystream at the file offset. -/
structure SigmaInput {cipher : StreamCipher} (p : StreamParams cipher) (input : EngineInput) :
    Prop where
  rounds : p.rounds = 20
  state : ∃ before block after, input.scanBuffer = before ++ (block ++ after) ∧
    StateBlock p.key p.nonce cipher block
  size : 64 ≤ input.sampleSize
  encrypted : ∃ pt ct, input.plaintext = some pt ∧ input.ciphertext = some ct ∧
    ∀ m < input.sampleSize.toNat,
      ct.getD m 0 = pt.getD m 0 ^^^ p.keystream (input.fileOffset.toNat + m)

section

variable {p : StreamParams cipher} {block : List UInt8}

theorem StateBlock.length (h : StateBlock p.key p.nonce cipher block) : block.length = 64 := by
  have hkey := p.key_length
  have hnonce := p.nonce_length
  cases h with
  | chacha20 counter hcounter =>
    simp only [StreamCipher.nonceLength] at hnonce
    simp [SAR_STREAM_SIGMA, hkey, hnonce, hcounter]
  | salsa20 counter hcounter =>
    simp only [StreamCipher.nonceLength] at hnonce
    simp [SAR_STREAM_SIGMA, hkey, hnonce, hcounter]

end

/-! ### The comparison with one keystream block -/

section

variable {sample : Sample}

theorem keystreamMatches_iff {ks : Vector UInt8 64} : keystreamMatches sample ks = true ↔
    ∀ m < compareLength sample,
      sample.plaintext.getD m 0 ^^^ ks.toList.getD ((sample.fileOffset % 64).toNat + m) 0 =
        sample.ciphertext.getD m 0 := by
  simp [keystreamMatches, all_eq_true]

theorem keystreamMatches_of_encrypted {p : StreamParams cipher}
    (h : ∀ m < sample.size, sample.ciphertext.getD m 0 =
      sample.plaintext.getD m 0 ^^^ p.keystream (sample.fileOffset.toNat + m)) :
    keystreamMatches sample (cipher.block p.key p.nonce
      (p.origin + (sample.fileOffset / 64).toNat) p.rounds) = true := by
  apply keystreamMatches_iff.mpr
  intro m hm
  have hmod : (sample.fileOffset % 64).toNat = sample.fileOffset.toNat % 64 := rfl
  have hdiv : (sample.fileOffset / 64).toNat = sample.fileOffset.toNat / 64 := rfl
  have hin : sample.fileOffset.toNat % 64 + m < 64 ∧ m < sample.size := by
    rw [compareLength, hmod] at hm
    omega
  have hblock : (sample.fileOffset.toNat + m) / 64 = sample.fileOffset.toNat / 64 := by omega
  have hwithin : (sample.fileOffset.toNat + m) % 64 = sample.fileOffset.toNat % 64 + m := by omega
  rw [h m hin.2, StreamParams.keystream, StreamParams.counter, hblock, hwithin, hmod, hdiv]

variable {genKey reportKey genNonce persistNonce : List UInt8} {persistLen : Nat} {alg : UInt32}

section

variable (horigin : origin ≤ 1) (hrounds : rounds ∈ STREAM_ROUNDS)

include horigin hrounds

theorem isSome_findSome_stream {f : UInt64 → Nat → Option Verdict}
    (h : (f (UInt64.ofNat origin) rounds).isSome) :
    (([0, 1] : List UInt64).findSome? fun o => STREAM_ROUNDS.findSome? (f o)).isSome :=
  findSome?_isSome_iff.mpr ⟨_, origin_mem horigin, findSome?_isSome_iff.mpr ⟨rounds, hrounds, h⟩⟩

theorem tryChacha_isSome (hlen : 16 ≤ compareLength sample)
    (hmatch : keystreamMatches sample (chachaBlock genKey genNonce
      (UInt32.ofNat (origin + (sample.fileOffset / 64).toNat)) rounds) = true) :
    (tryChacha sample genKey reportKey genNonce persistNonce persistLen alg).isSome := by
  apply isSome_findSome_stream horigin hrounds
  rw [← UInt64.toUInt32_add, ← UInt64.ofNat_toNat (x := sample.fileOffset / 64), counter_add,
    UInt64.toUInt32_ofNat', if_pos ⟨hlen, hmatch⟩]
  rfl

theorem trySalsa_isSome (hlen : 16 ≤ compareLength sample)
    (hmatch : keystreamMatches sample (salsaBlock genKey genNonce
      (UInt64.ofNat (origin + (sample.fileOffset / 64).toNat)) rounds) = true) :
    (trySalsa sample genKey reportKey genNonce persistNonce persistLen alg).isSome := by
  apply isSome_findSome_stream horigin hrounds
  rw [← UInt64.ofNat_toNat (x := sample.fileOffset / 64), counter_add, if_pos ⟨hlen, hmatch⟩]
  rfl

end

theorem tryChacha_short (hlen : compareLength sample < 16) :
    tryChacha sample genKey reportKey genNonce persistNonce persistLen alg = none := by
  simp [tryChacha, findSome?_eq_none_iff, Nat.not_le.mpr hlen]

theorem trySalsa_short (hlen : compareLength sample < 16) :
    trySalsa sample genKey reportKey genNonce persistNonce persistLen alg = none := by
  simp [trySalsa, findSome?_eq_none_iff, Nat.not_le.mpr hlen]

end

/-! ### Where the scan succeeds -/

theorem isSome_orElse {α : Type} {o o' : Option α} (h : o.isSome ∨ o'.isSome) :
    (o <|> o').isSome := by
  cases o with
  | none => exact h.resolve_left (by simp)
  | some a => rfl

section

variable {key nonce counter : List UInt8} (hkey : key.length = 32) (after : List UInt8)

include hkey

theorem chachaState_read (hcounter : counter.length = 4) (hnonce : nonce.length = 12) :
    let w := SAR_STREAM_SIGMA ++ key ++ counter ++ nonce ++ after
    w.take 16 = SAR_STREAM_SIGMA ∧ (w.drop 16).take 32 = key ∧ (w.drop 52).take 12 = nonce := by
  refine ⟨?_, ?_, ?_⟩
  · simp [SAR_STREAM_SIGMA]
  · simp [SAR_STREAM_SIGMA, hkey]
  · simp [SAR_STREAM_SIGMA, hkey, hnonce, hcounter, drop_append, drop_of_length_le]

theorem salsaState_read (hcounter : counter.length = 8) (hnonce : nonce.length = 8) :
    let w := SAR_STREAM_SIGMA.take 4 ++ key.take 16 ++ (SAR_STREAM_SIGMA.drop 4).take 4 ++ nonce ++
      counter ++ (SAR_STREAM_SIGMA.drop 8).take 4 ++ key.drop 16 ++ SAR_STREAM_SIGMA.drop 12 ++
      after
    w.take 4 = SAR_STREAM_SIGMA.take 4 ∧ (w.drop 20).take 4 = (SAR_STREAM_SIGMA.drop 4).take 4 ∧
      (w.drop 40).take 4 = (SAR_STREAM_SIGMA.drop 8).take 4 ∧
      (w.drop 60).take 4 = SAR_STREAM_SIGMA.drop 12 ∧
      (w.drop 4).take 16 ++ (w.drop 44).take 16 = key ∧ (w.drop 24).take 8 = nonce := by
  refine ⟨?_, ?_, ?_, ?_, ?_, ?_⟩
  · simp [SAR_STREAM_SIGMA]
  · simp [SAR_STREAM_SIGMA, hkey]
  all_goals
    simp [SAR_STREAM_SIGMA, hkey, hnonce, hcounter, drop_append, drop_of_length_le]

end

section

variable {p : StreamParams cipher} {sample : Sample}

theorem streamSigmaScan_isSome {before block after : List UInt8}
    (hstate : StateBlock p.key p.nonce cipher block) (hlen : 16 ≤ compareLength sample)
    (h : ∀ m < sample.size, sample.ciphertext.getD m 0 =
      sample.plaintext.getD m 0 ^^^ p.keystream (sample.fileOffset.toNat + m)) :
    (streamSigmaScan sample (before ++ (block ++ after))).isSome := by
  have hblock := hstate.length
  have hmatch := keystreamMatches_of_encrypted h
  have hdrop (k : Nat) : (before ++ (block ++ after)).drop (before.length + k) =
      (block ++ after).drop k := by
    rw [← drop_drop, drop_left]
  have hsigma (k start n : Nat) (heq : ((block ++ after).drop k).take n =
      (SAR_STREAM_SIGMA.drop start).take n) :
      sigmaAt (before ++ (block ++ after)) (before.length + k) start n = true := by
    rw [sigmaAt, hdrop, heq]
    exact beq_self_eq_true _
  have hfirst (hsigma4 : (block ++ after).take 4 = SAR_STREAM_SIGMA.take 4) :
      (before ++ (block ++ after)).getD before.length 0 = SAR_STREAM_SIGMA.getD 0 0 := by
    have hhead := congrArg (fun l => l.getD 0 0) hsigma4
    rw [getD_append_right _ _ _ _ (Nat.le_refl _), Nat.sub_self]
    simpa using hhead
  apply findSome?_isSome_iff.mpr
  refine ⟨before.length, ?_, ?_⟩
  · simp only [mem_range, length_append]
    omega
  cases hstate with
  | chacha20 counter hcounter =>
    obtain ⟨hconst, hkey, hnonce⟩ :=
      chachaState_read p.key_length after hcounter p.nonce_length
    rw [if_neg (not_not.mpr (hfirst ?_))]
    · apply isSome_orElse
      left
      have hfound : sigmaAt _ before.length 0 16 = true := hsigma 0 0 16 hconst
      simp only [if_pos hfound, hdrop, hkey, hnonce]
      exact tryChacha_isSome p.origin_le p.rounds_mem hlen hmatch
    · have h4 := congrArg (take 4) hconst
      rwa [take_take] at h4
  | salsa20 counter hcounter =>
    obtain ⟨h0, h4, h8, h12, hkey, hnonce⟩ :=
      salsaState_read p.key_length after hcounter p.nonce_length
    rw [if_neg (not_not.mpr (hfirst h0))]
    apply isSome_orElse
    right
    have hfound : sigmaAt _ before.length 0 4 = true := hsigma 0 0 4 h0
    rw [if_pos ⟨hfound, hsigma 20 4 4 h4, hsigma 40 8 4 h8, hsigma 60 12 4 h12⟩]
    simp only [hdrop, hkey, hnonce]
    exact trySalsa_isSome p.origin_le p.rounds_mem hlen hmatch

end

theorem sarConvict_sigma (suite : CipherSuite) {p : StreamParams cipher} {input : EngineInput}
    (h : SigmaInput p input) (hoffset : input.fileOffset.toNat % 64 ≤ 48) :
    (sarConvict suite input).isSome := by
  obtain ⟨before, block, after, hbuf, hstate⟩ := h.state
  obtain ⟨pt, ct, hpt, hct, hbytes⟩ := h.encrypted
  have hsize : 64 ≤ input.sampleSize.toNat := UInt32.le_iff_toNat_le.mp h.size
  have hmin : ¬ input.sampleSize < 16 := by
    rw [UInt32.lt_iff_toNat_lt]
    exact Nat.not_lt.mpr ((by decide : (16 : UInt32).toNat ≤ 64).trans hsize)
  have hcompare : 16 ≤ compareLength ⟨pt, ct, input.sampleSize.toNat, input.fileOffset⟩ := by
    show 16 ≤ min (64 - input.fileOffset.toNat % 64) input.sampleSize.toNat
    omega
  have hscan : (streamSigmaScan ⟨pt, ct, input.sampleSize.toNat, input.fileOffset⟩
      (before ++ (block ++ after))).isSome := streamSigmaScan_isSome hstate hcompare hbytes
  have hlong : input.scanBuffer.length ≥ 16 := by
    have := hstate.length
    rw [hbuf, length_append, length_append]
    omega
  rw [sarConvict, hpt, hct]
  dsimp only
  rw [if_neg hmin, convictSample]
  iterate 4
    apply isSome_orElse
    right
  rw [if_pos hlong, scanBattery, hbuf]
  apply isSome_orElse
  right
  apply isSome_orElse
  exact .inl hscan

/-! ### Where it fails -/

theorem streamSigmaScan_short {sample : Sample} (hlen : compareLength sample < 16)
    (buf : List UInt8) : streamSigmaScan sample buf = none := by
  simp [streamSigmaScan, findSome?_eq_none_iff, tryChacha_short hlen, trySalsa_short hlen]

/-! The other searches find nothing in zeros. -/

theorem bytesAt_zeros {n pos : Nat} {l : List UInt8} (h : ∀ i < n, l.getD (pos + i) 0 = 0) :
    bytesAt n l pos = Vector.replicate n 0 := by
  apply ext_get
  intro i
  rw [get_bytesAt, h i i.isLt]
  simp [Vector.get]

theorem aesScheduleIsValid_zeros {schedule : List UInt8} {klen : Nat}
    (hklen : klen = 16 ∨ klen = 24 ∨ klen = 32) (h : ∀ i < klen + 4, schedule.getD i 0 = 0) :
    aesScheduleIsValid schedule klen = false := by
  have hword {i : Nat} (hi : i * 4 < klen + 1) : wordAt schedule i = Vector.replicate 4 0 :=
    bytesAt_zeros fun j hj => h _ (by omega)
  apply Bool.eq_false_iff.mpr
  intro hvalid
  rw [aesScheduleIsValid, Bool.and_eq_true, all_eq_true] at hvalid
  have hfirst := hvalid.2 (klen / 4) (mem_range'_1.mpr (by omega))
  rw [decide_eq_true_eq, hword (by omega), hword (by omega), hword (by omega)] at hfirst
  rcases hklen with rfl | rfl | rfl <;> exact absurd hfirst (by decide)

theorem candidateViable_zeros {d : List UInt8} (h : ∀ i < 16, d.getD i 0 = 0) :
    candidateViable d = false := by
  have hsame : ((range' 1 15).any fun i => d.getD i 0 != d.getD 0 0) = false := by
    apply any_eq_false.mpr
    intro i hi
    have hi := mem_range'_1.mp hi
    rw [h i (by omega), h 0 (by decide)]
    decide
  rw [candidateViable, hsame, Bool.and_false]

def buried (state : List UInt8) : List UInt8 := replicate SAR_SCAN_BRUTE_CAP 0 ++ state

section

variable {state : List UInt8} (hstate : state.length = 64) (suite : CipherSuite) (sample : Sample)

theorem length_buried : (buried state).length = 65536 + state.length := by
  rw [buried, length_append, length_replicate]
  rfl

theorem getD_buried (hi : i < 65536) : (buried state).getD i 0 = 0 := by
  have hzeros : i < (replicate SAR_SCAN_BRUTE_CAP (0 : UInt8)).length := by
    rwa [length_replicate]
  rw [buried, getD_append _ _ _ _ hzeros]
  exact getD_replicate 0 hi

theorem getD_drop_buried {off : Nat} (hi : off + i < 65536) :
    ((buried state).drop off).getD i 0 = 0 := by
  have h : (buried state).getD (off + i) 0 = 0 := getD_buried hi
  rwa [getD_eq_getElem?_getD, getElem?_drop, ← getD_eq_getElem?_getD]

include hstate

theorem aesScheduleScan_buried : aesScheduleScan suite sample (buried state) = none := by
  apply findSome?_eq_none_iff.mpr
  intro off hoff
  rw [mem_range, length_buried, hstate] at hoff
  apply findSome?_eq_none_iff.mpr
  rintro ⟨klen, slen, alg⟩ hmem
  have hklen : klen = 16 ∨ klen = 24 ∨ klen = 32 := by
    simp only [mem_cons, Prod.mk.injEq, not_mem_nil, or_false] at hmem
    exact hmem.imp And.left (Or.imp And.left And.left)
  apply if_neg
  rintro ⟨-, hvalid⟩
  rw [aesScheduleIsValid_zeros hklen fun i hi => getD_drop_buried (by omega)] at hvalid
  cases hvalid

theorem rc4StateScan_buried : rc4StateScan sample (buried state) = none := by
  apply findSome?_eq_none_iff.mpr
  intro off hoff
  have hoff : off + 256 ≤ 65536 := by
    rw [mem_range, length_buried, hstate] at hoff
    have hcap : SAR_SCAN_BRUTE_CAP = 65536 := rfl
    omega
  have hbox : bytesAt 256 (buried state) off = Vector.replicate 256 0 :=
    bytesAt_zeros fun i hi => getD_buried (by omega)
  rw [hbox, if_neg (by decide)]

theorem bruteScan_buried : bruteScan suite sample (buried state) = none := by
  apply findSome?_eq_none_iff.mpr
  intro i hi
  have hi : i * 16 + 16 ≤ 65536 := by
    rw [mem_range, length_buried, hstate] at hi
    have hcap : SAR_SCAN_BRUTE_CAP = 65536 := rfl
    omega
  have hviable := candidateViable_zeros (d := (buried state).drop (i * 16))
    fun j hj => getD_drop_buried (by omega)
  apply if_neg
  rw [hviable]
  decide

theorem scanBattery_buried (hlen : compareLength sample < 16) :
    scanBattery suite sample (buried state) = none := by
  rw [scanBattery, aesScheduleScan_buried hstate, streamSigmaScan_short hlen,
    rc4StateScan_buried hstate, bruteScan_buried hstate]
  rfl

end

def buriedParams : StreamParams .chacha20 := zeroNonceParams (replicate 32 0) 20 rfl (by decide)

def buriedState : List UInt8 :=
  SAR_STREAM_SIGMA ++ buriedParams.key ++ replicate 4 0 ++ buriedParams.nonce

/-- Sixty-four zeros written at an offset, with the state of the cipher behind the part of the
    snapshot that is searched by brute force. -/
def buriedInput (fileOffset : UInt64) : EngineInput where
  candidates := []
  scanBuffer := buried buriedState
  plaintext := some (replicate 64 0)
  ciphertext := some ((range 64).map fun m => buriedParams.keystream (fileOffset.toNat + m))
  sampleSize := 64
  fileOffset := fileOffset

theorem sigmaInput_buried : SigmaInput buriedParams (buriedInput fileOffset) where
  rounds := rfl
  state := by
    refine ⟨replicate SAR_SCAN_BRUTE_CAP 0, buriedState, [], ?_, .chacha20 _ rfl⟩
    rw [append_nil]
    rfl
  size := by
    show (64 : UInt32) ≤ 64
    decide
  encrypted := by
    refine ⟨_, _, rfl, rfl, ?_⟩
    intro m hm
    have hm : m < 64 := hm
    have hpt : (replicate 64 (0 : UInt8)).getD m 0 = 0 := getD_replicate 0 hm
    rw [hpt, UInt8.zero_xor]
    simp [buriedInput, hm]

theorem sarConvict_buried (suite : CipherSuite) {fileOffset : UInt64}
    (h : 48 < fileOffset.toNat % 64) : sarConvict suite (buriedInput fileOffset) = none := by
  have hcompare : compareLength (buriedInput fileOffset).sample < 16 := by
    show min (64 - fileOffset.toNat % 64) 64 < 16
    omega
  have hlong : (buried buriedState).length ≥ 16 := by
    rw [length_buried]
    omega
  have hsample : sarConvict suite (buriedInput fileOffset) =
      convictSample suite (buriedInput fileOffset).sample [] (buried buriedState) := rfl
  rw [hsample, convictSample_nil, if_pos hlong, scanBattery_buried rfl suite _ hcompare]

/-- **Stream-cipher conviction is complete at an offset exactly where sixteen bytes of its keystream
    block are left.**  There every state block of ChaCha20 or Salsa20 in the snapshot that the
    sample was encrypted with leads to a conviction; at every other offset one does not, whatever
    the block ciphers. -/
theorem sigma_scan_complete_iff (suite : CipherSuite) (fileOffset : UInt64) :
    (∀ (cipher : StreamCipher) (p : StreamParams cipher) (input : EngineInput),
        input.fileOffset = fileOffset → SigmaInput p input → (sarConvict suite input).isSome) ↔
      fileOffset.toNat % 64 ≤ 48 := by
  constructor
  · intro hcomplete
    by_contra hnot
    have hsome := hcomplete _ _ _ rfl sigmaInput_buried
    rw [sarConvict_buried suite (Nat.lt_of_not_le hnot)] at hsome
    cases hsome
  · rintro hoffset cipher p input rfl hinput
    exact sarConvict_sigma suite hinput hoffset

/-- A sample at offset 49, of which fifteen bytes lie in the first keystream block. -/
theorem buried_state_missed : ∃ input, input.fileOffset = 49 ∧ SigmaInput buriedParams input ∧
      ∀ suite, sarConvict suite input = none :=
  ⟨buriedInput 49, rfl, sigmaInput_buried, fun suite => sarConvict_buried suite (by decide)⟩

end SemanticsAr
