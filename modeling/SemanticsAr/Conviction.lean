import SemanticsAr.Battery

/-!
# Conviction is a forward proof

What a verdict says, read off its fields the way recovery reads them, is that the
reported key encrypts the plaintext of the sample into its ciphertext at some position.
Each search of the battery is taken apart by the rules of `Finds`; what remains is that
the key reported is the key that was tried.
-/

namespace SemanticsAr

open Nat
open List hiding Vector

variable {suite : CipherSuite} {klen n rounds nlen b persistLen maxBlock k nk : Nat}
  {alg counter w8 w9 : UInt32} {origin : UInt64} {v : Verdict} {f : List UInt8 → BlockCipher 16}
  {key nonce reportKey window master a genKey genNonce persistNonce buf rest rest' l src :
    List UInt8} {ks : Vector UInt8 64} {cands : List (Vector UInt8 SAR_CANDIDATE_SIZE)}
  {c : Vector UInt8 SAR_CANDIDATE_SIZE}

def RecoveryKey.ivOut (v : RecoveryKey) : IvOut := ⟨v.iv, v.ivLength, v.ctrLayoutTag⟩

/-- The reported algorithm, key, mode and parameters encrypt the plaintext into the ciphertext at
    some position of the sample: one or two blocks for the block modes, the compared keystream bytes
    for the stream ciphers. -/
inductive ForwardProof (suite : CipherSuite) (sample : Sample) (v : Verdict) : Prop where
  | block (c : AnyCipher)
      (hcipher : makeBlock suite v.algorithm v.key.toList v.keyLength.toNat = some c)
      (hmode : BlockForward c.2 sample.plaintext sample.ciphertext sample.size sample.fileOffset
        v.mode v.ivOut)
  | xts (c1 c2 : BlockCipher 16)
      (hmode : v.mode = SAR_MODE_XTS)
      (hcipher : makeXts suite v.algorithm v.key.toList v.keyLength.toNat =
        some (⟨16, c1⟩, ⟨16, c2⟩))
      (hunit : v.modeParams = 512 ∨ v.modeParams = 4096)
      (hroom : (xtsSkip sample.fileOffset).toNat + 16 ≤ sample.size)
      (hblock : xtsEncrypt c1
          (xtsTweak c2 ((sample.fileOffset + xtsSkip sample.fileOffset) / v.modeParams)
            (((sample.fileOffset + xtsSkip sample.fileOffset) % v.modeParams) / 16).toNat)
          (bytesAt 16 sample.plaintext (xtsSkip sample.fileOffset).toNat) =
        bytesAt 16 sample.ciphertext (xtsSkip sample.fileOffset).toNat)
  | stream
      (hmode : v.mode = SAR_MODE_STREAM)
      (halg : isChachaAlg v.algorithm = true ∨ isSalsaAlg v.algorithm = true)
      (hlen : 16 ≤ compareLength sample)
      (hbytes : ∀ m < compareLength sample,
        sample.plaintext.getD m 0 ^^^ streamByte v (sample.fileOffset + UInt64.ofNat m) =
          sample.ciphertext.getD m 0)
  | rc4
      (hmode : v.mode = SAR_MODE_STREAM)
      (halg : v.algorithm = SAR_ALG_RC4)
      (hkey : v.keyLength ≠ 0)
      (hbytes : ∀ m < sample.size, sample.plaintext.getD m 0 ^^^
            (rc4Ksa v.key.toList v.keyLength.toNat).keystream (sample.fileOffset.toNat + m) =
          sample.ciphertext.getD m 0)

inductive Found (suite : CipherSuite) (sample : Sample) (v : Verdict) : Prop where
  | block (c : AnyCipher)
      (hcipher : makeBlock suite v.algorithm v.key.toList v.keyLength.toNat = some c)
      (hmode : engineTryBlockModes c.2 sample.plaintext sample.ciphertext sample.size
        sample.fileOffset = some (v.mode, v.ivOut))
  | xts (c1 c2 : BlockCipher 16)
      (hmode : v.mode = SAR_MODE_XTS)
      (hcipher : makeXts suite v.algorithm v.key.toList v.keyLength.toNat =
        some (⟨16, c1⟩, ⟨16, c2⟩))
      (hunit : engineVerifyXts c1 c2 sample.plaintext sample.ciphertext sample.size
        sample.fileOffset = some v.modeParams)
  | stream
      (hmode : v.mode = SAR_MODE_STREAM)
      (halg : isChachaAlg v.algorithm = true ∨ isSalsaAlg v.algorithm = true)
      (hiv : v.ivLength ≠ 0)
      (hlen : 16 ≤ compareLength sample)
      (hbytes : ∀ m < compareLength sample,
        sample.plaintext.getD m 0 ^^^ streamByte v (sample.fileOffset + UInt64.ofNat m) =
          sample.ciphertext.getD m 0)
  | rc4
      (hmode : v.mode = SAR_MODE_STREAM)
      (halg : v.algorithm = SAR_ALG_RC4)
      (hkey : v.keyLength ≠ 0)
      (hbytes : ∀ m < sample.size, sample.plaintext.getD m 0 ^^^
            (rc4Ksa v.key.toList v.keyLength.toNat).keystream (sample.fileOffset.toNat + m) =
          sample.ciphertext.getD m 0)

theorem Found.forward (hsuite : suite.Lawful) {sample : Sample} (h : Found suite sample v) :
    ForwardProof suite sample v := by
  cases h with
  | block c hcipher hmode =>
    have hsize : c.1 ≤ SEMANTICS_AR_IV_MAX := by
      rcases makeBlock_size hcipher with ⟨-, h⟩ | ⟨-, h⟩ <;> rw [h] <;> decide
    exact .block c hcipher
      (engineTryBlockModes_forward (makeBlock_lawful hsuite hcipher) hsize _ hmode)
  | xts c1 c2 hmode hcipher hunit =>
    obtain ⟨hdu, hroom, hblock⟩ := engineVerifyXts_forward _ hunit
    exact .xts c1 c2 hmode hcipher hdu hroom hblock
  | stream hmode halg hiv hlen hbytes => exact .stream hmode halg hlen hbytes
  | rc4 hmode halg hkey hbytes => exact .rc4 hmode halg hkey hbytes

/-! ### Buffers that hold nothing beyond their lengths -/

structure IvOut.Packed (iv : IvOut) : Prop where
  length_le : iv.length.toNat ≤ SEMANTICS_AR_IV_MAX
  bytes_eq : bytesAt _ (iv.bytes.toList.take iv.length.toNat) 0 = iv.bytes

structure RecoveryKey.Packed (v : RecoveryKey) : Prop where
  key_eq : bytesAt _ (v.key.toList.take v.keyLength.toNat) 0 = v.key
  iv : v.ivOut.Packed

structure Reported (suite : CipherSuite) (sample : Sample) (v : Verdict) : Prop where
  packed : v.Packed
  found : Found suite sample v

theorem getD_take (i : Nat) : (l.take k).getD i 0 = if i < k then l.getD i 0 else 0 := by
  rw [getD_eq_getElem?_getD, getD_eq_getElem?_getD, getElem?_take]
  split <;> rfl

theorem bytesAt_take_bytesAt (n : Nat) (l : List UInt8) (k : Nat) :
    bytesAt n ((bytesAt n (l.take k) 0).toList.take k) 0 = bytesAt n (l.take k) 0 := by
  apply ext_get
  intro i
  simp only [get_bytesAt, zero_add]
  rw [getD_take, getD_toList, get_bytesAt, zero_add, getD_take]
  split <;> rfl

section

variable (hn : n ≤ SEMANTICS_AR_IV_MAX)

include hn

theorem ivOfBlock_length (block : Vector UInt8 n) (tag : UInt8) :
    (ivOfBlock block tag).length.toNat = n :=
  UInt8.toNat_ofNat_of_lt' (hn.trans_lt (by decide))

theorem ivOfBlock_packed (block : Vector UInt8 n) (tag : UInt8) : (ivOfBlock block tag).Packed := by
  have hlen := ivOfBlock_length hn block tag
  refine ⟨hlen.trans_le hn, ?_⟩
  have h := bytesAt_take_bytesAt SEMANTICS_AR_IV_MAX block.toList n
  rw [take_of_length_le (Vector.length_toList.le)] at h
  rwa [hlen]

omit hn in
theorem ivClear_packed : ivClear.Packed := ⟨by decide, by decide⟩

theorem engineTryBlockModes_packed (c : BlockCipher n) (pt ct : List UInt8) (len : Nat)
    (fileOffset : UInt64) :
    Finds (fun m => m.2.Packed) (engineTryBlockModes c pt ct len fileOffset) := by
  apply Finds.orElse
  · exact Finds.guard fun _ => Finds.some ivClear_packed
  apply Finds.guard
  intro _
  have hoffset (block : Vector UInt8 n) :
      (if fileOffset = 0 then ivOfBlock block 0 else ivClear).Packed := by
    split
    · exact ivOfBlock_packed hn block 0
    · exact ivClear_packed
  apply Finds.orElse
  · refine Finds.map (Q := IvOut.Packed) ?_ fun _ h => h
    exact Finds.findSome fun s _ => Finds.guard fun _ => Finds.some (hoffset _)
  apply Finds.orElse
  · refine Finds.map (Q := IvOut.Packed) ?_ fun _ h => h
    exact Finds.findSome fun s _ => Finds.guard fun _ => Finds.some (hoffset _)
  apply Finds.orElse
  · refine Finds.map (Q := IvOut.Packed) ?_ fun _ h => h
    exact Finds.findSome fun s _ => Finds.guard fun _ => Finds.some (ivOfBlock_packed hn _ _)
  · refine Finds.map (Q := IvOut.Packed) ?_ fun _ h => h
    apply Finds.select
    intro s _ _
    apply Finds.findSome
    rintro ⟨L, t⟩ _
    exact Finds.guard fun _ => Finds.some (ivOfBlock_packed hn _ _)

end

/-! ### The key that is reported -/

section

variable {mode : UInt32} {mp : UInt64}

theorem fill_key (hlen : klen ≤ key.length) (hmax : klen ≤ SAR_ENGINE_KEY_MAX) :
    (fill key klen alg mode mp).key.toList =
      key.take klen ++ replicate (SAR_ENGINE_KEY_MAX - klen) 0 := by
  have htake : (key.take klen).length = klen := length_take_of_le hlen
  have h := toList_bytesAt_zero (l := key.take klen) (n := SAR_ENGINE_KEY_MAX) (by rwa [htake])
  rwa [htake] at h

theorem fill_keyLength (hmax : klen ≤ SAR_ENGINE_KEY_MAX) :
    (fill key klen alg mode mp).keyLength.toNat = klen :=
  UInt32.toNat_ofNat_of_lt' (hmax.trans_lt (by decide))

theorem take_fill_key (hlen : klen ≤ key.length) (hmax : klen ≤ SAR_ENGINE_KEY_MAX) :
    (fill key klen alg mode mp).key.toList.take klen = key.take klen := by
  have htake : (key.take klen).length = klen := length_take_of_le hlen
  rw [fill_key hlen hmax, take_left' htake]

end

theorem fill_key_packed (key : List UInt8) (alg mode : UInt32) (mp : UInt64)
    (hmax : klen ≤ SAR_ENGINE_KEY_MAX) :
    bytesAt _ ((fill key klen alg mode mp).key.toList.take
      (fill key klen alg mode mp).keyLength.toNat) 0 = (fill key klen alg mode mp).key := by
  rw [fill_keyLength hmax]
  exact bytesAt_take_bytesAt _ key klen

section

variable {sample : Sample}

/-- A block search that succeeds, for a cipher that the algorithm names and that is set
    up from the first `klen` bytes of the key. -/
theorem blockTry_reported {f : List UInt8 → BlockCipher n} (hn : n ≤ SEMANTICS_AR_IV_MAX)
    (hmake : ∀ key, makeBlock suite alg key klen = some ⟨n, f (key.take klen)⟩)
    (hmax : klen ≤ SAR_ENGINE_KEY_MAX) (hlen : klen ≤ key.length) :
    Finds (Reported suite sample) (blockTry sample (f (key.take klen)) key klen alg) := by
  intro v hv
  obtain ⟨m, hm, rfl⟩ := Option.map_eq_some_iff.mp hv
  have hiv := engineTryBlockModes_packed hn _ _ _ _ _ m hm
  refine ⟨⟨fill_key_packed key alg m.1 0 hmax, hiv⟩, .block ⟨n, f (key.take klen)⟩ ?_ hm⟩
  show makeBlock suite alg (fill key klen alg m.1 0).key.toList
    (fill key klen alg m.1 0).keyLength.toNat = _
  rw [fill_keyLength hmax, hmake, take_fill_key hlen hmax]

theorem blockTry_whole_reported {f : List UInt8 → BlockCipher n} (hn : n ≤ SEMANTICS_AR_IV_MAX)
    (hmake : ∀ key, makeBlock suite alg key klen = some ⟨n, f (key.take klen)⟩)
    (hmax : klen ≤ SAR_ENGINE_KEY_MAX) (hlen : key.length = klen) :
    Finds (Reported suite sample) (blockTry sample (f key) key klen alg) := by
  have h : Finds (Reported suite sample) (blockTry sample (f (key.take klen)) key klen alg) :=
    blockTry_reported hn hmake hmax hlen.ge
  rwa [take_of_length_le hlen.le] at h

theorem xtsTry_reported {half : Nat}
    (hmake : ∀ key, makeBlock suite alg key half = some ⟨16, f (key.take half)⟩) (hpos : 0 < half)
    (hmax : 2 * half ≤ SAR_ENGINE_KEY_MAX) (hlen : 2 * half ≤ key.length) :
    Finds (Reported suite sample)
      (xtsTry sample (f (key.take half)) (f ((key.drop half).take half)) key (2 * half) alg) := by
  intro v hv
  obtain ⟨du, hdu, rfl⟩ := Option.map_eq_some_iff.mp hv
  refine ⟨⟨fill_key_packed key alg SAR_MODE_XTS du hmax, ivClear_packed⟩,
    .xts (f (key.take half)) (f ((key.drop half).take half)) rfl ?_ hdu⟩
  show makeXts suite alg (fill key (2 * half) alg SAR_MODE_XTS du).key.toList
    (fill key (2 * half) alg SAR_MODE_XTS du).keyLength.toNat = _
  have hhalf : 2 * half / 2 = half := by omega
  have hfirst : ((key.take (2 * half)) ++
      replicate (SAR_ENGINE_KEY_MAX - 2 * half) 0).take half = key.take half := by
    rw [take_append_of_le_length (by rw [length_take]; omega), take_take,
      min_eq_left (by omega)]
  have hsecond : (((key.take (2 * half)) ++
      replicate (SAR_ENGINE_KEY_MAX - 2 * half) 0).drop half).take half =
        (key.drop half).take half := by
    rw [drop_append_of_le_length (by rw [length_take]; omega),
      take_append_of_le_length (by rw [length_drop, length_take]; omega),
      drop_take, take_take]
    congr 1
    omega
  unfold makeXts
  rw [fill_keyLength hmax, hhalf, if_neg (ne_of_gt hpos), fill_key hlen hmax, hmake, hmake,
    hfirst, hsecond]

/-! ### Block ciphers -/

theorem length_previousWords (cur : List AesWord) : (previousWords nk b cur).length = nk := by
  simp [previousWords]

theorem length_unwindWords {nk : Nat} {cur : List AesWord} (h : cur.length = nk) :
    (unwindWords nk b cur).length = nk := by
  induction b generalizing cur with
  | zero => exact h
  | succ b ih => exact ih (length_previousWords cur)

theorem length_words (words : List AesWord) :
    (words.flatMap Vector.toList).length = 4 * words.length := by
  induction words with
  | nil => rfl
  | cons word words ih =>
    rw [flatMap_cons, length_append, ih, Vector.length_toList, length_cons]
    omega

theorem length_aesMasterFromWindow (hklen : klen % 4 = 0)
    (h : aesMasterFromWindow klen window b = some master) :
    master.length = klen := by
  unfold aesMasterFromWindow at h
  dsimp only at h
  split at h
  · cases h
  split at h
  · cases h
  cases h
  have hcur : ((range (klen / 4)).map (wordAt window)).length = klen / 4 := by simp
  rw [length_words, length_unwindWords hcur]
  omega

theorem length_aesWordByteswap (hklen : klen % 4 = 0) :
    (aesWordByteswap src klen).length = klen := by
  simp [aesWordByteswap]
  omega

section

variable (hmake : ∀ key, makeBlock suite alg key klen = some ⟨16, suite.aes (key.take klen)⟩)
  (hmax : klen ≤ SAR_ENGINE_KEY_MAX)

include hmake hmax

theorem aesTryMaster_reported (hlen : klen ≤ master.length) :
    Finds (Reported suite sample) (aesTryMaster suite sample master klen alg) :=
  blockTry_reported (by decide) hmake hmax hlen

theorem aesWindowBattery_reported (hklen : klen % 4 = 0) (hlen : klen ≤ window.length) :
    Finds (Reported suite sample)
      (aesWindowBattery suite sample window klen alg maxBlock) := by
  apply Finds.findSome
  intro variant hvariant
  have hvariant : klen ≤ variant.length := by
    rcases mem_pair.mp hvariant with rfl | rfl
    · rw [length_take_of_le hlen]
    · rw [length_aesWordByteswap hklen]
  apply Finds.orElse
  · exact aesTryMaster_reported hmake hmax hvariant
  · apply Finds.findSome
    intro b _
    refine Finds.bind (Q := fun master : List UInt8 => master.length = klen) ?_ ?_
    · intro master hmaster
      exact length_aesMasterFromWindow hklen hmaster
    · intro master hmaster
      exact aesTryMaster_reported hmake hmax hmaster.ge

end

theorem tryBlockSingle_reported (hlen : 16 ≤ key.length) :
    Finds (Reported suite sample) (tryBlockSingle suite sample key) := by
  apply Finds.orElse
  · exact aesWindowBattery_reported (fun _ => rfl) (by decide) rfl hlen
  refine .orElse ?_ (.orElse ?_ (.orElse ?_ ?_)) <;>
    exact blockTry_reported (by decide) (fun _ => rfl) (by decide) hlen

theorem xtsTry_pair_reported
    (hmake : ∀ key, makeBlock suite alg key 16 = some ⟨16, f (key.take 16)⟩) {b : List UInt8}
    (ha : 16 ≤ a.length) (hb : 16 ≤ b.length) :
    Finds (Reported suite sample)
      (xtsTry sample (f (a.take 16)) (f (b.take 16)) (a.take 16 ++ b.take 16) 32 alg) := by
  have hla : (a.take 16).length = 16 := length_take_of_le ha
  have hlb : (b.take 16).length = 16 := length_take_of_le hb
  have h32 : 2 * 16 ≤ (a.take 16 ++ b.take 16).length := by rw [length_append, hla, hlb]
  have h : Finds (Reported suite sample) (xtsTry sample _ _ _ (2 * 16) alg) :=
    xtsTry_reported hmake (by decide) (by decide) h32
  rwa [take_left' hla, drop_left' hla, take_take] at h

theorem tryBlockPair_reported {b : List UInt8} (ha : 16 ≤ a.length) (hb : 16 ≤ b.length) :
    Finds (Reported suite sample) (tryBlockPair suite sample a b) := by
  have hla : (a.take 16).length = 16 := length_take_of_le ha
  have hlb : (b.take 16).length = 16 := length_take_of_le hb
  have h32 : (a.take 16 ++ b.take 16).length = 32 := by rw [length_append, hla, hlb]
  have h24a : (a.take 16 ++ b.take 8).length = 24 := by
    rw [length_append, hla, length_take_of_le (by omega)]
  have h24b : ((a.drop 8).take 8 ++ b.take 16).length = 24 := by
    rw [length_append, hlb, length_take_of_le (by rw [length_drop]; omega)]
  apply Finds.orElse
  · exact aesWindowBattery_reported (fun _ => rfl) (by decide) rfl h32.ge
  apply Finds.orElse
  · exact aesWindowBattery_reported (fun _ => rfl) (by decide) rfl h24a.ge
  apply Finds.orElse
  · exact aesWindowBattery_reported (fun _ => rfl) (by decide) rfl h24b.ge
  apply Finds.orElse
  · exact blockTry_whole_reported (by decide) (fun _ => rfl) (by decide) h24a
  apply Finds.orElse
  · exact blockTry_whole_reported (by decide) (fun _ => rfl) (by decide) h24b
  apply Finds.orElse
  · exact blockTry_whole_reported (by decide) (fun _ => rfl) (by decide) h32
  apply Finds.orElse
  · exact blockTry_whole_reported (by decide) (fun _ => rfl) (by decide) h32
  refine .orElse ?_ (.orElse ?_ (.orElse ?_ (.orElse ?_ ?_))) <;>
    exact xtsTry_pair_reported (fun _ => rfl) ha hb

theorem aes256XtsWindow_reported {win64 : List UInt8} (hlen : 64 ≤ win64.length) :
    Finds (Reported suite sample) (aes256XtsWindow suite sample win64) :=
  xtsTry_reported (f := suite.aes) (fun _ => rfl) (by decide) (by decide) hlen

/-! ### RC4 -/

theorem rc4Ksa_congr {key' : List UInt8} (hn : 0 < n) (h : key.take n = key'.take n) :
    rc4Ksa key n = rc4Ksa key' n := by
  have hbyte (i : Nat) : key.getD (i % n) 0 = key'.getD (i % n) 0 := by
    have hi : i % n < n := mod_lt i hn
    rw [getD_eq_getElem?_getD, getD_eq_getElem?_getD, ← getElem?_take_of_lt hi, h,
      getElem?_take_of_lt hi]
  simp only [rc4Ksa, hbyte]

theorem tryRc4Shortkey_reported (hlen : 16 ≤ key.length) :
    Finds (Reported suite sample) (tryRc4Shortkey sample key) := by
  apply Finds.select
  intro klen hklen hverify
  apply Finds.some
  have hrange : 0 < klen ∧ klen ≤ 16 := by
    simp only [mem_cons, not_mem_nil, or_false] at hklen
    omega
  have hmax : klen ≤ SAR_ENGINE_KEY_MAX := hrange.2.trans (by decide)
  have hshort : klen ≤ key.length := hrange.2.trans hlen
  refine ⟨⟨fill_key_packed key SAR_ALG_RC4 SAR_MODE_STREAM 0 hmax, ivClear_packed⟩,
    .rc4 rfl rfl ?_ ?_⟩
  · intro hzero
    have h := congrArg UInt32.toNat hzero
    rw [fill_keyLength hmax] at h
    exact absurd h (ne_of_gt hrange.1)
  · intro m hm
    have hbytes := rc4Compare_true hverify m hm
    rw [keystream_iterate, zero_add] at hbytes
    rw [fill_keyLength hmax, rc4Ksa_congr hrange.1 (take_fill_key hshort hmax)]
    exact hbytes

/-! ### ChaCha and Salsa -/

theorem sarLe32_append {l : List UInt8} {pos : Nat} (h : pos + 4 ≤ l.length) :
    sarLe32 (l ++ rest) pos = sarLe32 l pos := by
  have hbytes : bytesAt 4 (l ++ rest) pos = bytesAt 4 l pos := by
    apply ext_get
    intro i
    simp only [get_bytesAt, getD_eq_getElem?_getD]
    rw [getElem?_append_left (by omega)]
  simp only [sarLe32, hbytes]

section

variable (hkey : 32 ≤ key.length)

include hkey

theorem chachaState_append (w12 w13 w14 w15 : UInt32) :
    chachaState (key ++ rest) w12 w13 w14 w15 = chachaState key w12 w13 w14 w15 := by
  simp (disch := omega) only [chachaState, sarLe32_append]

theorem chachaBlock_append (hnonce : 12 ≤ nonce.length) :
    chachaBlock (key ++ rest) (nonce ++ rest') counter rounds =
      chachaBlock key nonce counter rounds := by
  simp (disch := omega) only [chachaBlock, chachaState_append, sarLe32_append]

theorem hchacha20_append (hnonce : 16 ≤ nonce.length) :
    hchacha20 (key ++ rest) (nonce ++ rest') = hchacha20 key nonce := by
  simp (disch := omega) only [hchacha20, chachaState_append, sarLe32_append]

theorem salsaState_append (hnonce : 8 ≤ nonce.length) :
    salsaState (key ++ rest) (nonce ++ rest') w8 w9 = salsaState key nonce w8 w9 := by
  simp (disch := omega) only [salsaState, sarLe32_append]

theorem salsaBlock_append (hnonce : 8 ≤ nonce.length) (counter : UInt64) :
    salsaBlock (key ++ rest) (nonce ++ rest') counter rounds =
      salsaBlock key nonce counter rounds := by
  simp (disch := omega) only [salsaBlock, salsaState_append]

theorem hsalsa20_append (hnonce : 16 ≤ nonce.length) :
    hsalsa20 (key ++ rest) (nonce ++ rest') = hsalsa20 key nonce := by
  simp (disch := omega) only [hsalsa20, salsaState_append, sarLe32_append]

end

theorem stream_params (hrounds : rounds ∈ STREAM_ROUNDS)
    (horigin : origin ∈ ([0, 1] : List UInt64)) :
    ((((UInt64.ofNat rounds <<< 8) ||| origin) >>> 8) &&& 0xff).toNat = rounds ∧
      ((UInt64.ofNat rounds <<< 8) ||| origin) &&& 0xff = origin := by
  simp only [STREAM_ROUNDS, mem_cons, not_mem_nil, or_false] at hrounds horigin
  rcases hrounds with rfl | rfl | rfl <;> rcases horigin with rfl | rfl <;> decide

section

theorem fillStream_key (hkey : reportKey.length = 32) :
    (fillStream reportKey alg nonce nlen rounds origin).key.toList =
      reportKey ++ replicate (SAR_ENGINE_KEY_MAX - 32) 0 := by
  have h : (fillStream reportKey alg nonce nlen rounds origin).key =
      (fill reportKey 32 alg SAR_MODE_STREAM ((UInt64.ofNat rounds <<< 8) ||| origin)).key := rfl
  rw [h, fill_key hkey.ge (by decide), take_of_length_le hkey.le]

theorem fillStream_iv (hnonce : nonce.length = nlen) (hmax : nlen ≤ SEMANTICS_AR_IV_MAX) :
    (fillStream reportKey alg nonce nlen rounds origin).iv.toList =
      nonce ++ replicate (SEMANTICS_AR_IV_MAX - nlen) 0 := by
  have h : (fillStream reportKey alg nonce nlen rounds origin).iv =
      bytesAt SEMANTICS_AR_IV_MAX (nonce.take nlen) 0 := rfl
  rw [h, take_of_length_le hnonce.le, toList_bytesAt_zero (by rw [hnonce]; exact hmax),
    hnonce]

/-- The verdicts of the stream search generate `block`, counted from their origin. -/
def Generates (reportKey : List UInt8) (alg : UInt32) (nonce : List UInt8) (nlen : Nat)
    (block : UInt64 → Nat → Vector UInt8 64) : Prop :=
  ∀ origin ∈ ([0, 1] : List UInt64), ∀ rounds ∈ STREAM_ROUNDS, ∀ blk : UInt64,
    streamBlock (fillStream reportKey alg nonce nlen rounds origin) blk =
      block (blk + origin) rounds

variable (hkey : reportKey.length = 32)

include hkey

/-- What `stream_block` reads back from the verdict. -/
theorem streamBlock_fillStream (hnonce : nonce.length = nlen) (hmax : nlen ≤ SEMANTICS_AR_IV_MAX)
    (alg : UInt32) (horigin : origin ∈ ([0, 1] : List UInt64)) (hrounds : rounds ∈ STREAM_ROUNDS)
    (blk : UInt64) :
    streamBlock (fillStream reportKey alg nonce nlen rounds origin) blk =
      let key := reportKey ++ replicate (SAR_ENGINE_KEY_MAX - 32) 0
      let iv := nonce ++ replicate (SEMANTICS_AR_IV_MAX - nlen) 0
      let counter := blk + origin
      if isChachaAlg alg then
        if alg = SAR_ALG_XCHACHA20 then
          chachaBlock (hchacha20 key iv) (replicate 4 0 ++ (iv.drop 16).take 8)
            counter.toUInt32 rounds
        else chachaBlock key iv counter.toUInt32 rounds
      else if alg = SAR_ALG_XSALSA20 then
        salsaBlock (hsalsa20 key iv) ((iv.drop 16).take 8) counter rounds
      else salsaBlock key iv counter rounds := by
  obtain ⟨hr, ho⟩ := stream_params hrounds horigin
  have hparams : (fillStream reportKey alg nonce nlen rounds origin).modeParams =
      (UInt64.ofNat rounds <<< 8) ||| origin := rfl
  have halg : (fillStream reportKey alg nonce nlen rounds origin).algorithm = alg := rfl
  unfold streamBlock
  rw [hparams, hr, ho, halg, fillStream_key hkey, fillStream_iv hnonce hmax]

theorem streamBlock_chacha (hnonce : nonce.length = 12) :
    Generates reportKey SAR_ALG_CHACHA20 nonce 12 fun counter =>
      chachaBlock reportKey nonce counter.toUInt32 := by
  intro origin horigin rounds hrounds blk
  rw [streamBlock_fillStream hkey hnonce (by decide) _ horigin hrounds]
  exact chachaBlock_append hkey.ge hnonce.ge ..

theorem streamBlock_xchacha (hnonce : nonce.length = 24) :
    Generates reportKey SAR_ALG_XCHACHA20 nonce 24 fun counter =>
      chachaBlock (hchacha20 reportKey nonce) (replicate 4 0 ++ (nonce.drop 16).take 8)
        counter.toUInt32 := by
  intro origin horigin rounds hrounds blk
  rw [streamBlock_fillStream hkey hnonce (by decide) _ horigin hrounds, Nat.sub_self,
    replicate_zero, ← hchacha20_append hkey.ge (by omega), append_nil]
  rfl

theorem streamBlock_salsa (hnonce : nonce.length = 8) :
    Generates reportKey SAR_ALG_SALSA20 nonce 8 (salsaBlock reportKey nonce) := by
  intro origin horigin rounds hrounds blk
  rw [streamBlock_fillStream hkey hnonce (by decide) _ horigin hrounds]
  exact salsaBlock_append hkey.ge hnonce.ge ..

theorem streamBlock_xsalsa (hnonce : nonce.length = 24) :
    Generates reportKey SAR_ALG_XSALSA20 nonce 24
      (salsaBlock (hsalsa20 reportKey nonce) ((nonce.drop 16).take 8)) := by
  intro origin horigin rounds hrounds blk
  rw [streamBlock_fillStream hkey hnonce (by decide) _ horigin hrounds, Nat.sub_self,
    replicate_zero, ← hsalsa20_append hkey.ge (by omega), append_nil]
  rfl

end

theorem streamByte_add {fo : UInt64} {m : Nat} (h : (fo % 64).toNat + m < 64) :
    streamByte v (fo + UInt64.ofNat m) =
      (streamBlock v (fo / 64)).toList.getD ((fo % 64).toNat + m) 0 := by
  have hlt := fo.toNat_lt
  have hmod : (fo % 64).toNat = fo.toNat % 64 := UInt64.toNat_mod fo 64
  have hm : (UInt64.ofNat m).toNat = m := UInt64.toNat_ofNat_of_lt' (show m < 2 ^ 64 by omega)
  have hsum : (fo + UInt64.ofNat m).toNat = fo.toNat + m := by
    rw [UInt64.toNat_add, hm, mod_eq_of_lt (by omega)]
  have hblock : (fo + UInt64.ofNat m) / 64 = fo / 64 := by
    apply UInt64.toNat_inj.mp
    rw [UInt64.toNat_div, UInt64.toNat_div, hsum]
    show (fo.toNat + m) / 64 = fo.toNat / 64
    omega
  have hwithin : ((fo + UInt64.ofNat m) % 64).toNat = (fo % 64).toNat + m := by
    rw [UInt64.toNat_mod, hsum, hmod]
    show (fo.toNat + m) % 64 = fo.toNat % 64 + m
    omega
  rw [streamByte, hblock, hwithin]

theorem stream_found (hmode : v.mode = SAR_MODE_STREAM)
    (halg : isChachaAlg v.algorithm = true ∨ isSalsaAlg v.algorithm = true) (hiv : v.ivLength ≠ 0)
    (hlen : 16 ≤ compareLength sample) (hmatch : keystreamMatches sample ks = true)
    (hblock : streamBlock v (sample.fileOffset / 64) = ks) : Found suite sample v := by
  refine .stream hmode halg hiv hlen ?_
  intro m hm
  have hbyte := all_eq_true.mp hmatch m (mem_range.mpr hm)
  have hin : (sample.fileOffset % 64).toNat + m < 64 := by
    unfold compareLength at hm
    omega
  rw [streamByte_add hin, hblock]
  exact beq_iff_eq.mp hbyte

theorem nonce_length (hnlen : nlen ∈ [8, 12, 24]) :
    (UInt8.ofNat nlen).toNat = nlen ∧ nlen ≤ SEMANTICS_AR_IV_MAX ∧ UInt8.ofNat nlen ≠ 0 := by
  simp only [mem_cons, not_mem_nil, or_false] at hnlen
  rcases hnlen with rfl | rfl | rfl <;> decide

theorem fillStream_packed
    (hnlen : nlen ∈ [8, 12, 24]) :
    (fillStream reportKey alg nonce nlen rounds origin).Packed := by
  obtain ⟨hlen, hmax, -⟩ := nonce_length hnlen
  constructor
  · have hpacked := fill_key_packed reportKey alg SAR_MODE_STREAM
      ((UInt64.ofNat rounds <<< 8) ||| origin) (show 32 ≤ SAR_ENGINE_KEY_MAX by decide)
    exact hpacked
  · have hiv : (fillStream reportKey alg nonce nlen rounds origin).ivOut =
        ⟨bytesAt _ (nonce.take nlen) 0, UInt8.ofNat nlen, 0⟩ := rfl
    rw [hiv]
    refine ⟨hlen.trans_le hmax, ?_⟩
    rw [hlen, bytesAt_take_bytesAt]

theorem fillStream_reported (halg : isChachaAlg alg = true ∨ isSalsaAlg alg = true)
    (hnlen : nlen ∈ [8, 12, 24]) (hlen : 16 ≤ compareLength sample)
    (hmatch : keystreamMatches sample ks = true)
    (hblock : streamBlock (fillStream reportKey alg nonce nlen rounds origin) (sample.fileOffset /
      64) = ks) :
    Reported suite sample (fillStream reportKey alg nonce nlen rounds origin) :=
  ⟨fillStream_packed hnlen, stream_found rfl halg (nonce_length hnlen).2.2 hlen hmatch hblock⟩

theorem tryChacha_reported (halg : isChachaAlg alg = true) (hnlen : persistLen ∈ [8, 12, 24])
    (hblock : Generates reportKey alg persistNonce persistLen fun counter =>
      chachaBlock genKey genNonce counter.toUInt32) :
    Finds (Reported suite sample)
      (tryChacha sample genKey reportKey genNonce persistNonce persistLen alg) := by
  apply Finds.findSome
  intro origin horigin
  apply Finds.select
  rintro rounds hrounds ⟨hlen, hmatch⟩
  apply Finds.some
  refine fillStream_reported (.inl halg) hnlen hlen hmatch ?_
  rw [hblock origin horigin rounds hrounds, ← UInt64.toUInt32_add]

theorem trySalsa_reported (halg : isSalsaAlg alg = true) (hnlen : persistLen ∈ [8, 12, 24])
    (hblock : Generates reportKey alg persistNonce persistLen (salsaBlock genKey genNonce)) :
    Finds (Reported suite sample)
      (trySalsa sample genKey reportKey genNonce persistNonce persistLen alg) := by
  apply Finds.findSome
  intro origin horigin
  apply Finds.select
  rintro rounds hrounds ⟨hlen, hmatch⟩
  apply Finds.some
  exact fillStream_reported (.inr halg) hnlen hlen hmatch (hblock origin horigin rounds hrounds _)

theorem length_candidate : c.toList.length = 16 :=
  Vector.length_toList

theorem tryStreamNonce_reported
    {key32 : List UInt8} (hkey : key32.length = 32) :
    Finds (Reported suite sample) (tryStreamNonce sample cands key32 k) := by
  have hcand (i n : Nat) (hn : n ≤ 16) :
      ((cands.getD i (Vector.replicate _ 0)).toList.take n).length = n :=
    length_take_of_le (hn.trans length_candidate.ge)
  apply Finds.orElse
  · exact tryChacha_reported rfl (by decide) (streamBlock_chacha hkey (hcand k 12 (by decide)))
  apply Finds.orElse
  · exact trySalsa_reported rfl (by decide) (streamBlock_salsa hkey (hcand k 8 (by decide)))
  apply Finds.guard
  intro _
  have hnonce : ((cands.getD k (Vector.replicate _ 0)).toList ++
      (cands.getD (k + 1) (Vector.replicate _ 0)).toList.take 8).length = 24 := by
    rw [length_append, length_candidate, hcand (k + 1) 8 (by decide)]
  apply Finds.orElse
  · exact tryChacha_reported rfl (by decide) (streamBlock_xchacha hkey hnonce)
  · exact trySalsa_reported rfl (by decide) (streamBlock_xsalsa hkey hnonce)

theorem tryStream_reported : Finds (Reported suite sample) (tryStream sample cands) := by
  apply Finds.select
  intro i _ _
  apply Finds.findSome
  intro k _
  apply Finds.ite
  · intro _
    exact Finds.none
  · intro _
    apply tryStreamNonce_reported
    rw [length_append, length_candidate, length_candidate]

/-! ### The snapshot -/

theorem aesScheduleScan_reported :
    Finds (Reported suite sample) (aesScheduleScan suite sample buf) := by
  apply Finds.findSome
  intro off _
  apply Finds.findSome
  rintro ⟨klen, slen, alg⟩ hmem
  apply Finds.guard
  rintro ⟨hroom, -⟩
  have hlen : klen ≤ (buf.drop off).length := by
    simp only [mem_cons, Prod.mk.injEq, not_mem_nil, or_false] at hmem
    rw [length_drop]
    omega
  simp only [mem_cons, Prod.mk.injEq, not_mem_nil, or_false] at hmem
  rcases hmem with ⟨rfl, rfl, rfl⟩ | ⟨rfl, rfl, rfl⟩ | ⟨rfl, rfl, rfl⟩ <;>
    exact aesTryMaster_reported (fun _ => rfl) (by decide) hlen

theorem streamSigmaScan_reported : Finds (Reported suite sample) (streamSigmaScan sample buf) := by
  apply Finds.findSome
  intro off hoff
  have hroom : off + 64 ≤ buf.length := by
    have := mem_range.mp hoff
    omega
  have hslice (pos n : Nat) (h : pos + n ≤ buf.length) : ((buf.drop pos).take n).length = n :=
    length_take_of_le (by rw [length_drop]; omega)
  apply Finds.ite
  · intro _
    exact Finds.none
  intro _
  apply Finds.orElse
  · apply Finds.guard
    intro _
    exact tryChacha_reported rfl (by decide)
      (streamBlock_chacha (hslice _ 32 (by omega)) (hslice _ 12 (by omega)))
  · apply Finds.guard
    intro _
    refine trySalsa_reported rfl (by decide) (streamBlock_salsa ?_ (hslice _ 8 (by omega)))
    rw [length_append, hslice _ 16 (by omega), hslice _ 16 (by omega)]

theorem bruteScan_reported : Finds (Reported suite sample) (bruteScan suite sample buf) := by
  apply Finds.findSome
  intro i hi
  have hi : i * 16 + 16 ≤ buf.length := by
    have := mem_range.mp hi
    omega
  have hdrop (pos n : Nat) (h : pos + n ≤ buf.length) : n ≤ (buf.drop pos).length := by
    rw [length_drop]
    omega
  apply Finds.guard
  intro _
  apply Finds.orElse
  · exact tryBlockSingle_reported (hdrop _ 16 hi)
  apply Finds.orElse
  · apply Finds.guard
    rintro ⟨hpair, -⟩
    exact tryBlockPair_reported (hdrop _ 16 hi) (hdrop _ 16 (by omega))
  apply Finds.orElse
  · apply Finds.guard
    intro hwindow
    exact aes256XtsWindow_reported (hdrop _ 64 (by omega))
  · exact tryRc4Shortkey_reported (hdrop _ 16 hi)

/-- A generator state of RC4 in the snapshot from which the keystream of the sample
    comes.  The verdict that reports it has no key. -/
def StateProof (sample : Sample) (buf : List UInt8) (v : Verdict) : Prop :=
  v = rc4StateVerdict ∧ ∃ off, off + 258 ≤ buf.length ∧ isRc4Sbox (bytesAt 256 buf off) = true ∧
    ∃ j ∈ [off + 257, off + 260], j < buf.length ∧
      ∀ m < sample.size, sample.plaintext.getD m 0 ^^^
          (⟨bytesAt 256 buf off, buf.getD (off + 256) 0, buf.getD j 0⟩ : Rc4).keystream m =
        sample.ciphertext.getD m 0

theorem rc4StateScan_state : Finds (StateProof sample buf) (rc4StateScan sample buf) := by
  apply Finds.select
  intro off _ hbox
  have hfound (j : Nat) (hj : j ∈ [off + 257, off + 260]) (hroom : j < buf.length)
      (hfits : rc4VerifyState (bytesAt 256 buf off) (buf.getD (off + 256) 0) (buf.getD j 0)
        sample.plaintext sample.ciphertext sample.size = true) :
      StateProof sample buf rc4StateVerdict := by
    have hj' : off + 257 ≤ j := by simp at hj; omega
    refine ⟨rfl, off, by omega, hbox, j, hj, hroom, fun m hm => ?_⟩
    have hbyte := rc4Compare_true hfits m hm
    rwa [zero_add] at hbyte
  apply Finds.orElse
  · apply Finds.guard
    rintro ⟨hroom, hfits⟩
    exact Finds.some (hfound (off + 257) (by simp) (by omega) hfits)
  · apply Finds.guard
    rintro ⟨hroom, hfits⟩
    exact Finds.some (hfound (off + 260) (by simp) (by omega) hfits)

end

/-! ### The battery -/

def EngineInput.sample (input : EngineInput) : Sample where
  plaintext := input.plaintext.getD []
  ciphertext := input.ciphertext.getD []
  size := input.sampleSize.toNat
  fileOffset := input.fileOffset

theorem convictSample_reported (sample : Sample) :
    Finds (fun v => Reported suite sample v ∨ StateProof sample buf v)
      (convictSample suite sample cands buf) := by
  have hkey {o : Option Verdict} (h : Finds (Reported suite sample) o) :
      Finds (fun v => Reported suite sample v ∨ StateProof sample buf v) o :=
    fun v hv => .inl (h v hv)
  apply Finds.orElse
  · apply hkey
    apply Finds.select
    intro c _ _
    exact tryBlockSingle_reported length_candidate.ge
  apply Finds.orElse
  · apply hkey
    apply Finds.select
    rintro ⟨c, i⟩ _ _
    apply Finds.findSome
    rintro ⟨d, j⟩ _
    apply Finds.ite
    · intro _
      exact Finds.none
    · intro _
      exact tryBlockPair_reported length_candidate.ge length_candidate.ge
  apply Finds.orElse
  · exact hkey tryStream_reported
  apply Finds.orElse
  · apply hkey
    apply Finds.select
    intro c _ _
    exact tryRc4Shortkey_reported length_candidate.ge
  apply Finds.guard
  intro _
  apply Finds.orElse
  · exact hkey aesScheduleScan_reported
  apply Finds.orElse
  · exact hkey streamSigmaScan_reported
  apply Finds.orElse
  · intro v hv
    exact .inr (rc4StateScan_state v hv)
  · exact hkey bruteScan_reported

/-- Every verdict is one with a key, as `Reported` describes it, or one for a generator
    state. -/
theorem sarConvict_reported {input : EngineInput} (h : sarConvict suite input = some v) :
    Reported suite input.sample v ∨ StateProof input.sample input.scanBuffer v := by
  obtain ⟨cands, buf, pt, ct, size, fo⟩ := input
  cases pt with
  | none => cases h
  | some pt =>
    cases ct with
    | none => cases h
    | some ct =>
      simp only [sarConvict] at h
      split at h
      · cases h
      · exact convictSample_reported ⟨pt, ct, size.toNat, fo⟩ v h

/-- **Conviction is a forward proof.**  For every input the algorithm, key, mode and parameters of a
    verdict encrypt the plaintext into the ciphertext at some position of the sample, except for the
    verdict without a key, which stands for a generator state found in the snapshot. -/
theorem convict_forward (suite : CipherSuite) (hsuite : suite.Lawful) (input : EngineInput)
    (v : Verdict) (h : sarConvict suite input = some v) :
    ForwardProof suite input.sample v ∨ StateProof input.sample input.scanBuffer v := by
  rcases sarConvict_reported h with hkey | hstate
  · exact .inl (hkey.found.forward hsuite)
  · exact .inr hstate

def addedKeyInput : EngineInput where
  candidates := [Vector.ofFn fun i => UInt8.ofNat (i.val + 1)]
  scanBuffer := []
  plaintext := some (replicate 16 0)
  ciphertext := some ((range 16).map fun i => UInt8.ofNat (i + 1))
  sampleSize := 16
  fileOffset := 0

def addedKeyVerdict : Verdict :=
  fill ((range 16).map fun i => UInt8.ofNat (i + 1)) 16 SAR_ALG_AES_128 SAR_MODE_ECB 0

theorem convict_forward_added_key : sarConvict xorSuite addedKeyInput = some addedKeyVerdict ∧
      (ForwardProof xorSuite addedKeyInput.sample addedKeyVerdict ∨
        StateProof addedKeyInput.sample addedKeyInput.scanBuffer addedKeyVerdict) := by
  have h : sarConvict xorSuite addedKeyInput = some addedKeyVerdict := by decide +kernel
  exact ⟨h, convict_forward xorSuite xorSuite_lawful addedKeyInput addedKeyVerdict h⟩

/-- The identity permutation and two zero indices in memory, and the keystream that
    comes from them. -/
def generatorInput : EngineInput where
  candidates := []
  scanBuffer := (range 256).map UInt8.ofNat ++ [0, 0]
  plaintext := some (replicate 16 0)
  ciphertext := some [2, 5, 7, 13, 13, 23, 31, 40, 40, 56, 50, 72, 86, 101, 117, 134]
  sampleSize := 16
  fileOffset := 0

theorem aesScheduleScan_generatorInput (sample : Sample) :
    aesScheduleScan suite sample generatorInput.scanBuffer = none := by
  have hinvalid : ∀ off ∈ range 83, ∀ klen ∈ [16, 24, 32],
      aesScheduleIsValid (generatorInput.scanBuffer.drop off) klen = false := by decide +kernel
  have hlen : generatorInput.scanBuffer.length = 258 := by decide +kernel
  apply findSome?_eq_none_iff.mpr
  intro off hoff
  rw [hlen] at hoff
  apply findSome?_eq_none_iff.mpr
  rintro ⟨klen, slen, alg⟩ hmem
  apply if_neg
  rintro ⟨-, hvalid⟩
  have hklen : klen ∈ [16, 24, 32] := by
    simp only [mem_cons, Prod.mk.injEq, not_mem_nil, or_false] at hmem ⊢
    exact hmem.imp And.left (Or.imp And.left And.left)
  rw [hinvalid off hoff klen hklen] at hvalid
  cases hvalid

theorem convictSample_nil (sample : Sample) : convictSample suite sample [] buf =
      if buf.length ≥ 16 then scanBattery suite sample buf else none := rfl

theorem sarConvict_generatorInput (suite : CipherSuite) :
    sarConvict suite generatorInput = some rc4StateVerdict := by
  have hsigma : streamSigmaScan generatorInput.sample generatorInput.scanBuffer = none := by
    decide +kernel
  have hstate : rc4StateScan generatorInput.sample generatorInput.scanBuffer =
      some rc4StateVerdict := by decide +kernel
  have hlen : generatorInput.scanBuffer.length ≥ 16 := by decide +kernel
  have hsample : sarConvict suite generatorInput =
      convictSample suite generatorInput.sample [] generatorInput.scanBuffer := rfl
  rw [hsample, convictSample_nil, if_pos hlen, scanBattery, aesScheduleScan_generatorInput, hsigma,
    hstate]
  rfl

/-- The key of such a verdict proves nothing: there is none, whatever the ciphers are. -/
theorem convict_without_key : ∃ input, ∀ suite, ∃ v, sarConvict suite input = some v ∧
      ¬ ForwardProof suite input.sample v := by
  refine ⟨generatorInput, fun suite => ⟨rc4StateVerdict, sarConvict_generatorInput suite, ?_⟩⟩
  intro h
  cases h with
  | block c hcipher hmode => cases hcipher
  | xts c1 c2 hmode hcipher hunit hroom hblock => exact absurd hmode (by decide)
  | stream hmode halg hlen hbytes => exact absurd halg (by decide)
  | rc4 hmode halg hkey hbytes => exact hkey rfl

end SemanticsAr
