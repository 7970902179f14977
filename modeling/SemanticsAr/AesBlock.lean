import SemanticsAr.AesKeys

/-!
# The AES block cipher

`aes_encrypt_block` and `aes_decrypt_block` of `engine/ciphers/aes.c` under the round keys of
`aesSetkey`.  Every step of a round has its inverse in the other direction, and the rounds of one
undo those of the other from the last to the first.
-/

namespace SemanticsAr

open Nat
open List hiding Vector

def INV_SBOX : List UInt8 :=
  [0x52, 0x09, 0x6a, 0xd5, 0x30, 0x36, 0xa5, 0x38, 0xbf, 0x40, 0xa3, 0x9e, 0x81, 0xf3, 0xd7, 0xfb,
   0x7c, 0xe3, 0x39, 0x82, 0x9b, 0x2f, 0xff, 0x87, 0x34, 0x8e, 0x43, 0x44, 0xc4, 0xde, 0xe9, 0xcb,
   0x54, 0x7b, 0x94, 0x32, 0xa6, 0xc2, 0x23, 0x3d, 0xee, 0x4c, 0x95, 0x0b, 0x42, 0xfa, 0xc3, 0x4e,
   0x08, 0x2e, 0xa1, 0x66, 0x28, 0xd9, 0x24, 0xb2, 0x76, 0x5b, 0xa2, 0x49, 0x6d, 0x8b, 0xd1, 0x25,
   0x72, 0xf8, 0xf6, 0x64, 0x86, 0x68, 0x98, 0x16, 0xd4, 0xa4, 0x5c, 0xcc, 0x5d, 0x65, 0xb6, 0x92,
   0x6c, 0x70, 0x48, 0x50, 0xfd, 0xed, 0xb9, 0xda, 0x5e, 0x15, 0x46, 0x57, 0xa7, 0x8d, 0x9d, 0x84,
   0x90, 0xd8, 0xab, 0x00, 0x8c, 0xbc, 0xd3, 0x0a, 0xf7, 0xe4, 0x58, 0x05, 0xb8, 0xb3, 0x45, 0x06,
   0xd0, 0x2c, 0x1e, 0x8f, 0xca, 0x3f, 0x0f, 0x02, 0xc1, 0xaf, 0xbd, 0x03, 0x01, 0x13, 0x8a, 0x6b,
   0x3a, 0x91, 0x11, 0x41, 0x4f, 0x67, 0xdc, 0xea, 0x97, 0xf2, 0xcf, 0xce, 0xf0, 0xb4, 0xe6, 0x73,
   0x96, 0xac, 0x74, 0x22, 0xe7, 0xad, 0x35, 0x85, 0xe2, 0xf9, 0x37, 0xe8, 0x1c, 0x75, 0xdf, 0x6e,
   0x47, 0xf1, 0x1a, 0x71, 0x1d, 0x29, 0xc5, 0x89, 0x6f, 0xb7, 0x62, 0x0e, 0xaa, 0x18, 0xbe, 0x1b,
   0xfc, 0x56, 0x3e, 0x4b, 0xc6, 0xd2, 0x79, 0x20, 0x9a, 0xdb, 0xc0, 0xfe, 0x78, 0xcd, 0x5a, 0xf4,
   0x1f, 0xdd, 0xa8, 0x33, 0x88, 0x07, 0xc7, 0x31, 0xb1, 0x12, 0x10, 0x59, 0x27, 0x80, 0xec, 0x5f,
   0x60, 0x51, 0x7f, 0xa9, 0x19, 0xb5, 0x4a, 0x0d, 0x2d, 0xe5, 0x7a, 0x9f, 0x93, 0xc9, 0x9c, 0xef,
   0xa0, 0xe0, 0x3b, 0x4d, 0xae, 0x2a, 0xf5, 0xb0, 0xc8, 0xeb, 0xbb, 0x3c, 0x83, 0x53, 0x99, 0x61,
   0x17, 0x2b, 0x04, 0x7e, 0xba, 0x77, 0xd6, 0x26, 0xe1, 0x69, 0x14, 0x63, 0x55, 0x21, 0x0c, 0x7d]

def invSbox (x : UInt8) : UInt8 := INV_SBOX.getD x.toNat 0

def xtime (x : UInt8) : UInt8 := (x <<< 1) ^^^ ((x >>> 7) * 0x1b)

/-- The loop of `gmul`, with the product so far. -/
def gmulLoop : Nat → UInt8 → UInt8 → UInt8 → UInt8
  | 0, _, _, p => p
  | i + 1, a, b, p =>
    gmulLoop i (if a &&& 0x80 ≠ 0 then (a <<< 1) ^^^ 0x1b else a <<< 1) (b >>> 1)
      (if b &&& 1 ≠ 0 then p ^^^ a else p)

def gmul (a b : UInt8) : UInt8 := gmulLoop 8 a b 0

abbrev AesState := Vector UInt8 16

/-- Byte `i` of the result is the one at entry `i` of the table. -/
def moveBytes (table : List Nat) (s : AesState) : AesState :=
  Vector.ofFn fun i => s.toList.getD (table.getD i.val 0) 0

def shiftRows : AesState → AesState :=
  moveBytes [0, 5, 10, 15, 4, 9, 14, 3, 8, 13, 2, 7, 12, 1, 6, 11]

def invShiftRows : AesState → AesState :=
  moveBytes [0, 13, 10, 7, 4, 1, 14, 11, 8, 5, 2, 15, 12, 9, 6, 3]

/-- Byte `row` of a column that is mixed. -/
def mixColumn (row : Nat) (a0 a1 a2 a3 : UInt8) : UInt8 :=
  match row with
  | 0 => xtime a0 ^^^ (xtime a1 ^^^ a1) ^^^ a2 ^^^ a3
  | 1 => a0 ^^^ xtime a1 ^^^ (xtime a2 ^^^ a2) ^^^ a3
  | 2 => a0 ^^^ a1 ^^^ xtime a2 ^^^ (xtime a3 ^^^ a3)
  | _ => (xtime a0 ^^^ a0) ^^^ a1 ^^^ a2 ^^^ xtime a3

def invMixColumn (row : Nat) (a0 a1 a2 a3 : UInt8) : UInt8 :=
  match row with
  | 0 => gmul a0 14 ^^^ gmul a1 11 ^^^ gmul a2 13 ^^^ gmul a3 9
  | 1 => gmul a0 9 ^^^ gmul a1 14 ^^^ gmul a2 11 ^^^ gmul a3 13
  | 2 => gmul a0 13 ^^^ gmul a1 9 ^^^ gmul a2 14 ^^^ gmul a3 11
  | _ => gmul a0 11 ^^^ gmul a1 13 ^^^ gmul a2 9 ^^^ gmul a3 14

def mapColumns (mix : Nat → UInt8 → UInt8 → UInt8 → UInt8 → UInt8) (s : AesState) : AesState :=
  Vector.ofFn fun i =>
    let col j := s.toList.getD (4 * (i.val / 4) + j) 0
    mix (i.val % 4) (col 0) (col 1) (col 2) (col 3)

def addRoundKey (rk : List UInt8) (round : Nat) (s : AesState) : AesState :=
  xorBytes s (bytesAt 16 rk (round * 16))

def encryptRound (rk : List UInt8) (nr : Nat) (s : AesState) (round : Nat) : AesState :=
  let s := shiftRows (s.map sbox)
  addRoundKey rk round (if round ≠ nr then mapColumns mixColumn s else s)

def aesEncryptBlock (rk : List UInt8) (nr : Nat) (s : AesState) : AesState :=
  (range' 1 nr).foldl (encryptRound rk nr) (addRoundKey rk 0 s)

def decryptRound (rk : List UInt8) (s : AesState) (round : Nat) : AesState :=
  let s := addRoundKey rk round ((invShiftRows s).map invSbox)
  if round ≠ 0 then mapColumns invMixColumn s else s

def aesDecryptBlock (rk : List UInt8) (nr : Nat) (s : AesState) : AesState :=
  (range nr).reverse.foldl (decryptRound rk) (addRoundKey rk nr s)

/-- The cipher under the context that `aes_setkey` builds. -/
def aesCipher (key : List UInt8) (keyLen : Nat) : BlockCipher 16 where
  encrypt := aesEncryptBlock (aesSetkey key keyLen) (keyLen / 4 + 6)
  decrypt := aesDecryptBlock (aesSetkey key keyLen) (keyLen / 4 + 6)

/-! ### The steps of a round -/

theorem invSbox_sbox (x : UInt8) : invSbox (sbox x) = x := by
  have h : ∀ i < 256, invSbox (sbox (UInt8.ofNat i)) = UInt8.ofNat i := by decide +kernel
  simpa using h x.toNat x.toNat_lt

theorem moveBytes_back {table back : List Nat} (s : AesState)
    (h : ∀ i < 16, back.getD i 0 < 16 ∧ table.getD (back.getD i 0) 0 = i) :
    moveBytes back (moveBytes table s) = s := by
  apply ext_get
  intro i
  obtain ⟨hlt, hback⟩ := h i.val i.isLt
  have hget := getD_toList (moveBytes table s) ⟨back.getD i.val 0, hlt⟩
  rw [moveBytes, get_ofFn, hget, moveBytes, get_ofFn, hback, getD_toList]

theorem xtime_xor (x y : UInt8) : xtime (x ^^^ y) = xtime x ^^^ xtime y := by
  have hbit (z : UInt8) : z >>> 7 = 0 ∨ z >>> 7 = 1 := by
    have hz := z.toNat_lt
    rw [← UInt8.toNat_inj, ← UInt8.toNat_inj, UInt8.toNat_shiftRight]
    simp [Nat.shiftRight_eq_div_pow]
    omega
  have hmul : (x >>> 7 ^^^ y >>> 7) * (0x1b : UInt8) =
      (x >>> 7) * (0x1b : UInt8) ^^^ (y >>> 7) * (0x1b : UInt8) := by
    rcases hbit x with hx | hx <;> rcases hbit y with hy | hy <;> rw [hx, hy] <;> rfl
  simp only [xtime, UInt8.shiftLeft_xor, UInt8.shiftRight_xor, hmul]
  ac_rfl

theorem gmulLoop_succ (i : Nat) (a b p : UInt8) : gmulLoop (i + 1) a b p =
    gmulLoop i (xtime a) (b >>> 1) (if b &&& 1 ≠ 0 then p ^^^ a else p) := by
  have h : ∀ i < 256, let a := UInt8.ofNat i
      (if a &&& 0x80 ≠ 0 then (a <<< 1) ^^^ 0x1b else a <<< 1) = xtime a := by decide +kernel
  rw [gmulLoop]
  congr 1
  simpa using h a.toNat a.toNat_lt

/-- The four products of the inverse matrix, written with `xtime`. -/
theorem gmul_eq (a : UInt8) : gmul a 9 = a ^^^ xtime (xtime (xtime a)) ∧
    gmul a 11 = a ^^^ xtime a ^^^ xtime (xtime (xtime a)) ∧
    gmul a 13 = a ^^^ xtime (xtime a) ^^^ xtime (xtime (xtime a)) ∧
    gmul a 14 = xtime a ^^^ xtime (xtime a) ^^^ xtime (xtime (xtime a)) := by
  simp only [gmul, gmulLoop_succ]
  exact ⟨congrArg (· ^^^ _) UInt8.zero_xor, congrArg (· ^^^ _ ^^^ _) UInt8.zero_xor,
    congrArg (· ^^^ _ ^^^ _) UInt8.zero_xor, congrArg (· ^^^ _ ^^^ _) UInt8.zero_xor⟩

theorem xor_left_comm (x y z : UInt8) : x ^^^ (y ^^^ z) = y ^^^ (x ^^^ z) := by ac_rfl

theorem xor_cancel_left (x y : UInt8) : x ^^^ (x ^^^ y) = y := by
  rw [← UInt8.xor_assoc, UInt8.xor_self, UInt8.zero_xor]

theorem unmixed_row (a0 a1 a2 a3 : UInt8) :
    let b row := mixColumn row a0 a1 a2 a3
    invMixColumn 0 (b 0) (b 1) (b 2) (b 3) = a0 := by
  simp only [invMixColumn, mixColumn, gmul_eq, xtime_xor, UInt8.xor_assoc]
  -- the images under `xtime` cancel in pairs
  generalize xtime = t
  simp only [UInt8.xor_comm, xor_left_comm, xor_cancel_left, UInt8.xor_self, UInt8.xor_zero]

/-- The other rows of the two matrices are rotations of the first. -/
theorem unmixed_column {row : Nat} (hrow : row < 4) (byte : Nat → UInt8) :
    let b row := mixColumn row (byte 0) (byte 1) (byte 2) (byte 3)
    invMixColumn row (b 0) (b 1) (b 2) (b 3) = byte row := by
  have hrotate (i j k l : Nat) := unmixed_row (byte i) (byte j) (byte k) (byte l)
  simp only [invMixColumn, mixColumn] at hrotate ⊢
  match row with
  | 0 => exact hrotate 0 1 2 3
  | 1 => exact Eq.trans (by ac_rfl) (hrotate 1 2 3 0)
  | 2 => exact Eq.trans (by ac_rfl) (hrotate 2 3 0 1)
  | 3 => exact Eq.trans (by ac_rfl) (hrotate 3 0 1 2)

theorem unmixed_columns (s : AesState) :
    mapColumns invMixColumn (mapColumns mixColumn s) = s := by
  apply ext_get
  intro i
  let col j := s.toList.getD (4 * (i.val / 4) + j) 0
  have hcol (j : Nat) (hj : j < 4) :
      (mapColumns mixColumn s).toList.getD (4 * (i.val / 4) + j) 0 =
        mixColumn j (col 0) (col 1) (col 2) (col 3) := by
    have hget := getD_toList (mapColumns mixColumn s) ⟨4 * (i.val / 4) + j, by omega⟩
    rw [hget, mapColumns, get_ofFn]
    simp only [col, show (4 * (i.val / 4) + j) / 4 = i.val / 4 by omega,
      show (4 * (i.val / 4) + j) % 4 = j by omega]
  rw [mapColumns, get_ofFn]
  simp only [hcol 0 (by decide), hcol 1 (by decide), hcol 2 (by decide), hcol 3 (by decide)]
  rw [unmixed_column (mod_lt _ (by decide)) col, ← getD_toList]
  exact congrArg (s.toList.getD · 0) (div_add_mod _ 4)

/-! ### All rounds -/

variable {rk : List UInt8} {nr k : Nat} {s : AesState}

/-- What round `k` mixes and adds its key to; before the first round it is the block itself. -/
def unmixed (rk : List UInt8) (nr : Nat) (s : AesState) : Nat → AesState
  | 0 => s
  | k + 1 => shiftRows (((range' 1 k).foldl (encryptRound rk nr) (addRoundKey rk 0 s)).map sbox)

theorem decryptRound_unmixed (hk : k < nr) :
    decryptRound rk (unmixed rk nr s (k + 1)) k = unmixed rk nr s k := by
  have hsub (t : AesState) : (t.map sbox).map invSbox = t := by
    apply Vector.ext
    intro i hi
    simp [invSbox_sbox]
  rw [decryptRound, unmixed, invShiftRows, shiftRows, moveBytes_back _ (by decide), hsub]
  cases k with
  | zero => exact xorBytes_cancel _ _
  | succ k =>
    rw [range'_concat, foldl_append, one_mul, add_comm 1 k, foldl_cons, foldl_nil, encryptRound,
      if_pos (by omega), addRoundKey, addRoundKey, xorBytes_cancel, if_pos (by omega),
      unmixed_columns]
    rfl

theorem decryptRounds_unmixed (hk : k ≤ nr) :
    (range k).reverse.foldl (decryptRound rk) (unmixed rk nr s k) = s := by
  induction k with
  | zero => rfl
  | succ k ih =>
    rw [range_succ, reverse_append, reverse_singleton, singleton_append, foldl_cons,
      decryptRound_unmixed hk, ih (by omega)]

theorem decrypt_encrypt (rk : List UInt8) (k : Nat) (s : AesState) :
    aesDecryptBlock rk (k + 1) (aesEncryptBlock rk (k + 1) s) = s := by
  rw [aesDecryptBlock, aesEncryptBlock, range'_concat, foldl_append, one_mul, add_comm 1 k,
    foldl_cons, foldl_nil, encryptRound, if_neg (not_not.mpr rfl), addRoundKey, addRoundKey,
    xorBytes_cancel]
  exact @decryptRounds_unmixed rk (k + 1) (k + 1) s (le_refl _)

/-- The cipher meets what the results about a suite of ciphers assume of AES. -/
theorem aesCipher_lawful (key : List UInt8) (keyLen : Nat) : (aesCipher key keyLen).Lawful := by
  intro s
  simp only [aesCipher]
  exact decrypt_encrypt _ _ s

/-- **Decryption and encryption invert each other.** -/
theorem aes_inverts (key : List UInt8) (keyLen : Nat) (block : AesState) :
    let c := aesCipher key keyLen
    c.decrypt (c.encrypt block) = block ∧ c.encrypt (c.decrypt block) = block := by
  have hlaw := aesCipher_lawful key keyLen
  exact ⟨hlaw block, hlaw.encrypt_decrypt block⟩

end SemanticsAr
