import Mathlib.Data.List.Basic
import Mathlib.Data.Vector.Basic

/-!
# SHA-256 and HMAC-SHA-256

The hash of `engine/src/sha256.c`: a streaming context that buffers at most one
block, the compression of one block, and the keyed construction over it.  The
context carries the bound on its buffer, which is what makes the block loop of
`sarSha256Update` terminate.
-/

namespace SemanticsAr

open Nat
open List hiding Vector

def SAR_SHA256_BLOCK : Nat := 64

/-- The round constants `K`. -/
def sha256K : List UInt32 :=
  [0x428a2f98, 0x71374491, 0xb5c0fbcf, 0xe9b5dba5, 0x3956c25b, 0x59f111f1, 0x923f82a4, 0xab1c5ed5,
   0xd807aa98, 0x12835b01, 0x243185be, 0x550c7dc3, 0x72be5d74, 0x80deb1fe, 0x9bdc06a7, 0xc19bf174,
   0xe49b69c1, 0xefbe4786, 0x0fc19dc6, 0x240ca1cc, 0x2de92c6f, 0x4a7484aa, 0x5cb0a9dc, 0x76f988da,
   0x983e5152, 0xa831c66d, 0xb00327c8, 0xbf597fc7, 0xc6e00bf3, 0xd5a79147, 0x06ca6351, 0x14292967,
   0x27b70a85, 0x2e1b2138, 0x4d2c6dfc, 0x53380d13, 0x650a7354, 0x766a0abb, 0x81c2c92e, 0x92722c85,
   0xa2bfe8a1, 0xa81a664b, 0xc24b8b70, 0xc76c51a3, 0xd192e819, 0xd6990624, 0xf40e3585, 0x106aa070,
   0x19a4c116, 0x1e376c08, 0x2748774c, 0x34b0bcb5, 0x391c0cb3, 0x4ed8aa4a, 0x5b9cca4f, 0x682e6ff3,
   0x748f82ee, 0x78a5636f, 0x84c87814, 0x8cc70208, 0x90befffa, 0xa4506ceb, 0xbef9a3f7, 0xc67178f2]

def ror (x : UInt32) (n : UInt32) : UInt32 := (x >>> n) ||| (x <<< (32 - n))

structure Sha256State where
  a : UInt32
  b : UInt32
  c : UInt32
  d : UInt32
  e : UInt32
  f : UInt32
  g : UInt32
  h : UInt32
deriving DecidableEq, Repr

/-- `sar_sha256_ctx_t`: `buf` is the first `buf_len` bytes of the block buffer. -/
structure Sha256Ctx where
  state : Sha256State
  total : UInt64
  buf : List UInt8
  buf_lt : buf.length < SAR_SHA256_BLOCK

def sarSha256Init : Sha256Ctx where
  state := ⟨0x6a09e667, 0xbb67ae85, 0x3c6ef372, 0xa54ff53a,
            0x510e527f, 0x9b05688c, 0x1f83d9ab, 0x5be0cd19⟩
  total := 0
  buf := []
  buf_lt := by decide

/-! ### One block -/

def blockWords : List UInt8 → List UInt32
  | b₀ :: b₁ :: b₂ :: b₃ :: rest =>
    ((b₀.toUInt32 <<< 24) ||| (b₁.toUInt32 <<< 16) ||| (b₂.toUInt32 <<< 8) ||| b₃.toUInt32)
      :: blockWords rest
  | _ => []

/-- The next schedule word over the words so far, newest first: `w[i - n]` is entry `n - 1`. -/
def scheduleStep (w : List UInt32) : List UInt32 :=
  let w15 := w.getD 14 0
  let w2 := w.getD 1 0
  let s0 := ror w15 7 ^^^ ror w15 18 ^^^ (w15 >>> 3)
  let s1 := ror w2 17 ^^^ ror w2 19 ^^^ (w2 >>> 10)
  (w.getD 15 0 + s0 + w.getD 6 0 + s1) :: w

def scheduleWords (p : List UInt8) : List UInt32 :=
  ((range 48).foldl (fun w _ => scheduleStep w) (blockWords p).reverse).reverse

def sha256Round (s : Sha256State) (k w : UInt32) : Sha256State :=
  let S1 := ror s.e 6 ^^^ ror s.e 11 ^^^ ror s.e 25
  let ch := (s.e &&& s.f) ^^^ (~~~s.e &&& s.g)
  let t1 := s.h + S1 + ch + k + w
  let S0 := ror s.a 2 ^^^ ror s.a 13 ^^^ ror s.a 22
  let maj := (s.a &&& s.b) ^^^ (s.a &&& s.c) ^^^ (s.b &&& s.c)
  let t2 := S0 + maj
  ⟨t1 + t2, s.a, s.b, s.c, s.d + t1, s.e, s.f, s.g⟩

def sha256Block (s : Sha256State) (p : List UInt8) : Sha256State :=
  let r := (sha256K.zip (scheduleWords p)).foldl (fun r kw => sha256Round r kw.1 kw.2) s
  ⟨s.a + r.a, s.b + r.b, s.c + r.c, s.d + r.d, s.e + r.e, s.f + r.f, s.g + r.g, s.h + r.h⟩

/-! ### Streaming -/

/-- The `while (len > 0)` loop of `sar_sha256_update`. -/
def updateLoop (ctx : Sha256Ctx) (data : List UInt8) : Sha256Ctx :=
  if data = [] then ctx
  else
    let take := min (SAR_SHA256_BLOCK - ctx.buf.length) data.length
    let filled := ctx.buf ++ data.take take
    if hfull : filled.length < SAR_SHA256_BLOCK then
      updateLoop { ctx with buf := filled, buf_lt := hfull } (data.drop take)
    else
      updateLoop { ctx with state := sha256Block ctx.state filled, buf := [], buf_lt := by decide }
        (data.drop take)
termination_by data.length
decreasing_by
  all_goals
    have hbuf := ctx.buf_lt
    have hpos : 0 < data.length := length_pos_iff.mpr ‹_›
    rw [length_drop]
    omega

def sarSha256Update (ctx : Sha256Ctx) (data : List UInt8) : Sha256Ctx :=
  updateLoop { ctx with total := ctx.total + UInt64.ofNat data.length } data

/-- `while (ctx->buf_len != 56) sar_sha256_update(ctx, &zero, 1)`: the buffer
    length runs through at most one block, so `SAR_SHA256_BLOCK` turns suffice. -/
def padZeros : Nat → Sha256Ctx → Sha256Ctx
  | 0, ctx => ctx
  | n + 1, ctx => if ctx.buf.length = 56 then ctx else padZeros n (sarSha256Update ctx [0])

def digestBytes (s : Sha256State) : Vector UInt8 32 :=
  let words : Vector UInt32 8 := #v[s.a, s.b, s.c, s.d, s.e, s.f, s.g, s.h]
  Vector.ofFn fun i =>
    (words.get ⟨i.val / 4, by omega⟩ >>> UInt32.ofNat (24 - 8 * (i.val % 4))).toUInt8

def sarSha256Final (ctx : Sha256Ctx) : Vector UInt8 32 :=
  let bits := ctx.total * 8
  let padded := padZeros SAR_SHA256_BLOCK (sarSha256Update ctx [0x80])
  let lenbuf := (range 8).map fun i => (bits >>> UInt64.ofNat (56 - 8 * i)).toUInt8
  digestBytes (sarSha256Update padded lenbuf).state

/-- One-shot digest: `init`, one `update`, `final`. -/
def sha256 (data : List UInt8) : Vector UInt8 32 :=
  sarSha256Final (sarSha256Update sarSha256Init data)

/-! ### The keyed construction -/

def hmacKeyBlock (key : List UInt8) : List UInt8 :=
  let k := if key.length > SAR_SHA256_BLOCK then (sha256 key).toList else key
  k ++ replicate (SAR_SHA256_BLOCK - k.length) 0

def sarHmacSha256 (key msg : List UInt8) : Vector UInt8 32 :=
  let k := hmacKeyBlock key
  let ipad := k.map (· ^^^ 0x36)
  let opad := k.map (· ^^^ 0x5c)
  let inner := sarSha256Final (sarSha256Update (sarSha256Update sarSha256Init ipad) msg)
  sarSha256Final (sarSha256Update (sarSha256Update sarSha256Init opad) inner.toList)

/-! ### The standard functions -/

/-- Run the whole blocks of a message through the compression function; the bytes behind them
    are left over. -/
def absorb (s : Sha256State) (m : List UInt8) : Sha256State × List UInt8 :=
  if m.length < SAR_SHA256_BLOCK then (s, m)
  else absorb (sha256Block s (m.take SAR_SHA256_BLOCK)) (m.drop SAR_SHA256_BLOCK)
termination_by m.length
decreasing_by
  have hblock : SAR_SHA256_BLOCK = 64 := rfl
  rw [length_drop]
  omega

/-- The padded message of FIPS 180-4, 5.1.1: a one bit, the fewest zeros that leave room for the
    length at the end of a block, and the length in bits as eight bytes. -/
def fipsPadded (m : List UInt8) : List UInt8 :=
  m ++ 0x80 :: (replicate ((119 - m.length % 64) % 64) 0 ++
    (range 8).map fun i => UInt8.ofNat (8 * m.length / 2 ^ (56 - 8 * i)))

/-- The initial hash value of FIPS 180-4, 5.3.3. -/
def fipsInitial : Sha256State where
  a := 0x6a09e667
  b := 0xbb67ae85
  c := 0x3c6ef372
  d := 0xa54ff53a
  e := 0x510e527f
  f := 0x9b05688c
  g := 0x1f83d9ab
  h := 0x5be0cd19

/-- The hash value as a string, with the most significant byte of each word first. -/
def fipsDigest (s : Sha256State) : Vector UInt8 32 :=
  Vector.ofFn fun i => UInt8.ofNat
    (([s.a, s.b, s.c, s.d, s.e, s.f, s.g, s.h].getD (i.val / 4) 0).toNat /
      2 ^ (24 - 8 * (i.val % 4)))

def fipsSha256 (m : List UInt8) : Vector UInt8 32 :=
  fipsDigest (absorb fipsInitial (fipsPadded m)).1

/-- RFC 2104 over the standard hash. -/
def rfc2104 (key text : List UInt8) : Vector UInt8 32 :=
  let k := if 64 < key.length then (fipsSha256 key).toList else key
  let k := k ++ replicate (64 - k.length) 0
  fipsSha256 (k.map (· ^^^ 0x5c) ++ (fipsSha256 (k.map (· ^^^ 0x36) ++ text)).toList)

theorem absorb_append (s : Sha256State) (m d : List UInt8) :
    absorb s (m ++ d) = absorb (absorb s m).1 ((absorb s m).2 ++ d) := by
  fun_induction absorb s m with
  | case1 s m h => rfl
  | case2 s m h ih =>
    have hle := Nat.le_of_not_lt h
    rw [← ih, absorb, if_neg (by rw [length_append]; omega),
      take_append_of_le_length hle, drop_append_of_le_length hle]

theorem absorb_length (s : Sha256State) (m : List UInt8) :
    (absorb s m).2.length = m.length % 64 := by
  fun_induction absorb s m with
  | case1 s m h => exact (mod_eq_of_lt h).symm
  | case2 s m h ih =>
    have hblock : SAR_SHA256_BLOCK = 64 := rfl
    rw [ih, length_drop]
    omega

theorem absorb_block {block : List UInt8} (h : block.length = SAR_SHA256_BLOCK) (s : Sha256State)
    (d : List UInt8) : absorb s (block ++ d) = absorb (sha256Block s block) d := by
  rw [absorb, if_neg (by rw [length_append]; omega), take_left' h, drop_left' h]

/-- The loop absorbs what is buffered and then its data. -/
theorem updateLoop_eq (ctx : Sha256Ctx) (data : List UInt8) :
    ((updateLoop ctx data).state, (updateLoop ctx data).buf) = absorb ctx.state (ctx.buf ++ data) ∧
      (updateLoop ctx data).total = ctx.total := by
  have hbuf := ctx.buf_lt
  fun_induction updateLoop ctx data with
  | case1 ctx => simp [absorb, hbuf]
  | case2 ctx data h take filled hfull ih =>
    obtain ⟨ih, htotal⟩ := ih hfull
    refine ⟨?_, htotal⟩
    rw [ih, append_assoc, take_append_drop]
  | case3 ctx data h take filled hfull ih =>
    obtain ⟨ih, htotal⟩ := ih (show 0 < SAR_SHA256_BLOCK by decide)
    refine ⟨?_, htotal⟩
    have hfilled : filled.length = SAR_SHA256_BLOCK := by
      simp only [filled, take, length_append, length_take] at hfull ⊢
      omega
    have hsplit : ctx.buf ++ data = filled ++ data.drop take := by simp [filled]
    rw [ih, hsplit, absorb_block hfilled]
    rfl

variable {ctx : Sha256Ctx} {m : List UInt8} {calls : List (List UInt8)}

/-- What a context has absorbed: the bytes of all its updates. -/
structure Absorbed (ctx : Sha256Ctx) (m : List UInt8) : Prop where
  hashed : (ctx.state, ctx.buf) = absorb sarSha256Init.state m
  total : ctx.total = UInt64.ofNat m.length

theorem Absorbed.update (h : Absorbed ctx m) (data : List UInt8) :
    Absorbed (sarSha256Update ctx data) (m ++ data) where
  hashed := by
    rw [sarSha256Update, (updateLoop_eq _ data).1, absorb_append sarSha256Init.state, ← h.hashed]
  total := by
    rw [sarSha256Update, (updateLoop_eq _ data).2, h.total, length_append, UInt64.ofNat_add]

theorem Absorbed.updates (h : Absorbed ctx m) :
    Absorbed (calls.foldl sarSha256Update ctx) (m ++ calls.flatten) := by
  induction calls generalizing ctx m with
  | nil => simpa using h
  | cons data calls ih => simpa using ih (h.update data)

theorem Absorbed.length_buf (h : Absorbed ctx m) : ctx.buf.length = m.length % 64 := by
  rw [← absorb_length sarSha256Init.state, ← h.hashed]

/-- The padding loop stops at the first length that is 56 bytes into a block. -/
theorem Absorbed.padZeros {n : Nat} (h : Absorbed ctx m)
    (hn : (120 - m.length % 64) % 64 ≤ n) : Absorbed (padZeros n ctx)
      (m ++ replicate ((120 - m.length % 64) % 64) 0) := by
  induction n generalizing ctx m with
  | zero => simpa [le_zero.mp hn, SemanticsAr.padZeros] using h
  | succ n ih =>
    rw [SemanticsAr.padZeros, h.length_buf]
    by_cases hdone : m.length % 64 = 56
    · simpa [hdone] using h
    · have hnext := ih (h.update [0]) (by simp; omega)
      have hcount : (120 - m.length % 64) % 64 = (120 - (m ++ [0]).length % 64) % 64 + 1 := by
        simp; omega
      rw [if_neg hdone, hcount, replicate_succ]
      simpa using hnext

/-- The length field: the bits the context counts modulo `2 ^ 64`, byte by byte. -/
theorem lengthByte_eq (n : Nat) {k : Nat} (hk : k ≤ 56) :
    ((UInt64.ofNat n * 8) >>> UInt64.ofNat k).toUInt8 = UInt8.ofNat (8 * n / 2 ^ k) := by
  apply UInt8.toNat_inj.mp
  have hpow : 2 ^ 64 = 2 ^ k * 2 ^ (64 - k) := by rw [← pow_add]; congr 1; omega
  have hshift : (UInt64.ofNat k).toNat % 64 = k := by simp; omega
  have hbits : UInt64.ofNat n * 8 = UInt64.ofNat (8 * n) := by
    rw [UInt64.ofNat_mul, UInt64.mul_comm]
    rfl
  rw [hbits, UInt64.toNat_toUInt8, UInt64.toNat_shiftRight, hshift, UInt64.toNat_ofNat',
    UInt8.toNat_ofNat', shiftRight_eq_div_pow, hpow, mod_mul_right_div_self,
    mod_mod_of_dvd _ (pow_dvd_pow 2 (by omega))]

theorem digestBytes_eq (s : Sha256State) : digestBytes s = fipsDigest s := by
  refine congrArg Vector.ofFn (funext fun i => ?_)
  have hword (j : Fin 8) : #v[s.a, s.b, s.c, s.d, s.e, s.f, s.g, s.h].get j =
      [s.a, s.b, s.c, s.d, s.e, s.f, s.g, s.h].getD j.val 0 := by
    match j with
    | 0 | 1 | 2 | 3 | 4 | 5 | 6 | 7 => rfl
  have hshift : (UInt32.ofNat (24 - 8 * (i.val % 4))).toNat % 32 = 24 - 8 * (i.val % 4) := by
    simp
    omega
  apply UInt8.toNat_inj.mp
  rw [UInt32.toNat_toUInt8, UInt32.toNat_shiftRight, hshift, hword, UInt8.toNat_ofNat',
    shiftRight_eq_div_pow]

theorem Absorbed.final (h : Absorbed ctx m) : sarSha256Final ctx = fipsSha256 m := by
  have hpad := (h.update [0x80]).padZeros (n := SAR_SHA256_BLOCK) (mod_lt _ (by decide)).le
  have hall := (hpad.update ((range 8).map fun i =>
    ((ctx.total * 8) >>> UInt64.ofNat (56 - 8 * i)).toUInt8)).hashed
  have hzeros : (120 - (m ++ [0x80]).length % 64) % 64 = (119 - m.length % 64) % 64 := by
    simp
    omega
  have hlength : ∀ i, ((ctx.total * 8) >>> UInt64.ofNat (56 - 8 * i)).toUInt8 =
      UInt8.ofNat (8 * m.length / 2 ^ (56 - 8 * i)) := by
    intro i
    rw [h.total, lengthByte_eq _ (sub_le _ _)]
  rw [hzeros] at hall
  simp only [hlength, append_assoc, cons_append, nil_append] at hall
  have hinit : fipsInitial = sarSha256Init.state := rfl
  simp only [sarSha256Final, digestBytes_eq, fipsSha256, fipsPadded, hlength, hinit, ← hall]

theorem final_updates (calls : List (List UInt8)) :
    sarSha256Final (calls.foldl sarSha256Update sarSha256Init) = fipsSha256 calls.flatten := by
  have hinit : Absorbed sarSha256Init [] := ⟨by simp [absorb, SAR_SHA256_BLOCK]; rfl, rfl⟩
  exact hinit.updates.final

theorem sarHmacSha256_eq (key msg : List UInt8) : sarHmacSha256 key msg = rfc2104 key msg := by
  have hone : ∀ m, sha256 m = fipsSha256 m := fun m => by simpa [sha256] using final_updates [m]
  have htwo : ∀ a b, sarSha256Final (sarSha256Update (sarSha256Update sarSha256Init a) b) =
      fipsSha256 (a ++ b) := fun a b => by simpa using final_updates [a, b]
  simp only [sarHmacSha256, hmacKeyBlock, htwo, hone, rfc2104]
  rfl

/-- **Hash and keyed hash are the standard functions**, however a message is cut into updates.
    Below `2 ^ 61` bytes the length field is the number of bits itself; above, that number
    modulo `2 ^ 64`. -/
theorem sha256_and_hmac_standard : (∀ calls : List (List UInt8),
      sarSha256Final (calls.foldl sarSha256Update sarSha256Init) = fipsSha256 calls.flatten) ∧
    ∀ key msg : List UInt8, sarHmacSha256 key msg = rfc2104 key msg :=
  ⟨final_updates, sarHmacSha256_eq⟩

/-- The published digest of `"abc"`. -/
example : (sha256 [0x61, 0x62, 0x63]).toList.take 8 =
    [0xba, 0x78, 0x16, 0xbf, 0x8f, 0x01, 0xcf, 0xea] := by
  decide +kernel

end SemanticsAr
