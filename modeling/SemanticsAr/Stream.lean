import SemanticsAr.BlockCipher
import SemanticsAr.ByteCodec

/-!
# Stream ciphers

`engine/ciphers/stream.c`: one keystream block of ChaCha and of Salsa, the key
derivation of their extended-nonce variants, and the generator of RC4, each with
the comparisons the engine makes against a sample.
-/

namespace SemanticsAr

def SAR_ROTL32 (x n : UInt32) : UInt32 := (x <<< n) ||| (x >>> (32 - n))

def sarLe32 (p : List UInt8) (pos : Nat) : UInt32 := UInt32.ofNat (leVal (bytesAt 4 p pos).toList)

def sarStLe32 (v : UInt32) : List UInt8 := leNat 4 v.toNat

def STREAM_ROUNDS : List Nat := [8, 12, 20]

abbrev StreamState := Vector UInt32 16

def StreamState.update (s : StreamState) (i : Fin 16) (f : UInt32 → UInt32) : StreamState :=
  s.set i.val (f (s.get i)) i.isLt

def StreamState.bytes (s : StreamState) : Vector UInt8 64 :=
  Vector.ofFn fun i => (s.toList.getD (i.val / 4) 0 >>> UInt32.ofNat (8 * (i.val % 4))).toUInt8

def StreamState.add (s t : StreamState) : StreamState := Vector.ofFn fun i => s.get i + t.get i

/-! ### ChaCha -/

def chachaQr (a b c d : Fin 16) (s : StreamState) : StreamState :=
  let s := s.update a (· + s.get b)
  let s := s.update d fun w => SAR_ROTL32 (w ^^^ s.get a) 16
  let s := s.update c (· + s.get d)
  let s := s.update b fun w => SAR_ROTL32 (w ^^^ s.get c) 12
  let s := s.update a (· + s.get b)
  let s := s.update d fun w => SAR_ROTL32 (w ^^^ s.get a) 8
  let s := s.update c (· + s.get d)
  s.update b fun w => SAR_ROTL32 (w ^^^ s.get c) 7

def chachaDoubleRound (w : StreamState) : StreamState :=
  let w := chachaQr 3 7 11 15 (chachaQr 2 6 10 14 (chachaQr 1 5 9 13 (chachaQr 0 4 8 12 w)))
  chachaQr 3 4 9 14 (chachaQr 2 7 8 13 (chachaQr 1 6 11 12 (chachaQr 0 5 10 15 w)))

/-- The state of `chacha_block`, and of `hchacha20` with the first nonce word as counter. -/
def chachaState (key : List UInt8) (w12 w13 w14 w15 : UInt32) : StreamState :=
  #v[0x61707865, 0x3320646e, 0x79622d32, 0x6b206574,
     sarLe32 key 0, sarLe32 key 4, sarLe32 key 8, sarLe32 key 12,
     sarLe32 key 16, sarLe32 key 20, sarLe32 key 24, sarLe32 key 28, w12, w13, w14, w15]

def chachaBlock (key nonce : List UInt8) (counter : UInt32) (rounds : Nat) : Vector UInt8 64 :=
  let s := chachaState key counter (sarLe32 nonce 0) (sarLe32 nonce 4) (sarLe32 nonce 8)
  ((chachaDoubleRound^[rounds / 2] s).add s).bytes

def hchacha20 (key nonce : List UInt8) : List UInt8 :=
  let s := chachaDoubleRound^[10]
    (chachaState key (sarLe32 nonce 0) (sarLe32 nonce 4) (sarLe32 nonce 8) (sarLe32 nonce 12))
  ([0, 1, 2, 3, 12, 13, 14, 15] : List (Fin 16)).flatMap fun i => sarStLe32 (s.get i)

/-! ### Salsa -/

def salsaQr (a b c d : Fin 16) (s : StreamState) : StreamState :=
  let s := s.update b (· ^^^ SAR_ROTL32 (s.get a + s.get d) 7)
  let s := s.update c (· ^^^ SAR_ROTL32 (s.get b + s.get a) 9)
  let s := s.update d (· ^^^ SAR_ROTL32 (s.get c + s.get b) 13)
  s.update a (· ^^^ SAR_ROTL32 (s.get d + s.get c) 18)

def salsaDoubleRound (w : StreamState) : StreamState :=
  let w := salsaQr 15 3 7 11 (salsaQr 10 14 2 6 (salsaQr 5 9 13 1 (salsaQr 0 4 8 12 w)))
  salsaQr 15 12 13 14 (salsaQr 10 11 8 9 (salsaQr 5 6 7 4 (salsaQr 0 1 2 3 w)))

/-- The state of `salsa_block`, and of `hsalsa20` with two nonce words as counter. -/
def salsaState (key nonce : List UInt8) (w8 w9 : UInt32) : StreamState :=
  #v[0x61707865, sarLe32 key 0, sarLe32 key 4, sarLe32 key 8,
     sarLe32 key 12, 0x3320646e, sarLe32 nonce 0, sarLe32 nonce 4,
     w8, w9, 0x79622d32, sarLe32 key 16,
     sarLe32 key 20, sarLe32 key 24, sarLe32 key 28, 0x6b206574]

def salsaBlock (key nonce : List UInt8) (counter : UInt64) (rounds : Nat) : Vector UInt8 64 :=
  let s := salsaState key nonce (counter &&& 0xFFFFFFFF).toUInt32 (counter >>> 32).toUInt32
  ((salsaDoubleRound^[rounds / 2] s).add s).bytes

def hsalsa20 (key nonce : List UInt8) : List UInt8 :=
  let s := salsaDoubleRound^[10] (salsaState key nonce (sarLe32 nonce 8) (sarLe32 nonce 12))
  ([0, 5, 10, 15, 6, 7, 8, 9] : List (Fin 16)).flatMap fun i => sarStLe32 (s.get i)

/-! ### RC4 -/

structure Rc4 where
  box : Vector UInt8 256
  i : UInt8
  j : UInt8

def rc4Get (box : Vector UInt8 256) (x : UInt8) : UInt8 := box.get ⟨x.toNat, x.toNat_lt⟩

def rc4Swap (box : Vector UInt8 256) (x y : UInt8) : Vector UInt8 256 :=
  (box.set x.toNat (rc4Get box y) x.toNat_lt).set y.toNat (rc4Get box x) y.toNat_lt

def Rc4.step (r : Rc4) : Rc4 :=
  let i := r.i + 1
  let j := r.j + rc4Get r.box i
  ⟨rc4Swap r.box i j, i, j⟩

def Rc4.output (r : Rc4) : UInt8 := rc4Get r.box (rc4Get r.box r.i + rc4Get r.box r.j)

/-- The key schedule; `keyLength` is not zero. -/
def rc4Ksa (key : List UInt8) (keyLength : Nat) : Rc4 :=
  let start : Vector UInt8 256 := Vector.ofFn fun i => UInt8.ofNat i.val
  let mixed := (List.range 256).foldl (fun (p : Vector UInt8 256 × UInt8) i =>
    let j := p.2 + rc4Get p.1 (UInt8.ofNat i) + key.getD (i % keyLength) 0
    (rc4Swap p.1 (UInt8.ofNat i) j, j)) (start, 0)
  ⟨mixed.1, 0, 0⟩

/-- The `n`-th byte of the keystream from a state on. -/
def Rc4.keystream (r : Rc4) (n : Nat) : UInt8 := (Rc4.step^[n + 1] r).output

/-- The comparison loop: `k` counts up to the sample size. -/
def rc4Compare (pt ct : List UInt8) : Nat → Nat → Rc4 → Bool
  | 0, _, _ => true
  | n + 1, k, r =>
    let r := r.step
    if pt.getD k 0 ^^^ r.output ≠ ct.getD k 0 then false else rc4Compare pt ct n (k + 1) r

def rc4Verify (key : List UInt8) (keyLength : Nat) (pt ct : List UInt8) (sampleSize : Nat)
    (fileOffset : UInt64) : Bool :=
  rc4Compare pt ct sampleSize 0 (Rc4.step^[fileOffset.toNat] (rc4Ksa key keyLength))

def rc4VerifyState (box : Vector UInt8 256) (si sj : UInt8) (pt ct : List UInt8)
    (sampleSize : Nat) : Bool :=
  rc4Compare pt ct sampleSize 0 ⟨box, si, sj⟩

theorem rc4Compare_true {pt ct : List UInt8} {n k : Nat} {r : Rc4}
    (h : rc4Compare pt ct n k r = true) :
    ∀ m < n, pt.getD (k + m) 0 ^^^ r.keystream m = ct.getD (k + m) 0 := by
  induction n generalizing k r with
  | zero =>
    intro m hm
    cases hm
  | succ n ih =>
    simp only [rc4Compare] at h
    split at h
    · cases h
    next hhead =>
      intro m hm
      cases m with
      | zero => exact not_not.mp hhead
      | succ m =>
        have htail := ih h m (Nat.lt_of_succ_lt_succ hm)
        rwa [Nat.add_assoc, Nat.add_comm 1 m] at htail

theorem keystream_iterate (r : Rc4) (n m : Nat) :
    (Rc4.step^[n] r).keystream m = r.keystream (n + m) := by
  simp only [Rc4.keystream, ← Function.iterate_add_apply]
  congr 2
  omega

end SemanticsAr
