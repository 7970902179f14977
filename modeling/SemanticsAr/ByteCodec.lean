import Mathlib.Data.List.Basic
import Mathlib.Data.Vector.Basic
import Mathlib.Tactic.Ring

/-!
# Fixed-width byte codecs

A packed little-endian structure occupies a fixed number of bytes and every
byte string of that length is the image of exactly one value.  `FixedCodec`
records this as a pair of inverse functions between values and byte strings of
one length.  Codecs compose field by field, so a whole structure is exact in
both directions as soon as its scalar fields are: what is written is read back,
and what is read is written back to the very same bytes.
-/

namespace SemanticsAr

open List hiding Vector

/-! ### Little-endian numbers -/

/-- The `k` low-order base-256 digits of `n`, least significant first. -/
def leNat : Nat → Nat → List UInt8
  | 0, _ => []
  | k + 1, n => UInt8.ofNat (n % 256) :: leNat k (n / 256)

def leVal : List UInt8 → Nat
  | [] => 0
  | b :: bs => b.toNat + 256 * leVal bs

@[simp] theorem length_leNat (k n : Nat) : (leNat k n).length = k := by
  induction k generalizing n with
  | zero => rfl
  | succ k ih => simp [leNat, ih]

theorem leVal_leNat (k n : Nat) : leVal (leNat k n) = n % 256 ^ k := by
  induction k generalizing n with
  | zero => simp [leNat, leVal, Nat.mod_one]
  | succ k ih =>
    have hdigit : (UInt8.ofNat (n % 256)).toNat = n % 256 := by
      rw [UInt8.toNat_ofNat']; omega
    rw [leNat, leVal, ih, hdigit, pow_succ, mul_comm (256 ^ k) 256, Nat.mod_mul]

theorem leVal_lt (bs : List UInt8) : leVal bs < 256 ^ bs.length := by
  induction bs with
  | nil => simp [leVal]
  | cons b bs ih =>
    have hb : b.toNat < 256 := b.toNat_lt
    rw [leVal, length_cons, pow_succ]
    omega

theorem leNat_leVal (bs : List UInt8) : leNat bs.length (leVal bs) = bs := by
  induction bs with
  | nil => rfl
  | cons b bs ih =>
    have hb : b.toNat < 256 := b.toNat_lt
    have hmod : (b.toNat + 256 * leVal bs) % 256 = b.toNat := by omega
    have hdiv : (b.toNat + 256 * leVal bs) / 256 = leVal bs := by omega
    rw [length_cons, leNat, leVal, hmod, hdiv, ih, UInt8.ofNat_toNat]

/-! ### Codecs -/

/-- A bijection between a type and the byte strings of one length.  The fields
    `get_put` and `put_get` make a codec that loses or forges information
    impossible to build. -/
structure FixedCodec (α : Type) where
  width : Nat
  put : α → List UInt8
  get : List UInt8 → α
  put_length : ∀ a, (put a).length = width
  get_put : ∀ a, get (put a) = a
  put_get : ∀ bs, bs.length = width → put (get bs) = bs

namespace FixedCodec

variable {α β : Type} {c : FixedCodec α} {a : α} {rest : List UInt8}

attribute [simp] put_length get_put

theorem put_injective : Function.Injective c.put := by
  intro a b h
  rw [← c.get_put a, h, c.get_put]

theorem get_take_put : c.get ((c.put a ++ rest).take c.width) = a := by
  rw [take_left' (c.put_length a), c.get_put]

theorem drop_put : (c.put a ++ rest).drop c.width = rest :=
  drop_left' (c.put_length a)

def iso (c : FixedCodec α) (f : α → β) (g : β → α) (hfg : ∀ b, f (g b) = b)
    (hgf : ∀ a, g (f a) = a) : FixedCodec β where
  width := c.width
  put b := c.put (g b)
  get bs := f (c.get bs)
  put_length b := c.put_length (g b)
  get_put b := by rw [c.get_put, hfg]
  put_get bs h := by rw [hgf, c.put_get bs h]

def pair (c : FixedCodec α) (d : FixedCodec β) : FixedCodec (α × β) where
  width := c.width + d.width
  put p := c.put p.1 ++ d.put p.2
  get bs := (c.get (bs.take c.width), d.get (bs.drop c.width))
  put_length p := by rw [length_append, c.put_length, d.put_length]
  get_put p := by rw [c.get_take_put, c.drop_put, d.get_put]
  put_get bs h := by
    have htake : (bs.take c.width).length = c.width := by
      rw [length_take]; omega
    have hdrop : (bs.drop c.width).length = d.width := by
      rw [length_drop]; omega
    rw [c.put_get _ htake, d.put_get _ hdrop, take_append_drop]

/-! ### Arrays of a fixed length -/

def putList (c : FixedCodec α) : List α → List UInt8
  | [] => []
  | a :: as => c.put a ++ c.putList as

/-- Read `n` consecutive elements. -/
def getList (c : FixedCodec α) : Nat → List UInt8 → List α
  | 0, _ => []
  | n + 1, bs => c.get (bs.take c.width) :: c.getList n (bs.drop c.width)

@[simp] theorem length_putList (as : List α) : (c.putList as).length = as.length * c.width := by
  induction as with
  | nil => simp [putList]
  | cons a as ih => simp [putList, ih]; ring

@[simp] theorem length_getList (n : Nat) (bs : List UInt8) : (c.getList n bs).length = n := by
  induction n generalizing bs with
  | zero => rfl
  | succ n ih => simp [getList, ih]

theorem getList_putList (as : List α) : c.getList as.length (c.putList as) = as := by
  induction as with
  | nil => rfl
  | cons a as ih =>
    rw [length_cons, getList, putList, c.get_take_put, c.drop_put, ih]

theorem putList_getList (c : FixedCodec α) (n : Nat) (bs : List UInt8)
    (h : bs.length = n * c.width) : c.putList (c.getList n bs) = bs := by
  induction n generalizing bs with
  | zero =>
    have hnil : bs = [] := length_eq_zero_iff.mp (by simpa using h)
    subst hnil; rfl
  | succ n ih =>
    rw [Nat.succ_mul] at h
    have htake : (bs.take c.width).length = c.width := by
      rw [length_take]; omega
    have hdrop : (bs.drop c.width).length = n * c.width := by
      rw [length_drop]; omega
    rw [getList, putList, c.put_get _ htake, ih _ hdrop, take_append_drop]

/-- An array of exactly `n` elements. -/
def vec (c : FixedCodec α) (n : Nat) : FixedCodec (Vector α n) where
  width := n * c.width
  put v := c.putList v.toList
  get bs := ⟨(c.getList n bs).toArray, by simp⟩
  put_length v := by simp
  get_put v := by
    have h := c.getList_putList v.toList
    rw [Vector.length_toList] at h
    apply Vector.toArray_inj.mp
    show (c.getList n (c.putList v.toList)).toArray = v.toArray
    rw [h, Vector.toList, Array.toArray_toList]
  put_get bs h := by
    show c.putList (c.getList n bs) = bs
    exact c.putList_getList n bs h

/-! ### Scalar fields -/

def u8 : FixedCodec UInt8 where
  width := 1
  put b := [b]
  get bs := bs.headD 0
  put_length _ := rfl
  get_put _ := rfl
  put_get bs h := by
    obtain ⟨b, rfl⟩ := length_eq_one_iff.mp h
    rfl

def u16 : FixedCodec UInt16 where
  width := 2
  put x := leNat 2 x.toNat
  get bs := UInt16.ofNat (leVal bs)
  put_length _ := length_leNat _ _
  get_put x := by
    rw [leVal_leNat, Nat.mod_eq_of_lt (by simpa using x.toNat_lt), UInt16.ofNat_toNat]
  put_get bs h := by
    have hlt := leVal_lt bs
    rw [h] at hlt
    rw [UInt16.toNat_ofNat', Nat.mod_eq_of_lt (by simpa using hlt), ← h, leNat_leVal]

def u32 : FixedCodec UInt32 where
  width := 4
  put x := leNat 4 x.toNat
  get bs := UInt32.ofNat (leVal bs)
  put_length _ := length_leNat _ _
  get_put x := by
    rw [leVal_leNat, Nat.mod_eq_of_lt (by simpa using x.toNat_lt), UInt32.ofNat_toNat]
  put_get bs h := by
    have hlt := leVal_lt bs
    rw [h] at hlt
    rw [UInt32.toNat_ofNat', Nat.mod_eq_of_lt (by simpa using hlt), ← h, leNat_leVal]

def u64 : FixedCodec UInt64 where
  width := 8
  put x := leNat 8 x.toNat
  get bs := UInt64.ofNat (leVal bs)
  put_length _ := length_leNat _ _
  get_put x := by
    rw [leVal_leNat, Nat.mod_eq_of_lt (by simpa using x.toNat_lt), UInt64.ofNat_toNat]
  put_get bs h := by
    have hlt := leVal_lt bs
    rw [h] at hlt
    rw [UInt64.toNat_ofNat', Nat.mod_eq_of_lt (by simpa using hlt), ← h, leNat_leVal]

end FixedCodec

end SemanticsAr
