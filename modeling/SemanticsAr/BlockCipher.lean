import Mathlib.Data.Finite.Prod
import Mathlib.Data.Fintype.EquivFin
import Mathlib.Data.Fintype.Pi
import Mathlib.Data.Vector.Basic
import Mathlib.Logic.Function.Iterate

/-!
# Block ciphers

A block cipher under one fixed key is a pair of functions on blocks of `n` bytes.
All that is asked of it is that decryption inverts encryption; since there are only
finitely many blocks, encryption then inverts decryption too, which is what a search
that only ever decrypts needs in order to speak about encryption.
-/

namespace SemanticsAr

variable {n : Nat}

/-! ### Blocks of bytes -/

/-- The `n` bytes of a buffer from a position on. -/
def bytesAt (n : Nat) (buf : List UInt8) (pos : Nat) : Vector UInt8 n :=
  Vector.ofFn fun i => buf.getD (pos + i.val) 0

def xorBytes {n : Nat} (a b : Vector UInt8 n) : Vector UInt8 n :=
  Vector.ofFn fun i => a.get i ^^^ b.get i

theorem get_ofFn {α : Type} (f : Fin n → α) (i : Fin n) : (Vector.ofFn f).get i = f i :=
  Vector.getElem_ofFn i.isLt

theorem ext_get {α : Type} {a b : Vector α n} (h : ∀ i, a.get i = b.get i) : a = b := by
  apply Vector.ext
  intro i hi
  exact h ⟨i, hi⟩

theorem getD_toList (v : Vector UInt8 n) (i : Fin n) : v.toList.getD i.val 0 = v.get i := by
  have hi : i.val < v.toList.length := by simp
  rw [List.getD_eq_getElem?_getD, List.getElem?_eq_getElem hi]
  rfl

@[simp] theorem get_bytesAt (buf : List UInt8) (pos : Nat) (i : Fin n) :
    (bytesAt n buf pos).get i = buf.getD (pos + i.val) 0 :=
  get_ofFn _ i

@[simp] theorem get_xorBytes (a b : Vector UInt8 n) (i : Fin n) :
    (xorBytes a b).get i = a.get i ^^^ b.get i :=
  get_ofFn _ i

theorem toList_bytesAt_zero {l : List UInt8} (h : l.length ≤ n) :
    (bytesAt n l 0).toList = l ++ List.replicate (n - l.length) 0 := by
  apply List.ext_getElem
  · simp [h]
  · intro i hi hi'
    have hin : i < n := by simpa using hi
    have hget := getD_toList (bytesAt n l 0) ⟨i, hin⟩
    simp only [get_bytesAt, Nat.zero_add, List.getD_eq_getElem?_getD,
      List.getElem?_eq_getElem hi, Option.getD_some] at hget
    rw [hget, List.getElem_append]
    split
    next hlt =>
      rw [List.getElem?_eq_getElem hlt, Option.getD_some]
    next hge =>
      rw [List.getElem?_eq_none (Nat.not_lt.mp hge), List.getElem_replicate, Option.getD_none]

theorem xorBytes_comm (a b : Vector UInt8 n) : xorBytes a b = xorBytes b a := by
  apply ext_get
  intro i
  simp only [get_xorBytes, UInt8.xor_comm]

@[simp] theorem xorBytes_cancel (a b : Vector UInt8 n) : xorBytes (xorBytes a b) b = a := by
  apply ext_get
  intro i
  simp only [get_xorBytes, UInt8.xor_assoc, UInt8.xor_self, UInt8.xor_zero]

theorem xorBytes_eq_iff {a b c : Vector UInt8 n} : xorBytes a b = c ↔ a = xorBytes c b := by
  constructor
  · intro h
    rw [← h, xorBytes_cancel]
  · intro h
    rw [h, xorBytes_cancel]

instance finite_vector : Finite (Vector UInt8 n) := by
  apply Finite.of_injective (fun (v : Vector UInt8 n) (i : Fin n) => (v.get i).toFin)
  intro a b h
  apply ext_get
  intro i
  exact UInt8.toFin_inj.mp (congrFun h i)

/-! ### Ciphers -/

structure BlockCipher (n : Nat) where
  encrypt : Vector UInt8 n → Vector UInt8 n
  decrypt : Vector UInt8 n → Vector UInt8 n

namespace BlockCipher

variable {c : BlockCipher n}

def Lawful (c : BlockCipher n) : Prop := Function.LeftInverse c.decrypt c.encrypt

theorem Lawful.encrypt_decrypt (h : c.Lawful) (y : Vector UInt8 n) :
    c.encrypt (c.decrypt y) = y := by
  obtain ⟨x, rfl⟩ := Finite.surjective_of_injective h.injective y
  rw [h x]

/-- **Decrypting is a forward proof.** -/
theorem Lawful.decrypt_eq_iff (h : c.Lawful) {x y : Vector UInt8 n} :
    c.decrypt y = x ↔ c.encrypt x = y := by
  constructor
  · intro hdec
    rw [← hdec, h.encrypt_decrypt]
  · intro henc
    rw [← henc, h x]

theorem Lawful.encrypt_iterate_decrypt (h : c.Lawful) (k : Nat) (y : Vector UInt8 n) :
    c.encrypt^[k] (c.decrypt^[k] y) = y :=
  Function.LeftInverse.iterate h.encrypt_decrypt k y

end BlockCipher

end SemanticsAr
