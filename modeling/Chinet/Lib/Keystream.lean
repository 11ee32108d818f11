import Mathlib.Data.List.Basic
import Mathlib.Data.UInt
import Mathlib.Tactic.Ring

/-!
# Keystreams

A keystream that is made block by block and added to the data, a position of the
stream for each byte.
-/

namespace Keystream

/-- The blocks of the stream, of 64 bytes each. -/
abbrev Blocks := Nat → Vector UInt8 64

/-- The byte of the stream at a position. -/
def byteAt (ks : Blocks) (i : Nat) : UInt8 := (ks (i / 64)).get ⟨i % 64, Nat.mod_lt i (by decide)⟩

/-- The data with the stream from a position on. -/
def crypt (ks : Blocks) : Nat → List UInt8 → List UInt8
  | _, [] => []
  | i, byte :: rest => (byte ^^^ byteAt ks i) :: crypt ks (i + 1) rest

variable {ks : Blocks}

@[simp] theorem crypt_nil (i : Nat) : crypt ks i [] = [] := rfl

@[simp] theorem length_crypt (i : Nat) (data : List UInt8) :
    (crypt ks i data).length = data.length := by
  induction data generalizing i with
  | nil => rfl
  | cons byte rest ih => rw [crypt, List.length_cons, ih, List.length_cons]

theorem crypt_append (i : Nat) (a b : List UInt8) :
    crypt ks i (a ++ b) = crypt ks i a ++ crypt ks (i + a.length) b := by
  induction a generalizing i with
  | nil => rfl
  | cons byte a ih =>
      rw [List.cons_append, crypt, crypt, ih, List.cons_append, List.length_cons,
        Nat.add_assoc, Nat.add_comm 1]

/-- The stream undoes itself. -/
@[simp] theorem crypt_crypt (i : Nat) (data : List UInt8) :
    crypt ks i (crypt ks i data) = data := by
  induction data generalizing i with
  | nil => rfl
  | cons byte rest ih =>
      rw [crypt, crypt, ih, UInt8.xor_assoc, UInt8.xor_self, UInt8.xor_zero]

theorem take_crypt (i n : Nat) (data : List UInt8) :
    (crypt ks i data).take n = crypt ks i (data.take n) := by
  induction data generalizing i n with
  | nil => simp
  | cons byte rest ih =>
      cases n with
      | zero => rfl
      | succ n => rw [crypt, List.take_succ_cons, List.take_succ_cons, crypt, ih]

theorem drop_crypt (i n : Nat) (data : List UInt8) :
    (crypt ks i data).drop n = crypt ks (i + n) (data.drop n) := by
  induction data generalizing i n with
  | nil => simp
  | cons byte rest ih =>
      cases n with
      | zero => rfl
      | succ n => rw [crypt, List.drop_succ_cons, List.drop_succ_cons, ih, Nat.add_assoc,
          Nat.add_comm 1]

/-- At most one block of data with one block of the stream. -/
def cryptBlock (ks : Blocks) (block : Nat) (data : List UInt8) : List UInt8 :=
  List.zipWith (· ^^^ ·) data (ks block).toList

theorem cryptBlock_eq {block : Nat} {data : List UInt8} (h : data.length ≤ 64) :
    cryptBlock ks block data = crypt ks (64 * block) data := by
  have hget : ∀ (i : Nat) (l : List UInt8), (crypt ks i l).length = l.length := fun i l =>
    length_crypt i l
  have hbyte : ∀ (l : List UInt8) (i j : Nat) (hj : j < (crypt ks i l).length),
      (crypt ks i l)[j] = l.get ⟨j, hget i l ▸ hj⟩ ^^^ byteAt ks (i + j) := by
    intro l
    induction l with
    | nil => intro i j hj; cases hj
    | cons byte rest ih =>
        intro i j hj
        cases j with
        | zero => rfl
        | succ j =>
            simp only [crypt, List.getElem_cons_succ]
            rw [ih, show i + 1 + j = i + (j + 1) by ring]
            rfl
  have hsize : (ks block).toList.length = 64 := by simp
  refine List.ext_getElem (by simp [cryptBlock]; omega) fun j hj hj' => ?_
  have hlt : j < 64 := by
    rw [hget] at hj'
    omega
  rw [hbyte]
  simp only [cryptBlock, List.getElem_zipWith, List.get_eq_getElem]
  refine congrArg (_ ^^^ ·) ?_
  have hdiv : (64 * block + j) / 64 = block := by omega
  have hmod : (64 * block + j) % 64 = j := by omega
  simp only [byteAt, hdiv, hmod]
  rfl

end Keystream
