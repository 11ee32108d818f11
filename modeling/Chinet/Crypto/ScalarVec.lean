import Mathlib.Algebra.BigOperators.Group.List.Basic
import Mathlib.Algebra.BigOperators.Ring.Finset
import Mathlib.Algebra.Field.ZMod
import Mathlib.Data.List.GetD
import Mathlib.Tactic.Ring

/-!
# Vectors of scalars

`scalar_vec_t::invert` inverts all elements with one inversion in the field: for each element it
has the product of the elements in front of it and that of the elements behind it, and the inverse
of the product of all of them takes these away.

`sum_of_powers` doubles the number of its terms with each turn.
-/

/-! ## `range_proofs.h` -/

namespace Chinet.RangeProofs

/-- The loop keeps the sum so far and the power `x ^ (2 ^ i)`. -/
def sumOfPowers {F : Type*} [Field F] (x : F) (f : ℕ) : F :=
  ((fun s : F × F => (s.1 * s.2 + s.1, s.2 * s.2))^[f] (x, x)).1

end Chinet.RangeProofs

namespace Chinet.ScalarVec

variable {F : Type*} [Field F]

/-! ## `invert` -/

/-- The loop that fills `muls`, with `count` turns left. -/
def mulsLoop (v : List F) : (count i : ℕ) → List F → List F
  | 0, _, muls => muls
  | count + 1, i, muls => mulsLoop v count (i + 1) (muls.set (i + 1) (v.getD i 0 * muls.getD i 0))

/-- The loop that fills `muls_rev`, from `i` down. -/
def mulsRevLoop (v : List F) : (i : ℕ) → List F → List F
  | 0, mulsRev => mulsRev
  | i + 1, mulsRev => mulsRevLoop v i (mulsRev.set i (v.getD (i + 1) 0 * mulsRev.getD (i + 1) 0))

/-- `scalar_vec_t::invert`. -/
def invert (v : List F) : List F :=
  let size := v.length
  if size < 2 then if size = 1 then [(v.getD 0 0)⁻¹] else v
  else
    let muls := mulsLoop v (size - 1) 0 ((List.replicate size 0).set 0 1)
    let mulsRev := mulsRevLoop v (size - 1) ((List.replicate size 0).set (size - 1) 1)
    let inv := (muls.getD (size - 1) 0 * v.getD (size - 1) 0)⁻¹
    (List.range size).map fun i => muls.getD i 0 * inv * mulsRev.getD i 0

/-! ### The two passes -/

theorem prod_take_succ {v : List F} {i : ℕ} (h : i < v.length) :
    (v.take (i + 1)).prod = v.getD i 0 * (v.take i).prod := by
  rw [List.prod_take_succ v i h, List.getD_eq_getElem v 0 h, mul_comm]

theorem prod_drop {v : List F} {i : ℕ} (h : i < v.length) :
    (v.drop i).prod = v.getD i 0 * (v.drop (i + 1)).prod := by
  rw [List.drop_eq_getElem_cons h, List.prod_cons, List.getD_eq_getElem v 0 h]

/-- The forward pass: up to `i`, each entry is the product of the elements in front of it. -/
theorem mulsLoop_spec {v : List F} (count : ℕ) {i : ℕ} {muls : List F}
    (hlength : muls.length = v.length) (hroom : i + count < v.length)
    (hmuls : ∀ k ≤ i, muls.getD k 0 = (v.take k).prod) :
    ∀ k ≤ i + count, (mulsLoop v count i muls).getD k 0 = (v.take k).prod := by
  induction count generalizing i muls with
  | zero => exact hmuls
  | succ count ih =>
      have hnext : ∀ k ≤ i + 1,
          (muls.set (i + 1) (v.getD i 0 * muls.getD i 0)).getD k 0 = (v.take k).prod := by
        intro k hk
        rw [List.getD_eq_getElem?_getD, List.getElem?_set]
        rcases Nat.lt_or_ge k (i + 1) with hlt | hge
        · rw [if_neg (by omega), ← List.getD_eq_getElem?_getD]
          exact hmuls k (by omega)
        · have heq : k = i + 1 := by omega
          subst heq
          rw [if_pos rfl, if_pos (by omega), Option.getD_some, hmuls i le_rfl,
            prod_take_succ (by omega)]
      intro k hk
      rw [mulsLoop]
      exact ih (by rw [List.length_set, hlength]) (by omega) hnext k (by omega)

/-- The backward pass: from `i` on, each entry is the product of the elements behind it. -/
theorem mulsRevLoop_spec {v : List F} {i : ℕ} {mulsRev : List F}
    (hlength : mulsRev.length = v.length) (hroom : i < v.length)
    (hmuls : ∀ k, i ≤ k → k < v.length → mulsRev.getD k 0 = (v.drop (k + 1)).prod) :
    ∀ k < v.length, (mulsRevLoop v i mulsRev).getD k 0 = (v.drop (k + 1)).prod := by
  induction i generalizing mulsRev with
  | zero => exact fun k hk => hmuls k (Nat.zero_le k) hk
  | succ i ih =>
      rw [mulsRevLoop]
      refine ih (by rw [List.length_set, hlength]) (by omega) fun k hk hkv => ?_
      rw [List.getD_eq_getElem?_getD, List.getElem?_set]
      rcases Nat.lt_or_ge i k with hlt | hge
      · rw [if_neg (by omega), ← List.getD_eq_getElem?_getD]
        exact hmuls k hlt hkv
      · have heq : i = k := by omega
        subst heq
        rw [if_pos rfl, if_pos (by omega), Option.getD_some, hmuls (i + 1) le_rfl hroom,
          prod_drop hroom]

/-- What is left of the inverse of the whole product. -/
theorem inverse_of_products {v : List F} (hv : ∀ x ∈ v, x ≠ 0) {i : ℕ} (h : i < v.length) :
    (v.take i).prod * v.prod⁻¹ * (v.drop (i + 1)).prod = (v.getD i 0)⁻¹ := by
  have hprod : v.prod ≠ 0 := fun hzero => hv 0 (List.prod_eq_zero_iff.mp hzero) rfl
  have hsplit : v.prod = (v.take i).prod * (v.getD i 0 * (v.drop (i + 1)).prod) := by
    rw [← prod_drop h, List.prod_take_mul_prod_drop]
  apply eq_inv_of_mul_eq_one_left
  calc (v.take i).prod * v.prod⁻¹ * (v.drop (i + 1)).prod * v.getD i 0
      = v.prod⁻¹ * ((v.take i).prod * (v.getD i 0 * (v.drop (i + 1)).prod)) := by ring
    _ = v.prod⁻¹ * v.prod := by rw [← hsplit]
    _ = 1 := inv_mul_cancel₀ hprod

/-- Every element is inverted. -/
theorem invert_eq {v : List F} (hv : ∀ x ∈ v, x ≠ 0) : invert v = v.map (·⁻¹) := by
  rw [invert]
  dsimp only
  split
  · rename_i hsmall
    match v with
    | [] => rfl
    | [x] => rfl
  · rename_i hsize
    have hmuls : ∀ k ≤ 0 + (v.length - 1), (mulsLoop v (v.length - 1) 0
        ((List.replicate v.length 0).set 0 1)).getD k 0 = (v.take k).prod := by
      refine mulsLoop_spec _ (by simp) (by omega) fun k hk => ?_
      rw [Nat.le_zero.mp hk, List.getD_eq_getElem?_getD, List.getElem?_set_self (by simp; omega)]
      rfl
    have hmulsRev : ∀ k < v.length, (mulsRevLoop v (v.length - 1)
        ((List.replicate v.length 0).set (v.length - 1) 1)).getD k 0 = (v.drop (k + 1)).prod := by
      refine mulsRevLoop_spec (by simp) (by omega) fun k hk hkv => ?_
      have heq : k = v.length - 1 := by omega
      rw [heq, List.getD_eq_getElem?_getD, List.getElem?_set_self (by simp; omega),
        List.drop_of_length_le (by omega)]
      rfl
    -- the last product of the forward pass, with the last element
    have hall : (mulsLoop v (v.length - 1) 0 ((List.replicate v.length 0).set 0 1)).getD
        (v.length - 1) 0 * v.getD (v.length - 1) 0 = v.prod := by
      rw [hmuls (v.length - 1) (by omega), mul_comm, ← prod_take_succ (by omega),
        List.take_of_length_le (by omega)]
    apply List.ext_getElem (by simp)
    intro i hi hi'
    have hlt : i < v.length := by simpa using hi
    rw [List.getElem_map, List.getElem_range, List.getElem_map, hmuls i (by omega), hall,
      hmulsRev i hlt, inverse_of_products hv hlt, List.getD_eq_getElem v 0 hlt]

/-! ## `sum_of_powers` -/

open RangeProofs (sumOfPowers)

/-- After `f` turns the sum has `2 ^ f` terms, and the power is the next to last of the doubled
sum. -/
theorem sumOfPowers_loop (x : F) (f : ℕ) :
    (fun s : F × F => (s.1 * s.2 + s.1, s.2 * s.2))^[f] (x, x) =
      (∑ k ∈ Finset.range (2 ^ f), x ^ (k + 1), x ^ 2 ^ f) := by
  induction f with
  | zero => simp
  | succ f ih =>
      rw [Function.iterate_succ_apply', ih]
      dsimp only
      have hupper : (∑ k ∈ Finset.range (2 ^ f), x ^ (k + 1)) * x ^ 2 ^ f =
          ∑ k ∈ Finset.range (2 ^ f), x ^ (2 ^ f + k + 1) := by
        rw [Finset.sum_mul]
        refine Finset.sum_congr rfl fun k _ => ?_
        rw [← pow_add, Nat.add_comm, Nat.add_assoc]
      rw [hupper, ← pow_add, ← Nat.two_mul, ← Nat.pow_succ', Nat.pow_succ', Nat.two_mul,
        Finset.sum_range_add, add_comm]

theorem sumOfPowers_eq (x : F) (f : ℕ) :
    sumOfPowers x f = ∑ k ∈ Finset.range (2 ^ f), x ^ (k + 1) := by
  rw [sumOfPowers, sumOfPowers_loop]

/-! ## Batched and plain -/

/-- The batched arithmetic gives what the plain one gives. -/
theorem batched_equals_plain {v : List F} (hv : ∀ x ∈ v, x ≠ 0) (x : F) (f : ℕ) :
    invert v = v.map (·⁻¹) ∧ sumOfPowers x f = ∑ k ∈ Finset.range (2 ^ f), x ^ (k + 1) :=
  ⟨invert_eq hv, sumOfPowers_eq x f⟩

instance factPrimeSeven : Fact (Nat.Prime 7) := ⟨by decide⟩

theorem batched_equals_plain_sample :
    (∀ x ∈ ([3, 5, 6] : List (ZMod 7)), x ≠ 0) ∧
      invert ([3, 5, 6] : List (ZMod 7)) = [3, 5, 6].map (·⁻¹) ∧
      sumOfPowers (3 : ZMod 7) 2 = ∑ k ∈ Finset.range (2 ^ 2), (3 : ZMod 7) ^ (k + 1) :=
  ⟨by decide, batched_equals_plain (by decide) 3 2⟩

end Chinet.ScalarVec
