import Mathlib.Data.List.Induction
import Mathlib.Tactic.Ring

/-!
# Numerals of a fixed width

A number below `b ^ w` has exactly one numeral of `w` digits below `b`, the most
significant digit first.
-/

namespace FixedDigits

/-- The value of a numeral, the most significant digit first. -/
def ofDigits (b : Nat) (ds : List Nat) : Nat := ds.foldl (fun n d => n * b + d) 0

/-- The last `w` digits of a number. -/
def toDigits (b : Nat) : Nat → Nat → List Nat
  | 0, _ => []
  | w + 1, n => toDigits b w (n / b) ++ [n % b]

variable {b : Nat}

@[simp] theorem ofDigits_nil : ofDigits b [] = 0 := rfl

@[simp] theorem ofDigits_concat (ds : List Nat) (d : Nat) :
    ofDigits b (ds ++ [d]) = ofDigits b ds * b + d := by
  simp [ofDigits]

@[simp] theorem length_toDigits (w n : Nat) : (toDigits b w n).length = w := by
  induction w generalizing n with
  | zero => rfl
  | succ w ih => rw [toDigits, List.length_append, ih, List.length_singleton]

theorem toDigits_lt (hb : 0 < b) (w n : Nat) : ∀ d ∈ toDigits b w n, d < b := by
  induction w generalizing n with
  | zero =>
      intro d hd
      cases hd
  | succ w ih =>
      intro d hd
      rcases List.mem_append.mp hd with hd | hd
      · exact ih _ d hd
      · rw [List.mem_singleton.mp hd]
        exact Nat.mod_lt n hb

theorem ofDigits_lt {ds : List Nat} (hds : ∀ d ∈ ds, d < b) : ofDigits b ds < b ^ ds.length := by
  induction ds using List.reverseRecOn with
  | nil => simp
  | append_singleton ds d ih =>
      have hinit := ih fun d' hd' => hds d' (List.mem_append_left _ hd')
      have hlast := hds d (List.mem_append_right _ List.mem_cons_self)
      rw [ofDigits_concat, List.length_append, List.length_singleton, pow_succ]
      calc ofDigits b ds * b + d < ofDigits b ds * b + b := by omega
        _ = (ofDigits b ds + 1) * b := by ring
        _ ≤ b ^ ds.length * b := Nat.mul_le_mul_right b hinit

/-- A number that fits is read back from its numeral. -/
theorem ofDigits_toDigits {w n : Nat} (hn : n < b ^ w) : ofDigits b (toDigits b w n) = n := by
  induction w generalizing n with
  | zero =>
      rw [pow_zero] at hn
      rw [toDigits, ofDigits_nil]
      omega
  | succ w ih =>
      have hdiv : n / b < b ^ w := by
        rw [pow_succ, Nat.mul_comm] at hn
        exact Nat.div_lt_of_lt_mul hn
      rw [toDigits, ofDigits_concat, ih hdiv]
      exact Nat.div_add_mod' n b

/-- A numeral is written again from its value. -/
theorem toDigits_ofDigits {ds : List Nat} (hds : ∀ d ∈ ds, d < b) :
    toDigits b ds.length (ofDigits b ds) = ds := by
  induction ds using List.reverseRecOn with
  | nil => rfl
  | append_singleton ds d ih =>
      have hinit := ih fun d' hd' => hds d' (List.mem_append_left _ hd')
      have hlast := hds d (List.mem_append_right _ List.mem_cons_self)
      have hb : 0 < b := by omega
      have hdiv : (ofDigits b ds * b + d) / b = ofDigits b ds := by
        rw [Nat.mul_comm, Nat.mul_add_div hb, Nat.div_eq_of_lt hlast, Nat.add_zero]
      have hmod : (ofDigits b ds * b + d) % b = d := by
        rw [Nat.mul_comm, Nat.mul_add_mod, Nat.mod_eq_of_lt hlast]
      rw [List.length_append, List.length_singleton, toDigits, ofDigits_concat, hdiv, hmod, hinit]

end FixedDigits
