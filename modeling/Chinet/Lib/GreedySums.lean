import Mathlib.Algebra.GroupWithZero.Nat
import Mathlib.Algebra.Order.BigOperators.Group.List
import Mathlib.Algebra.Order.Group.Nat
import Mathlib.Data.List.Perm.Basic

/-!
# Greedy sums

To reach a needed sum, a greedy choice takes the least amount that completes it or, when there is
none, the largest one, and goes on from there.  So what it takes is a group of the largest
amounts and then the least one of the rest that completes the sum.

`StaysBelow` says of the amounts alone that this last sum is below a bound; a choice of a largest
amount keeps it (`staysBelow_largest`), and a choice that completes the sum decides it
(`staysBelow_completes`).
-/

namespace GreedySums

/-- The least amount of the rest that completes the needed sum. -/
structure Completes (needed found : Nat) (rest : List Nat) (amount : Nat) : Prop where
  mem : amount ∈ rest
  enough : needed ≤ found + amount
  least : ∀ other ∈ rest, needed ≤ found + other → amount ≤ other

/-- Whatever group of the largest amounts is short of the needed sum, the least amount that
completes it stays below the bound. -/
def StaysBelow (bound needed found : Nat) (amounts : List Nat) : Prop :=
  ∀ top rest, amounts.Perm (top ++ rest) → (∀ t ∈ top, ∀ r ∈ rest, r ≤ t) →
    found + top.sum < needed → ∀ amount, Completes needed (found + top.sum) rest amount →
      found + top.sum + amount < bound

variable {bound needed found : Nat} {amounts rest : List Nat} {amount : Nat}

theorem StaysBelow.perm {amounts' : List Nat} (hperm : amounts.Perm amounts') :
    StaysBelow bound needed found amounts ↔ StaysBelow bound needed found amounts' := by
  constructor
  · intro h top rest hsplit
    exact h top rest (hperm.trans hsplit)
  · intro h top rest hsplit
    exact h top rest (hperm.symm.trans hsplit)

/-- With the needed sum found, or with nothing left, no sum follows. -/
theorem staysBelow_enough (h : needed ≤ found) : StaysBelow bound needed found amounts := by
  intro top rest _ _ hless
  omega

theorem staysBelow_nil : StaysBelow bound needed found [] := by
  intro top rest hperm _ _ amount hcompletes
  have hnil := List.append_eq_nil_iff.mp hperm.nil_eq.symm
  have hmem := hcompletes.mem
  rw [hnil.2] at hmem
  cases hmem

/-- The least amount that completes the sum decides. -/
theorem staysBelow_completes (hless : found < needed) (h : Completes needed found amounts amount) :
    StaysBelow bound needed found amounts ↔ found + amount < bound := by
  constructor
  · intro hstays
    exact hstays [] amounts (List.Perm.refl _) (fun _ ht => absurd ht List.not_mem_nil) hless amount h
  · intro hbelow top rest hperm hlargest hshort other hother
    cases top with
    | nil =>
        -- nothing is taken before: both are the least that completes the sum
        have hmem : amount ∈ rest := hperm.mem_iff.mp h.mem
        have hle := hother.least amount hmem h.enough
        change found + 0 + other < bound
        omega
    | cons t top =>
        have hle : amount ≤ (t :: top).sum := by
          rcases List.mem_append.mp (hperm.mem_iff.mp h.mem) with htop | hrest
          · exact List.single_le_sum (fun _ _ => Nat.zero_le _) _ htop
          · exact (hlargest t List.mem_cons_self amount hrest).trans
              (List.single_le_sum (fun _ _ => Nat.zero_le _) _ List.mem_cons_self)
        have henough := h.enough
        omega

/-- A largest amount that does not complete the sum may be taken first. -/
theorem staysBelow_largest (hperm : amounts.Perm (amount :: rest)) (hlargest : ∀ r ∈ rest, r ≤ amount)
    (hshort : found + amount < needed) :
    StaysBelow bound needed found amounts ↔ StaysBelow bound needed (found + amount) rest := by
  constructor
  · intro h top rest' hsplit hordered hless other hother
    have hsum : (amount :: top).sum = amount + top.sum := List.sum_cons
    have hall : amounts.Perm ((amount :: top) ++ rest') := hperm.trans (hsplit.cons amount)
    have hordered' : ∀ t ∈ amount :: top, ∀ r ∈ rest', r ≤ t := by
      intro t ht r hr
      rcases List.mem_cons.mp ht with rfl | htop
      · exact hlargest r (hsplit.mem_iff.mpr (List.mem_append_right top hr))
      · exact hordered t htop r hr
    have hresult := h (amount :: top) rest' hall hordered' (by omega) other
    rw [hsum, ← Nat.add_assoc] at hresult
    exact hresult hother
  · intro h top rest' hsplit hordered hless other hother
    have hle : ∀ r ∈ amounts, r ≤ amount := by
      intro r hr
      rcases List.mem_cons.mp (hperm.mem_iff.mp hr) with rfl | hrest
      · exact le_rfl
      · exact hlargest r hrest
    cases top with
    | nil =>
        have hother' := hle other (hsplit.mem_iff.mpr (List.mem_append_right _ hother.mem))
        have henough := hother.enough
        change needed ≤ found + 0 + other at henough
        omega
    | cons t top =>
        -- the amount is the largest one, hence among those taken
        have hmem : amount ∈ t :: top := by
          have hsomewhere : amount ∈ (t :: top) ++ rest' :=
            hsplit.mem_iff.mp (hperm.mem_iff.mpr List.mem_cons_self)
          rcases List.mem_append.mp hsomewhere with htop | hrest
          · exact htop
          · have hup := hordered t List.mem_cons_self amount hrest
            have hdown := hle t (hsplit.mem_iff.mpr (List.mem_append_left _ List.mem_cons_self))
            exact le_antisymm hup hdown ▸ List.mem_cons_self
        have htop := List.perm_cons_erase hmem
        have hsum : (t :: top).sum = amount + ((t :: top).erase amount).sum := by
          rw [htop.sum_eq, List.sum_cons]
        have hrest : rest.Perm ((t :: top).erase amount ++ rest') := by
          apply (List.perm_cons amount).mp
          exact hperm.symm.trans (hsplit.trans (htop.append_right rest'))
        rw [hsum, ← Nat.add_assoc] at hless hother ⊢
        apply h _ rest' hrest _ hless other hother
        intro t' ht' r hr
        exact hordered t' (List.mem_of_mem_erase ht') r hr

end GreedySums
