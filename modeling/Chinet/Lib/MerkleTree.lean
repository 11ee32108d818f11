import Mathlib.Algebra.Group.Nat.Defs
import Mathlib.Data.List.Basic
import Mathlib.Data.Nat.Log
import Mathlib.Logic.Function.Basic

/-!
# Merkle trees

A full binary tree over `2 ^ d` leaves, and a tree over any number of leaves: as many of the
last leaves are paired first as it takes to have a power of two.  The root commits to the leaves
if the pairs that are hashed for it do not collide.
-/

namespace MerkleTree

variable {H : Type}

/-- Neighbours, pair by pair. -/
def levelPairs : List H → List (H × H)
  | a :: b :: rest => (a, b) :: levelPairs rest
  | _ => []

variable (node : H → H → H)

/-- The hashes of the pairs of neighbours. -/
def level (l : List H) : List H := (levelPairs l).map fun p => node p.1 p.2

/-- The root of the full binary tree of a depth. -/
def root : (depth : Nat) → List H → Option H
  | 0, [h] => some h
  | 0, _ => none
  | d + 1, l => do
      let left ← root d (l.take (2 ^ d))
      let right ← root d (l.drop (2 ^ d))
      return node left right

/-- The pairs that are hashed in the full binary tree of a depth. -/
def rootPairs : (depth : Nat) → List H → List (H × H)
  | 0, _ => []
  | d + 1, l => levelPairs l ++ rootPairs d (level node l)

/-! ## Levels -/

@[simp] theorem level_nil : level node [] = [] := rfl

@[simp] theorem level_cons_cons (a b : H) (rest : List H) :
    level node (a :: b :: rest) = node a b :: level node rest := rfl

theorem levelPairs_append {l : List H} {k : Nat} (hl : l.length = 2 * k) (r : List H) :
    levelPairs (l ++ r) = levelPairs l ++ levelPairs r := by
  induction k generalizing l with
  | zero =>
      rw [List.length_eq_zero_iff.mp hl]
      rfl
  | succ k ih =>
      match l, hl with
      | a :: b :: l, hl =>
          have hrest : l.length = 2 * k := by
            simp only [List.length_cons] at hl
            omega
          simp only [List.cons_append, levelPairs, ih hrest]

theorem level_append {l : List H} {k : Nat} (hl : l.length = 2 * k) (r : List H) :
    level node (l ++ r) = level node l ++ level node r := by
  rw [level, levelPairs_append hl, List.map_append]
  rfl

theorem length_level {l : List H} {k : Nat} (hl : l.length = 2 * k) :
    (level node l).length = k := by
  induction k generalizing l with
  | zero =>
      rw [List.length_eq_zero_iff.mp hl]
      rfl
  | succ k ih =>
      match l, hl with
      | a :: b :: l, hl =>
          have hrest : l.length = 2 * k := by
            simp only [List.length_cons] at hl
            omega
          rw [level_cons_cons, List.length_cons, ih hrest]

/-- The halves of a level are the levels of the halves. -/
theorem level_take_drop {l : List H} {k m : Nat} (hl : l.length = 2 * m) (hk : k ≤ m) :
    (level node l).take k = level node (l.take (2 * k)) ∧
      (level node l).drop k = level node (l.drop (2 * k)) := by
  have htake : (l.take (2 * k)).length = 2 * k := by
    rw [List.length_take]
    omega
  have hsplit : level node l = level node (l.take (2 * k)) ++ level node (l.drop (2 * k)) := by
    rw [← level_append node htake, List.take_append_drop]
  rw [hsplit]
  exact ⟨List.take_left' (length_level node htake), List.drop_left' (length_level node htake)⟩

/-! ## Full trees -/

/-- A full tree can be hashed from its leaves upwards, level by level. -/
theorem root_succ {d : Nat} {l : List H} (hl : l.length = 2 ^ (d + 1)) :
    root node (d + 1) l = root node d (level node l) := by
  induction d generalizing l with
  | zero =>
      match l, hl with
      | [a, b], _ => rfl
  | succ d ih =>
      have hpow : 2 ^ (d + 2) = 2 * 2 ^ (d + 1) ∧ 2 ^ (d + 1) = 2 * 2 ^ d :=
        ⟨Nat.pow_succ', Nat.pow_succ'⟩
      have hleft : (l.take (2 ^ (d + 1))).length = 2 ^ (d + 1) := by
        rw [List.length_take]
        omega
      have hright : (l.drop (2 ^ (d + 1))).length = 2 ^ (d + 1) := by
        rw [List.length_drop]
        omega
      obtain ⟨htake, hdrop⟩ := level_take_drop node (k := 2 ^ d) (hl.trans hpow.1) (by omega)
      rw [root, ih hleft, ih hright, root, htake, hdrop, ← hpow.2]

/-! ## Commitment -/

/-- No two of the pairs have one hash. -/
def CollisionFree (pairs : List (H × H)) : Prop :=
  ∀ p ∈ pairs, ∀ q ∈ pairs, node p.1 p.2 = node q.1 q.2 → p = q

variable {node}

theorem CollisionFree.mono {pairs pairs' : List (H × H)} (h : CollisionFree node pairs)
    (hsub : ∀ p ∈ pairs', p ∈ pairs) : CollisionFree node pairs' :=
  fun p hp q hq => h p (hsub p hp) q (hsub q hq)

theorem collisionFree_of_injective (h : Function.Injective2 node) (pairs : List (H × H)) :
    CollisionFree node pairs := by
  intro p _ q _ heq
  exact Prod.ext (h heq).1 (h heq).2

/-- Two levels of one width come from the same list. -/
theorem level_inj {l l' : List H} {k : Nat} (hl : l.length = 2 * k) (hl' : l'.length = 2 * k)
    (hfree : CollisionFree node (levelPairs l ++ levelPairs l'))
    (heq : level node l = level node l') : l = l' := by
  induction k generalizing l l' with
  | zero => rw [List.length_eq_zero_iff.mp hl, List.length_eq_zero_iff.mp hl']
  | succ k ih =>
      match l, hl, l', hl' with
      | a :: b :: l, hl, a' :: b' :: l', hl' =>
          simp only [List.length_cons] at hl hl'
          rw [level_cons_cons, level_cons_cons, List.cons.injEq] at heq
          have hpair := hfree (a, b) (by simp [levelPairs]) (a', b') (by simp [levelPairs]) heq.1
          have hfreeRest : CollisionFree node (levelPairs l ++ levelPairs l') := by
            refine hfree.mono fun p hp => ?_
            simp only [levelPairs, List.mem_append, List.mem_cons] at hp ⊢
            tauto
          have hrest := ih (by omega) (by omega) hfreeRest heq.2
          cases hpair
          rw [hrest]

/-- The root of a full tree commits to its leaves. -/
theorem root_inj {d : Nat} {l l' : List H} (hl : l.length = 2 ^ d) (hl' : l'.length = 2 ^ d)
    (hfree : CollisionFree node (rootPairs node d l ++ rootPairs node d l'))
    (heq : root node d l = root node d l') : l = l' := by
  induction d generalizing l l' with
  | zero =>
      match l, hl, l', hl' with
      | [h], _, [h'], _ => rw [Option.some.inj heq]
  | succ d ih =>
      have hlength : l.length = 2 * 2 ^ d := hl.trans Nat.pow_succ'
      have hlength' : l'.length = 2 * 2 ^ d := hl'.trans Nat.pow_succ'
      rw [root_succ node hl, root_succ node hl'] at heq
      have hlevel := ih (length_level node hlength) (length_level node hlength')
        (hfree.mono fun p hp => by simp only [rootPairs, List.mem_append] at hp ⊢; tauto) heq
      exact level_inj hlength hlength'
        (hfree.mono fun p hp => by simp only [rootPairs, List.mem_append] at hp ⊢; tauto) hlevel

/-! ## Any number of leaves -/

variable (node)

/-- The depth of the full tree: `2 ^ depth` is the largest power of two below the number of
leaves, if there are two of them. -/
def depth (count : Nat) : Nat := Nat.log2 (count - 1)

/-- The leaves that are not paired before the full tree begins. -/
def single (count : Nat) : Nat := 2 * 2 ^ depth count - count

/-- The leaves of the full tree. -/
def fullLeaves (l : List H) : List H :=
  l.take (single l.length) ++ level node (l.drop (single l.length))

/-- The root of the tree over a list. -/
def treeRoot (l : List H) : Option H := root node (depth l.length) (fullLeaves node l)

/-- The pairs that are hashed in the tree over a list. -/
def treePairs (l : List H) : List (H × H) :=
  levelPairs (l.drop (single l.length)) ++ rootPairs node (depth l.length) (fullLeaves node l)

/-- The power of two and the number of leaves. -/
theorem two_pow_depth {count : Nat} (hcount : 0 < count) :
    count ≤ 2 * 2 ^ depth count ∧ 2 ^ depth count ≤ count ∧
      (2 ≤ count → 2 ^ depth count < count) := by
  rcases Nat.lt_or_ge count 2 with hone | htwo
  · have hcount1 : count = 1 := by omega
    subst hcount1
    decide
  · have hlow := Nat.log2_self_le (show count - 1 ≠ 0 by omega)
    have hhigh := Nat.lt_log2_self (n := count - 1)
    rw [Nat.pow_succ] at hhigh
    change 2 ^ depth count ≤ count - 1 at hlow
    change count - 1 < 2 ^ depth count * 2 at hhigh
    omega

theorem length_drop_single {l : List H} (hl : l ≠ []) :
    (l.drop (single l.length)).length = 2 * (l.length - 2 ^ depth l.length) := by
  have hpow := two_pow_depth (List.length_pos_iff.mpr hl)
  rw [List.length_drop, single]
  omega

theorem length_fullLeaves {l : List H} (hl : l ≠ []) :
    (fullLeaves node l).length = 2 ^ depth l.length := by
  have hpow := two_pow_depth (List.length_pos_iff.mpr hl)
  rw [fullLeaves, List.length_append, length_level node (length_drop_single hl), List.length_take,
    single]
  omega

variable {node}

/-- The root commits to the list, for lists of one length. -/
theorem treeRoot_inj {l l' : List H} (hlength : l.length = l'.length)
    (hfree : CollisionFree node (treePairs node l ++ treePairs node l'))
    (heq : treeRoot node l = treeRoot node l') : l = l' := by
  rcases eq_or_ne l [] with rfl | hl
  · exact (List.length_eq_zero_iff.mp hlength.symm).symm
  have hl' : l' ≠ [] := by
    rintro rfl
    exact hl (List.length_eq_zero_iff.mp hlength)
  have hfull := length_fullLeaves node hl'
  have hdrop := length_drop_single hl'
  have htake : (l.take (single l.length)).length = (l'.take (single l'.length)).length := by
    rw [List.length_take, List.length_take, hlength]
  rw [treeRoot, treeRoot, hlength] at heq
  have hleaves := root_inj (hlength ▸ length_fullLeaves node hl) hfull
    (hfree.mono fun p hp => by
      simp only [treePairs, hlength, List.mem_append] at hp ⊢
      tauto) heq
  obtain ⟨hfirst, hlevel⟩ := List.append_inj hleaves htake
  have hlast := level_inj (hlength ▸ length_drop_single hl) hdrop
    (hfree.mono fun p hp => by
      simp only [treePairs, hlength, List.mem_append] at hp ⊢
      tauto) hlevel
  calc l = l.take (single l.length) ++ l.drop (single l.length) := (List.take_append_drop _ _).symm
    _ = l'.take (single l'.length) ++ l'.drop (single l'.length) := by rw [hfirst, hlast]
    _ = l' := List.take_append_drop _ _

end MerkleTree
