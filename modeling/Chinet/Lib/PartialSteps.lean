import Mathlib.Data.List.Basic

/-!
# Steps that may be undefined

A computation in which an access outside of a list, a division by zero, a wrong
alternative of a variant or a failed assertion ends the run.  A program written with these
steps is defined on an input when its result there is `ok`.
-/

namespace PartialSteps

/-- What ends a run. -/
inductive Undefined
  | indexOutOfRange
  | divisionByZero
  | badGet
  | assertionFailed
deriving DecidableEq, Repr

abbrev Defined := Except Undefined

def readAt {α : Type} (xs : List α) (i : Nat) : Defined α :=
  match xs[i]? with
  | some x => .ok x
  | none => .error .indexOutOfRange

def divide (a b : Nat) : Defined Nat :=
  if b = 0 then .error .divisionByZero else .ok (a / b)

def assert (cond : Bool) : Defined Unit :=
  if cond then .ok () else .error .assertionFailed

theorem ok_bind {α β : Type} (a : α) (f : α → Defined β) : (.ok a >>= f) = f a := rfl

theorem getD_of_lt {α : Type} {xs : List α} {i : Nat} (h : i < xs.length) (d : α) :
    xs.getD i d = xs[i] := by
  rw [List.getD_eq_getElem?_getD, List.getElem?_eq_getElem h, Option.getD_some]

theorem readAt_eq_ok {α : Type} {xs : List α} {i : Nat} (h : i < xs.length) (d : α) :
    readAt xs i = .ok (xs.getD i d) := by
  rw [readAt, List.getElem?_eq_getElem h, getD_of_lt h]

theorem divide_eq_ok {a b : Nat} (hb : b ≠ 0) : divide a b = .ok (a / b) := if_neg hb

theorem assert_eq_ok {cond : Bool} (h : cond = true) : assert cond = .ok () := if_pos h

theorem map_eq_error_iff {ε α β : Type} {f : α → β} {x : Except ε α} {e : ε} :
    x.map f = .error e ↔ x = .error e := by
  cases x <;> simp [Except.map]

theorem map_eq_ok_iff {ε α β : Type} {f : α → β} {x : Except ε α} {b : β} :
    x.map f = .ok b ↔ ∃ a, x = .ok a ∧ f a = b := by
  cases x <;> simp [Except.map]

/-- A step that is defined on each element is defined on the list. -/
theorem mapM_eq_ok {ε α β : Type} {f : α → Except ε β} {g : α → β} {xs : List α}
    (h : ∀ x ∈ xs, f x = .ok (g x)) : xs.mapM f = .ok (xs.map g) := by
  induction xs with
  | nil => rfl
  | cons x xs ih =>
      rw [List.mapM_cons, h x List.mem_cons_self, ih fun y hy => h y (List.mem_cons_of_mem x hy)]
      rfl

end PartialSteps
