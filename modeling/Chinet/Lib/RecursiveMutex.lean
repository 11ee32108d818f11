import Mathlib.Logic.Basic

/-!
# Recursive mutexes

A mutex that its holder may take again, and that is free after as many releases.
-/

/-- The holder, if there is one, with the number of times it has taken the mutex
again. -/
structure RecursiveMutex (θ : Type) where
  holder : Option (θ × Nat)

namespace RecursiveMutex

variable {θ : Type} [DecidableEq θ]

def free : RecursiveMutex θ := ⟨none⟩

/-- The number of times that a thread holds the mutex. -/
def held (m : RecursiveMutex θ) (t : θ) : Nat :=
  match m.holder with
  | none => 0
  | some (u, again) => if u = t then again + 1 else 0

/-- Nothing if the thread has to wait. -/
def lock (t : θ) (m : RecursiveMutex θ) : Option (RecursiveMutex θ) :=
  match m.holder with
  | none => some ⟨some (t, 0)⟩
  | some (u, again) => if u = t then some ⟨some (t, again + 1)⟩ else none

/-- Nothing if the thread does not hold the mutex. -/
def unlock (t : θ) (m : RecursiveMutex θ) : Option (RecursiveMutex θ) :=
  match m.holder with
  | none => none
  | some (u, 0) => if u = t then some free else none
  | some (u, again + 1) => if u = t then some ⟨some (t, again)⟩ else none

theorem held_of_lock {m m' : RecursiveMutex θ} {t : θ} (h : m.lock t = some m') (u : θ) :
    m'.held u = m.held u + if u = t then 1 else 0 := by
  cases m with
  | mk holder =>
      cases holder with
      | none =>
          obtain rfl := Option.some.inj h
          by_cases hut : t = u
          · simp [held, hut]
          · simp [held, hut, Ne.symm hut]
      | some w =>
          obtain ⟨v, again⟩ := w
          simp only [lock] at h
          by_cases hv : v = t
          · rw [if_pos hv] at h
            obtain rfl := Option.some.inj h
            by_cases hut : t = u
            · simp [held, hv, hut]
            · simp [held, hv, hut, Ne.symm hut]
          · rw [if_neg hv] at h
            cases h

theorem held_of_unlock {m m' : RecursiveMutex θ} {t : θ} (h : m.unlock t = some m') (u : θ) :
    m.held u = m'.held u + if u = t then 1 else 0 := by
  cases m with
  | mk holder =>
      cases holder with
      | none => cases h
      | some w =>
          obtain ⟨v, again⟩ := w
          by_cases hv : v = t
          · subst hv
            cases again with
            | zero =>
                simp only [unlock, if_true] at h
                obtain rfl := Option.some.inj h
                by_cases hut : v = u
                · simp [held, free, hut]
                · simp [held, free, hut, Ne.symm hut]
            | succ again =>
                simp only [unlock, if_true] at h
                obtain rfl := Option.some.inj h
                by_cases hut : v = u
                · simp [held, hut]
                · simp [held, hut, Ne.symm hut]
          · cases again with
            | zero =>
                simp only [unlock, if_neg hv] at h
                cases h
            | succ again =>
                simp only [unlock, if_neg hv] at h
                cases h

/-- Whoever holds the mutex may release it. -/
theorem exists_unlock {m : RecursiveMutex θ} {t : θ} (h : 0 < m.held t) :
    ∃ m', m.unlock t = some m' := by
  cases m with
  | mk holder =>
      cases holder with
      | none => exact absurd h (Nat.lt_irrefl 0)
      | some w =>
          obtain ⟨v, again⟩ := w
          have hv : v = t := by
            by_cases hv : v = t
            · exact hv
            · simp [held, hv] at h
          subst hv
          cases again with
          | zero => exact ⟨free, if_pos rfl⟩
          | succ again => exact ⟨⟨some (v, again)⟩, if_pos rfl⟩

theorem unlock_eq_none {m : RecursiveMutex θ} {t : θ} (h : m.held t = 0) : m.unlock t = none := by
  cases hm : m.unlock t with
  | none => rfl
  | some m' =>
      have hheld := held_of_unlock hm t
      rw [if_pos rfl] at hheld
      omega

end RecursiveMutex
