import Mathlib.Data.List.Basic
import Mathlib.Order.Defs.Unbundled

/-!
# Computations that may fail half-way

A `Procedure` reads and writes a state and may stop with an error.  An error keeps
the state that was reached: nothing is rolled back unless a caller does so.
The lemmas say what it takes for a composed procedure to end in a given way, so
that proofs take a run apart step by step.
-/

/-- A computation over the state `σ` that returns `α` or an error `ε`. -/
def Procedure (ε σ α : Type) := σ → Except ε α × σ

namespace Procedure

variable {ε σ τ α β : Type}

protected def pure (a : α) : Procedure ε σ α := fun s => (.ok a, s)

protected def bind (x : Procedure ε σ α) (f : α → Procedure ε σ β) : Procedure ε σ β := fun s =>
  match x s with
  | (.ok a, s') => f a s'
  | (.error e, s') => (.error e, s')

instance : Monad (Procedure ε σ) where
  pure := Procedure.pure
  bind := Procedure.bind

def fail (e : ε) : Procedure ε σ α := fun s => (.error e, s)

/-- A check of the state that changes nothing. -/
def check (f : σ → Except ε α) : Procedure ε σ α := fun s => (f s, s)

def gets (f : σ → α) : Procedure ε σ α := fun s => (.ok (f s), s)

def modify (f : σ → σ) : Procedure ε σ Unit := fun s => (.ok (), f s)

/-- Run a procedure on a part of the state. -/
def onPart (get : σ → τ) (set : τ → σ → σ) (x : Procedure ε τ α) : Procedure ε σ α := fun s =>
  ((x (get s)).1, set (x (get s)).2 s)

/-- An error of `x` passes, after `undo` has been applied to the state that it leaves. -/
def onFailure (x : Procedure ε σ α) (undo : σ → σ) : Procedure ε σ α := fun s =>
  match x s with
  | (.ok a, s') => (.ok a, s')
  | (.error e, s') => (.error e, undo s')

def forEach (f : α → Procedure ε σ Unit) : List α → Procedure ε σ Unit
  | [] => pure ()
  | a :: rest => do
      f a
      forEach f rest

/-! ## How a procedure ends -/

@[simp] theorem pure_apply (a : α) (s : σ) : (pure a : Procedure ε σ α) s = (.ok a, s) := rfl

@[simp] theorem fail_apply (e : ε) (s : σ) : (fail e : Procedure ε σ α) s = (.error e, s) := rfl

@[simp] theorem check_apply (f : σ → Except ε α) (s : σ) : check f s = (f s, s) := rfl

@[simp] theorem gets_apply (f : σ → α) (s : σ) : (gets f : Procedure ε σ α) s = (.ok (f s), s) := rfl

@[simp] theorem modify_apply (f : σ → σ) (s : σ) :
    (modify f : Procedure ε σ Unit) s = (.ok (), f s) := rfl

theorem onPart_apply (get : σ → τ) (set : τ → σ → σ) (x : Procedure ε τ α) (s : σ) :
    onPart get set x s = ((x (get s)).1, set (x (get s)).2 s) := rfl

theorem bind_apply (x : Procedure ε σ α) (f : α → Procedure ε σ β) (s : σ) :
    (x >>= f) s = match x s with
      | (.ok a, s') => f a s'
      | (.error e, s') => (.error e, s') := rfl

/-- A sequence succeeds when both parts do. -/
theorem bind_ok_iff {x : Procedure ε σ α} {f : α → Procedure ε σ β} {s s'' : σ} {b : β} :
    (x >>= f) s = (.ok b, s'') ↔ ∃ a s', x s = (.ok a, s') ∧ f a s' = (.ok b, s'') := by
  rw [bind_apply]
  rcases hx : x s with ⟨_ | a, s'⟩ <;> simp

/-- A sequence fails in its first part or, after that, in its second. -/
theorem bind_error_iff {x : Procedure ε σ α} {f : α → Procedure ε σ β} {s s'' : σ} {e : ε} :
    (x >>= f) s = (.error e, s'') ↔
      x s = (.error e, s'') ∨ ∃ a s', x s = (.ok a, s') ∧ f a s' = (.error e, s'') := by
  rw [bind_apply]
  rcases hx : x s with ⟨_ | a, s'⟩ <;> simp

theorem bind_of_ok {x : Procedure ε σ α} {f : α → Procedure ε σ β} {s s' : σ} {a : α}
    (h : x s = (.ok a, s')) : (x >>= f) s = f a s' := by
  rw [bind_apply, h]

theorem bind_of_error {x : Procedure ε σ α} {f : α → Procedure ε σ β} {s s' : σ} {e : ε}
    (h : x s = (.error e, s')) : (x >>= f) s = (.error e, s') := by
  rw [bind_apply, h]

@[simp] theorem check_bind_ok_iff {g : σ → Except ε α} {f : α → Procedure ε σ β} {s s' : σ} {b : β} :
    (check g >>= f) s = (.ok b, s') ↔ ∃ a, g s = .ok a ∧ f a s = (.ok b, s') := by
  rw [bind_ok_iff]
  simp

/-- After a check, either nothing has happened or the rest runs in the same state. -/
theorem check_bind_elim {motive : Except ε β × σ → Prop} {g : σ → Except ε α}
    {f : α → Procedure ε σ β} {s : σ} (herror : ∀ e, g s = .error e → motive (.error e, s))
    (hok : ∀ a, g s = .ok a → motive (f a s)) : motive ((check g >>= f) s) := by
  rw [bind_apply, check_apply]
  cases hg : g s with
  | error e => exact herror e hg
  | ok a => exact hok a hg

@[simp] theorem gets_bind (g : σ → α) (f : α → Procedure ε σ β) (s : σ) :
    (gets g >>= f) s = f (g s) s := (rfl)

@[simp] theorem modify_bind (g : σ → σ) (f : Unit → Procedure ε σ β) (s : σ) :
    (modify g >>= f) s = f () (g s) := (rfl)

@[simp] theorem pure_bind_apply (a : α) (f : α → Procedure ε σ β) (s : σ) :
    ((pure a : Procedure ε σ α) >>= f) s = f a s := (rfl)

theorem onFailure_ok_iff {x : Procedure ε σ α} {undo : σ → σ} {s s' : σ} {a : α} :
    onFailure x undo s = (.ok a, s') ↔ x s = (.ok a, s') := by
  unfold onFailure
  rcases hx : x s with ⟨_ | a, t⟩ <;> simp

theorem onFailure_error_iff {x : Procedure ε σ α} {undo : σ → σ} {s s' : σ} {e : ε} :
    onFailure x undo s = (.error e, s') ↔ ∃ t, x s = (.error e, t) ∧ s' = undo t := by
  unfold onFailure
  rcases hx : x s with ⟨e' | a, t⟩
  · constructor
    · intro h
      obtain ⟨he, hs'⟩ := Prod.mk.inj h
      exact ⟨t, by rw [Except.error.inj he], hs'.symm⟩
    · rintro ⟨t', h, rfl⟩
      obtain ⟨he, rfl⟩ := Prod.mk.inj h
      rw [Except.error.inj he]
  · simp

theorem onPart_ok_iff {get : σ → τ} {set : τ → σ → σ} {x : Procedure ε τ α} {s s' : σ} {a : α} :
    onPart get set x s = (.ok a, s') ↔ ∃ t, x (get s) = (.ok a, t) ∧ s' = set t s := by
  rw [onPart_apply]
  rcases hx : x (get s) with ⟨r, t⟩
  simp only [Prod.mk.injEq]
  constructor
  · rintro ⟨rfl, rfl⟩
    exact ⟨t, ⟨rfl, rfl⟩, rfl⟩
  · rintro ⟨t', ⟨hr, rfl⟩, rfl⟩
    exact ⟨hr, rfl⟩

/-! ## Loops -/

@[simp] theorem forEach_nil (f : α → Procedure ε σ Unit) (s : σ) : forEach f [] s = (.ok (), s) := rfl

theorem forEach_cons (f : α → Procedure ε σ Unit) (a : α) (l : List α) :
    forEach f (a :: l) = (do f a; forEach f l) := rfl

/-! ## Where a procedure leads -/

/-- However `x` ends, the state it leaves is related to the one it began with. -/
def Follows (R : σ → σ → Prop) (x : Procedure ε σ α) : Prop := ∀ s, R s (x s).2

namespace Follows

variable {R : σ → σ → Prop}

theorem rel_of_run {x : Procedure ε σ α} (hx : Follows R x) {s s' : σ} {r : Except ε α}
    (hrun : x s = (r, s')) : R s s' := by
  have h := hx s
  rw [hrun] at h
  exact h

theorem mono {R' : σ → σ → Prop} {x : Procedure ε σ α} (hx : Follows R x)
    (h : ∀ s s', R s s' → R' s s') : Follows R' x := fun s => h _ _ (hx s)

theorem modify {f : σ → σ} (h : ∀ s, R s (f s)) :
    Follows R (Procedure.modify f : Procedure ε σ Unit) := h

variable [IsPreorder σ R]

/-- A procedure that leaves the state as it is. -/
theorem stay {x : Procedure ε σ α} (h : ∀ s, (x s).2 = s) : Follows R x := by
  intro s
  rw [h s]
  exact Std.Refl.refl s

theorem pure (a : α) : Follows R (Pure.pure a : Procedure ε σ α) := stay fun _ => rfl

theorem fail (e : ε) : Follows R (Procedure.fail e : Procedure ε σ α) := stay fun _ => rfl

theorem check (f : σ → Except ε α) : Follows R (Procedure.check f) := stay fun _ => rfl

theorem gets (f : σ → α) : Follows R (Procedure.gets f : Procedure ε σ α) := stay fun _ => rfl

/-- A sequence whose second part is followed from where the first one ends. -/
theorem rel_bind_of_run {x : Procedure ε σ α} {f : α → Procedure ε σ β} {s : σ} (hx : R s (x s).2)
    (hf : ∀ a t, x s = (.ok a, t) → R t (f a t).2) : R s ((x >>= f) s).2 := by
  rw [bind_apply]
  rcases hrun : x s with ⟨_ | a, s'⟩
  · rw [hrun] at hx
    exact hx
  · rw [hrun] at hx
    exact IsTrans.trans _ _ _ hx (hf a s' hrun)

/-- A sequence whose first part is followed from the given state. -/
theorem rel_bind {x : Procedure ε σ α} {f : α → Procedure ε σ β} {s : σ} (hx : R s (x s).2)
    (hf : ∀ a, Follows R (f a)) : R s ((x >>= f) s).2 :=
  rel_bind_of_run hx fun a t _ => hf a t

theorem bind {x : Procedure ε σ α} {f : α → Procedure ε σ β} (hx : Follows R x)
    (hf : ∀ a, Follows R (f a)) : Follows R (x >>= f) := fun s => rel_bind (hx s) hf

theorem onFailure {x : Procedure ε σ α} {undo : σ → σ} (hx : Follows R x)
    (hundo : ∀ s, R s (undo s)) : Follows R (Procedure.onFailure x undo) := by
  intro s
  have hxs := hx s
  unfold Procedure.onFailure
  rcases hrun : x s with ⟨_ | a, s'⟩
  · rw [hrun] at hxs
    exact IsTrans.trans _ _ _ hxs (hundo s')
  · rw [hrun] at hxs
    exact hxs

theorem forEach {f : α → Procedure ε σ Unit} (hf : ∀ a, Follows R (f a)) (l : List α) :
    Follows R (Procedure.forEach f l) := by
  induction l with
  | nil => exact pure ()
  | cons a rest ih => exact (hf a).bind fun _ => ih

end Follows

/-! ## What a procedure leaves alone -/

variable {ν : Type}

/-- However `x` ends, what `view` shows of the state is unchanged. -/
def Keeps (view : σ → ν) (x : Procedure ε σ α) : Prop :=
  ∀ s, view (x s).2 = view s

/-- Two states look the same: what keeps a view follows this relation. -/
def SameView (view : σ → ν) (s t : σ) : Prop := view t = view s

instance (view : σ → ν) : IsPreorder σ (SameView view) where
  refl _ := rfl
  trans _ _ _ hst htu := Eq.trans htu hst

namespace Keeps

variable {view : σ → ν}

theorem pure (a : α) : Keeps view (Pure.pure a : Procedure ε σ α) := fun _ => rfl

theorem fail (e : ε) : Keeps view (Procedure.fail e : Procedure ε σ α) := fun _ => rfl

theorem check (f : σ → Except ε α) : Keeps view (Procedure.check f) := fun _ => rfl

theorem gets (f : σ → α) : Keeps view (Procedure.gets f : Procedure ε σ α) := fun _ => rfl

theorem modify {f : σ → σ} (h : ∀ s, view (f s) = view s) :
    Keeps view (Procedure.modify f : Procedure ε σ Unit) := h

theorem bind {x : Procedure ε σ α} {f : α → Procedure ε σ β} (hx : Keeps view x)
    (hf : ∀ a, Keeps view (f a)) : Keeps view (x >>= f) :=
  Follows.bind (R := SameView view) hx hf

theorem forEach {f : α → Procedure ε σ Unit} (hf : ∀ a, Keeps view (f a)) (l : List α) :
    Keeps view (Procedure.forEach f l) :=
  Follows.forEach (R := SameView view) hf l

theorem onFailure {x : Procedure ε σ α} {undo : σ → σ} (hx : Keeps view x)
    (hundo : ∀ s, view (undo s) = view s) : Keeps view (Procedure.onFailure x undo) :=
  Follows.onFailure (R := SameView view) hx hundo

/-- A procedure on a part keeps what does not depend on the part. -/
theorem onPart {ν' : Type} {get : σ → τ} {set : τ → σ → σ} {x : Procedure ε τ α} {partView : τ → ν'}
    (hx : Keeps partView x) (hset : ∀ t s, partView t = partView (get s) → view (set t s) = view s) :
    Keeps view (Procedure.onPart get set x) := by
  intro s
  rw [onPart_apply]
  exact hset _ s (hx (get s))

/-- A sequence that begins with what keeps the view ends there or goes on with the same view. -/
theorem bind_elim {x : Procedure ε σ α} {f : α → Procedure ε σ β} (hx : Keeps view x) {s s' : σ}
    {r : Except ε β} (hrun : (x >>= f) s = (r, s')) :
    view s' = view s ∨ ∃ a t, x s = (.ok a, t) ∧ view t = view s ∧ f a t = (r, s') := by
  have hview := hx s
  rw [bind_apply] at hrun
  rcases hxs : x s with ⟨e | a, t⟩
  · rw [hxs] at hrun hview
    obtain ⟨_, rfl⟩ := Prod.mk.inj hrun
    exact Or.inl hview
  · rw [hxs] at hrun hview
    exact Or.inr ⟨a, t, rfl, hview, hrun⟩

/-- What a procedure keeps is the same before and after a run. -/
theorem eq_of_run {x : Procedure ε σ α} (hx : Keeps view x) {s s' : σ} {r : Except ε α}
    (hrun : x s = (r, s')) : view s' = view s := by
  have h := hx s
  rw [hrun] at h
  exact h

/-- A coarser view is kept as well. -/
theorem comp {ν' : Type} {x : Procedure ε σ α} (hx : Keeps view x) (g : ν → ν') :
    Keeps (fun s => g (view s)) x := fun s => congrArg g (hx s)

end Keeps

end Procedure
