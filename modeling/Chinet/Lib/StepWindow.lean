import Mathlib.Data.List.Basic
import Mathlib.Data.List.DropRight
import Mathlib.Tactic.Ring

/-!
# Windows of the multiples of a step

Ordered maps that hold consecutive multiples of a step, each with the value of a function there:
grown at the top, trimmed at the bottom and cut from above.
-/

namespace StepWindow

variable {α : Type*}

/-- A value set at a key of an ordered map. -/
def setItem : List (Nat × α) → Nat → α → List (Nat × α)
  | [], key, value => [(key, value)]
  | item :: rest, key, value =>
      if key < item.1 then (key, value) :: item :: rest
      else if key = item.1 then (key, value) :: rest
      else item :: setItem rest key value

/-- The least item goes when there are more than the limit. -/
def trim (limit : Nat) (items : List (Nat × α)) : List (Nat × α) :=
  if items.length > limit then items.tail else items

/-- The items from a key on go. -/
def cutFrom (key : Nat) (items : List (Nat × α)) : List (Nat × α) :=
  items.rdropWhile fun item => decide (key ≤ item.1)

/-- The item of a key. -/
def findItem (items : List (Nat × α)) (key : Nat) : Option (Nat × α) :=
  items.find? fun item => decide (item.1 = key)

/-- The multiples of a step from the one of number `first` on, each with its value. -/
def window (step : Nat) (value : Nat → α) (first count : Nat) : List (Nat × α) :=
  (List.range' first count).map fun k => (step * k, value (step * k))

variable {step first count : Nat} {value : Nat → α}

@[simp] theorem length_window : (window step value first count).length = count := by
  rw [window, List.length_map, List.length_range']

@[simp] theorem window_zero : window step value first 0 = [] := rfl

theorem mem_window {item : Nat × α} :
    item ∈ window step value first count ↔
      ∃ k, first ≤ k ∧ k < first + count ∧ item = (step * k, value (step * k)) := by
  rw [window, List.mem_map]
  constructor
  · rintro ⟨k, hk, rfl⟩
    obtain ⟨hle, hlt⟩ := List.mem_range'_1.mp hk
    exact ⟨k, hle, hlt, rfl⟩
  · rintro ⟨k, hle, hlt, rfl⟩
    exact ⟨k, List.mem_range'_1.mpr ⟨hle, hlt⟩, rfl⟩

theorem window_succ : window step value first (count + 1) =
    window step value first count ++
      [(step * (first + count), value (step * (first + count)))] := by
  rw [window, List.range'_1_concat, List.map_append]
  rfl

theorem window_cons : window step value first (count + 1) =
    (step * first, value (step * first)) :: window step value (first + 1) count := by
  rw [window, List.range'_succ, List.map_cons]
  rfl

theorem getLast?_window : (window step value first (count + 1)).getLast? =
    some (step * (first + count), value (step * (first + count))) := by
  rw [window_succ, List.getLast?_append, List.getLast?_singleton]
  rfl

/-- A window depends on the values of its keys only. -/
theorem window_congr {value' : Nat → α}
    (h : ∀ k, first ≤ k → k < first + count → value (step * k) = value' (step * k)) :
    window step value first count = window step value' first count := by
  refine List.map_congr_left fun k hk => ?_
  obtain ⟨hle, hlt⟩ := List.mem_range'_1.mp hk
  rw [h k hle hlt]

theorem setItem_of_lt {items : List (Nat × α)} {key : Nat} {v : α}
    (h : ∀ item ∈ items, item.1 < key) : setItem items key v = items ++ [(key, v)] := by
  induction items with
  | nil => rfl
  | cons item rest ih =>
      have hlt := h item List.mem_cons_self
      rw [setItem, if_neg (by omega), if_neg (by omega),
        ih fun other hother => h other (List.mem_cons_of_mem _ hother)]
      rfl

/-- A window grows at the top. -/
theorem setItem_window (hstep : 0 < step) :
    setItem (window step value first count) (step * (first + count))
        (value (step * (first + count))) = window step value first (count + 1) := by
  rw [window_succ]
  refine setItem_of_lt fun item hitem => ?_
  obtain ⟨k, -, hlt, rfl⟩ := mem_window.mp hitem
  exact Nat.mul_lt_mul_of_pos_left hlt hstep

/-- A window is trimmed to a window of at most the limit. -/
theorem trim_window {limit : Nat} (h : count ≤ limit) :
    trim limit (window step value first (count + 1)) =
      if count = limit then window step value (first + 1) count
      else window step value first (count + 1) := by
  rw [trim, length_window]
  by_cases hfull : count = limit
  · rw [if_pos hfull, if_pos (by omega), window_cons, List.tail_cons]
  · rw [if_neg hfull, if_neg (by omega)]

/-- A window is cut to a window of the keys below. -/
theorem cutFrom_window (key : Nat) :
    ∃ kept ≤ count, cutFrom key (window step value first count) = window step value first kept ∧
      (∀ k, first ≤ k → k < first + count → (k < first + kept ↔ step * k < key)) := by
  induction count with
  | zero => exact ⟨0, le_rfl, rfl, fun k hle hlt => by omega⟩
  | succ count ih =>
      by_cases hcut : key ≤ step * (first + count)
      · obtain ⟨kept, hle, hcutFrom, hkept⟩ := ih
        refine ⟨kept, by omega, ?_, fun k hk hlt => ?_⟩
        · rw [← hcutFrom, window_succ]
          exact List.rdropWhile_concat_pos _ _ _ (decide_eq_true hcut)
        · rcases Nat.lt_or_ge k (first + count) with hbelow | hlast
          · exact hkept k hk hbelow
          · obtain rfl : k = first + count := by omega
            exact ⟨fun h => by omega, fun h => absurd hcut (by omega)⟩
      · refine ⟨count + 1, le_rfl, ?_, fun k hk hlt => ?_⟩
        · rw [window_succ]
          exact List.rdropWhile_concat_neg _ _ _ (fun h => hcut (of_decide_eq_true h))
        · have hmono : step * k ≤ step * (first + count) := Nat.mul_le_mul_left step (by omega)
          exact ⟨fun _ => by omega, fun _ => by omega⟩

theorem findItem_window (hstep : 0 < step) {k : Nat} (hle : first ≤ k) (hlt : k < first + count) :
    findItem (window step value first count) (step * k) = some (step * k, value (step * k)) := by
  induction count generalizing first with
  | zero => omega
  | succ count ih =>
      rw [window_cons, findItem, List.find?_cons]
      by_cases hfirst : first = k
      · rw [hfirst, decide_eq_true rfl]
      · have hne : step * first ≠ step * k := fun h => hfirst (Nat.eq_of_mul_eq_mul_left hstep h)
        rw [decide_eq_false hne]
        exact ih (by omega) (by omega)

end StepWindow
