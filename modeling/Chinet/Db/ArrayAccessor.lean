import Chinet.Lib.FiniteStore
import Chinet.Serialization.BinaryArchive
import Mathlib.Data.List.GetD
import Mathlib.Logic.Function.Basic

/-!
# Arrays in a container of the database

`basic_key_to_array_accessor` keeps an array for each key in one container of byte strings: an item
under the key with its index behind it, and the number of items under the key with a constant
behind it.  Keys of the two kinds differ in their length, whatever the constant is.

After every run of calls the container holds exactly the arrays of a map from keys to lists.
-/

namespace Chinet

/-- The values of a POD type in memory. -/
structure Pod (α : Type) where
  size : Nat
  bytes : α → ByteString
  read : ByteString → α
  length_bytes : ∀ a, (bytes a).length = size
  read_bytes : ∀ a, read (bytes a) = a

namespace Pod

variable {α : Type}

theorem bytes_injective (p : Pod α) : Function.Injective p.bytes :=
  Function.LeftInverse.injective p.read_bytes

/-- A `uint64_t`. -/
def uint64 : Pod UInt64 where
  size := 8
  bytes n := bytesOfNat 8 n.toNat
  read s := UInt64.ofNat (natOfBytes s)
  length_bytes n := length_bytesOfNat 8 n.toNat
  read_bytes n := by
    rw [natOfBytes_bytesOfNat, Nat.mod_eq_of_lt n.toNat_lt, UInt64.ofNat_toNat]

end Pod

/-! ## The accessor -/

abbrev Container := FiniteStore ByteString ByteString

section

variable {α : Type}

/-- `get_pod_object`; values of another size count as missing. -/
def Container.getPodObject (s : Container) (p : Pod α) (key : ByteString) : Option α :=
  match s.lookup key with
  | none => none
  | some resBuff => if p.size = resBuff.length then some (p.read resBuff) else none

/-- `set_pod_object` -/
def Container.setPodObject (s : Container) (p : Pod α) (key : ByteString) (obj : α) : Container :=
  s.insert key (p.bytes obj)

end

/-- A `composite_key` in memory. -/
def compositeKey {κ σ : Type} (k : Pod κ) (suffix : Pod σ) (containerId : κ) (sufix : σ) : ByteString :=
  k.bytes containerId ++ suffix.bytes sufix

/-- `guid_key` -/
def guidKey : Pod (UInt64 × UInt64) where
  size := 16
  bytes g := Pod.uint64.bytes g.1 ++ Pod.uint64.bytes g.2
  read s := (Pod.uint64.read (s.take 8), Pod.uint64.read (s.drop 8))
  length_bytes g := by
    rw [List.length_append, Pod.uint64.length_bytes, Pod.uint64.length_bytes]
    rfl
  read_bytes g := by
    have hsize : (Pod.uint64.bytes g.1).length = 8 := Pod.uint64.length_bytes g.1
    rw [List.take_left' hsize, List.drop_left' hsize, Pod.uint64.read_bytes, Pod.uint64.read_bytes]

def constCounterSuffix : UInt64 × UInt64 := (0xe005d3c8c9e94c2e, 0xb94ca40ec25550ad)

/-- What `get_subitem` throws for an index behind the end; it also stands for the exception of
`enumerate` for a value of another size. -/
inductive SubitemError
  | outOfRange
deriving DecidableEq

inductive ArrayCall (κ ν : Type)
  | pushBackItem (k : κ) (v : ν)
  | popBackItem (k : κ)
  | eraseItems (k : κ)

namespace ArrayAccessor

variable {κ ν : Type} (k : Pod κ) (v : Pod ν)

def counterKey (id : κ) : ByteString := compositeKey k guidKey id constCounterSuffix

def itemKey (id : κ) (i : UInt64) : ByteString := compositeKey k Pod.uint64 id i

/-- The counter of a key, zero where there is none. -/
def getCounter (s : Container) (id : κ) : UInt64 :=
  (s.getPodObject Pod.uint64 (counterKey k id)).getD 0

def setCounter (s : Container) (id : κ) (count : UInt64) : Container :=
  s.setPodObject Pod.uint64 (counterKey k id) count

def getItemSize (s : Container) (id : κ) : UInt64 := getCounter k s id

def getSubitem (s : Container) (id : κ) (i : UInt64) : Except SubitemError (Option ν) :=
  if i ≥ getItemSize k s id then .error .outOfRange
  else .ok (s.getPodObject v (itemKey k id i))

def pushBackItem (s : Container) (id : κ) (item : ν) : Container :=
  let newIndex := getCounter k s id
  (setCounter k s id (newIndex + 1)).setPodObject v (itemKey k id newIndex) item

def popBackItem (s : Container) (id : κ) : Container :=
  let sz := getCounter k s id
  if sz = 0 then s else setCounter k (s.erase (itemKey k id (sz - 1))) id (sz - 1)

/-- The loop of `erase_items`, from the last item to the first. -/
def eraseBelow (id : κ) : Nat → Container → Container
  | 0, s => s
  | sz + 1, s => eraseBelow id sz (s.erase (itemKey k id (UInt64.ofNat sz)))

def eraseItems (s : Container) (id : κ) : Container :=
  setCounter k (eraseBelow k id (getCounter k s id).toNat s) id 0

def step (s : Container) : ArrayCall κ ν → Container
  | .pushBackItem id item => pushBackItem k v s id item
  | .popBackItem id => popBackItem k s id
  | .eraseItems id => eraseItems k s id

/-! ### Enumerating -/

/-- `subitems_visitor`: an entry that is no item is passed over, and a value of another size
throws. -/
def onEnumItem {σ : Type} (callback : σ → Nat → κ → UInt64 → ν → σ × Bool) (st : σ) (i : Nat)
    (keyData valueData : ByteString) : Except SubitemError (σ × Bool) :=
  if keyData.length ≠ k.size + 8 then .ok (st, true)
  else if v.size ≠ valueData.length then .error .outOfRange
  else .ok (callback st i (k.read (keyData.take k.size)) (Pod.uint64.read (keyData.drop k.size))
    (v.read valueData))

/-- `enumerate` over the entries that the cursor meets, from the number `count` on. -/
def enumerateFrom {σ : Type} (callback : σ → Nat → κ → UInt64 → ν → σ × Bool) :
    Nat → List (ByteString × ByteString) → σ → Except SubitemError σ
  | _, [], st => .ok st
  | count, entry :: rest, st =>
      match onEnumItem k v callback st count entry.1 entry.2 with
      | .error e => .error e
      | .ok (st, true) => enumerateFrom callback (count + 1) rest st
      | .ok (st, false) => .ok st

def enumerateSubitems {σ : Type} (callback : σ → Nat → κ → UInt64 → ν → σ × Bool)
    (entries : List (ByteString × ByteString)) (st : σ) : Except SubitemError σ :=
  enumerateFrom k v callback 0 entries st

end ArrayAccessor

/-! ## The arrays -/

namespace ArrayCall

variable {κ ν : Type} [DecidableEq κ]

/-- What a call does to the arrays. -/
def apply (m : κ → List ν) : ArrayCall κ ν → κ → List ν
  | .pushBackItem id item => Function.update m id (m id ++ [item])
  | .popBackItem id => Function.update m id (m id).dropLast
  | .eraseItems id => Function.update m id []

theorem length_apply_le (m : κ → List ν) (call : ArrayCall κ ν) {n : Nat}
    (h : ∀ id, (m id).length ≤ n) (id : κ) : (call.apply m id).length ≤ n + 1 := by
  cases call with
  | pushBackItem id' item =>
      rw [apply, Function.update_apply]
      split
      · rw [List.length_append]
        exact Nat.succ_le_succ (h id')
      · exact (h id).trans (Nat.le_succ n)
  | popBackItem id' =>
      rw [apply, Function.update_apply]
      split
      · rw [List.length_dropLast]
        exact (Nat.sub_le _ 1).trans ((h id').trans (Nat.le_succ n))
      · exact (h id).trans (Nat.le_succ n)
  | eraseItems id' =>
      rw [apply, Function.update_apply]
      split
      · exact Nat.zero_le _
      · exact (h id).trans (Nat.le_succ n)

end ArrayCall

namespace ArrayAccessor

variable {κ ν : Type} {k : Pod κ} {v : Pod ν} {s : Container} {m : κ → List ν} {id id' : κ}
  {i i' : UInt64}

/-! ### Keys -/

theorem compositeKey_inj {σ : Type} {suffix : Pod σ} {a b : σ} :
    compositeKey k suffix id a = compositeKey k suffix id' b ↔ id = id' ∧ a = b := by
  constructor
  · intro h
    obtain ⟨hid, hsuffix⟩ := List.append_inj h
      ((k.length_bytes id).trans (k.length_bytes id').symm)
    exact ⟨k.bytes_injective hid, suffix.bytes_injective hsuffix⟩
  · rintro ⟨rfl, rfl⟩
    rfl

theorem length_compositeKey {σ : Type} (suffix : Pod σ) (id : κ) (a : σ) :
    (compositeKey k suffix id a).length = k.size + suffix.size := by
  rw [compositeKey, List.length_append, k.length_bytes, suffix.length_bytes]

theorem itemKey_inj : itemKey k id i = itemKey k id' i' ↔ id = id' ∧ i = i' := compositeKey_inj

theorem counterKey_inj : counterKey k id = counterKey k id' ↔ id = id' := by
  rw [counterKey, counterKey, compositeKey_inj, and_iff_left rfl]

/-- A counter is no item, for its key is longer. -/
theorem counterKey_ne_itemKey (id id' : κ) (i : UInt64) : counterKey k id ≠ itemKey k id' i := by
  intro h
  have hlength := congrArg List.length h
  rw [counterKey, itemKey, length_compositeKey, length_compositeKey] at hlength
  exact absurd (Nat.add_left_cancel hlength) (by decide)

/-! ### Counters -/

theorem getCounter_insert_item (item : ByteString) :
    getCounter k (s.insert (itemKey k id' i) item) id = getCounter k s id := by
  unfold getCounter Container.getPodObject
  rw [FiniteStore.lookup_insert_ite, if_neg (counterKey_ne_itemKey id id' i)]

theorem getCounter_erase_item :
    getCounter k (s.erase (itemKey k id' i)) id = getCounter k s id := by
  unfold getCounter Container.getPodObject
  rw [FiniteStore.lookup_erase_ite, if_neg (counterKey_ne_itemKey id id' i)]

theorem getCounter_setCounter [DecidableEq κ] (count : UInt64) :
    getCounter k (setCounter k s id' count) id = if id = id' then count else getCounter k s id := by
  unfold getCounter setCounter Container.getPodObject Container.setPodObject
  rw [FiniteStore.lookup_insert_ite]
  by_cases hid : id = id'
  · rw [if_pos (counterKey_inj.mpr hid), if_pos hid]
    dsimp only
    rw [Pod.uint64.length_bytes, if_pos rfl, Pod.uint64.read_bytes]
    rfl
  · rw [if_neg (mt counterKey_inj.mp hid), if_neg hid]

theorem lookup_item_setCounter (count : UInt64) :
    (setCounter k s id' count).lookup (itemKey k id i) = s.lookup (itemKey k id i) := by
  unfold setCounter Container.setPodObject
  rw [FiniteStore.lookup_insert_ite, if_neg (counterKey_ne_itemKey id' id i).symm]

theorem lookup_insert_item [DecidableEq κ] (value : ByteString) :
    (s.insert (itemKey k id' i') value).lookup (itemKey k id i) =
      if id = id' ∧ i = i' then some value else s.lookup (itemKey k id i) := by
  rw [FiniteStore.lookup_insert_ite]
  exact if_congr itemKey_inj rfl rfl

theorem lookup_erase_item [DecidableEq κ] :
    (s.erase (itemKey k id' i')).lookup (itemKey k id i) =
      if id = id' ∧ i = i' then none else s.lookup (itemKey k id i) := by
  rw [FiniteStore.lookup_erase_ite]
  exact if_congr itemKey_inj rfl rfl

/-! ### The container holds the arrays -/

/-- The container holds the arrays and nothing else. -/
structure Represents (k : Pod κ) (v : Pod ν) (s : Container) (m : κ → List ν) : Prop where
  small : ∀ id, (m id).length < 2 ^ 64
  counter : ∀ id, getCounter k s id = UInt64.ofNat (m id).length
  item : ∀ id i, s.lookup (itemKey k id i) = ((m id)[i.toNat]?).map v.bytes
  only : ∀ key, s.lookup key ≠ none →
    (∃ id, key = counterKey k id) ∨ ∃ id i, key = itemKey k id i

theorem represents_empty : Represents k v ∅ fun _ => [] where
  small _ := Nat.two_pow_pos 64
  counter _ := rfl
  item _ _ := rfl
  only _ h := absurd rfl h

theorem Represents.toNat_counter (h : Represents k v s m) (id : κ) :
    (getCounter k s id).toNat = (m id).length := by
  rw [h.counter]
  exact UInt64.toNat_ofNat_of_lt' (h.small id)

/-- A container with the keys of another one, but for a counter or an item. -/
theorem only_of_insert {key : ByteString} {value : ByteString}
    (honly : ∀ key, s.lookup key ≠ none →
      (∃ id, key = counterKey k id) ∨ ∃ id i, key = itemKey k id i)
    (hkey : (∃ id, key = counterKey k id) ∨ ∃ id i, key = itemKey k id i) (other : ByteString)
    (hother : (s.insert key value).lookup other ≠ none) :
    (∃ id, other = counterKey k id) ∨ ∃ id i, other = itemKey k id i := by
  rw [FiniteStore.lookup_insert_ite] at hother
  split at hother
  · rename_i heq
    rwa [heq]
  · exact honly other hother

theorem only_of_erase {key : ByteString}
    (honly : ∀ key, s.lookup key ≠ none →
      (∃ id, key = counterKey k id) ∨ ∃ id i, key = itemKey k id i) (other : ByteString)
    (hother : (s.erase key).lookup other ≠ none) :
    (∃ id, other = counterKey k id) ∨ ∃ id i, other = itemKey k id i := by
  rw [FiniteStore.lookup_erase_ite] at hother
  split at hother
  · exact absurd rfl hother
  · exact honly other hother

/-- The loop of `erase_items` erases the items that it counts down. -/
theorem lookup_eraseBelow (id : κ) (sz : Nat) (s : Container) (key : ByteString) :
    (eraseBelow k id sz s).lookup key =
      if ∃ n < sz, key = itemKey k id (UInt64.ofNat n) then none else s.lookup key := by
  induction sz generalizing s with
  | zero => simp [eraseBelow]
  | succ sz ih =>
      rw [eraseBelow, ih, FiniteStore.lookup_erase_ite]
      by_cases hlast : key = itemKey k id (UInt64.ofNat sz)
      · rw [if_pos hlast, ite_self, if_pos ⟨sz, Nat.lt_succ_self sz, hlast⟩]
      · have hiff : (∃ n < sz, key = itemKey k id (UInt64.ofNat n)) ↔
            ∃ n < sz + 1, key = itemKey k id (UInt64.ofNat n) := by
          constructor
          · rintro ⟨n, hn, heq⟩
            exact ⟨n, Nat.lt_succ_of_lt hn, heq⟩
          · rintro ⟨n, hn, heq⟩
            rcases Nat.lt_succ_iff_lt_or_eq.mp hn with hn | rfl
            · exact ⟨n, hn, heq⟩
            · exact absurd heq hlast
        rw [if_neg hlast]
        simp only [hiff]

section Steps

variable [DecidableEq κ]

theorem Represents.pushBackItem (h : Represents k v s m) (id : κ) (item : ν)
    (hroom : (m id).length + 1 < 2 ^ 64) :
    Represents k v (pushBackItem k v s id item) (Function.update m id (m id ++ [item])) := by
  have hnext : getCounter k s id + 1 = UInt64.ofNat ((m id).length + 1) := by
    rw [h.counter, UInt64.ofNat_add]
    rfl
  refine ⟨fun other => ?_, fun other => ?_, fun other i => ?_, ?_⟩
  · rw [Function.update_apply]
    split
    · rwa [List.length_append]
    · exact h.small other
  · unfold ArrayAccessor.pushBackItem Container.setPodObject
    rw [getCounter_insert_item, getCounter_setCounter, Function.update_apply]
    split
    · rw [hnext, List.length_append]
      rfl
    · exact h.counter other
  · unfold ArrayAccessor.pushBackItem Container.setPodObject
    rw [lookup_insert_item, lookup_item_setCounter, h.item, Function.update_apply]
    by_cases hid : other = id
    · subst hid
      have hindex : i = getCounter k s other ↔ i.toNat = (m other).length := by
        rw [← UInt64.toNat_inj, h.toNat_counter]
      simp only [if_pos, true_and, hindex]
      split
      · rename_i hlast
        rw [hlast, List.getElem?_concat_length]
        rfl
      · rename_i hother
        rw [List.getElem?_append]
        split
        · rfl
        · rename_i hover
          rw [List.getElem?_eq_none (Nat.not_lt.mp hover), List.getElem?_eq_none]
          rw [List.length_singleton]
          omega
    · rw [if_neg (fun heq => hid heq.1), if_neg hid]
  · intro other hother
    exact only_of_insert (only_of_insert h.only (.inl ⟨id, rfl⟩)) (.inr ⟨id, _, rfl⟩) other hother

theorem Represents.popBackItem (h : Represents k v s m) (id : κ) :
    Represents k v (popBackItem k s id) (Function.update m id (m id).dropLast) := by
  unfold ArrayAccessor.popBackItem
  dsimp only
  split
  · rename_i hzero
    have hempty : m id = [] := by
      apply List.eq_nil_of_length_eq_zero
      rw [← h.toNat_counter, hzero]
      rfl
    have hsame : Function.update m id (m id).dropLast = m := by
      rw [hempty, List.dropLast_nil, ← hempty, Function.update_eq_self]
    rwa [hsame]
  · rename_i hne
    have hpos : 0 < (m id).length := by
      rw [← h.toNat_counter]
      exact Nat.pos_of_ne_zero fun hzero => hne (UInt64.toNat_inj.mp hzero)
    have hlast : (getCounter k s id - 1).toNat = (m id).length - 1 := by
      rw [UInt64.toNat_sub_of_le _ _ (by
        rw [UInt64.le_iff_toNat_le, h.toNat_counter]
        exact hpos), h.toNat_counter]
      rfl
    refine ⟨fun other => ?_, fun other => ?_, fun other i => ?_, ?_⟩
    · rw [Function.update_apply]
      split
      · rw [List.length_dropLast]
        exact lt_of_le_of_lt (Nat.sub_le _ 1) (h.small id)
      · exact h.small other
    · rw [getCounter_setCounter, getCounter_erase_item, Function.update_apply]
      split
      · apply UInt64.toNat_inj.mp
        rw [hlast, List.length_dropLast]
        exact (UInt64.toNat_ofNat_of_lt' (lt_of_le_of_lt (Nat.sub_le _ 1) (h.small id))).symm
      · exact h.counter other
    · rw [lookup_item_setCounter, lookup_erase_item, h.item, Function.update_apply]
      by_cases hid : other = id
      · subst hid
        have hindex : i = getCounter k s other - 1 ↔ i.toNat = (m other).length - 1 := by
          rw [← UInt64.toNat_inj, hlast]
        simp only [if_pos, true_and, hindex, List.getElem?_dropLast]
        split
        · rename_i heq
          rw [if_neg (by omega)]
          rfl
        · rename_i hother
          split
          · rfl
          · rename_i hover
            rw [List.getElem?_eq_none (by omega)]
      · rw [if_neg (fun heq => hid heq.1), if_neg hid]
    · intro other hother
      exact only_of_insert (only_of_erase h.only) (.inl ⟨id, rfl⟩) other hother

theorem Represents.eraseItems (h : Represents k v s m) (id : κ) :
    Represents k v (eraseItems k s id) (Function.update m id []) := by
  unfold ArrayAccessor.eraseItems
  rw [h.toNat_counter]
  have hcounter : ∀ other, getCounter k (eraseBelow k id (m id).length s) other =
      getCounter k s other := by
    intro other
    unfold getCounter Container.getPodObject
    rw [lookup_eraseBelow, if_neg]
    rintro ⟨n, _, heq⟩
    exact counterKey_ne_itemKey other id _ heq
  refine ⟨fun other => ?_, fun other => ?_, fun other i => ?_, ?_⟩
  · rw [Function.update_apply]
    split
    · exact Nat.two_pow_pos 64
    · exact h.small other
  · rw [getCounter_setCounter, hcounter, Function.update_apply]
    split
    · rfl
    · exact h.counter other
  · rw [lookup_item_setCounter, lookup_eraseBelow, h.item, Function.update_apply]
    by_cases hid : other = id
    · subst hid
      rw [if_pos rfl]
      split
      · rfl
      · rename_i hnone
        rw [List.getElem?_eq_none, List.getElem?_nil]
        by_contra hlt
        exact hnone ⟨i.toNat, Nat.not_le.mp hlt, by rw [UInt64.ofNat_toNat]⟩
    · rw [if_neg, if_neg hid]
      rintro ⟨n, _, heq⟩
      exact hid (itemKey_inj.mp heq).1
  · intro other hother
    refine only_of_insert (fun key hkey => ?_) (.inl ⟨id, rfl⟩) other hother
    rw [lookup_eraseBelow] at hkey
    split at hkey
    · exact absurd rfl hkey
    · exact h.only key hkey

theorem Represents.step (h : Represents k v s m) (call : ArrayCall κ ν)
    (hroom : ∀ id, (m id).length + 1 < 2 ^ 64) : Represents k v (step k v s call) (call.apply m) := by
  cases call with
  | pushBackItem id item => exact h.pushBackItem id item (hroom id)
  | popBackItem id => exact h.popBackItem id
  | eraseItems id => exact h.eraseItems id

/-- After a run of less than `2 ^ 64` calls. -/
theorem represents_run (calls : List (ArrayCall κ ν)) (hcalls : calls.length < 2 ^ 64) :
    Represents k v (calls.foldl (ArrayAccessor.step k v) ∅)
        (calls.foldl ArrayCall.apply fun _ => []) ∧
      ∀ id, (calls.foldl ArrayCall.apply (fun _ => []) id).length ≤ calls.length := by
  induction calls using List.reverseRecOn with
  | nil => exact ⟨represents_empty, fun _ => le_rfl⟩
  | append_singleton calls call ih =>
      rw [List.length_append, List.length_singleton] at hcalls ⊢
      obtain ⟨hrep, hle⟩ := ih (Nat.lt_of_succ_lt hcalls)
      rw [List.foldl_concat, List.foldl_concat]
      exact ⟨hrep.step call fun id => lt_of_le_of_lt (Nat.succ_le_succ (hle id)) hcalls,
        ArrayCall.length_apply_le _ call hle⟩

end Steps

/-! ### Reading -/

/-- What the cursor meets: every entry of the container once. -/
structure Listing (s : Container) (entries : List (ByteString × ByteString)) : Prop where
  nodup : (entries.map Prod.fst).Nodup
  mem : ∀ key value, (key, value) ∈ entries ↔ s.lookup key = some value

/-- The calls of a callback, one after the other until it returns false. -/
def callUntil {σ : Type} (callback : σ → Nat → κ → UInt64 → ν → σ × Bool) :
    List (Nat × κ × UInt64 × ν) → σ → σ
  | [], st => st
  | (count, id, i, item) :: rest, st =>
      match callback st count id i item with
      | (st, true) => callUntil callback rest st
      | (st, false) => st

/-- The items among the entries, each with its number. -/
def visitsFrom (k : Pod κ) (v : Pod ν) :
    Nat → List (ByteString × ByteString) → List (Nat × κ × UInt64 × ν)
  | _, [] => []
  | count, entry :: rest =>
      if entry.1.length = k.size + 8 then
        (count, k.read (entry.1.take k.size), Pod.uint64.read (entry.1.drop k.size),
          v.read entry.2) :: visitsFrom k v (count + 1) rest
      else visitsFrom k v (count + 1) rest

theorem enumerateFrom_eq {σ : Type} (callback : σ → Nat → κ → UInt64 → ν → σ × Bool)
    {entries : List (ByteString × ByteString)}
    (hsize : ∀ entry ∈ entries, entry.1.length = k.size + 8 → entry.2.length = v.size)
    (count : Nat) (st : σ) :
    enumerateFrom k v callback count entries st =
      .ok (callUntil callback (visitsFrom k v count entries) st) := by
  induction entries generalizing count st with
  | nil => rfl
  | cons entry rest ih =>
      have hrest := ih fun other hother => hsize other (List.mem_cons_of_mem _ hother)
      rw [enumerateFrom, visitsFrom, onEnumItem]
      by_cases hkey : entry.1.length = k.size + 8
      · rw [if_neg (not_not.mpr hkey), if_pos hkey,
          if_neg (not_not.mpr (hsize entry List.mem_cons_self hkey).symm), callUntil]
        rcases callback st count (k.read (entry.1.take k.size))
          (Pod.uint64.read (entry.1.drop k.size)) (v.read entry.2) with ⟨st', goesOn⟩
        cases goesOn with
        | true => exact hrest (count + 1) st'
        | false => rfl
      · rw [if_pos hkey, if_neg hkey]
        exact hrest (count + 1) st

/-- An entry of an item is read back. -/
theorem visit_itemKey (id : κ) (i : UInt64) (item : ν) (count : Nat)
    (rest : List (ByteString × ByteString)) :
    visitsFrom k v count ((itemKey k id i, v.bytes item) :: rest) =
      (count, id, i, item) :: visitsFrom k v (count + 1) rest := by
  have htake : (itemKey k id i).take k.size = k.bytes id := List.take_left' (k.length_bytes id)
  have hdrop : (itemKey k id i).drop k.size = Pod.uint64.bytes i :=
    List.drop_left' (k.length_bytes id)
  have hlength : (itemKey k id i).length = k.size + 8 := length_compositeKey Pod.uint64 id i
  rw [visitsFrom]
  dsimp only
  rw [if_pos hlength, htake, hdrop, k.read_bytes,
    Pod.uint64.read_bytes, v.read_bytes]

theorem visit_counterKey (id : κ) (value : ByteString) (count : Nat)
    (rest : List (ByteString × ByteString)) :
    visitsFrom k v count ((counterKey k id, value) :: rest) = visitsFrom k v (count + 1) rest := by
  have hlength : (counterKey k id).length ≠ k.size + 8 := by
    rw [counterKey, length_compositeKey]
    exact fun h => absurd (Nat.add_left_cancel h) (by decide)
  rw [visitsFrom, if_neg hlength]

/-- An entry of a container that holds arrays is a counter or an item of them. -/
theorem Represents.entry (h : Represents k v s m) {key value : ByteString}
    (hentry : s.lookup key = some value) : (∃ id, key = counterKey k id) ∨
      ∃ id i item, key = itemKey k id i ∧ value = v.bytes item ∧ (m id)[i.toNat]? = some item := by
  rcases h.only key (by rw [hentry]; exact Option.some_ne_none _) with hcounter | ⟨id, i, rfl⟩
  · exact .inl hcounter
  · rw [h.item] at hentry
    obtain ⟨item, hitem, rfl⟩ := Option.map_eq_some_iff.mp hentry
    exact .inr ⟨id, i, item, rfl, rfl, hitem⟩

/-- The visited items are those of the entries. -/
theorem Represents.mem_visitsFrom (h : Represents k v s m)
    {entries : List (ByteString × ByteString)}
    (hentries : ∀ entry ∈ entries, s.lookup entry.1 = some entry.2) (count : Nat) (id : κ)
    (i : UInt64) (item : ν) :
    (id, i, item) ∈ (visitsFrom k v count entries).map Prod.snd ↔
      (itemKey k id i, v.bytes item) ∈ entries := by
  induction entries generalizing count with
  | nil => simp [visitsFrom]
  | cons entry rest ih =>
      have hrest := ih (fun other hother => hentries other (List.mem_cons_of_mem _ hother))
      obtain ⟨key, value⟩ := entry
      rcases h.entry (hentries _ List.mem_cons_self) with ⟨id', rfl⟩ | ⟨id', i', item', rfl, rfl, _⟩
      · rw [visit_counterKey, hrest, List.mem_cons, or_iff_right]
        intro heq
        exact counterKey_ne_itemKey id' id i (congrArg Prod.fst heq).symm
      · rw [visit_itemKey, List.map_cons, List.mem_cons, List.mem_cons, hrest]
        apply or_congr_left
        rw [Prod.mk.injEq, Prod.mk.injEq, Prod.mk.injEq, itemKey_inj, and_assoc,
          v.bytes_injective.eq_iff]

theorem Represents.nodup_visitsFrom (h : Represents k v s m)
    {entries : List (ByteString × ByteString)}
    (hentries : ∀ entry ∈ entries, s.lookup entry.1 = some entry.2)
    (hnodup : (entries.map Prod.fst).Nodup) (count : Nat) :
    ((visitsFrom k v count entries).map Prod.snd).Nodup := by
  induction entries generalizing count with
  | nil => exact List.nodup_nil
  | cons entry rest ih =>
      have hothers := fun other hother => hentries other (List.mem_cons_of_mem _ hother)
      obtain ⟨hnew, hrest⟩ := List.nodup_cons.mp hnodup
      have hnodup' := ih hothers hrest (count + 1)
      obtain ⟨key, value⟩ := entry
      rcases h.entry (hentries _ List.mem_cons_self) with ⟨id', rfl⟩ | ⟨id', i', item', rfl, rfl, _⟩
      · rwa [visit_counterKey]
      · rw [visit_itemKey, List.map_cons, List.nodup_cons]
        refine ⟨fun hmem => hnew ?_, hnodup'⟩
        rw [h.mem_visitsFrom hothers] at hmem
        exact List.mem_map_of_mem hmem

/-- What the readers answer is what the arrays hold. -/
structure Presents (k : Pod κ) (v : Pod ν) (s : Container) (m : κ → List ν) : Prop where
  size : ∀ id, (getItemSize k s id).toNat = (m id).length
  subitem : ∀ id i, getSubitem k v s id i =
    match (m id)[i.toNat]? with
    | none => .error .outOfRange
    | some item => .ok (some item)
  enumerated : ∀ entries, Listing s entries → ∃ visits : List (Nat × κ × UInt64 × ν),
    (visits.map Prod.snd).Nodup ∧
    (∀ id i item, (id, i, item) ∈ visits.map Prod.snd ↔ (m id)[i.toNat]? = some item) ∧
    ∀ (σ : Type) (callback : σ → Nat → κ → UInt64 → ν → σ × Bool) (st : σ),
      enumerateSubitems k v callback entries st = .ok (callUntil callback visits st)

theorem Represents.presents (h : Represents k v s m) : Presents k v s m := by
  refine ⟨h.toNat_counter, fun id i => ?_, fun entries hlisting => ?_⟩
  · have hsize : i ≥ getItemSize k s id ↔ (m id).length ≤ i.toNat := by
      rw [ge_iff_le, UInt64.le_iff_toNat_le, getItemSize, h.toNat_counter]
    unfold getSubitem Container.getPodObject
    rw [h.item]
    by_cases hover : (m id).length ≤ i.toNat
    · rw [if_pos (hsize.mpr hover), List.getElem?_eq_none hover]
    · rw [if_neg (mt hsize.mp hover), List.getElem?_eq_getElem (Nat.not_le.mp hover)]
      dsimp only [Option.map_some]
      rw [if_pos (v.length_bytes _).symm, v.read_bytes]
  · have hentries : ∀ entry ∈ entries, s.lookup entry.1 = some entry.2 :=
      fun entry hentry => (hlisting.mem entry.1 entry.2).mp hentry
    refine ⟨visitsFrom k v 0 entries, h.nodup_visitsFrom hentries hlisting.nodup 0, ?_, ?_⟩
    · intro id i item
      rw [h.mem_visitsFrom hentries, hlisting.mem, h.item, Option.map_eq_some_iff]
      constructor
      · rintro ⟨item', hitem', heq⟩
        rwa [v.bytes_injective heq] at hitem'
      · intro hitem
        exact ⟨item, hitem, rfl⟩
    · intro σ callback st
      refine enumerateFrom_eq callback (fun entry hentry hkey => ?_) 0 st
      rcases h.entry (hentries entry hentry) with ⟨id, hcounter⟩ | ⟨id, i, item, _, hvalue, _⟩
      · rw [hcounter, counterKey, length_compositeKey] at hkey
        exact absurd (Nat.add_left_cancel hkey) (by decide)
      · rw [hvalue, v.length_bytes]

/-- After every run of calls the readers answer as the arrays that the calls make. -/
theorem presents_run [DecidableEq κ] (calls : List (ArrayCall κ ν))
    (hcalls : calls.length < 2 ^ 64) :
    Presents k v (calls.foldl (ArrayAccessor.step k v) ∅)
      (calls.foldl ArrayCall.apply fun _ => []) :=
  (represents_run calls hcalls).1.presents

theorem presents_run_sample :
    Presents Pod.uint64 Pod.uint64
      ([.pushBackItem 5 7, .pushBackItem 6 8, .popBackItem 5].foldl
        (ArrayAccessor.step Pod.uint64 Pod.uint64) ∅)
      ([ArrayCall.pushBackItem 5 7, .pushBackItem 6 8, .popBackItem 5].foldl ArrayCall.apply
        fun _ => []) :=
  presents_run [.pushBackItem 5 7, .pushBackItem 6 8, .popBackItem 5] (by decide)

end ArrayAccessor

end Chinet
