import Chinet.Wallet.SelectIndices
import Mathlib.Algebra.BigOperators.Group.List.Basic
import Mathlib.Data.List.Perm.Basic

/-!
# The cache of free transfers

`wallet2::select_transfers` takes the transfers that it spends from `m_found_free_amounts`,
which is built when it is empty or made for another number of fake outputs, and otherwise
kept up by the functions that add transfers, mark them and clear their flags.

A cache that lost no ready transfer makes the selection complete, as far as its sums are words.
-/

namespace Chinet

open GreedySums

/-! ## The cache -/

/-- `m_found_free_amounts[amount].insert(index)` -/
def insertFreeAmount : List FreeAmountEntry → UInt64 → Nat → List FreeAmountEntry
  | [], amount, index => [(amount, [index])]
  | (key, indexes) :: entries, amount, index =>
      if key = amount then
        (key, if index ∈ indexes then indexes else indexes.orderedInsert (· ≤ ·) index) :: entries
      else if amount < key then (amount, [index]) :: (key, indexes) :: entries
      else (key, indexes) :: insertFreeAmount entries amount index

namespace TransfersWallet

variable (w : TransfersWallet)

/-- All transfers that are able to go, as `prepare_free_transfers_cache` collects them. -/
def freeTransfers (fakeOutputsCount : Nat) : List FreeAmountEntry :=
  (List.range w.transfers.length).foldl (fun cache i =>
    if (w.transfers[i]?).any (isTransferAbleToGo · fakeOutputsCount) then
      insertFreeAmount cache (w.amountWordAt i) i
    else cache) []

def prepareFreeTransfersCache (fakeOutputsCount : Nat) : TransfersWallet :=
  if w.foundFreeAmounts = [] ∨ fakeOutputsCount ≠ w.fakeOutputsCount then
    { w with foundFreeAmounts := w.freeTransfers fakeOutputsCount, fakeOutputsCount }
  else w

/-- `select_transfers`: what it finds and selects, and the wallet after it; `dust` is not
read. -/
def selectTransfers (neededMoney : UInt64) (fakeOutputsCount _dust : Nat) :
    IndexSelection × TransfersWallet :=
  let w := w.prepareFreeTransfersCache fakeOutputsCount
  let selection := selectIndicesForTransfer w w.foundFreeAmounts neededMoney fakeOutputsCount
  (selection, { w with foundFreeAmounts := selection.foundFreeAmounts })

def addTransferToTransfersCache (amount : UInt64) (index : Nat) : TransfersWallet :=
  { w with foundFreeAmounts := insertFreeAmount w.foundFreeAmounts amount index }

def addTransfersToTransfersCache (indexs : List Nat) : TransfersWallet :=
  indexs.foldl (fun w i => w.addTransferToTransfersCache (w.amountWordAt i) i) w

/-- Changes the flags of some transfers; indexes out of range are skipped. -/
def changeFlags (change : BitVec 32 → BitVec 32) (selectedTransfers : List Nat) : TransfersWallet :=
  { w with transfers := w.transfers.mapIdx fun i td =>
      if i ∈ selectedTransfers then { td with flags := change td.flags } else td }

def markTransfersWithFlag (selectedTransfers : List Nat) (flag : BitVec 32) : TransfersWallet :=
  w.changeFlags (· ||| flag) selectedTransfers

def clearTransfersFromFlag (selectedTransfers : List Nat) (flag : BitVec 32) : TransfersWallet :=
  w.changeFlags (· &&& ~~~flag) selectedTransfers

/-- `prepare_tx_sources_for_packing`, up to the sources: the transfers of a block reward
that it selects, none if the cache holds too few. -/
def prepareTxSourcesForPacking (fakeOutputsCount posMintPackingSize : Nat) :
    Option (List Nat) × TransfersWallet :=
  let w := w.prepareFreeTransfersCache fakeOutputsCount
  match w.foundFreeAmounts.lookup currencyBlockReward with
  | none => (none, w)
  | some indexes =>
      if indexes.length < posMintPackingSize then (none, w)
      else
        let picked := (indexes.filter (w.ready fakeOutputsCount)).take (posMintPackingSize + 1)
        (some picked, { w with
          foundFreeAmounts :=
            eraseFrom currencyBlockReward (·.filter (· ∉ picked)) w.foundFreeAmounts })

/-- `exception_handler`, which every exception of the wallet calls, and the end of
`refresh`. -/
def clearCache : TransfersWallet := { w with foundFreeAmounts := [] }

end TransfersWallet

/-! ## The map -/

section

variable {entries : List FreeAmountEntry} {amount : UInt64} {index : Nat} {p : UInt64 × Nat}

theorem mem_pairs_cons {entry : FreeAmountEntry} :
    p ∈ pairs (entry :: entries) ↔ (p.1 = entry.1 ∧ p.2 ∈ entry.2) ∨ p ∈ pairs entries := by
  simp only [mem_pairs, List.mem_cons, Prod.ext_iff]
  grind

theorem mem_insertFreeAmount :
    p ∈ pairs (insertFreeAmount entries amount index) ↔ p = (amount, index) ∨ p ∈ pairs entries := by
  induction entries with
  | nil =>
      rw [insertFreeAmount, mem_pairs_cons, List.mem_singleton, Prod.ext_iff]
  | cons entry entries ih =>
      obtain ⟨key, indexes⟩ := entry
      rw [insertFreeAmount]
      split
      · rename_i hkey
        subst hkey
        rw [mem_pairs_cons, mem_pairs_cons, Prod.ext_iff]
        split
        · grind
        · simp only [List.mem_orderedInsert]
          grind
      · split
        · rw [mem_pairs_cons, List.mem_singleton, Prod.ext_iff]
        · rw [mem_pairs_cons, mem_pairs_cons, ih]
          grind

/-- The key of the first entry is in no other one. -/
theorem MapKept.ne_of_mem {entry : FreeAmountEntry} (hkept : MapKept (entry :: entries))
    (hp : p ∈ pairs entries) : p.1 ≠ entry.1 := by
  have hkeys := List.pairwise_cons.mp hkept.keys
  obtain ⟨indexes, hmem, -⟩ := mem_pairs.mp hp
  have hlt := hkeys.1 p.1.toNat (List.mem_map_of_mem hmem)
  intro heq
  rw [heq] at hlt
  exact lt_irrefl _ hlt

theorem MapKept.tail {entry : FreeAmountEntry} (hkept : MapKept (entry :: entries)) :
    MapKept entries :=
  ⟨(List.pairwise_cons.mp hkept.keys).2, fun e he => hkept.sets e (List.mem_cons_of_mem _ he)⟩

/-- Only indexes that are picked are taken out. -/
theorem mem_eraseFrom {picked : List Nat} (hp : p ∈ pairs entries) (hnot : p.2 ∉ picked) :
    p ∈ pairs (eraseFrom amount (·.filter (· ∉ picked)) entries) := by
  induction entries with
  | nil => cases hp
  | cons entry entries ih =>
      obtain ⟨key, indexes⟩ := entry
      rw [mem_pairs_cons] at hp
      rw [eraseFrom]
      split
      · have hfilter : p.2 ∈ indexes → p.2 ∈ indexes.filter (· ∉ picked) :=
          fun hmem => List.mem_filter.mpr ⟨hmem, decide_eq_true hnot⟩
        split
        · rename_i hnil
          rw [hnil] at hfilter
          exact hp.resolve_left fun hhead => absurd (hfilter hhead.2) List.not_mem_nil
        · exact mem_pairs_cons.mpr (hp.imp (fun hhead => ⟨hhead.1, hfilter hhead.2⟩) id)
      · exact mem_pairs_cons.mpr (hp.imp id ih)

/-- The keys after an insertion: those before and the inserted one. -/
theorem keys_insertFreeAmount {key : Nat}
    (h : key ∈ (insertFreeAmount entries amount index).map fun entry => entry.1.toNat) :
    key = amount.toNat ∨ key ∈ entries.map fun entry => entry.1.toNat := by
  induction entries with
  | nil => exact .inl (List.mem_singleton.mp h)
  | cons entry entries ih =>
      rw [insertFreeAmount] at h
      split at h
      · exact .inr h
      · split at h
        · exact List.mem_cons.mp h
        · rcases List.mem_cons.mp h with rfl | h
          · exact .inr List.mem_cons_self
          · exact (ih h).imp id (List.mem_cons_of_mem _)

theorem MapKept.insertFreeAmount (hkept : MapKept entries) (amount : UInt64) (index : Nat) :
    MapKept (insertFreeAmount entries amount index) := by
  induction entries with
  | nil => exact ⟨List.pairwise_singleton _ _, by simp [Chinet.insertFreeAmount]⟩
  | cons entry entries ih =>
      specialize ih hkept.tail
      obtain ⟨key, indexes⟩ := entry
      obtain ⟨hless, hkeys⟩ := List.pairwise_cons.mp hkept.keys
      obtain ⟨hset, hsets⟩ := List.forall_mem_cons.mp hkept.sets
      rw [Chinet.insertFreeAmount]
      split
      · refine ⟨hkept.keys, List.forall_mem_cons.mpr ⟨?_, hsets⟩⟩
        dsimp only
        split
        · exact hset
        · exact List.ne_nil_of_mem ((List.mem_orderedInsert _).mpr (Or.inl rfl))
      · rename_i hne
        split
        · rename_i hlt
          refine ⟨List.pairwise_cons.mpr ⟨?_, hkept.keys⟩,
            List.forall_mem_cons.mpr ⟨List.cons_ne_nil _ _, hkept.sets⟩⟩
          have hfirst := UInt64.lt_iff_toNat_lt.mp hlt
          intro other hother
          rcases List.mem_cons.mp hother with rfl | hother
          · exact hfirst
          · exact hfirst.trans (hless other hother)
        · rename_i hge
          have hfirst : key.toNat < amount.toNat := by
            have hle := UInt64.le_iff_toNat_le.mp (UInt64.not_lt.mp hge)
            exact lt_of_le_of_ne hle fun heq => hne (UInt64.toNat_inj.mp heq)
          refine ⟨List.pairwise_cons.mpr ⟨?_, ih.keys⟩, List.forall_mem_cons.mpr ⟨hset, ih.sets⟩⟩
          intro other hother
          rcases keys_insertFreeAmount hother with rfl | hother
          · exact hfirst
          · exact hless other hother

/-- Under different keys the pairs are different as soon as each set's are. -/
theorem nodup_pairs_iff (hkept : MapKept entries) :
    (pairs entries).Nodup ↔ ∀ entry ∈ entries, entry.2.Nodup := by
  induction entries with
  | nil => exact iff_of_true List.nodup_nil (List.forall_mem_nil _)
  | cons entry entries ih =>
      have hsplit : pairs (entry :: entries) = (entry.2.map fun i => (entry.1, i)) ++ pairs entries :=
        rfl
      have hdisjoint : (entry.2.map fun i => (entry.1, i)).Disjoint (pairs entries) := by
        intro q hq hrest
        obtain ⟨i, -, rfl⟩ := List.mem_map.mp hq
        exact hkept.ne_of_mem hrest rfl
      have hset : (entry.2.map fun i => (entry.1, i)).Nodup ↔ entry.2.Nodup :=
        List.nodup_map_iff fun i j h => congrArg Prod.snd h
      rw [hsplit, List.nodup_append', ih hkept.tail, hset, List.forall_mem_cons]
      exact ⟨fun h => ⟨h.1, h.2.1⟩, fun h => ⟨h.1, h.2, hdisjoint⟩⟩

theorem nodup_insertFreeAmount (hkept : MapKept entries) (h : (pairs entries).Nodup)
    (amount : UInt64) (index : Nat) : (pairs (insertFreeAmount entries amount index)).Nodup := by
  rw [nodup_pairs_iff (hkept.insertFreeAmount amount index)]
  have hsets := (nodup_pairs_iff hkept).mp h
  clear hkept h
  induction entries with
  | nil => simp [insertFreeAmount]
  | cons entry entries ih =>
      obtain ⟨hset, hsets⟩ := List.forall_mem_cons.mp hsets
      rw [insertFreeAmount]
      split
      · refine List.forall_mem_cons.mpr ⟨?_, hsets⟩
        dsimp only
        split
        · exact hset
        · rename_i hnew
          rw [(List.perm_orderedInsert _ _ _).nodup_iff]
          exact List.nodup_cons.mpr ⟨hnew, hset⟩
      · split
        · exact List.forall_mem_cons.mpr ⟨List.nodup_singleton _, List.forall_mem_cons.mpr ⟨hset, hsets⟩⟩
        · exact List.forall_mem_cons.mpr ⟨hset, ih hsets⟩

end

/-! ## What the cache holds -/

namespace TransfersWallet

/-- The transfers that `is_transfer_ready_to_go` accepts. -/
def readyTransfers (w : TransfersWallet) (fakeOutputsCount : Nat) : List Nat :=
  (List.range w.transfers.length).filter (w.ready fakeOutputsCount)

/-- The money that they have. -/
def readyMoney (w : TransfersWallet) (fakeOutputsCount : Nat) : Nat :=
  ((w.readyTransfers fakeOutputsCount).map w.amountAt).sum

/-- The cache holds indexes of transfers, each once and under its amount. -/
abbrev CacheValid (w : TransfersWallet) : Prop := CacheHolds w w.foundFreeAmounts

/-- The cache holds the index. -/
def Caches (w : TransfersWallet) (i : Nat) : Prop := ∃ p ∈ pairs w.foundFreeAmounts, p.2 = i

/-- The cache holds every transfer that is ready. -/
def CacheComplete (w : TransfersWallet) (fakeOutputsCount : Nat) : Prop :=
  ∀ i, w.ready fakeOutputsCount i = true → w.Caches i

/-- The cache is good for the next selection. -/
structure CacheSound (w : TransfersWallet) : Prop where
  valid : w.CacheValid
  complete : w.foundFreeAmounts = [] ∨ w.CacheComplete w.fakeOutputsCount

theorem lt_of_ready {w : TransfersWallet} {fakeOutputsCount i : Nat}
    (h : w.ready fakeOutputsCount i = true) : i < w.transfers.length := by
  unfold ready at h
  cases hget : w.transfers[i]? with
  | none =>
      rw [hget] at h
      cases h
  | some td => exact (List.getElem?_eq_some_iff.mp hget).1

theorem mem_readyTransfers {w : TransfersWallet} {fakeOutputsCount i : Nat} :
    i ∈ w.readyTransfers fakeOutputsCount ↔ w.ready fakeOutputsCount i = true := by
  rw [readyTransfers, List.mem_filter, List.mem_range]
  exact ⟨And.right, fun h => ⟨lt_of_ready h, h⟩⟩

/-- A complete cache holds the amounts of all transfers that are ready. -/
theorem readyAmounts_perm {w : TransfersWallet} {fakeOutputsCount : Nat} (h : w.CacheValid)
    (hcomplete : w.CacheComplete fakeOutputsCount) :
    (readyAmounts w w.foundFreeAmounts fakeOutputsCount).Perm
      ((w.readyTransfers fakeOutputsCount).map w.amountAt) := by
  have hperm : (((pairs w.foundFreeAmounts).filter fun p => w.ready fakeOutputsCount p.2).map
      Prod.snd).Perm (w.readyTransfers fakeOutputsCount) := by
    have hnodup := h.indexes_nodup.sublist ((List.filter_sublist (p := fun p =>
      w.ready fakeOutputsCount p.2)).map Prod.snd)
    have hready : (w.readyTransfers fakeOutputsCount).Nodup := List.nodup_range.filter _
    refine (List.perm_ext_iff_of_nodup hnodup hready).mpr ?_
    intro i
    rw [mem_readyTransfers, List.mem_map]
    constructor
    · rintro ⟨p, hp, rfl⟩
      exact (List.mem_filter.mp hp).2
    · intro hready
      obtain ⟨p, hp, rfl⟩ := hcomplete i hready
      exact ⟨p, List.mem_filter.mpr ⟨hp, hready⟩, rfl⟩
  have hamounts : readyAmounts w w.foundFreeAmounts fakeOutputsCount =
      (((pairs w.foundFreeAmounts).filter fun p => w.ready fakeOutputsCount p.2).map
        Prod.snd).map w.amountAt := by
    rw [readyAmounts, readyOf, List.map_map]
    apply List.map_congr_left
    intro p hp
    exact (h.index p (List.mem_of_mem_filter hp)).2
  rw [hamounts]
  exact hperm.map w.amountAt

/-- What `select_transfers` finds, for an amount, a number of fake outputs and a dust
threshold: different transfers that are ready, their money, and enough whenever there is
enough. -/
structure Finds (w : TransfersWallet) (neededMoney : UInt64) (fakeOutputsCount dust : Nat) :
    Prop where
  nodup : (w.selectTransfers neededMoney fakeOutputsCount dust).1.selectedIndexes.Nodup
  ready : ∀ i ∈ (w.selectTransfers neededMoney fakeOutputsCount dust).1.selectedIndexes,
    w.ready fakeOutputsCount i = true
  found : (w.selectTransfers neededMoney fakeOutputsCount dust).1.foundMoney.toNat =
    ((w.selectTransfers neededMoney fakeOutputsCount dust).1.selectedIndexes.map w.amountAt).sum
  enough_iff : neededMoney ≤ (w.selectTransfers neededMoney fakeOutputsCount dust).1.foundMoney ↔
    neededMoney.toNat ≤ w.readyMoney fakeOutputsCount

/-! ### The cache that is built anew -/

/-- A cache to which some indexes are added, each if it passes a test. -/
def insertIndexes (w : TransfersWallet) (test : Nat → Bool) (indexs : List Nat)
    (cache : List FreeAmountEntry) : List FreeAmountEntry :=
  indexs.foldl (fun cache i =>
    if test i then insertFreeAmount cache (w.amountWordAt i) i else cache) cache

theorem mem_insertIndexes {w : TransfersWallet} {test : Nat → Bool} {indexs : List Nat}
    {cache : List FreeAmountEntry} {p : UInt64 × Nat} :
    p ∈ pairs (w.insertIndexes test indexs cache) ↔
      p ∈ pairs cache ∨ (p.2 ∈ indexs ∧ test p.2 = true ∧ p.1 = w.amountWordAt p.2) := by
  induction indexs generalizing cache with
  | nil => simp [insertIndexes]
  | cons i indexs ih =>
      have hstep : w.insertIndexes test (i :: indexs) cache = w.insertIndexes test indexs
          (if test i then insertFreeAmount cache (w.amountWordAt i) i else cache) := rfl
      rw [hstep, ih, List.mem_cons]
      split
      · rw [mem_insertFreeAmount, Prod.ext_iff]
        grind
      · grind

/-- A map of indexes of transfers stays one. -/
theorem cacheHolds_insertIndexes {w : TransfersWallet} {cache : List FreeAmountEntry}
    (h : CacheHolds w cache) {test : Nat → Bool} {indexs : List Nat}
    (hlt : ∀ i ∈ indexs, i < w.transfers.length) :
    CacheHolds w (w.insertIndexes test indexs cache) := by
  induction indexs generalizing cache with
  | nil => exact h
  | cons i indexs ih =>
      obtain ⟨hi, hindexs⟩ := List.forall_mem_cons.mp hlt
      refine ih ?_ hindexs
      dsimp only
      split
      · refine ⟨h.kept.insertFreeAmount _ _, nodup_insertFreeAmount h.kept h.nodup _ _, ?_⟩
        intro p hp
        rcases mem_insertFreeAmount.mp hp with rfl | hp
        · exact ⟨hi, w.amountWordAt_toNat i⟩
        · exact h.index p hp
      · exact h

theorem cacheHolds_nil {w : TransfersWallet} : CacheHolds w [] where
  kept := ⟨List.Pairwise.nil, List.forall_mem_nil _⟩
  nodup := List.nodup_nil
  index := List.forall_mem_nil _

theorem able_of_ready {w : TransfersWallet} {fakeOutputsCount i : Nat}
    (h : w.ready fakeOutputsCount i = true) :
    (w.transfers[i]?).any (isTransferAbleToGo · fakeOutputsCount) = true := by
  unfold ready at h
  cases hget : w.transfers[i]? with
  | none =>
      rw [hget] at h
      cases h
  | some td =>
      rw [hget] at h
      exact (Bool.and_eq_true _ _ ▸ h).1

/-- The cache that a selection takes from: one that is good for its number of fake
outputs. -/
theorem CacheSound.prepared {w : TransfersWallet} (h : w.CacheSound) (fakeOutputsCount : Nat) :
    (w.prepareFreeTransfersCache fakeOutputsCount).CacheValid ∧
      (w.prepareFreeTransfersCache fakeOutputsCount).CacheComplete fakeOutputsCount ∧
      (w.prepareFreeTransfersCache fakeOutputsCount).fakeOutputsCount = fakeOutputsCount := by
  unfold prepareFreeTransfersCache
  split
  case isTrue =>
    have hholds : CacheHolds w (w.freeTransfers fakeOutputsCount) :=
      cacheHolds_insertIndexes cacheHolds_nil fun _ => List.mem_range.mp
    refine ⟨⟨hholds.kept, hholds.nodup, hholds.index⟩, ?_, rfl⟩
    intro i hready
    have hready' : w.ready fakeOutputsCount i = true := hready
    have hmem : (w.amountWordAt i, i) ∈ pairs (w.freeTransfers fakeOutputsCount) :=
      mem_insertIndexes.mpr (.inr ⟨List.mem_range.mpr (lt_of_ready hready'),
        able_of_ready hready', rfl⟩)
    exact ⟨_, hmem, rfl⟩
  case isFalse hkeep =>
    have hcache : w.foundFreeAmounts ≠ [] := fun hnil => hkeep (Or.inl hnil)
    have hfake : fakeOutputsCount = w.fakeOutputsCount := by
      by_contra hne
      exact hkeep (Or.inr hne)
    subst hfake
    exact ⟨h.valid, h.complete.resolve_left hcache, rfl⟩

@[simp] theorem prepareFreeTransfersCache_transfers (w : TransfersWallet) (fakeOutputsCount : Nat) :
    (w.prepareFreeTransfersCache fakeOutputsCount).transfers = w.transfers := by
  unfold prepareFreeTransfersCache
  split <;> rfl

@[simp] theorem prepareFreeTransfersCache_ready (w : TransfersWallet) (fakeOutputsCount : Nat) :
    (w.prepareFreeTransfersCache fakeOutputsCount).ready = w.ready := by
  unfold prepareFreeTransfersCache
  split <;> rfl

@[simp] theorem prepareFreeTransfersCache_amountAt (w : TransfersWallet) (fakeOutputsCount : Nat) :
    (w.prepareFreeTransfersCache fakeOutputsCount).amountAt = w.amountAt := by
  unfold prepareFreeTransfersCache
  split <;> rfl

/-- What is selected is ready, and it was in the cache that was prepared like what is left of it. -/
theorem selectTransfers_selected (w : TransfersWallet) (neededMoney : UInt64)
    (fakeOutputsCount dust : Nat) :
    (∀ p ∈ pairs (w.selectTransfers neededMoney fakeOutputsCount dust).2.foundFreeAmounts,
      p ∈ pairs (w.prepareFreeTransfersCache fakeOutputsCount).foundFreeAmounts) ∧
    ∀ i ∈ (w.selectTransfers neededMoney fakeOutputsCount dust).1.selectedIndexes,
      w.ready fakeOutputsCount i = true ∧
        ∃ p ∈ pairs (w.prepareFreeTransfersCache fakeOutputsCount).foundFreeAmounts, p.2 = i := by
  have hloop := @selectIndicesLoop_selected ((w.prepareFreeTransfersCache fakeOutputsCount).ready
    fakeOutputsCount) neededMoney
      ⟨0, [], (w.prepareFreeTransfersCache fakeOutputsCount).foundFreeAmounts⟩
  refine ⟨hloop.1, fun i hi => ?_⟩
  rw [← w.prepareFreeTransfersCache_ready fakeOutputsCount]
  exact (hloop.2 i hi).resolve_left List.not_mem_nil

/-- What a selection does to a map. -/
theorem exists_reaches_prepared (w : TransfersWallet) (neededMoney : UInt64)
    (fakeOutputsCount dust : Nat)
    (hkept : MapKept (w.prepareFreeTransfersCache fakeOutputsCount).foundFreeAmounts) :
    ∃ picked dropped, Reaches (w.ready fakeOutputsCount) neededMoney
      ⟨0, [], (w.prepareFreeTransfersCache fakeOutputsCount).foundFreeAmounts⟩
      (w.selectTransfers neededMoney fakeOutputsCount dust).1 picked dropped := by
  have hreaches := @selectIndicesForTransfer_reaches (w.prepareFreeTransfersCache fakeOutputsCount)
    _ hkept neededMoney fakeOutputsCount
  rwa [prepareFreeTransfersCache_ready] at hreaches

/-- With a good cache a selection finds the money just when its sum is a word. -/
theorem CacheSound.finds_iff {w : TransfersWallet} (h : w.CacheSound) {neededMoney : UInt64}
    {fakeOutputsCount dust : Nat} :
    w.Finds neededMoney fakeOutputsCount dust ↔ StaysBelow (2 ^ 64) neededMoney.toNat 0
      ((w.readyTransfers fakeOutputsCount).map w.amountAt) := by
  obtain ⟨hvalid, hcomplete, _⟩ := h.prepared fakeOutputsCount
  have hperm := readyAmounts_perm hvalid hcomplete
  have hiff := @CacheHolds.complete_iff _ _ neededMoney fakeOutputsCount hvalid
  unfold readyTransfers at hperm
  rw [prepareFreeTransfersCache_transfers, prepareFreeTransfersCache_ready,
    prepareFreeTransfersCache_amountAt] at hperm
  rw [readyTransfers, ← StaysBelow.perm hperm, ← hiff]
  obtain ⟨picked, dropped, hreaches⟩ :=
    w.exists_reaches_prepared neededMoney fakeOutputsCount dust hvalid.kept
  have henough : (readyAmounts (w.prepareFreeTransfersCache fakeOutputsCount)
      (w.prepareFreeTransfersCache fakeOutputsCount).foundFreeAmounts fakeOutputsCount).sum =
      w.readyMoney fakeOutputsCount := hperm.sum_eq
  constructor
  · intro hfinds
    exact {
      nodup := hfinds.nodup
      ready := by
        rw [prepareFreeTransfersCache_ready]
        exact hfinds.ready
      money := by
        rw [prepareFreeTransfersCache_amountAt]
        exact hfinds.found
      enough_iff := by
        rw [henough, ← UInt64.le_iff_toNat_le]
        exact hfinds.enough_iff
      kept := ⟨picked, dropped, hreaches.selected,
        by rw [prepareFreeTransfersCache_ready]; exact hreaches.dropped_not_ready, hreaches.cache⟩ }
  · intro hselection
    have hready := hselection.ready
    have hmoney := hselection.money
    rw [prepareFreeTransfersCache_ready] at hready
    rw [prepareFreeTransfersCache_amountAt] at hmoney
    refine ⟨hselection.nodup, hready, hmoney, ?_⟩
    rw [UInt64.le_iff_toNat_le, ← henough]
    exact hselection.enough_iff

end TransfersWallet

/-! ## Runs -/

/-- The flags with which the callers of the selection mark what they take. -/
inductive SelectionMark
  | spent
  | blocked
  | escrowTemplate
  | coldSig

def SelectionMark.flag : SelectionMark → BitVec 32
  | spent => walletTransferDetailFlagSpent
  | blocked => walletTransferDetailFlagBlocked
  | escrowTemplate => walletTransferDetailFlagBlocked ||| walletTransferDetailFlagEscrowProposalReservation
  | coldSig => walletTransferDetailFlagColdSigReservation

/-- What may happen to the transfers and to the cache. -/
inductive TransfersEvent
  /-- `process_new_transaction` for an output of the wallet. -/
  | receive (td : TransferDetails)
  /-- A spend in a block or in the pool, or an addition to the expiration list. -/
  | mark (selectedTransfers : List Nat) (flag : BitVec 32)
  /-- The end of an unconfirmed transaction or of an expiration entry, an HTLC that expires,
  or a transaction that could not be sent. -/
  | clear (selectedTransfers : List Nat) (flag : BitVec 32)
  /-- The end of `check_available_sources`, and of an escrow proposal that failed: the flags
  are cleared and the transfers are added to the cache again. -/
  | release (holds : List (List Nat)) (flag : BitVec 32)
  /-- An exception of the wallet, or the end of `refresh`. -/
  | clearCache
  /-- Another size of the chain or another core time. -/
  | advance (blockchainCurrentSize coreTime : Nat)
  /-- `detach_blockchain` erases the transfers from an index on. -/
  | detach (size : Nat)
  /-- A selection.  If it finds enough, its transfers are marked; otherwise the wallet throws,
  or goes on with the cache that is used up. -/
  | select (neededMoney : UInt64) (fakeOutputsCount dust : Nat) (mark : SelectionMark)
      (throws : Bool)
  /-- `generate_packing_transaction_if_needed` looks at the cache. -/
  | prepare (fakeOutputsCount : Nat)
  /-- The transfers of a packing transaction are marked. -/
  | pack (fakeOutputsCount posMintPackingSize : Nat) (mark : SelectionMark)

namespace TransfersWallet

def receive (w : TransfersWallet) (td : TransferDetails) : TransfersWallet :=
  ({ w with transfers := w.transfers ++ [td] }).addTransferToTransfersCache td.amountWord
    w.transfers.length

def release (w : TransfersWallet) (holds : List (List Nat)) (flag : BitVec 32) : TransfersWallet :=
  holds.foldl (fun w h => (w.clearTransfersFromFlag h flag).addTransfersToTransfersCache h) w

def select (w : TransfersWallet) (neededMoney : UInt64) (fakeOutputsCount dust : Nat)
    (mark : SelectionMark) (throws : Bool) : TransfersWallet :=
  let (selection, w) := w.selectTransfers neededMoney fakeOutputsCount dust
  if neededMoney ≤ selection.foundMoney then
    w.markTransfersWithFlag selection.selectedIndexes mark.flag
  else if throws then w.clearCache else w

def pack (w : TransfersWallet) (fakeOutputsCount posMintPackingSize : Nat) (mark : SelectionMark) :
    TransfersWallet :=
  match w.prepareTxSourcesForPacking fakeOutputsCount posMintPackingSize with
  | (none, w) => w
  | (some selectedIndexes, w) => w.markTransfersWithFlag selectedIndexes mark.flag

def step (w : TransfersWallet) : TransfersEvent → TransfersWallet
  | .receive td => w.receive td
  | .mark selectedTransfers flag => w.markTransfersWithFlag selectedTransfers flag
  | .clear selectedTransfers flag => w.clearTransfersFromFlag selectedTransfers flag
  | .release holds flag => w.release holds flag
  | .clearCache => w.clearCache
  | .advance blockchainCurrentSize coreTime => { w with blockchainCurrentSize, coreTime }
  | .detach size => { w with transfers := w.transfers.take size }
  | .select neededMoney fakeOutputsCount dust mark throws =>
      w.select neededMoney fakeOutputsCount dust mark throws
  | .prepare fakeOutputsCount => w.prepareFreeTransfersCache fakeOutputsCount
  | .pack fakeOutputsCount posMintPackingSize mark => w.pack fakeOutputsCount posMintPackingSize mark

/-- The transfers that become ready are in the cache, or the cache is to be built anew. -/
def BecomesCached (w w' : TransfersWallet) : Prop :=
  w.foundFreeAmounts = [] ∨ ∀ i, w'.ready w.fakeOutputsCount i = true →
    w.ready w.fakeOutputsCount i = false → w.Caches i

/-- What a step must not do, so that no money is lost from sight. -/
def StepFinds (w : TransfersWallet) : TransfersEvent → Prop
  | .receive _ => w.foundFreeAmounts = [] → ∀ i, w.ready w.fakeOutputsCount i = false
  | .clear selectedTransfers flag => w.BecomesCached (w.clearTransfersFromFlag selectedTransfers flag)
  | .release holds flag => (∀ h ∈ holds, ∀ i ∈ h, i < w.transfers.length) ∧
      (w.foundFreeAmounts = [] → holds.flatten = [] ∨ ∀ i,
        (w.clearTransfersFromFlag holds.flatten flag).ready w.fakeOutputsCount i = true →
          i ∈ holds.flatten)
  | .advance blockchainCurrentSize coreTime =>
      w.BecomesCached { w with blockchainCurrentSize, coreTime }
  | .detach size => ∀ i, w.Caches i → i < size
  | _ => True

/-- Every step of a run is such a step. -/
def RunFinds : TransfersWallet → List TransfersEvent → Prop
  | _, [] => True
  | w, event :: events => w.StepFinds event ∧ RunFinds (w.step event) events

def run (w : TransfersWallet) (events : List TransfersEvent) : TransfersWallet :=
  events.foldl step w

end TransfersWallet

/-! ## Flags -/

theorem and_eq_zero_of_or {a b m : BitVec 32} (h : (a ||| b) &&& m = 0) : a &&& m = 0 := by
  ext i hi
  have hbit := congrArg (fun v : BitVec 32 => v.getLsbD i) h
  simp only [BitVec.getLsbD_and, BitVec.getLsbD_or] at hbit
  simp at hbit ⊢
  grind

/-- Each mark of a selection keeps a transfer from being spent. -/
theorem SelectionMark.flag_ne_zero (mark : SelectionMark) :
    mark.flag &&& (walletTransferDetailFlagSpent ||| walletTransferDetailFlagBlocked |||
      walletTransferDetailFlagEscrowProposalReservation |||
      walletTransferDetailFlagColdSigReservation) ≠ 0 := by
  cases mark <;> decide

namespace TransfersWallet

variable {w : TransfersWallet}

theorem getElem?_changeFlags {change : BitVec 32 → BitVec 32} {selectedTransfers : List Nat}
    {i : Nat} : (w.changeFlags change selectedTransfers).transfers[i]? =
      (w.transfers[i]?).map fun td =>
        if i ∈ selectedTransfers then { td with flags := change td.flags } else td := by
  unfold changeFlags
  rw [List.getElem?_mapIdx]

theorem amountWordAt_changeFlags {change : BitVec 32 → BitVec 32} {selectedTransfers : List Nat} :
    (w.changeFlags change selectedTransfers).amountWordAt = w.amountWordAt := by
  funext i
  unfold amountWordAt
  rw [getElem?_changeFlags, Option.map_map]
  congr 2
  funext td
  dsimp only [Function.comp]
  split <;> rfl

theorem amountAt_changeFlags {change : BitVec 32 → BitVec 32} {selectedTransfers : List Nat} :
    (w.changeFlags change selectedTransfers).amountAt = w.amountAt := by
  funext i
  rw [← amountWordAt_toNat, amountWordAt_changeFlags, amountWordAt_toNat]

theorem length_changeFlags {change : BitVec 32 → BitVec 32} {selectedTransfers : List Nat} :
    (w.changeFlags change selectedTransfers).transfers.length = w.transfers.length := by
  unfold changeFlags
  rw [List.length_mapIdx]

/-- Changed flags do not matter to what the cache holds. -/
theorem cacheValid_changeFlags (h : w.CacheValid) (change : BitVec 32 → BitVec 32)
    (selectedTransfers : List Nat) : (w.changeFlags change selectedTransfers).CacheValid where
  kept := h.kept
  nodup := h.nodup
  index p hp := by
    rw [length_changeFlags, amountAt_changeFlags]
    exact h.index p hp

/-- A marked transfer is ready only if it was before, and only if the flag does not keep it
from being spent. -/
theorem ready_of_mark {selectedTransfers : List Nat} {flag : BitVec 32} {fakeOutputsCount i : Nat}
    (h : (w.markTransfersWithFlag selectedTransfers flag).ready fakeOutputsCount i = true) :
    w.ready fakeOutputsCount i = true ∧ (i ∈ selectedTransfers →
      flag &&& (walletTransferDetailFlagSpent ||| walletTransferDetailFlagBlocked |||
        walletTransferDetailFlagEscrowProposalReservation |||
        walletTransferDetailFlagColdSigReservation) = 0) := by
  unfold markTransfersWithFlag at h
  unfold ready at h ⊢
  rw [getElem?_changeFlags] at h
  cases hget : w.transfers[i]? with
  | none =>
      rw [hget] at h
      cases h
  | some td =>
      rw [hget, Option.map_some] at h
      dsimp only at h ⊢
      split at h
      case isTrue hmem =>
        unfold isTransferReadyToGo isTransferAbleToGo isTransferUnlocked TransferDetails.isSpendable at h ⊢
        simp only [Bool.and_eq_true, beq_iff_eq] at h ⊢
        obtain ⟨⟨hspendable, htarget⟩, ⟨hblocked, hheight⟩, htime⟩ := h
        refine ⟨⟨⟨and_eq_zero_of_or hspendable, htarget⟩, ⟨and_eq_zero_of_or hblocked, hheight⟩, htime⟩, ?_⟩
        intro _
        rw [BitVec.or_comm] at hspendable
        exact and_eq_zero_of_or hspendable
      case isFalse hmem => exact ⟨h, fun hmem' => absurd hmem' hmem⟩

theorem CacheSound.mark (h : w.CacheSound) (selectedTransfers : List Nat) (flag : BitVec 32) :
    (w.markTransfersWithFlag selectedTransfers flag).CacheSound where
  valid := cacheValid_changeFlags h.valid _ _
  complete := h.complete.imp id fun hcomplete i hready => hcomplete i (ready_of_mark hready).1

theorem CacheSound.clear (h : w.CacheSound) {selectedTransfers : List Nat} {flag : BitVec 32}
    (hstep : w.BecomesCached (w.clearTransfersFromFlag selectedTransfers flag)) :
    (w.clearTransfersFromFlag selectedTransfers flag).CacheSound where
  valid := cacheValid_changeFlags h.valid _ _
  complete := by
    rcases h.complete with hnil | hcomplete
    · exact Or.inl hnil
    · refine hstep.imp id ?_
      intro hcached i hready
      cases hbefore : w.ready w.fakeOutputsCount i with
      | true => exact hcomplete i hbefore
      | false => exact hcached i hready hbefore

theorem clearCache_cacheSound (w : TransfersWallet) : w.clearCache.CacheSound where
  valid := cacheHolds_nil
  complete := Or.inl rfl

theorem CacheSound.advance (h : w.CacheSound) {blockchainCurrentSize coreTime : Nat}
    (hstep : w.BecomesCached { w with blockchainCurrentSize, coreTime }) :
    CacheSound { w with blockchainCurrentSize, coreTime } where
  valid := ⟨h.valid.kept, h.valid.nodup, h.valid.index⟩
  complete := by
    rcases h.complete with hnil | hcomplete
    · exact Or.inl hnil
    · refine hstep.imp id ?_
      intro hcached i hready
      cases hbefore : w.ready w.fakeOutputsCount i with
      | true => exact hcomplete i hbefore
      | false => exact hcached i hready hbefore

theorem CacheSound.receive (h : w.CacheSound) {td : TransferDetails}
    (hstep : w.foundFreeAmounts = [] → ∀ i, w.ready w.fakeOutputsCount i = false) :
    (w.receive td).CacheSound := by
  have hold : ∀ i < w.transfers.length, (w.receive td).transfers[i]? = w.transfers[i]? :=
    fun i hi => List.getElem?_append_left hi
  have hlength : (w.receive td).transfers.length = w.transfers.length + 1 :=
    List.length_append
  have hamount : ∀ i < w.transfers.length, (w.receive td).amountAt i = w.amountAt i := by
    intro i hi
    unfold amountAt
    rw [hold i hi]
  have hnew : (w.receive td).amountAt w.transfers.length = td.amountWord.toNat := by
    rw [td.amountWord_toNat]
    unfold amountAt TransfersWallet.receive addTransferToTransfersCache
    dsimp only
    rw [List.getElem?_concat_length]
    rfl
  have hcache : ∀ p, p ∈ pairs (w.receive td).foundFreeAmounts ↔
      p = (td.amountWord, w.transfers.length) ∨ p ∈ pairs w.foundFreeAmounts :=
    fun p => mem_insertFreeAmount
  refine ⟨⟨h.valid.kept.insertFreeAmount _ _, nodup_insertFreeAmount h.valid.kept h.valid.nodup _ _,
    ?_⟩, Or.inr ?_⟩
  · intro p hp
    rcases (hcache p).mp hp with rfl | hp
    · exact ⟨by omega, hnew.symm⟩
    · obtain ⟨hlt, hpamount⟩ := h.valid.index p hp
      exact ⟨by omega, hpamount.trans (hamount p.2 hlt).symm⟩
  · intro i hready
    have hlt := lt_of_ready hready
    by_cases hi : i = w.transfers.length
    · exact ⟨_, (hcache _).mpr (Or.inl rfl), hi.symm⟩
    · have hi' : i < w.transfers.length := by omega
      have hbefore : w.ready w.fakeOutputsCount i = true := by
        unfold ready at hready ⊢
        rw [hold i hi'] at hready
        exact hready
      have hcomplete : w.CacheComplete w.fakeOutputsCount := by
        refine h.complete.resolve_left ?_
        intro hnil
        rw [hstep hnil i] at hbefore
        cases hbefore
      obtain ⟨p, hp, hpi⟩ := hcomplete i hbefore
      exact ⟨p, (hcache p).mpr (Or.inr hp), hpi⟩

theorem CacheSound.detach (h : w.CacheSound) {size : Nat}
    (hstep : ∀ i, w.Caches i → i < size) :
    CacheSound { w with transfers := w.transfers.take size } := by
  have hget : ∀ i < size, (w.transfers.take size)[i]? = w.transfers[i]? :=
    fun i hi => List.getElem?_take_of_lt hi
  refine ⟨⟨h.valid.kept, h.valid.nodup, ?_⟩, h.complete.imp id ?_⟩
  · intro p hp
    obtain ⟨hlt, hamount⟩ := h.valid.index p hp
    refine ⟨?_, ?_⟩
    · show p.2 < (w.transfers.take size).length
      rw [List.length_take]
      exact lt_min (hstep p.2 ⟨p, hp, rfl⟩) hlt
    · unfold amountAt at hamount ⊢
      dsimp only
      rw [hget p.2 (hstep p.2 ⟨p, hp, rfl⟩)]
      exact hamount
  · intro hcomplete i hready
    have hi : i < size := by
      have hlt : i < (w.transfers.take size).length := lt_of_ready hready
      rw [List.length_take] at hlt
      exact lt_of_lt_of_le hlt (min_le_left _ _)
    have hbefore : w.ready w.fakeOutputsCount i = true := by
      unfold ready at hready ⊢
      dsimp only at hready
      rw [hget i hi] at hready
      exact hready
    exact hcomplete i hbefore

theorem CacheSound.select (h : w.CacheSound) (neededMoney : UInt64) (fakeOutputsCount dust : Nat)
    (mark : SelectionMark) (throws : Bool) :
    (w.select neededMoney fakeOutputsCount dust mark throws).CacheSound := by
  obtain ⟨hvalid, hcomplete, hfake⟩ := h.prepared fakeOutputsCount
  obtain ⟨picked, dropped, hreaches⟩ :=
    w.exists_reaches_prepared neededMoney fakeOutputsCount dust hvalid.kept
  have hvalid' : (w.selectTransfers neededMoney fakeOutputsCount dust).2.CacheValid := by
    refine ⟨hreaches.kept, (hreaches.cache.nodup_iff.mp hvalid.nodup).of_append_right, ?_⟩
    intro p hp
    exact hvalid.index p (hreaches.cache.mem_iff.mpr (List.mem_append_right _ hp))
  unfold TransfersWallet.select
  dsimp only
  split
  case isTrue =>
    refine ⟨cacheValid_changeFlags hvalid' _ _, Or.inr ?_⟩
    intro i hready
    obtain ⟨hbefore, hmarked⟩ := ready_of_mark hready
    have hbefore' : (w.prepareFreeTransfersCache fakeOutputsCount).ready
        (w.prepareFreeTransfersCache fakeOutputsCount).fakeOutputsCount i = true := hbefore
    rw [hfake] at hbefore'
    obtain ⟨p, hp, rfl⟩ := hcomplete i hbefore'
    rw [prepareFreeTransfersCache_ready] at hbefore'
    -- what was picked is marked, and what was dropped was not ready
    rcases List.mem_append.mp (hreaches.cache.mem_iff.mp hp) with hmem | hmem
    · exfalso
      rcases List.mem_append.mp hmem with hpicked | hdropped
      · refine mark.flag_ne_zero (hmarked ?_)
        rw [hreaches.selected]
        exact List.mem_map.mpr ⟨_, hpicked, rfl⟩
      · have hnot := hreaches.dropped_not_ready _ hdropped
        rw [hbefore'] at hnot
        cases hnot
    · exact ⟨p, hmem, rfl⟩
  case isFalse hless =>
    have hnil := hreaches.ends.resolve_left fun hle => hless (UInt64.le_iff_toNat_le.mpr hle)
    split
    · exact clearCache_cacheSound _
    · exact ⟨hvalid', Or.inl hnil⟩

theorem CacheSound.prepare (h : w.CacheSound) (fakeOutputsCount : Nat) :
    (w.prepareFreeTransfersCache fakeOutputsCount).CacheSound := by
  obtain ⟨hvalid, hcomplete, hfake⟩ := h.prepared fakeOutputsCount
  refine ⟨hvalid, Or.inr ?_⟩
  rw [hfake]
  exact hcomplete

/-- Transfers that are taken out of the cache and marked. -/
theorem CacheSound.mark_of_erase (h : w.CacheSound) (amount : UInt64) (picked : List Nat)
    (mark : SelectionMark) :
    (({ w with foundFreeAmounts :=
      eraseFrom amount (·.filter (· ∉ picked)) w.foundFreeAmounts } :
        TransfersWallet).markTransfersWithFlag picked mark.flag).CacheSound := by
  have hpairs := @pairs_eraseFrom amount w.foundFreeAmounts (·.filter (· ∉ picked)) fun _ =>
    List.filter_sublist
  have hvalid : CacheValid { w with
      foundFreeAmounts := eraseFrom amount (·.filter (· ∉ picked)) w.foundFreeAmounts } :=
    ⟨h.valid.kept.eraseFrom _ _, h.valid.nodup.sublist hpairs,
      fun p hp => h.valid.index p (hpairs.subset hp)⟩
  refine ⟨cacheValid_changeFlags hvalid _ _, h.complete.imp ?_ ?_⟩
  · intro hnil
    change eraseFrom _ _ w.foundFreeAmounts = []
    rw [hnil, eraseFrom]
  · intro hcomplete i hready
    obtain ⟨hbefore, hmarked⟩ := ready_of_mark hready
    obtain ⟨p, hp, rfl⟩ := hcomplete i hbefore
    exact ⟨p, mem_eraseFrom hp fun hpicked => mark.flag_ne_zero (hmarked hpicked), rfl⟩

theorem CacheSound.pack (h : w.CacheSound) (fakeOutputsCount posMintPackingSize : Nat)
    (mark : SelectionMark) : (w.pack fakeOutputsCount posMintPackingSize mark).CacheSound := by
  have hprepared := h.prepare fakeOutputsCount
  unfold TransfersWallet.pack prepareTxSourcesForPacking
  dsimp only
  cases (w.prepareFreeTransfersCache fakeOutputsCount).foundFreeAmounts.lookup currencyBlockReward with
  | none => exact hprepared
  | some indexes =>
      dsimp only
      split
      case h_1 hnone =>
        split at hnone
        · cases hnone
          exact hprepared
        · cases hnone
      case h_2 hsome =>
        split at hsome
        · cases hsome
        · cases hsome
          exact hprepared.mark_of_erase _ _ mark

/-- Adding transfers changes the cache alone. -/
theorem addTransfersToTransfersCache_eq {indexs : List Nat} :
    w.addTransfersToTransfersCache indexs = { w with
      foundFreeAmounts := w.insertIndexes (fun _ => true) indexs w.foundFreeAmounts } := by
  induction indexs generalizing w with
  | nil => rfl
  | cons i indexs ih => exact @ih (w.addTransferToTransfersCache (w.amountWordAt i) i)

theorem mem_addTransfersToTransfersCache {indexs : List Nat} {p : UInt64 × Nat} :
    p ∈ pairs (w.addTransfersToTransfersCache indexs).foundFreeAmounts ↔
      p ∈ pairs w.foundFreeAmounts ∨ (p.2 ∈ indexs ∧ p.1 = w.amountWordAt p.2) := by
  rw [addTransfersToTransfersCache_eq, mem_insertIndexes]
  simp only [true_and]

/-- The flags of two groups are cleared together or one after the other. -/
theorem clearTransfersFromFlag_append {h h' : List Nat} {flag : BitVec 32} :
    (w.clearTransfersFromFlag h flag).clearTransfersFromFlag h' flag =
      w.clearTransfersFromFlag (h ++ h') flag := by
  have htransfers : ((w.clearTransfersFromFlag h flag).clearTransfersFromFlag h' flag).transfers =
      (w.clearTransfersFromFlag (h ++ h') flag).transfers := by
    refine List.ext_getElem? ?_
    intro i
    unfold clearTransfersFromFlag
    rw [getElem?_changeFlags, getElem?_changeFlags, getElem?_changeFlags, Option.map_map]
    congr 1
    funext td
    dsimp only [Function.comp]
    by_cases hi : i ∈ h
    · by_cases hi' : i ∈ h'
      · rw [if_pos hi, if_pos hi', if_pos (List.mem_append_left _ hi), BitVec.and_assoc,
          BitVec.and_self]
      · rw [if_pos hi, if_neg hi', if_pos (List.mem_append_left _ hi)]
    · by_cases hi' : i ∈ h'
      · rw [if_neg hi, if_pos hi', if_pos (List.mem_append_right _ hi')]
      · rw [if_neg hi, if_neg hi', if_neg (by simp [hi, hi'])]
  unfold clearTransfersFromFlag changeFlags at htransfers ⊢
  dsimp only at htransfers ⊢
  rw [htransfers]

/-- Clearing flags and adding to the cache do not get in each other's way. -/
theorem clear_addTransfersToTransfersCache {h h' : List Nat} {flag : BitVec 32} :
    (w.addTransfersToTransfersCache h).clearTransfersFromFlag h' flag =
      (w.clearTransfersFromFlag h' flag).addTransfersToTransfersCache h := by
  rw [addTransfersToTransfersCache_eq, addTransfersToTransfersCache_eq]
  unfold clearTransfersFromFlag insertIndexes
  rw [amountWordAt_changeFlags]
  rfl

theorem addTransfersToTransfersCache_append {h h' : List Nat} :
    (w.addTransfersToTransfersCache h).addTransfersToTransfersCache h' =
      w.addTransfersToTransfersCache (h ++ h') := by
  unfold addTransfersToTransfersCache
  rw [List.foldl_append]

theorem release_eq {holds : List (List Nat)} {flag : BitVec 32} :
    w.release holds flag =
      (w.clearTransfersFromFlag holds.flatten flag).addTransfersToTransfersCache holds.flatten := by
  induction holds generalizing w with
  | nil =>
      have hnone : w.clearTransfersFromFlag [] flag = w := by
        have htransfers : (w.clearTransfersFromFlag [] flag).transfers = w.transfers := by
          refine List.ext_getElem? ?_
          intro i
          unfold clearTransfersFromFlag
          rw [getElem?_changeFlags]
          simp
        unfold clearTransfersFromFlag changeFlags at htransfers ⊢
        dsimp only at htransfers ⊢
        rw [htransfers]
      exact hnone.symm
  | cons h holds ih =>
      calc w.release (h :: holds) flag
        _ = ((w.clearTransfersFromFlag h flag).addTransfersToTransfersCache h).release holds flag := rfl
        _ = ((w.clearTransfersFromFlag (h ++ holds.flatten) flag).addTransfersToTransfersCache
              h).addTransfersToTransfersCache holds.flatten := by
          rw [ih, clear_addTransfersToTransfersCache, clearTransfersFromFlag_append]
        _ = _ := by
          rw [addTransfersToTransfersCache_append]
          rfl

theorem CacheSound.release (h : w.CacheSound) {holds : List (List Nat)} {flag : BitVec 32}
    (hrange : ∀ h ∈ holds, ∀ i ∈ h, i < w.transfers.length)
    (hstep : w.foundFreeAmounts = [] → holds.flatten = [] ∨ ∀ i,
      (w.clearTransfersFromFlag holds.flatten flag).ready w.fakeOutputsCount i = true →
        i ∈ holds.flatten) :
    (w.release holds flag).CacheSound := by
  have hcleared : (w.clearTransfersFromFlag holds.flatten flag).CacheValid :=
    cacheValid_changeFlags h.valid _ _
  have hlt : ∀ i ∈ holds.flatten,
      i < (w.clearTransfersFromFlag holds.flatten flag).transfers.length := by
    intro i hi
    obtain ⟨group, hgroup, hi⟩ := List.mem_flatten.mp hi
    rw [clearTransfersFromFlag, length_changeFlags]
    exact hrange group hgroup i hi
  have hholds := @cacheHolds_insertIndexes _ _ hcleared (fun _ => true) _ hlt
  rw [release_eq, addTransfersToTransfersCache_eq]
  refine ⟨⟨hholds.kept, hholds.nodup, hholds.index⟩, ?_⟩
  by_cases hnone : w.foundFreeAmounts = [] ∧ holds.flatten = []
  · left
    change insertIndexes _ _ holds.flatten w.foundFreeAmounts = []
    rw [hnone.1, hnone.2]
    rfl
  · right
    intro i hi
    -- a released transfer enters the cache; the others were ready before
    by_cases hheld : i ∈ holds.flatten
    · exact ⟨((w.clearTransfersFromFlag holds.flatten flag).amountWordAt i, i),
        mem_insertIndexes.mpr (Or.inr ⟨hheld, rfl, rfl⟩), rfl⟩
    · have hready : (w.clearTransfersFromFlag holds.flatten flag).ready w.fakeOutputsCount i = true :=
        hi
      have hbefore : w.ready w.fakeOutputsCount i = true := by
        unfold ready clearTransfersFromFlag at hready
        unfold ready
        rw [getElem?_changeFlags] at hready
        cases hget : w.transfers[i]? with
        | none =>
            rw [hget] at hready
            cases hready
        | some td =>
            rw [hget, Option.map_some, if_neg hheld] at hready
            exact hready
      have hcomplete : w.CacheComplete w.fakeOutputsCount := by
        refine h.complete.resolve_left ?_
        intro hnil
        have hreleased := (hstep hnil).resolve_left fun hflat => hnone ⟨hnil, hflat⟩
        exact hheld (hreleased i hready)
      obtain ⟨p, hp, hpi⟩ := hcomplete i hbefore
      exact ⟨p, mem_insertIndexes.mpr (Or.inl hp), hpi⟩

/-! ## Every run -/

theorem CacheSound.step (h : w.CacheSound) {event : TransfersEvent} (hstep : w.StepFinds event) :
    (w.step event).CacheSound := by
  cases event with
  | receive td => exact h.receive hstep
  | mark selectedTransfers flag => exact h.mark selectedTransfers flag
  | clear selectedTransfers flag => exact h.clear hstep
  | release holds flag => exact h.release hstep.1 hstep.2
  | clearCache => exact w.clearCache_cacheSound
  | advance blockchainCurrentSize coreTime => exact h.advance hstep
  | detach size => exact h.detach hstep
  | select neededMoney fakeOutputsCount dust mark throws =>
      exact h.select neededMoney fakeOutputsCount dust mark throws
  | prepare fakeOutputsCount => exact h.prepare fakeOutputsCount
  | pack fakeOutputsCount posMintPackingSize mark =>
      exact h.pack fakeOutputsCount posMintPackingSize mark

theorem CacheSound.run (h : w.CacheSound) {events : List TransfersEvent}
    (hrun : w.RunFinds events) : (w.run events).CacheSound := by
  induction events generalizing w with
  | nil => exact h
  | cons event events ih => exact ih (h.step hrun.1) hrun.2

/-- A wallet with no transfers and no cache. -/
def empty : TransfersWallet where
  transfers := []
  foundFreeAmounts := []
  fakeOutputsCount := 0
  blockchainCurrentSize := 1
  coreTime := 0

theorem empty_cacheSound : empty.CacheSound where
  valid := cacheHolds_nil
  complete := Or.inl rfl

/-- After any run whose steps keep the money in sight, a selection finds it just when the sum that
the greedy choice comes to is a word. -/
theorem finds_iff_of_runFinds {events : List TransfersEvent} (hrun : empty.RunFinds events)
    (neededMoney : UInt64) (fakeOutputsCount dust : Nat) :
    (empty.run events).Finds neededMoney fakeOutputsCount dust ↔
      StaysBelow (2 ^ 64) neededMoney.toNat 0
        (((empty.run events).readyTransfers fakeOutputsCount).map (empty.run events).amountAt) :=
  (empty_cacheSound.run hrun).finds_iff

/-- Of 10 and 5 the 5 was spent, and 10 are found. -/
theorem finds_of_runFinds_two :
    (empty.run [.advance 100 0, .receive (sampleTransfer 10), .receive (sampleTransfer 5),
      .select 3 0 0 .spent true]).Finds 10 0 0 := by
  have hrun : empty.RunFinds [.advance 100 0, .receive (sampleTransfer 10),
      .receive (sampleTransfer 5), .select 3 0 0 .spent true] :=
    ⟨Or.inl rfl, fun _ _ => rfl, fun hnil => absurd hnil (by decide), trivial, trivial⟩
  refine (finds_iff_of_runFinds hrun 10 0 0).mpr ?_
  have hready : ((empty.run [.advance 100 0, .receive (sampleTransfer 10),
      .receive (sampleTransfer 5), .select 3 0 0 .spent true]).readyTransfers 0).map
        (empty.run [.advance 100 0, .receive (sampleTransfer 10), .receive (sampleTransfer 5),
          .select 3 0 0 .spent true]).amountAt = [10] := by decide +kernel
  rw [hready]
  have hcompletes : Completes 10 0 [10] 10 := ⟨by decide, by decide, by decide⟩
  exact (staysBelow_completes (by decide) hcompletes).mpr (by decide)

/-- An escrow proposal takes the transfer of 10 for its template, does not find the money for
its fee, and gives back the transfer of 10 to the empty cache: now 12 are not found, although
there are 15. -/
theorem finds_after_failed_proposal :
    ¬ ∀ (events : List TransfersEvent) (neededMoney : UInt64) (fakeOutputsCount dust : Nat),
      (empty.run events).Finds neededMoney fakeOutputsCount dust := by
  intro hclaim
  have hfinds := hclaim [.advance 100 0, .receive (sampleTransfer 10), .receive (sampleTransfer 5),
    .clearCache, .select 10 0 0 .escrowTemplate true, .select 6 0 0 .spent true,
    .release [[0]] SelectionMark.escrowTemplate.flag] 12 0 0
  exact absurd hfinds.enough_iff (by decide +kernel)

end TransfersWallet

end Chinet
