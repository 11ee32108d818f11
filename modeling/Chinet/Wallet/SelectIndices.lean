import Chinet.FormatUtils
import Chinet.Lib.GreedySums

/-!
# Selecting from a cache

`select_indices_for_transfer` as it computes: the found money is a word of 64 bits, the cache is
a map from amounts to sets of indexes, and a turn of the loop takes one index out of it.

A cache whose sets are not empty and disjoint, under the amounts of their transfers, is what the
function is called with (`FreeAmounts`).  Each turn takes a pair of the cache off, so the loop
ends; what it has taken and what it leaves are the cache (`Taking`).  The money that it returns is
that of the selected transfers as long as the sums do not wrap (`selectIndices_stays`), and
whether they do can be told from the ready amounts (`GreedySums.StaysBelow`).
-/

namespace Chinet

open GreedySums

/-! ## Transfers -/

def walletDefaultTxSpendableAge : Nat := 10

def walletTransferDetailFlagSpent : BitVec 32 := 1
def walletTransferDetailFlagBlocked : BitVec 32 := 2
def walletTransferDetailFlagEscrowProposalReservation : BitVec 32 := 4
def walletTransferDetailFlagColdSigReservation : BitVec 32 := 16

/-- The part of `transfer_details` that the selection reads. -/
structure TransferDetails where
  tx : Transaction
  blockHeight : Nat
  internalOutputIndex : Nat
  flags : BitVec 32
deriving DecidableEq

namespace TransferDetails

def output? (td : TransferDetails) : Option TxOut := td.tx.vout[td.internalOutputIndex]?

/-- The amount as the code has it. -/
def amountWord (td : TransferDetails) : UInt64 := (td.output?.map TxOut.amount).getD 0

def amount (td : TransferDetails) : Nat := (td.output?.map fun out => out.amount.toNat).getD 0

theorem amountWord_toNat (td : TransferDetails) : td.amountWord.toNat = td.amount := by
  rw [amountWord, amount]
  cases td.output? <;> rfl

def isSpendable (td : TransferDetails) : Bool :=
  td.flags &&& (walletTransferDetailFlagSpent ||| walletTransferDetailFlagBlocked |||
    walletTransferDetailFlagEscrowProposalReservation |||
    walletTransferDetailFlagColdSigReservation) == 0

end TransferDetails

/-- `is_transfer_able_to_go`; a transfer has an output to a key or to an HTLC. -/
def isTransferAbleToGo (td : TransferDetails) (fakeOutputsCount : Nat) : Bool :=
  td.isSpendable &&
    match td.output?.map TxOut.target with
    | some (.htlc _) => fakeOutputsCount == 0
    | some (.toKey out) => isMixattrApplicableForFakeOutsCounter out.mixAttr fakeOutputsCount
    | _ => false

/-- An entry of `std::map<uint64_t, std::set<size_t>>`, in the order of its keys. -/
abbrev FreeAmountEntry := UInt64 × List Nat

/-- What the selection reads of the wallet: `m_transfers`, `m_found_free_amounts`,
`m_fake_outputs_count`, the size of the chain and the core time. -/
structure TransfersWallet where
  transfers : List TransferDetails
  foundFreeAmounts : List FreeAmountEntry
  fakeOutputsCount : Nat
  blockchainCurrentSize : Nat
  coreTime : Nat
deriving DecidableEq

/-- `is_transfer_unlocked`; the unlock times of a transaction in a block are in range. -/
def isTransferUnlocked (w : TransfersWallet) (td : TransferDetails) : Bool :=
  td.flags &&& walletTransferDetailFlagBlocked == 0 &&
    decide (td.blockHeight + walletDefaultTxSpendableAge ≤ w.blockchainCurrentSize) &&
    match getTxUnlockTime td.tx.toTransactionPrefix td.internalOutputIndex with
    | .ok unlockTime => isTxSpendtimeUnlocked unlockTime w.blockchainCurrentSize w.coreTime
    | .error _ => false

def isTransferReadyToGo (w : TransfersWallet) (td : TransferDetails) (fakeOutputsCount : Nat) :
    Bool :=
  isTransferAbleToGo td fakeOutputsCount && isTransferUnlocked w td

namespace TransfersWallet

/-- The transfer at an index is ready to go. -/
def ready (w : TransfersWallet) (fakeOutputsCount i : Nat) : Bool :=
  match w.transfers[i]? with
  | some td => isTransferReadyToGo w td fakeOutputsCount
  | none => false

def amountWordAt (w : TransfersWallet) (i : Nat) : UInt64 :=
  ((w.transfers[i]?).map TransferDetails.amountWord).getD 0

def amountAt (w : TransfersWallet) (i : Nat) : Nat :=
  ((w.transfers[i]?).map TransferDetails.amount).getD 0

theorem amountWordAt_toNat (w : TransfersWallet) (i : Nat) :
    (w.amountWordAt i).toNat = w.amountAt i := by
  rw [amountWordAt, amountAt]
  cases w.transfers[i]? with
  | none => rfl
  | some td => exact td.amountWord_toNat

/-- A transfer of an output to a key. -/
def sampleTransfer (amount : UInt64) : TransferDetails where
  tx := {
    version := 1
    extra := []
    vin := []
    vout := [⟨amount, .toKey { key := 1, mixAttr := 0 }⟩]
    signatures := []
    attachment := [] }
  blockHeight := 5
  internalOutputIndex := 0
  flags := 0

end TransfersWallet

/-! ## The loop -/

/-- The iterator of a turn: the entry of `lower_bound`, or else the last one of the map. -/
def pickEntry (foundFreeAmounts : List FreeAmountEntry) (need : UInt64) : Option FreeAmountEntry :=
  match foundFreeAmounts.find? fun entry => need ≤ entry.1 with
  | some entry => if entry.2 ≠ [] then some entry else foundFreeAmounts.getLast?
  | none => foundFreeAmounts.getLast?

/-- Takes indexes out of the set of an amount, and an emptied set out of the map. -/
def eraseFrom (amount : UInt64) (erase : List Nat → List Nat) :
    List FreeAmountEntry → List FreeAmountEntry
  | [] => []
  | (key, indexes) :: entries =>
      if key = amount then
        match erase indexes with
        | [] => entries
        | rest => (key, rest) :: entries
      else (key, indexes) :: eraseFrom amount erase entries

def eraseFirst (amount : UInt64) (entries : List FreeAmountEntry) : List FreeAmountEntry :=
  eraseFrom amount List.tail entries

structure IndexSelection where
  foundMoney : UInt64
  selectedIndexes : List Nat
  foundFreeAmounts : List FreeAmountEntry
deriving DecidableEq, Repr

/-- What a turn makes smaller: the indexes and the entries. -/
def cacheSize (entries : List FreeAmountEntry) : Nat :=
  (entries.map fun entry => entry.2.length + 1).sum

/-- What one turn makes of a picked amount and index. -/
def IndexSelection.take (ready : Nat → Bool) (s : IndexSelection) (amount : UInt64) (index : Nat) :
    IndexSelection :=
  if ready index then
    { foundMoney := s.foundMoney + amount
      selectedIndexes := s.selectedIndexes ++ [index]
      foundFreeAmounts := eraseFirst amount s.foundFreeAmounts }
  else { s with foundFreeAmounts := eraseFirst amount s.foundFreeAmounts }

theorem take_foundFreeAmounts (ready : Nat → Bool) (s : IndexSelection) (amount : UInt64)
    (index : Nat) :
    (s.take ready amount index).foundFreeAmounts = eraseFirst amount s.foundFreeAmounts := by
  rw [IndexSelection.take]
  split <;> rfl

theorem mem_of_pickEntry {entries : List FreeAmountEntry} {need : UInt64} {entry : FreeAmountEntry}
    (h : pickEntry entries need = some entry) : entry ∈ entries := by
  rw [pickEntry] at h
  split at h
  · rename_i found hfind
    split at h
    · cases h
      exact List.mem_of_find?_eq_some hfind
    · exact List.mem_of_getLast? h
  · exact List.mem_of_getLast? h

theorem eraseFirst_size {amount : UInt64} {entries : List FreeAmountEntry}
    (h : amount ∈ entries.map Prod.fst) :
    cacheSize (eraseFirst amount entries) < cacheSize entries := by
  induction entries with
  | nil => cases h
  | cons entry entries ih =>
      obtain ⟨key, indexes⟩ := entry
      have hsize : cacheSize ((key, indexes) :: entries) = indexes.length + 1 + cacheSize entries :=
        rfl
      rw [eraseFirst, eraseFrom, hsize]
      split
      · have hlength : indexes.tail.length = indexes.length - 1 := List.length_tail
        split
        · omega
        · rename_i rest hne
          change indexes.tail.length + 1 + cacheSize entries < _
          have hpos : 0 < indexes.tail.length := List.length_pos_of_ne_nil fun h => hne h
          omega
      · rename_i hne
        have hrest := ih ((List.mem_cons.mp h).resolve_left fun h => hne h.symm)
        change indexes.length + 1 + cacheSize (eraseFirst amount entries) < _
        omega

/-- The loop of `select_indices_for_transfer`; a set that is empty ends it with nothing found. -/
def selectIndicesLoop (ready : Nat → Bool) (neededMoney : UInt64) (s : IndexSelection) :
    IndexSelection :=
  if s.foundMoney < neededMoney ∧ s.foundFreeAmounts ≠ [] then
    match _hpick : pickEntry s.foundFreeAmounts (neededMoney - s.foundMoney) with
    | none => s
    | some (_, []) => { s with foundMoney := 0 }
    | some (amount, index :: _) => selectIndicesLoop ready neededMoney (s.take ready amount index)
  else s
termination_by cacheSize s.foundFreeAmounts
decreasing_by
  rw [take_foundFreeAmounts]
  exact eraseFirst_size (List.mem_map_of_mem (mem_of_pickEntry _hpick))

/-! ## The map -/

/-- The pairs of amounts and indexes in a map. -/
def pairs (entries : List FreeAmountEntry) : List (UInt64 × Nat) :=
  entries.flatMap fun entry => entry.2.map fun index => (entry.1, index)

/-- What the loop keeps of the map: the order of the keys, and that no set is empty. -/
structure MapKept (entries : List FreeAmountEntry) : Prop where
  keys : (entries.map fun entry => entry.1.toNat).Pairwise (· < ·)
  sets : ∀ entry ∈ entries, entry.2 ≠ []

/-- The keys that are left are some of those before. -/
theorem eraseFrom_keys (amount : UInt64) (erase : List Nat → List Nat)
    (entries : List FreeAmountEntry) :
    ((eraseFrom amount erase entries).map fun entry => entry.1.toNat).Sublist
      (entries.map fun entry => entry.1.toNat) := by
  induction entries with
  | nil => exact List.Sublist.refl _
  | cons entry entries ih =>
      obtain ⟨key, indexes⟩ := entry
      rw [eraseFrom]
      split
      · split
        · exact List.sublist_cons_self _ _
        · exact List.Sublist.refl _
      · exact ih.cons_cons _

theorem eraseFrom_sets {amount : UInt64} {erase : List Nat → List Nat}
    {entries : List FreeAmountEntry} (h : ∀ entry ∈ entries, entry.2 ≠ []) :
    ∀ entry ∈ eraseFrom amount erase entries, entry.2 ≠ [] := by
  induction entries with
  | nil => exact h
  | cons entry entries ih =>
      obtain ⟨key, indexes⟩ := entry
      obtain ⟨hhead, htail⟩ := List.forall_mem_cons.mp h
      rw [eraseFrom]
      split
      · split
        · exact htail
        · rename_i rest hne
          exact List.forall_mem_cons.mpr ⟨fun hrest => hne hrest, htail⟩
      · exact List.forall_mem_cons.mpr ⟨hhead, ih htail⟩

theorem MapKept.eraseFrom {entries : List FreeAmountEntry} (h : MapKept entries) (amount : UInt64)
    (erase : List Nat → List Nat) : MapKept (eraseFrom amount erase entries) where
  keys := h.keys.sublist (eraseFrom_keys amount erase entries)
  sets := eraseFrom_sets h.sets

/-- Just the first pair of the entry is taken out. -/
theorem pairs_eraseFirst {amount : UInt64} {index : Nat} {rest : List Nat}
    {entries : List FreeAmountEntry} (hkept : MapKept entries)
    (h : (amount, index :: rest) ∈ entries) :
    (pairs entries).Perm ((amount, index) :: pairs (eraseFirst amount entries)) := by
  induction entries with
  | nil => cases h
  | cons entry entries ih =>
      obtain ⟨key, indexes⟩ := entry
      have hkeys := hkept.keys
      rw [List.map_cons, List.pairwise_cons] at hkeys
      rcases List.mem_cons.mp h with hhead | htail
      · cases hhead
        rw [eraseFirst, eraseFrom, if_pos rfl]
        cases rest with
        | nil => exact List.Perm.refl _
        | cons next rest => exact List.Perm.refl _
      · have hless := hkeys.1 amount.toNat (List.mem_map_of_mem htail)
        have hne : key ≠ amount := by
          rintro rfl
          exact absurd hless (Nat.lt_irrefl _)
        have hrest := ih ⟨hkeys.2, fun e he => hkept.sets e (List.mem_cons_of_mem _ he)⟩ htail
        rw [eraseFirst, eraseFrom, if_neg hne]
        change ((indexes.map fun i => (key, i)) ++ pairs entries).Perm
          ((amount, index) :: ((indexes.map fun i => (key, i)) ++ pairs (eraseFirst amount entries)))
        exact (hrest.append_left _).trans List.perm_middle

/-- The entry that a turn picks: the least amount that is enough, or the largest one. -/
theorem pickEntry_cases {entries : List FreeAmountEntry} (hkept : MapKept entries)
    (hne : entries ≠ []) (need : UInt64) :
    ∃ amount index rest, pickEntry entries need = some (amount, index :: rest) ∧
      ((need.toNat ≤ amount.toNat ∧
          ∀ entry ∈ entries, need.toNat ≤ entry.1.toNat → amount.toNat ≤ entry.1.toNat) ∨
        amount.toNat < need.toNat ∧ ∀ entry ∈ entries, entry.1.toNat ≤ amount.toNat) := by
  have hkeys := List.pairwise_map.mp hkept.keys
  rw [pickEntry]
  split
  · rename_i entry hfind
    obtain ⟨henough, before, after, rfl, hbefore⟩ := List.find?_eq_some_iff_append.mp hfind
    obtain ⟨amount, indexes⟩ := entry
    have hset := hkept.sets (amount, indexes) (by simp)
    rw [if_pos hset]
    obtain ⟨index, rest, rfl⟩ := List.exists_cons_of_ne_nil hset
    refine ⟨amount, index, rest, rfl, .inl ⟨?_, ?_⟩⟩
    · exact UInt64.le_iff_toNat_le.mp (of_decide_eq_true henough)
    · -- what comes before is not enough, what comes behind is larger
      intro other hother hneed
      rcases List.mem_append.mp hother with hbefore' | hafter
      · have hnot := hbefore other hbefore'
        simp only [Bool.not_eq_true', decide_eq_false_iff_not, UInt64.le_iff_toNat_le] at hnot
        exact absurd hneed hnot
      · rcases List.mem_cons.mp hafter with rfl | hlater
        · exact le_rfl
        · have hpairs := (List.pairwise_append.mp hkeys).2.1
          exact ((List.pairwise_cons.mp hpairs).1 other hlater).le
  · rename_i hnone
    have hlast := List.getLast?_eq_some_getLast hne
    have hmem := List.getLast_mem hne
    have hdrop := List.dropLast_append_getLast hne
    generalize entries.getLast hne = last at hlast hmem hdrop
    obtain ⟨amount, indexes⟩ := last
    obtain ⟨index, rest, rfl⟩ := List.exists_cons_of_ne_nil (hkept.sets _ hmem)
    refine ⟨amount, index, rest, hlast, .inr ⟨?_, ?_⟩⟩
    · have hnot := List.find?_eq_none.mp hnone _ hmem
      simp only [decide_eq_true_eq, UInt64.le_iff_toNat_le] at hnot
      omega
    · intro other hother
      rw [← hdrop] at hother hkeys
      rcases List.mem_append.mp hother with hbefore | hlast'
      · exact ((List.pairwise_append.mp hkeys).2.2 other hbefore _ List.mem_cons_self).le
      · rw [List.mem_singleton.mp hlast']

theorem mem_pairs {entries : List FreeAmountEntry} {p : UInt64 × Nat} :
    p ∈ pairs entries ↔ ∃ indexes, (p.1, indexes) ∈ entries ∧ p.2 ∈ indexes := by
  rw [pairs, List.mem_flatMap]
  constructor
  · rintro ⟨⟨amount, indexes⟩, hentry, hp⟩
    obtain ⟨index, hindex, rfl⟩ := List.mem_map.mp hp
    exact ⟨indexes, hentry, hindex⟩
  · rintro ⟨indexes, hentry, hindex⟩
    exact ⟨(p.1, indexes), hentry, List.mem_map.mpr ⟨p.2, hindex, rfl⟩⟩

theorem pairs_eraseFrom {amount : UInt64} {entries : List FreeAmountEntry}
    {erase : List Nat → List Nat} (herase : ∀ l, (erase l).Sublist l) :
    (pairs (eraseFrom amount erase entries)).Sublist (pairs entries) := by
  induction entries with
  | nil => exact List.Sublist.refl _
  | cons entry entries ih =>
      obtain ⟨key, indexes⟩ := entry
      rw [eraseFrom]
      split
      · split
        · exact List.sublist_append_right _ _
        · exact ((herase indexes).map fun i => (key, i)).append (List.Sublist.refl _)
      · exact (List.Sublist.refl _).append ih

/-! ## The run -/

/-- The ready amounts of pairs. -/
def readyOf (ready : Nat → Bool) (cached : List (UInt64 × Nat)) : List Nat :=
  (cached.filter fun p => ready p.2).map fun p => p.1.toNat

theorem readyOf_perm {ready : Nat → Bool} {cached cached' : List (UInt64 × Nat)}
    (h : cached.Perm cached') : (readyOf ready cached).Perm (readyOf ready cached') :=
  (h.filter _).map _

theorem readyOf_cons {ready : Nat → Bool} {p : UInt64 × Nat} {cached : List (UInt64 × Nat)}
    (h : ready p.2 = true) : readyOf ready (p :: cached) = p.1.toNat :: readyOf ready cached := by
  simp [readyOf, h]

theorem readyOf_cons_not {ready : Nat → Bool} {p : UInt64 × Nat} {cached : List (UInt64 × Nat)}
    (h : ready p.2 = false) : readyOf ready (p :: cached) = readyOf ready cached := by
  simp [readyOf, h]

/-- What the loop takes from the cache, what it drops and what it leaves. -/
structure Taking (ready : Nat → Bool) (s s' : IndexSelection) (picked dropped : List (UInt64 × Nat)) :
    Prop where
  cache : (pairs s.foundFreeAmounts).Perm (picked ++ dropped ++ pairs s'.foundFreeAmounts)
  picked_ready : ∀ p ∈ picked, ready p.2 = true
  dropped_not_ready : ∀ p ∈ dropped, ready p.2 = false
  selected : s'.selectedIndexes = s.selectedIndexes ++ picked.map Prod.snd

/-- The money of pairs. -/
def pairsMoney (cached : List (UInt64 × Nat)) : Nat := (cached.map fun p => p.1.toNat).sum

section

variable {ready : Nat → Bool} {neededMoney : UInt64} {s : IndexSelection}

/-- The sums that the loop makes from a state do not wrap. -/
def Stays (ready : Nat → Bool) (neededMoney : UInt64) (s : IndexSelection) : Prop :=
  StaysBelow (2 ^ 64) neededMoney.toNat s.foundMoney.toNat
    (readyOf ready (pairs s.foundFreeAmounts))

/-- What a run from a state comes to. -/
structure Reaches (ready : Nat → Bool) (neededMoney : UInt64) (s s' : IndexSelection)
    (picked dropped : List (UInt64 × Nat)) : Prop extends Taking ready s s' picked dropped where
  kept : MapKept s'.foundFreeAmounts
  ends : neededMoney.toNat ≤ s'.foundMoney.toNat ∨ s'.foundFreeAmounts = []
  money : Stays ready neededMoney s →
    s'.foundMoney.toNat = s.foundMoney.toNat + pairsMoney picked
  stays : s.foundMoney.toNat + pairsMoney picked < 2 ^ 64 → Stays ready neededMoney s

theorem Reaches.refl (hkept : MapKept s.foundFreeAmounts)
    (h : neededMoney.toNat ≤ s.foundMoney.toNat ∨ s.foundFreeAmounts = []) :
    Reaches ready neededMoney s s [] [] where
  cache := List.Perm.refl _
  picked_ready := List.forall_mem_nil _
  dropped_not_ready := List.forall_mem_nil _
  selected := (List.append_nil _).symm
  kept := hkept
  ends := h
  money _ := rfl
  stays _ := by
    rcases h with henough | hnil
    · exact staysBelow_enough henough
    · rw [Stays, hnil]
      exact staysBelow_nil

/-- A pair that is not ready is dropped. -/
theorem Reaches.drop {s₁ s' : IndexSelection} {p : UInt64 × Nat}
    {picked dropped : List (UInt64 × Nat)} (hp : ready p.2 = false)
    (hcache : (pairs s.foundFreeAmounts).Perm (p :: pairs s₁.foundFreeAmounts))
    (hmoney : s₁.foundMoney = s.foundMoney) (hselected : s₁.selectedIndexes = s.selectedIndexes)
    (h : Reaches ready neededMoney s₁ s' picked dropped) :
    Reaches ready neededMoney s s' picked (p :: dropped) := by
  have hready : (readyOf ready (pairs s.foundFreeAmounts)).Perm
      (readyOf ready (pairs s₁.foundFreeAmounts)) := by
    have hperm := @readyOf_perm ready _ _ hcache
    rwa [readyOf_cons_not hp] at hperm
  have hsame : Stays ready neededMoney s ↔ Stays ready neededMoney s₁ := by
    rw [Stays, Stays, hmoney]
    exact StaysBelow.perm hready
  exact {
    cache := by
      calc (pairs s.foundFreeAmounts).Perm (p :: pairs s₁.foundFreeAmounts) := hcache
        List.Perm _ (p :: (picked ++ dropped ++ pairs s'.foundFreeAmounts)) := h.cache.cons p
        List.Perm _ (picked ++ p :: dropped ++ pairs s'.foundFreeAmounts) := by
          rw [List.append_assoc, List.append_assoc]
          exact List.perm_middle.symm
    picked_ready := h.picked_ready
    dropped_not_ready := List.forall_mem_cons.mpr ⟨hp, h.dropped_not_ready⟩
    selected := by rw [h.selected, hselected]
    kept := h.kept
    ends := h.ends
    money := fun hstays => by
      have hresult := h.money (hsame.mp hstays)
      rwa [hmoney] at hresult
    stays := fun hsmall => hsame.mpr (h.stays (by rwa [hmoney])) }

/-- A pair that is ready is taken; the sums stay in range when its own does and the rest do. -/
theorem Reaches.take {s₁ s' : IndexSelection} {p : UInt64 × Nat}
    {picked dropped : List (UInt64 × Nat)} (hp : ready p.2 = true)
    (hcache : (pairs s.foundFreeAmounts).Perm (p :: pairs s₁.foundFreeAmounts))
    (hmoney : s₁.foundMoney = s.foundMoney + p.1)
    (hselected : s₁.selectedIndexes = s.selectedIndexes ++ [p.2])
    (hstep : Stays ready neededMoney s ↔
      s.foundMoney.toNat + p.1.toNat < 2 ^ 64 ∧ Stays ready neededMoney s₁)
    (h : Reaches ready neededMoney s₁ s' picked dropped) :
    Reaches ready neededMoney s s' (p :: picked) dropped := by
  have hsum : pairsMoney (p :: picked) = p.1.toNat + pairsMoney picked := by
    simp [pairsMoney]
  have hvalue (hsmall : s.foundMoney.toNat + p.1.toNat < 2 ^ 64) :
      s₁.foundMoney.toNat = s.foundMoney.toNat + p.1.toNat := by
    rw [hmoney, UInt64.toNat_add, Nat.mod_eq_of_lt hsmall]
  exact {
    cache := hcache.trans (h.cache.cons p)
    picked_ready := List.forall_mem_cons.mpr ⟨hp, h.picked_ready⟩
    dropped_not_ready := h.dropped_not_ready
    selected := by
      rw [h.selected, hselected, List.append_assoc]
      rfl
    kept := h.kept
    ends := h.ends
    money := fun hstays => by
      obtain ⟨hsmall, hrest⟩ := hstep.mp hstays
      rw [h.money hrest, hvalue hsmall, hsum, Nat.add_assoc]
    stays := fun hsmall => by
      rw [hsum] at hsmall
      have hfirst : s.foundMoney.toNat + p.1.toNat < 2 ^ 64 := by omega
      refine hstep.mpr ⟨hfirst, h.stays ?_⟩
      rw [hvalue hfirst]
      omega }

/-- A turn that takes a ready pair keeps the sums in range when the sum with it is. -/
theorem stays_take {amount : UInt64} {index : Nat} {s₁ : IndexSelection}
    (hless : s.foundMoney.toNat < neededMoney.toNat)
    (hcases : (neededMoney.toNat - s.foundMoney.toNat ≤ amount.toNat ∧
        ∀ entry ∈ s.foundFreeAmounts, neededMoney.toNat - s.foundMoney.toNat ≤ entry.1.toNat →
          amount.toNat ≤ entry.1.toNat) ∨
      amount.toNat < neededMoney.toNat - s.foundMoney.toNat ∧
        ∀ entry ∈ s.foundFreeAmounts, entry.1.toNat ≤ amount.toNat)
    (hp : ready index = true)
    (hcache : (pairs s.foundFreeAmounts).Perm ((amount, index) :: pairs s₁.foundFreeAmounts))
    (hmoney : s₁.foundMoney = s.foundMoney + amount) :
    Stays ready neededMoney s ↔
      s.foundMoney.toNat + amount.toNat < 2 ^ 64 ∧ Stays ready neededMoney s₁ := by
  have hready : (readyOf ready (pairs s.foundFreeAmounts)).Perm
      (amount.toNat :: readyOf ready (pairs s₁.foundFreeAmounts)) := by
    have hperm := @readyOf_perm ready _ _ hcache
    rwa [@readyOf_cons ready (amount, index) _ hp] at hperm
  -- every ready amount is a key of the map
  have hkeys (n : Nat) (hn : n ∈ readyOf ready (pairs s.foundFreeAmounts)) :
      ∃ entry ∈ s.foundFreeAmounts, entry.1.toNat = n := by
    obtain ⟨p, hmem, rfl⟩ := List.mem_map.mp hn
    obtain ⟨indexes, hentry, -⟩ := mem_pairs.mp (List.mem_filter.mp hmem).1
    exact ⟨_, hentry, rfl⟩
  have hneeded := neededMoney.toNat_lt
  rcases hcases with ⟨henough, hleast⟩ | ⟨hshort, hlargest⟩
  · have hcompletes : Completes neededMoney.toNat s.foundMoney.toNat
        (readyOf ready (pairs s.foundFreeAmounts)) amount.toNat := {
      mem := hready.mem_iff.mpr List.mem_cons_self
      enough := by omega
      least := fun other hother hcompletes => by
        obtain ⟨entry, hentry, rfl⟩ := hkeys other hother
        exact hleast entry hentry (by omega) }
    have hdecides := @staysBelow_completes (2 ^ 64) _ _ _ _ hless hcompletes
    rw [Stays, hdecides]
    constructor
    · intro hsmall
      refine ⟨hsmall, staysBelow_enough ?_⟩
      rw [hmoney, UInt64.toNat_add, Nat.mod_eq_of_lt hsmall]
      omega
    · exact And.left
  · have hsmall : s.foundMoney.toNat + amount.toNat < 2 ^ 64 := by omega
    have hvalue : s₁.foundMoney.toNat = s.foundMoney.toNat + amount.toNat := by
      rw [hmoney, UInt64.toNat_add, Nat.mod_eq_of_lt hsmall]
    have hrest : ∀ r ∈ readyOf ready (pairs s₁.foundFreeAmounts), r ≤ amount.toNat := by
      intro r hr
      obtain ⟨entry, hentry, rfl⟩ := hkeys r (hready.mem_iff.mpr (List.mem_cons_of_mem _ hr))
      exact hlargest entry hentry
    have hfirst := @staysBelow_largest (2 ^ 64) neededMoney.toNat s.foundMoney.toNat _ _ _ hready
      hrest (by omega)
    rw [Stays, hfirst, Stays, hvalue]
    exact ⟨fun h => ⟨hsmall, h⟩, And.right⟩

/-- In any map: what is selected is ready and was cached, and what is left was. -/
theorem selectIndicesLoop_selected :
    (∀ p ∈ pairs (selectIndicesLoop ready neededMoney s).foundFreeAmounts,
      p ∈ pairs s.foundFreeAmounts) ∧
    ∀ i ∈ (selectIndicesLoop ready neededMoney s).selectedIndexes, i ∈ s.selectedIndexes ∨
      ready i = true ∧ ∃ p ∈ pairs s.foundFreeAmounts, p.2 = i := by
  fun_induction selectIndicesLoop ready neededMoney s with
  | case1 => exact ⟨fun _ => id, fun _ => .inl⟩
  | case2 => exact ⟨fun _ => id, fun _ => .inl⟩
  | case3 s hgoes amount index rest hpick ih =>
      have hleft : ∀ p ∈ pairs (s.take ready amount index).foundFreeAmounts,
          p ∈ pairs s.foundFreeAmounts := by
        rw [take_foundFreeAmounts]
        exact fun p hp => (pairs_eraseFrom List.tail_sublist).subset hp
      have hmem : (amount, index) ∈ pairs s.foundFreeAmounts :=
        mem_pairs.mpr ⟨_, mem_of_pickEntry hpick, List.mem_cons_self⟩
      refine ⟨fun p hp => hleft p (ih.1 p hp), fun i hi => ?_⟩
      rcases ih.2 i hi with htaken | ⟨hready, p, hp, hpi⟩
      · rw [IndexSelection.take] at htaken
        split at htaken
        · rename_i hready
          rcases List.mem_append.mp htaken with hbefore | hnew
          · exact .inl hbefore
          · rw [List.mem_singleton.mp hnew]
            exact .inr ⟨hready, _, hmem, rfl⟩
        · exact .inl htaken
      · exact .inr ⟨hready, p, hleft p hp, hpi⟩
  | case4 => exact ⟨fun _ => id, fun _ => .inl⟩

/-- The loop ends, and this is what it comes to. -/
theorem selectIndicesLoop_reaches (hkept : MapKept s.foundFreeAmounts) :
    ∃ picked dropped, Reaches ready neededMoney s (selectIndicesLoop ready neededMoney s) picked
      dropped := by
  induction s using selectIndicesLoop.induct ready neededMoney with
  | case1 s hgoes hpick =>
      obtain ⟨amount, index, rest, hsome, -⟩ := pickEntry_cases hkept hgoes.2
        (neededMoney - s.foundMoney)
      rw [hpick] at hsome
      cases hsome
  | case2 s hgoes amount hpick =>
      obtain ⟨amount', index, rest, hsome, -⟩ := pickEntry_cases hkept hgoes.2
        (neededMoney - s.foundMoney)
      rw [hpick] at hsome
      cases hsome
  | case3 s hgoes amount index rest hpick ih =>
      obtain ⟨amount', index', rest', hsome, hcases⟩ := pickEntry_cases hkept hgoes.2
        (neededMoney - s.foundMoney)
      rw [hpick] at hsome
      cases hsome
      have hless := UInt64.lt_iff_toNat_lt.mp hgoes.1
      have hcache := pairs_eraseFirst hkept (mem_of_pickEntry hpick)
      have hafter := take_foundFreeAmounts ready s amount index
      rw [UInt64.toNat_sub_of_le _ _ (UInt64.le_iff_toNat_le.mpr hless.le)] at hcases
      rw [← hafter] at hcache
      rw [selectIndicesLoop, if_pos hgoes]
      split
      · rename_i hnone
        rw [hpick] at hnone
        cases hnone
      · rename_i hempty
        rw [hpick] at hempty
        cases hempty
      · rename_i amount' index' rest' hsame
        rw [hpick] at hsame
        cases hsame
        obtain ⟨picked, dropped, h⟩ := ih (by rw [hafter]; exact hkept.eraseFrom amount _)
        cases hready : ready index with
        | true =>
            have htake : s.take ready amount index =
                { foundMoney := s.foundMoney + amount
                  selectedIndexes := s.selectedIndexes ++ [index]
                  foundFreeAmounts := eraseFirst amount s.foundFreeAmounts } := by
              rw [IndexSelection.take, hready, if_pos rfl]
            have hmoney : (s.take ready amount index).foundMoney = s.foundMoney + amount := by
              rw [htake]
            refine ⟨(amount, index) :: picked, dropped, h.take hready hcache hmoney ?_ ?_⟩
            · rw [htake]
            · exact stays_take hless hcases hready hcache hmoney
        | false =>
            have htake : s.take ready amount index =
                { s with foundFreeAmounts := eraseFirst amount s.foundFreeAmounts } := by
              rw [IndexSelection.take, hready, if_neg Bool.false_ne_true]
            refine ⟨picked, (amount, index) :: dropped, h.drop hready hcache ?_ ?_⟩
            · rw [htake]
            · rw [htake]
  | case4 s hstops =>
      rw [selectIndicesLoop, if_neg hstops]
      refine ⟨[], [], .refl hkept ?_⟩
      by_cases hempty : s.foundFreeAmounts = []
      · exact .inr hempty
      · left
        by_contra hmore
        exact hstops ⟨UInt64.lt_iff_toNat_lt.mpr (not_le.mp hmore), hempty⟩

end

/-! ## The call -/

/-- A cache of transfers as the function is given one. -/
structure FreeAmounts (w : TransfersWallet) where
  entries : List FreeAmountEntry
  keys : (entries.map fun entry => entry.1.toNat).Pairwise (· < ·)
  ordered : ∀ entry ∈ entries, entry.2.Pairwise (· < ·)
  sets : ∀ entry ∈ entries, entry.2 ≠ []
  disjoint : entries.Pairwise fun entry other => entry.2.Disjoint other.2
  amounts : ∀ entry ∈ entries, ∀ index ∈ entry.2,
    (w.transfers[index]?.bind TransferDetails.output?).map TxOut.amount = some entry.1

/-- `select_indices_for_transfer`, which leaves the selected indexes and the cache that is left. -/
def selectIndicesForTransfer (w : TransfersWallet) (foundFreeAmounts : List FreeAmountEntry)
    (neededMoney : UInt64) (fakeOutputsCount : Nat) : IndexSelection :=
  selectIndicesLoop (w.ready fakeOutputsCount) neededMoney ⟨0, [], foundFreeAmounts⟩

/-- The cached amounts that are ready. -/
def readyAmounts (w : TransfersWallet) (foundFreeAmounts : List FreeAmountEntry)
    (fakeOutputsCount : Nat) : List Nat :=
  readyOf (w.ready fakeOutputsCount) (pairs foundFreeAmounts)

/-- A complete selection: different transfers that are ready, the money that they have, enough when
there is enough, and a cache that lacks nothing but them and what was found not ready. -/
structure CompleteSelection (w : TransfersWallet) (foundFreeAmounts : List FreeAmountEntry)
    (neededMoney : UInt64) (fakeOutputsCount : Nat) (selection : IndexSelection) : Prop where
  nodup : selection.selectedIndexes.Nodup
  ready : ∀ index ∈ selection.selectedIndexes, w.ready fakeOutputsCount index = true
  money : selection.foundMoney.toNat = (selection.selectedIndexes.map w.amountAt).sum
  enough_iff : neededMoney.toNat ≤ selection.foundMoney.toNat ↔
    neededMoney.toNat ≤ (readyAmounts w foundFreeAmounts fakeOutputsCount).sum
  kept : ∃ selected dropped, selection.selectedIndexes = selected.map Prod.snd ∧
    (∀ p ∈ dropped, w.ready fakeOutputsCount p.2 = false) ∧
    (pairs foundFreeAmounts).Perm (selected ++ dropped ++ pairs selection.foundFreeAmounts)

/-- The entries are a map of indexes of transfers, each once and under its amount. -/
structure CacheHolds (w : TransfersWallet) (entries : List FreeAmountEntry) : Prop where
  kept : MapKept entries
  nodup : (pairs entries).Nodup
  index : ∀ p ∈ pairs entries, p.2 < w.transfers.length ∧ p.1.toNat = w.amountAt p.2

/-- An index is cached under one amount only. -/
theorem CacheHolds.indexes_nodup {w : TransfersWallet} {entries : List FreeAmountEntry}
    (h : CacheHolds w entries) : ((pairs entries).map Prod.snd).Nodup := by
  refine (List.nodup_map_iff_inj_on h.nodup).mpr ?_
  intro p hp q hq hsame
  refine Prod.ext (UInt64.toNat_inj.mp ?_) hsame
  rw [(h.index p hp).2, (h.index q hq).2, hsame]

namespace FreeAmounts

variable {w : TransfersWallet} (cache : FreeAmounts w)

theorem indexes_nodup : ((pairs cache.entries).map Prod.snd).Nodup := by
  have hindexes : (pairs cache.entries).map Prod.snd = cache.entries.flatMap Prod.snd := by
    rw [pairs, List.map_flatMap]
    congr 1
    funext entry
    rw [List.map_map]
    exact List.map_id _
  rw [hindexes, List.nodup_flatMap]
  refine ⟨fun entry hentry => ?_, cache.disjoint⟩
  exact (cache.ordered entry hentry).imp fun hlt => hlt.ne

theorem index {p : UInt64 × Nat} (hp : p ∈ pairs cache.entries) :
    p.2 < w.transfers.length ∧ p.1.toNat = w.amountAt p.2 := by
  obtain ⟨indexes, hentry, hindex⟩ := mem_pairs.mp hp
  have hamount := cache.amounts _ hentry _ hindex
  rw [TransfersWallet.amountAt]
  cases htransfer : w.transfers[p.2]? with
  | none =>
      rw [htransfer] at hamount
      cases hamount
  | some td =>
      rw [htransfer, Option.bind_some] at hamount
      refine ⟨(List.getElem?_eq_some_iff.mp htransfer).1, ?_⟩
      rw [Option.map_some, Option.getD_some, ← td.amountWord_toNat, TransferDetails.amountWord,
        hamount, Option.getD_some]

theorem holds : CacheHolds w cache.entries where
  kept := ⟨cache.keys, cache.sets⟩
  nodup := cache.indexes_nodup.of_map _
  index _ hp := cache.index hp

end FreeAmounts

section

variable {w : TransfersWallet} {entries : List FreeAmountEntry} {neededMoney : UInt64} {fakeOutputsCount : Nat}
  {selection : IndexSelection} {picked dropped : List (UInt64 × Nat)}

/-- The amounts of the selected transfers are those that were taken. -/
theorem CacheHolds.money_of_reaches (hholds : CacheHolds w entries) (h : Reaches (w.ready fakeOutputsCount) neededMoney ⟨0, [], entries⟩
    selection picked dropped) :
    (selection.selectedIndexes.map w.amountAt).sum = pairsMoney picked := by
  have hselected : selection.selectedIndexes = picked.map Prod.snd := h.selected
  rw [hselected, List.map_map, pairsMoney]
  congr 1
  apply List.map_congr_left
  intro p hp
  refine (hholds.index p ?_).2.symm
  exact h.cache.mem_iff.mpr (List.mem_append_left _ (List.mem_append_left _ hp))

/-- The ready money is what was taken and what is left of it. -/
theorem readyAmounts_of_reaches (h : Reaches (w.ready fakeOutputsCount) neededMoney
    ⟨0, [], entries⟩ selection picked dropped) :
    (readyAmounts w entries fakeOutputsCount).sum = pairsMoney picked +
      (readyOf (w.ready fakeOutputsCount) (pairs selection.foundFreeAmounts)).sum := by
  have hpicked : readyOf (w.ready fakeOutputsCount) picked = picked.map fun p => p.1.toNat := by
    rw [readyOf, List.filter_eq_self.mpr h.picked_ready]
  have hdropped : readyOf (w.ready fakeOutputsCount) dropped = [] := by
    rw [readyOf, List.filter_eq_nil_iff.mpr, List.map_nil]
    intro p hp
    rw [h.dropped_not_ready p hp]
    exact Bool.false_ne_true
  calc (readyAmounts w entries fakeOutputsCount).sum
    _ = (readyOf (w.ready fakeOutputsCount)
          (picked ++ dropped ++ pairs selection.foundFreeAmounts)).sum :=
        (readyOf_perm h.cache).sum_eq
    _ = (readyOf (w.ready fakeOutputsCount) picked ++ readyOf (w.ready fakeOutputsCount) dropped ++
          readyOf (w.ready fakeOutputsCount) (pairs selection.foundFreeAmounts)).sum := by
        simp [readyOf]
    _ = pairsMoney picked +
          (readyOf (w.ready fakeOutputsCount) (pairs selection.foundFreeAmounts)).sum := by
        rw [hpicked, hdropped, List.append_nil, List.sum_append]
        rfl

/-- Without a sum that wraps the selection is complete. -/
theorem CacheHolds.complete_of_reaches (hholds : CacheHolds w entries) (h : Reaches (w.ready fakeOutputsCount) neededMoney
    ⟨0, [], entries⟩ selection picked dropped)
    (hstays : Stays (w.ready fakeOutputsCount) neededMoney ⟨0, [], entries⟩) :
    CompleteSelection w entries neededMoney fakeOutputsCount selection := by
  have hfound := h.money hstays
  have hready := readyAmounts_of_reaches h
  have hselected : selection.selectedIndexes = picked.map Prod.snd := h.selected
  have hzero : (0 : UInt64).toNat = 0 := rfl
  rw [hzero, Nat.zero_add] at hfound
  exact {
    nodup := by
      have hall := (h.cache.map Prod.snd).nodup_iff.mp hholds.indexes_nodup
      rw [List.append_assoc, List.map_append] at hall
      rw [hselected]
      exact hall.of_append_left
    ready := by
      rw [hselected]
      intro index hindex
      obtain ⟨p, hp, rfl⟩ := List.mem_map.mp hindex
      exact h.picked_ready p hp
    money := hfound.trans (hholds.money_of_reaches h).symm
    enough_iff := by
      constructor
      · intro henough
        omega
      · intro hall
        rcases h.ends with henough | hnil
        · exact henough
        · have hnone : (readyOf (w.ready fakeOutputsCount)
              (pairs selection.foundFreeAmounts)).sum = 0 := by
            rw [hnil]
            rfl
          omega
    kept := ⟨picked, dropped, hselected, h.dropped_not_ready, h.cache⟩ }

theorem selectIndicesForTransfer_reaches (hkept : MapKept entries) (neededMoney : UInt64)
    (fakeOutputsCount : Nat) :
    ∃ picked dropped, Reaches (w.ready fakeOutputsCount) neededMoney ⟨0, [], entries⟩
      (selectIndicesForTransfer w entries neededMoney fakeOutputsCount) picked dropped :=
  selectIndicesLoop_reaches hkept

/-- The money of the selected transfers is a word just when no sum wraps. -/
theorem CacheHolds.complete_iff (hholds : CacheHolds w entries) :
    CompleteSelection w entries neededMoney fakeOutputsCount
        (selectIndicesForTransfer w entries neededMoney fakeOutputsCount) ↔
      StaysBelow (2 ^ 64) neededMoney.toNat 0 (readyAmounts w entries fakeOutputsCount) := by
  obtain ⟨picked, dropped, h⟩ :=
    selectIndicesForTransfer_reaches hholds.kept neededMoney fakeOutputsCount
  constructor
  · intro hcomplete
    -- the money of the selected transfers was found as a word
    apply h.stays
    have hlt := (selectIndicesForTransfer w entries neededMoney
      fakeOutputsCount).foundMoney.toNat_lt
    rw [hcomplete.money, hholds.money_of_reaches h] at hlt
    change 0 + pairsMoney picked < 2 ^ 64
    rwa [Nat.zero_add]
  · exact hholds.complete_of_reaches h

end

/-- A selection is complete just when the sum that the greedy choice comes to is a word: the least
ready amount that completes the needed money, on top of the largest ones before it. -/
theorem selectIndicesForTransfer_complete_iff (w : TransfersWallet) (cache : FreeAmounts w)
    (neededMoney : UInt64) (fakeOutputsCount : Nat) :
    CompleteSelection w cache.entries neededMoney fakeOutputsCount
        (selectIndicesForTransfer w cache.entries neededMoney fakeOutputsCount) ↔
      StaysBelow (2 ^ 64) neededMoney.toNat 0 (readyAmounts w cache.entries fakeOutputsCount) :=
  cache.holds.complete_iff

/-- Two transfers of half of the words. -/
def halvesWallet : TransfersWallet where
  transfers := [TransfersWallet.sampleTransfer (2 ^ 63), TransfersWallet.sampleTransfer (2 ^ 63)]
  foundFreeAmounts := []
  fakeOutputsCount := 0
  blockchainCurrentSize := 100
  coreTime := 0

def halvesCache : FreeAmounts halvesWallet where
  entries := [(2 ^ 63, [0, 1])]
  keys := by decide
  ordered := by decide
  sets := by decide
  disjoint := List.pairwise_singleton _ _
  amounts := by decide +kernel

/-- One of them completes any sum up to a half. -/
theorem halves_complete : CompleteSelection halvesWallet halvesCache.entries 5 0
    (selectIndicesForTransfer halvesWallet halvesCache.entries 5 0) := by
  have hready : readyAmounts halvesWallet halvesCache.entries 0 = [2 ^ 63, 2 ^ 63] := by
    decide +kernel
  apply (selectIndicesForTransfer_complete_iff halvesWallet halvesCache 5 0).mpr
  rw [hready]
  have hcompletes : Completes 5 0 [2 ^ 63, 2 ^ 63] (2 ^ 63) := ⟨by decide, by decide, by decide⟩
  exact (staysBelow_completes (by decide) hcompletes).mpr (by decide)

/-- Both are selected for all the words but one, and found is zero. -/
theorem halves_not_complete :
    selectIndicesForTransfer halvesWallet halvesCache.entries 0xffffffffffffffff 0 =
        ⟨0, [0, 1], []⟩ ∧
      ¬ CompleteSelection halvesWallet halvesCache.entries 0xffffffffffffffff 0 ⟨0, [0, 1], []⟩ := by
  refine ⟨by decide +kernel, fun h => ?_⟩
  exact absurd h.money (by decide +kernel)

end Chinet
