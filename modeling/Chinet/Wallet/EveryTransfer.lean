import Chinet.Wallet.DanglingIndexes

/-!
# What steps do to all transfers

Marks of a spend, the heights of spends and other containers are all that an HTLC at its height
changes, and all that a detach changes in the transfers that it leaves.  What is true of the
fixed part of every transfer stays true if it is true of the new ones.
-/

namespace Chinet

/-- A transfer without what tells whether it is spent. -/
def IndexedTransfer.unspent (td : IndexedTransfer) : IndexedTransfer :=
  { td with flags := td.flags &&& ~~~walletTransferDetailFlagSpent, spentHeight := 0 }

namespace IndexedWallet

variable {P : IndexedTransfer → Prop} {w w' w'' : IndexedWallet}

theorem map_modify_eq {α : Type} {l : List IndexedTransfer} {i : Nat}
    {f : IndexedTransfer → IndexedTransfer} {g : IndexedTransfer → α} (hf : ∀ td, g (f td) = g td) :
    (l.modify i f).map g = l.map g := by
  apply List.ext_getElem?
  intro j
  rw [List.getElem?_map, List.getElem?_map, List.getElem?_modify]
  cases l[j]? with
  | none => rfl
  | some td =>
      by_cases hij : i = j
      · simp [hij, hf]
      · simp [hij]

theorem map_mapIdx_eq {α : Type} {l : List IndexedTransfer}
    {f : Nat → IndexedTransfer → IndexedTransfer} {g : IndexedTransfer → α}
    (hf : ∀ i td, g (f i td) = g td) : (l.mapIdx f).map g = l.map g := by
  apply List.ext_getElem?
  intro j
  rw [List.getElem?_map, List.getElem?_map, List.getElem?_mapIdx, Option.map_map]
  congr 1
  funext td
  exact hf j td

/-! ## Steps that change what is spent -/

/-- Nothing but spends and containers other than the expirations has changed. -/
structure SpentOnly (w w' : IndexedWallet) : Prop where
  unspent : w'.transfers.map IndexedTransfer.unspent = w.transfers.map IndexedTransfer.unspent
  expirations : w'.moneyExpirations = w.moneyExpirations

namespace SpentOnly

theorem of_rest (htransfers : w'.transfers = w.transfers)
    (hexpirations : w'.moneyExpirations = w.moneyExpirations) : w.SpentOnly w' :=
  ⟨congrArg _ htransfers, hexpirations⟩

theorem refl (w : IndexedWallet) : w.SpentOnly w := of_rest rfl rfl

theorem trans (h : w.SpentOnly w') (h' : w'.SpentOnly w'') : w.SpentOnly w'' :=
  ⟨h'.unspent.trans h.unspent, h'.expirations.trans h.expirations⟩

theorem modifyTransfer (w : IndexedWallet) (i : Nat) {change : BitVec 32 → BitVec 32}
    (spentHeight : Nat → Nat) (hchange : ∀ flags, change flags &&& ~~~walletTransferDetailFlagSpent =
      flags &&& ~~~walletTransferDetailFlagSpent) :
    w.SpentOnly (w.modifyTransfer i change spentHeight) := by
  refine ⟨map_modify_eq fun td => ?_, rfl⟩
  simp only [IndexedTransfer.unspent, hchange]

theorem or_spent (flags : BitVec 32) :
    (flags ||| walletTransferDetailFlagSpent) &&& ~~~walletTransferDetailFlagSpent =
      flags &&& ~~~walletTransferDetailFlagSpent := by
  ext i hi
  simp only [walletTransferDetailFlagSpent, BitVec.getElem_and, BitVec.getElem_or,
    BitVec.getElem_not]
  grind

theorem and_not_spent (flags : BitVec 32) :
    flags &&& ~~~walletTransferDetailFlagSpent &&& ~~~walletTransferDetailFlagSpent =
      flags &&& ~~~walletTransferDetailFlagSpent := by
  rw [BitVec.and_assoc, BitVec.and_self]

theorem markTransfersWithFlag (w : IndexedWallet) (l : List Nat) :
    w.SpentOnly (w.markTransfersWithFlag l walletTransferDetailFlagSpent) := by
  unfold IndexedWallet.markTransfersWithFlag
  induction l generalizing w with
  | nil => exact refl w
  | cons i l ih => exact (modifyTransfer w i id or_spent).trans (ih _)

theorem expireHtlcTransfer (w : IndexedWallet) (height : Nat) (trigger : HtlcExpirationTrigger) :
    w.SpentOnly (w.expireHtlcTransfer height trigger) := by
  unfold IndexedWallet.expireHtlcTransfer
  split
  · exact (modifyTransfer w trigger.transferIndex (fun _ => height) or_spent).trans (of_rest rfl rfl)
  · exact (modifyTransfer w trigger.transferIndex (fun _ => 0) and_not_spent).trans (of_rest rfl rfl)

theorem unexpireHtlcTransfer (w : IndexedWallet) (trigger : HtlcExpirationTrigger) :
    w.SpentOnly (w.unexpireHtlcTransfer trigger) := by
  have hspent := modifyTransfer w trigger.transferIndex (fun _ => 0) or_spent
  unfold IndexedWallet.unexpireHtlcTransfer
  split
  · exact hspent
  · exact hspent.trans (of_rest rfl rfl)

theorem deactivateHtlc (hash : Transaction → Hash) (height : Nat) (w : IndexedWallet)
    (trigger : HtlcExpirationTrigger) : w.SpentOnly (deactivateHtlc hash height w trigger) := by
  have hexpired := expireHtlcTransfer w height trigger
  unfold IndexedWallet.deactivateHtlc
  generalize w.expireHtlcTransfer height trigger = v at hexpired ⊢
  dsimp only
  split
  · exact hexpired
  · split
    · exact hexpired.trans (of_rest rfl rfl)
    · exact hexpired

theorem reactivateHtlc (hash : Transaction → Hash) (w : IndexedWallet)
    (trigger : HtlcExpirationTrigger) : w.SpentOnly (reactivateHtlc hash w trigger) := by
  have hactive := unexpireHtlcTransfer w trigger
  unfold IndexedWallet.reactivateHtlc
  generalize w.unexpireHtlcTransfer trigger = v at hactive ⊢
  dsimp only
  split
  · exact hactive
  · exact hactive.trans (of_rest rfl rfl)

theorem foldl {α : Type} {f : IndexedWallet → α → IndexedWallet} (hf : ∀ (w : IndexedWallet) a, w.SpentOnly (f w a))
    (l : List α) (w : IndexedWallet) : w.SpentOnly (l.foldl f w) := by
  induction l generalizing w with
  | nil => exact refl w
  | cons a l ih => exact (hf w a).trans (ih _)

theorem processHtlcTriggers (hash : Transaction → Hash) (w : IndexedWallet) (height : Nat) :
    w.SpentOnly (processHtlcTriggersOnBlockAdded hash w height) :=
  foldl (deactivateHtlc hash height) _ w

theorem unprocessHtlcTriggers (hash : Transaction → Hash) (w : IndexedWallet) (height : Nat) :
    w.SpentOnly (unprocessHtlcTriggersOnBlockRemoved hash w height) :=
  foldl (reactivateHtlc hash) _ w

end SpentOnly

/-! ## Detaching -/

theorem forgetKeyImage_rest (w : IndexedWallet) (includingHeight i : Nat) (td : IndexedTransfer) :
    (w.forgetKeyImage includingHeight i td).1.transfers = w.transfers ∧
      (w.forgetKeyImage includingHeight i td).1.moneyExpirations = w.moneyExpirations := by
  unfold forgetKeyImage
  dsimp only
  split_ifs <;> exact ⟨rfl, rfl⟩

theorem forgetTransfer_rest (includingHeight : Nat) (w : IndexedWallet) (i : Nat) :
    (forgetTransfer includingHeight w i).1.transfers = w.transfers ∧
      (forgetTransfer includingHeight w i).1.moneyExpirations = w.moneyExpirations := by
  unfold forgetTransfer
  dsimp only
  split
  · exact ⟨rfl, rfl⟩
  · split
    · exact forgetKeyImage_rest w includingHeight i _
    · split
      · exact forgetKeyImage_rest _ includingHeight i _
      · exact ⟨rfl, rfl⟩

theorem forgetTransfers_rest (includingHeight : Nat) (l : List Nat) (w : IndexedWallet) :
    (forgetTransfers includingHeight l w).1.transfers = w.transfers ∧
      (forgetTransfers includingHeight l w).1.moneyExpirations = w.moneyExpirations := by
  induction l generalizing w with
  | nil => exact ⟨rfl, rfl⟩
  | cons i rest ih =>
      have hturn := forgetTransfer_rest includingHeight w i
      unfold forgetTransfers
      split
      case h_1 v hv =>
        rw [hv] at hturn
        exact ⟨(ih v).1.trans hturn.1, (ih v).2.trans hturn.2⟩
      case h_2 v hv =>
        rw [hv] at hturn
        exact hturn

/-- A detach cuts the transfers off, at the first that is too high or not at all, and changes what
is spent. -/
theorem exists_detachBlockchain (hash : Transaction → Hash) (w : IndexedWallet)
    (includingHeight : Nat) :
    ∃ n, w.cutIndex includingHeight ≤ n ∧
      ({ w with transfers := w.transfers.take n } : IndexedWallet).SpentOnly
        (detachBlockchain hash w includingHeight) := by
  have hforget := forgetTransfers_rest includingHeight (List.range' (w.cutIndex includingHeight)
    (w.transfers.length - w.cutIndex includingHeight)) w
  unfold IndexedWallet.detachBlockchain
  dsimp only
  split
  case h_1 v hv =>
    rw [hv] at hforget
    refine ⟨w.transfers.length, List.findIdx_le_length, ?_⟩
    rw [List.take_length]
    exact SpentOnly.of_rest hforget.1 hforget.2
  case h_2 v hv =>
    rw [hv] at hforget
    refine ⟨w.cutIndex includingHeight, le_rfl, ?_⟩
    have hcut : ({ w with transfers := w.transfers.take (w.cutIndex includingHeight) } :
        IndexedWallet).SpentOnly
          { v with transfers := v.transfers.take (w.cutIndex includingHeight) } :=
      SpentOnly.of_rest (congrArg (List.take _) hforget.1) hforget.2
    refine (hcut.trans (SpentOnly.foldl (SpentOnly.unprocessHtlcTriggers hash) _ _)).trans ⟨?_, rfl⟩
    rw [List.map_map]
    apply List.map_congr_left
    intro td _
    change IndexedTransfer.unspent (if _ then _ else _) = _
    split <;> rfl

/-! ## The fixed part -/

/-- The fixed part of every transfer has a property. -/
def Everywhere (P : IndexedTransfer → Prop) (w : IndexedWallet) : Prop :=
  ∀ td ∈ w.transfers, P td.fixed

namespace Everywhere

theorem of_fixed (h : w.Everywhere P)
    (hfixed : w'.transfers.map IndexedTransfer.fixed = w.transfers.map IndexedTransfer.fixed) :
    w'.Everywhere P := by
  intro td' htd'
  have hmem := List.mem_map_of_mem (f := IndexedTransfer.fixed) htd'
  rw [hfixed] at hmem
  obtain ⟨td, htd, heq⟩ := List.mem_map.mp hmem
  exact heq ▸ h td htd

/-- Nothing but other containers has changed. -/
theorem of_transfers (h : w.Everywhere P) (htransfers : w'.transfers = w.transfers) :
    w'.Everywhere P :=
  h.of_fixed (congrArg _ htransfers)

theorem of_spentOnly (h : w.Everywhere P) (hspent : w.SpentOnly w') : w'.Everywhere P := by
  apply h.of_fixed
  have hfixed : IndexedTransfer.fixed ∘ IndexedTransfer.unspent = IndexedTransfer.fixed := rfl
  have hmaps := congrArg (List.map IndexedTransfer.fixed) hspent.unspent
  rwa [List.map_map, List.map_map, hfixed] at hmaps

theorem modifyTransfer (h : w.Everywhere P) (i : Nat) (change : BitVec 32 → BitVec 32)
    (spentHeight : Nat → Nat) : (w.modifyTransfer i change spentHeight).Everywhere P :=
  h.of_fixed (map_fixed_modify fun _ => rfl)

theorem processInput (h : w.Everywhere P) (height : Nat) (input : Txin) :
    (processInput height w input).1.Everywhere P := by
  unfold IndexedWallet.processInput
  split
  case h_1 input =>
    split
    · exact h
    · exact h
    · rename_i tid _
      unfold IndexedWallet.removeTransferFromExpirationList
      apply modifyTransfer
      exact (h.modifyTransfer tid (· ||| walletTransferDetailFlagSpent) fun _ => height).of_transfers
        rfl
  case h_2 input =>
    split
    · exact h
    · rename_i tid _
      exact h.modifyTransfer tid id fun _ => height
  case h_3 => exact h

end Everywhere

/-- The transfer of an output is appended, and the records of it are in other containers. -/
theorem processOutput_rest (w : IndexedWallet) (tx : Transaction) (txHash : Hash) (height : Nat)
    (out : OwnOutput) :
    ((w.processOutput tx txHash height out).transfers = w.transfers ∨
      (w.processOutput tx txHash height out).transfers = w.transfers ++ [out.transfer tx height]) ∧
      (w.processOutput tx txHash height out).moneyExpirations = w.moneyExpirations := by
  unfold IndexedWallet.processOutput
  split
  · exact ⟨Or.inl rfl, rfl⟩
  · unfold IndexedWallet.recordAmountGindex IndexedWallet.recordKeyImage IndexedWallet.recordHtlc
    dsimp only
    split <;> split <;> split <;> exact ⟨Or.inr rfl, rfl⟩

/-- The outputs of a transaction append transfers of theirs. -/
theorem exists_processOutputs (tx : Transaction) (txHash : Hash) (height : Nat)
    (own : List OwnOutput) (w : IndexedWallet) :
    ∃ more, (∀ td ∈ more, ∃ out ∈ own, td = out.transfer tx height) ∧
      (own.foldl (fun w out => w.processOutput tx txHash height out) w).transfers =
        w.transfers ++ more ∧
      (own.foldl (fun w out => w.processOutput tx txHash height out) w).moneyExpirations =
        w.moneyExpirations := by
  induction own generalizing w with
  | nil => exact ⟨[], nofun, (List.append_nil _).symm, rfl⟩
  | cons out own ih =>
      obtain ⟨more, hmore, htransfers, hexpirations⟩ := ih (w.processOutput tx txHash height out)
      obtain ⟨hfirst, hrest⟩ := processOutput_rest w tx txHash height out
      have hmore' : ∀ td ∈ more, ∃ out' ∈ out :: own, td = out'.transfer tx height := by
        intro td htd
        obtain ⟨out', hout', heq⟩ := hmore td htd
        exact ⟨out', List.mem_cons_of_mem out hout', heq⟩
      rcases hfirst with hsame | happend
      · exact ⟨more, hmore', htransfers.trans (congrArg (· ++ more) hsame), hexpirations.trans hrest⟩
      · refine ⟨out.transfer tx height :: more, ?_, ?_, hexpirations.trans hrest⟩
        · intro td htd
          rcases List.mem_cons.mp htd with rfl | htd
          · exact ⟨out, List.mem_cons_self, rfl⟩
          · exact hmore' td htd
        · rw [List.foldl_cons, htransfers, happend, List.append_assoc]
          rfl

theorem Everywhere.processNewTransaction (h : w.Everywhere P) {tx : Transaction} (txHash : Hash)
    {height : Nat} {own : List OwnOutput} (hown : ∀ out ∈ own, P (out.transfer tx height).fixed) :
    (w.processNewTransaction tx txHash height own).1.Everywhere P := by
  have hspent : (w.processInputs tx txHash height).1.Everywhere P :=
    goThrough_induct (P := fun v : IndexedWallet => v.Everywhere P)
      (fun _ input h => h.processInput height input) (h.of_transfers rfl)
  unfold IndexedWallet.processNewTransaction
  split
  · rename_i u heq
    rw [heq] at hspent
    intro td htd
    obtain ⟨more, hmore, htransfers, _⟩ := exists_processOutputs tx txHash height own u
    rw [htransfers] at htd
    rcases List.mem_append.mp htd with htd | htd
    · exact hspent td htd
    · obtain ⟨out, hout, rfl⟩ := hmore td htd
      exact hown out hout
  · rename_i heq
    rwa [heq] at hspent

theorem Everywhere.detachBlockchain (h : w.Everywhere P) (hash : Transaction → Hash)
    (includingHeight : Nat) : (detachBlockchain hash w includingHeight).Everywhere P := by
  obtain ⟨n, _, hspent⟩ := exists_detachBlockchain hash w includingHeight
  have hcut : ({ w with transfers := w.transfers.take n } : IndexedWallet).Everywhere P :=
    fun td htd => h td (List.mem_of_mem_take htd)
  exact hcut.of_spentOnly hspent

end IndexedWallet

end Chinet
