import Chinet.Wallet.TransferIndexes
import Mathlib.Data.List.Nodup
import Mathlib.Data.List.Infix

/-!
# Spent flags

What the flags and the spent heights of the transfers say about the blocks that the wallet
has processed, `process_new_blockchain_entry` for one block after the other.  An exception ends
the processing; a wallet that knows its key images throws none.

A transaction that was not processed because its block is older than the account is left out
of its block.
-/

namespace Chinet

/-! ## Processing a chain -/

structure WalletTransaction where
  tx : Transaction
  outs : List IndexedWallet.OwnOutput

structure WalletBlock where
  height : Nat
  transactions : List WalletTransaction

namespace IndexedWallet

/-- `process_new_blockchain_entry`; the flag says that nothing was thrown. -/
def processNewBlockchainEntry (hash : Transaction → Hash) (w : IndexedWallet) (b : WalletBlock) :
    IndexedWallet × Bool :=
  match goThrough (fun w t => w.processNewTransaction t.tx (hash t.tx) b.height t.outs)
      b.transactions w with
  | (w, []) =>
      (processHtlcTriggersOnBlockAdded hash { w with blockchainCurrentSize := b.height + 1 }
        b.height, true)
  | (w, _) => (w, false)

end IndexedWallet

/-- The inputs of a transaction, with the height of its block. -/
def WalletTransaction.inputs (height : Nat) (t : WalletTransaction) : List (Nat × Txin) :=
  t.tx.vin.map (height, ·)

/-- The transfers that a transaction brings, as they are when they are new. -/
def WalletTransaction.received (height : Nat) (t : WalletTransaction) : List IndexedTransfer :=
  t.outs.map fun out => out.transfer t.tx height

def WalletBlock.inputs (b : WalletBlock) : List (Nat × Txin) :=
  b.transactions.flatMap (WalletTransaction.inputs b.height)

def WalletBlock.received (b : WalletBlock) : List IndexedTransfer :=
  b.transactions.flatMap (WalletTransaction.received b.height)

namespace IndexedTransfer

def isSpent (td : IndexedTransfer) : Bool := td.flags &&& walletTransferDetailFlagSpent != 0

/-- An HTLC of which this wallet has the redeem side. -/
def isRedeem (td : IndexedTransfer) : Bool := td.flags &&& walletTransferDetailFlagHtlcRedeem != 0

/-- The amount and the global index of the output. -/
def key (td : IndexedTransfer) : Nat × Nat := (td.amount, td.globalOutputIndex)

/-- The input spends the transfer: it has its key image or, for a tracking wallet, which knows
no key images, it refers to its output alone. -/
def SpentBy (tracking : Bool) (td : IndexedTransfer) : Txin → Prop
  | .toKey input =>
      if tracking then input.directReference? = some td.key
      else td.keyImage ≠ nullKi ∧ input.kImage = td.keyImage
  | _ => False

/-- The input redeems the HTLC. -/
def RedeemedBy (td : IndexedTransfer) : Txin → Prop
  | .htlc input => input.directReference? = some td.key
  | _ => False

end IndexedTransfer

/-- What keeps a tracking wallet from an exception: no output is spent twice, nor the redeem side of
an HTLC by an input that refers to its output, and an input with several references has none to an
output of this wallet that must not be mixed. -/
structure Trackable (received : List IndexedTransfer) (inputs : List (Nat × Txin)) : Prop where
  once : inputs.Pairwise fun p q => ∀ td ∈ received, td.SpentBy true p.2 → ¬ td.SpentBy true q.2
  refund : ∀ td ∈ received, td.isRedeem = true → ∀ p ∈ inputs, ¬ td.SpentBy true p.2
  references : ∀ p ∈ inputs, ∀ input, p.2 = .toKey input → ∃ offsets,
    relativeOutputOffsetsToAbsolute input.keyOffsets = .ok offsets ∧
      (input.keyOffsets.length ≠ 1 → ∀ gindex, .globalIndex gindex ∈ offsets → ∀ td ∈ received,
        td.key = (input.amount.toNat, gindex.toNat) → ∀ out,
          td.output?.map TxOut.target = some (.toKey out) →
            out.mixAttr ≠ currencyToKeyOutForcedNoMix)

/-! ## Flags -/

/-- The flags, besides the spent one, that keep a transfer from being spent. -/
def reservedFlags : BitVec 32 :=
  walletTransferDetailFlagBlocked ||| walletTransferDetailFlagEscrowProposalReservation |||
    walletTransferDetailFlagColdSigReservation

/-- The part of a transfer that the containers of indexes go by. -/
def IndexedTransfer.shape (td : IndexedTransfer) : IndexedTransfer :=
  { td with flags := td.flags &&& walletTransferDetailFlagHtlcRedeem, spentHeight := 0 }

/-- The transfer after an input that spends it. -/
def IndexedTransfer.spentAt (height : Nat) (td : IndexedTransfer) : IndexedTransfer :=
  { td with
    flags := IndexedWallet.clearBlockedFlags (td.flags ||| walletTransferDetailFlagSpent)
    spentHeight := height }

/-- The transfer of an HTLC after its expiration. -/
def IndexedTransfer.expiredAt (height : Nat) (redeem : Bool) (td : IndexedTransfer) :
    IndexedTransfer :=
  if redeem then
    { td with flags := td.flags ||| walletTransferDetailFlagSpent, spentHeight := height }
  else { td with flags := td.flags &&& ~~~walletTransferDetailFlagSpent, spentHeight := 0 }

namespace IndexedTransfer

variable (td : IndexedTransfer) (height : Nat)

theorem isSpent_shape_or (flags : BitVec 32) :
    (flags ||| walletTransferDetailFlagSpent) &&& walletTransferDetailFlagSpent ≠ 0#32 := by
  rw [BitVec.and_or_distrib_right, BitVec.and_self]
  intro hzero
  exact absurd (BitVec.or_eq_zero_iff.mp hzero).2 (by decide)

theorem shape_spentAt : (td.spentAt height).shape = td.shape := by
  have hflags : IndexedWallet.clearBlockedFlags (td.flags ||| walletTransferDetailFlagSpent) &&&
      walletTransferDetailFlagHtlcRedeem = td.flags &&& walletTransferDetailFlagHtlcRedeem := by
    unfold IndexedWallet.clearBlockedFlags
    rw [BitVec.and_assoc, BitVec.and_assoc, BitVec.and_or_distrib_right]
    have hkeep : ~~~walletTransferDetailFlagBlocked &&&
        (~~~walletTransferDetailFlagEscrowProposalReservation &&&
          walletTransferDetailFlagHtlcRedeem) = walletTransferDetailFlagHtlcRedeem := by decide
    have hset : walletTransferDetailFlagSpent &&& walletTransferDetailFlagHtlcRedeem = 0#32 := by
      decide
    rw [hkeep, hset, BitVec.or_zero]
  unfold spentAt shape
  dsimp only
  rw [hflags]

theorem isSpent_spentAt : (td.spentAt height).isSpent = true := by
  have hkeep : ~~~walletTransferDetailFlagBlocked &&&
      (~~~walletTransferDetailFlagEscrowProposalReservation &&& walletTransferDetailFlagSpent) =
      walletTransferDetailFlagSpent := by decide
  have hflags : IndexedWallet.clearBlockedFlags (td.flags ||| walletTransferDetailFlagSpent) &&&
      walletTransferDetailFlagSpent ≠ 0#32 := by
    unfold IndexedWallet.clearBlockedFlags
    rw [BitVec.and_assoc, BitVec.and_assoc, hkeep]
    exact isSpent_shape_or td.flags
  exact bne_iff_ne.mpr hflags

theorem reserved_spentAt (h : td.flags &&& reservedFlags = 0#32) :
    (td.spentAt height).flags &&& reservedFlags = 0#32 := by
  have hset : walletTransferDetailFlagSpent &&& reservedFlags = 0#32 := by decide
  have hor : (td.flags ||| walletTransferDetailFlagSpent) &&& reservedFlags = 0#32 := by
    rw [BitVec.and_or_distrib_right, h, hset, BitVec.or_zero]
  change IndexedWallet.clearBlockedFlags (td.flags ||| walletTransferDetailFlagSpent) &&&
    reservedFlags = 0#32
  unfold IndexedWallet.clearBlockedFlags
  rw [BitVec.and_assoc, BitVec.and_assoc, BitVec.and_comm, BitVec.and_assoc, BitVec.and_assoc,
    BitVec.and_comm reservedFlags, hor, BitVec.and_zero, BitVec.and_zero]

theorem shape_expiredAt (redeem : Bool) : (td.expiredAt height redeem).shape = td.shape := by
  have hset : walletTransferDetailFlagSpent &&& walletTransferDetailFlagHtlcRedeem = 0#32 := by decide
  have hkeep : ~~~walletTransferDetailFlagSpent &&& walletTransferDetailFlagHtlcRedeem =
      walletTransferDetailFlagHtlcRedeem := by decide
  unfold expiredAt shape
  cases redeem with
  | true =>
      simp only [if_true]
      rw [BitVec.and_or_distrib_right, hset, BitVec.or_zero]
  | false =>
      simp only [Bool.false_eq_true, if_false]
      rw [BitVec.and_assoc, hkeep]

theorem isSpent_expiredAt (redeem : Bool) : (td.expiredAt height redeem).isSpent = redeem := by
  unfold expiredAt isSpent
  cases redeem with
  | true => exact bne_iff_ne.mpr (isSpent_shape_or td.flags)
  | false =>
      simp only [Bool.false_eq_true, if_false]
      have hclear : ~~~walletTransferDetailFlagSpent &&& walletTransferDetailFlagSpent = 0#32 := by
        decide
      rw [BitVec.and_assoc, hclear, BitVec.and_zero]
      rfl

theorem reserved_expiredAt (redeem : Bool) (h : td.flags &&& reservedFlags = 0#32) :
    (td.expiredAt height redeem).flags &&& reservedFlags = 0#32 := by
  unfold expiredAt
  cases redeem with
  | true =>
      have hset : walletTransferDetailFlagSpent &&& reservedFlags = 0#32 := by decide
      simp only [if_true]
      rw [BitVec.and_or_distrib_right, h, hset, BitVec.or_zero]
  | false =>
      simp only [Bool.false_eq_true, if_false]
      rw [BitVec.and_assoc, BitVec.and_comm _ reservedFlags, ← BitVec.and_assoc, h, BitVec.zero_and]

theorem shape_shape (td : IndexedTransfer) : td.shape.shape = td.shape := by
  unfold shape
  dsimp only
  rw [BitVec.and_assoc, BitVec.and_self]

theorem isRedeem_eq_of_shape {td td' : IndexedTransfer} (h : td'.shape = td.shape) :
    td'.isRedeem = td.isRedeem :=
  congrArg (fun td : IndexedTransfer => td.flags != 0) h

theorem htlcExpiration?_eq_of_shape {td td' : IndexedTransfer} (h : td'.shape = td.shape) :
    td'.htlcExpiration? = td.htlcExpiration? :=
  (congrArg htlcExpiration? h : td'.shape.htlcExpiration? = td.shape.htlcExpiration?)

theorem spentBy_iff_of_shape {td td' : IndexedTransfer} (h : td'.shape = td.shape)
    (tracking : Bool) (x : Txin) : td'.SpentBy tracking x ↔ td.SpentBy tracking x :=
  iff_of_eq (congrArg (fun td : IndexedTransfer => td.SpentBy tracking x) h :
    td'.shape.SpentBy tracking x = td.shape.SpentBy tracking x)

end IndexedTransfer

/-! ## The truth of a transfer, input by input -/

/-- `TellsTruth` in the course of the blocks: HTLCs below a height have expired. -/
structure IndexedTransfer.Told (tracking : Bool) (seen : List (Nat × Txin)) (next : Nat)
    (td : IndexedTransfer) : Prop where
  reserved : td.flags &&& reservedFlags = 0#32
  toKey : td.htlcExpiration? = none →
    (td.isSpent = true ↔ ∃ p ∈ seen, td.SpentBy tracking p.2)
  refund : ∀ expiration, td.htlcExpiration? = some expiration → td.isRedeem = false →
    (td.isSpent = true ↔ next ≤ expiration ∨ ∃ p ∈ seen, td.SpentBy tracking p.2)
  redeem : ∀ expiration, td.htlcExpiration? = some expiration → td.isRedeem = true →
    td.isSpent = true
  spentHeight : ∀ p ∈ seen, td.SpentBy tracking p.2 →
    (td.htlcExpiration? ≠ none → ∀ q ∈ seen, ¬ td.RedeemedBy q.2) → td.spentHeight = p.1
  unspent : (∀ expiration, td.htlcExpiration? = some expiration →
    td.isRedeem = false ∧ expiration < next) → (∀ p ∈ seen, ¬ td.SpentBy tracking p.2) →
      td.spentHeight = 0

namespace IndexedTransfer

variable {tracking : Bool} {seen : List (Nat × Txin)} {next : Nat} {td : IndexedTransfer}

theorem exists_mem_concat {p : Nat × Txin} {P : Nat × Txin → Prop} (hp : ¬ P p) :
    (∃ q ∈ seen ++ [p], P q) ↔ ∃ q ∈ seen, P q := by
  constructor
  · rintro ⟨q, hq, hPq⟩
    rcases List.mem_append.mp hq with hq | hq
    · exact ⟨q, hq, hPq⟩
    · exact absurd (List.mem_singleton.mp hq ▸ hPq) hp
  · rintro ⟨q, hq, hPq⟩
    exact ⟨q, List.mem_append_left _ hq, hPq⟩

/-- An input that does not spend the transfer; its spent height may change if the input
redeems it in time. -/
theorem Told.notSpent (h : td.Told tracking seen next) {p : Nat × Txin}
    (hp : ¬ td.SpentBy tracking p.2) {spentHeight : Nat}
    (hheight : spentHeight = td.spentHeight ∨ ∃ expiration, td.htlcExpiration? = some expiration ∧
      next ≤ expiration ∧ td.RedeemedBy p.2) :
    ({ td with spentHeight } : IndexedTransfer).Told tracking (seen ++ [p]) next where
  reserved := h.reserved
  toKey hnone := (h.toKey hnone).trans (exists_mem_concat hp).symm
  refund expiration hexpiration hredeem :=
    (h.refund expiration hexpiration hredeem).trans (or_congr_right (exists_mem_concat hp).symm)
  redeem := h.redeem
  spentHeight := by
    intro q hq hspent hnot
    have hq' : q ∈ seen := by
      rcases List.mem_append.mp hq with hq | hq
      · exact hq
      · exact absurd (List.mem_singleton.mp hq ▸ hspent) hp
    rcases hheight with rfl | ⟨expiration, hexpiration, _, hredeemed⟩
    · exact h.spentHeight q hq' hspent fun hhtlc r hr => hnot hhtlc r (List.mem_append_left _ hr)
    · have hhtlc : td.htlcExpiration? ≠ none := by simp [hexpiration]
      exact absurd hredeemed (hnot hhtlc p (List.mem_append_right _ (List.mem_singleton_self p)))
  unspent := by
    intro hexpired hnone
    rcases hheight with rfl | ⟨expiration, hexpiration, hlater, _⟩
    · exact h.unspent hexpired fun q hq => hnone q (List.mem_append_left _ hq)
    · exact absurd (hexpired expiration hexpiration).2 (Nat.not_lt_of_le hlater)

/-- An input that spends the transfer. -/
theorem Told.spent (h : td.Told tracking seen next) {p : Nat × Txin}
    (hp : td.SpentBy tracking p.2) (honce : ∀ q ∈ seen, td.SpentBy tracking q.2 → q.1 = p.1) :
    (td.spentAt p.1).Told tracking (seen ++ [p]) next where
  reserved := td.reserved_spentAt p.1 h.reserved
  toKey _ := iff_of_true (td.isSpent_spentAt p.1)
    ⟨p, List.mem_append_right _ (List.mem_singleton_self p), hp⟩
  refund _ _ _ := iff_of_true (td.isSpent_spentAt p.1)
    (Or.inr ⟨p, List.mem_append_right _ (List.mem_singleton_self p), hp⟩)
  redeem _ _ _ := td.isSpent_spentAt p.1
  spentHeight := by
    intro q hq hspent _
    rcases List.mem_append.mp hq with hq | hq
    · exact (honce q hq hspent).symm
    · rw [List.mem_singleton.mp hq]
      rfl
  unspent _ hnone := absurd hp (hnone p (List.mem_append_right _ (List.mem_singleton_self p)))

/-- Another HTLC expires, or none. -/
theorem Told.later (h : td.Told tracking seen next) (hne : td.htlcExpiration? ≠ some next) :
    td.Told tracking seen (next + 1) where
  reserved := h.reserved
  toKey := h.toKey
  refund := by
    intro expiration hexpiration hredeem
    rw [h.refund expiration hexpiration hredeem]
    have hne' : expiration ≠ next := by
      rintro rfl
      exact hne hexpiration
    refine or_congr_left ?_
    omega
  redeem := h.redeem
  spentHeight := h.spentHeight
  unspent := by
    intro hexpired
    refine h.unspent fun expiration hexpiration => ?_
    obtain ⟨hredeem, hlt⟩ := hexpired expiration hexpiration
    have hne' : expiration ≠ next := by
      rintro rfl
      exact hne hexpiration
    exact ⟨hredeem, by omega⟩

/-- The HTLC expires; only later inputs can spend it. -/
theorem Told.expired (h : td.Told tracking seen next) (hexpires : td.htlcExpiration? = some next)
    (hnot : ∀ p ∈ seen, ¬ td.SpentBy tracking p.2) :
    (td.expiredAt next td.isRedeem).Told tracking seen (next + 1) := by
  have hshape := td.shape_expiredAt next td.isRedeem
  have hexpiration := (htlcExpiration?_eq_of_shape hshape).trans hexpires
  have hspent := spentBy_iff_of_shape hshape tracking
  have hflag := td.isSpent_expiredAt next td.isRedeem
  exact {
    reserved := td.reserved_expiredAt next td.isRedeem h.reserved
    toKey := by
      intro hnone
      rw [hexpiration] at hnone
      cases hnone
    refund := by
      intro expiration hsome hredeem
      rw [hexpiration] at hsome
      cases hsome
      rw [isRedeem_eq_of_shape hshape] at hredeem
      refine iff_of_false (Bool.eq_false_iff.mp (hflag.trans hredeem)) ?_
      rintro (hle | ⟨p, hp, hspends⟩)
      · omega
      · exact hnot p hp ((hspent p.2).mp hspends)
    redeem := by
      intro expiration _ hredeem
      rw [isRedeem_eq_of_shape hshape] at hredeem
      exact hflag.trans hredeem
    spentHeight := fun p hp hspends _ => absurd ((hspent p.2).mp hspends) (hnot p hp)
    unspent := by
      intro hrefund _
      have hredeem := (hrefund next hexpiration).1
      rw [isRedeem_eq_of_shape hshape] at hredeem
      rw [expiredAt, hredeem]
      rfl }

/-- The flags of a new transfer. -/
theorem flags_transfer (out : IndexedWallet.OwnOutput) (tx : Transaction) (height : Nat) :
    (out.transfer tx height).flags &&& reservedFlags = 0#32 ∧
      ((out.transfer tx height).isSpent = true ↔
        (out.transfer tx height).htlcExpiration? ≠ none) ∧
      ((out.transfer tx height).htlcExpiration? ≠ none →
        (out.transfer tx height).isRedeem = out.isWalletOwnsRedeem) := by
  have hhtlc : ∀ mined redeem : Bool,
      ((if mined then walletTransferDetailFlagMinedTransfer else 0) |||
        (walletTransferDetailFlagSpent |||
          if redeem then walletTransferDetailFlagHtlcRedeem else 0)) &&& reservedFlags = 0#32 ∧
      ((if mined then walletTransferDetailFlagMinedTransfer else 0) |||
        (walletTransferDetailFlagSpent |||
          if redeem then walletTransferDetailFlagHtlcRedeem else 0)) &&&
        walletTransferDetailFlagSpent ≠ 0#32 ∧
      (((if mined then walletTransferDetailFlagMinedTransfer else 0) |||
        (walletTransferDetailFlagSpent |||
          if redeem then walletTransferDetailFlagHtlcRedeem else 0)) &&&
        walletTransferDetailFlagHtlcRedeem != 0) = redeem := by decide
  have hother : ∀ mined : Bool,
      ((if mined then walletTransferDetailFlagMinedTransfer else 0) ||| 0) &&& reservedFlags = 0#32 ∧
      ((if mined then walletTransferDetailFlagMinedTransfer else 0) ||| 0) &&&
        walletTransferDetailFlagSpent = 0#32 := by decide
  have hflags : (out.transfer tx height).flags = out.flags tx := rfl
  have htarget : (out.transfer tx height).output?.map TxOut.target =
      (tx.vout[out.o]?).map TxOut.target := rfl
  unfold isSpent isRedeem htlcExpiration?
  rw [hflags, htarget]
  unfold IndexedWallet.OwnOutput.flags
  obtain ⟨hreserved, hclear⟩ := hother out.isMined
  have hnot : ¬ ((((if out.isMined then walletTransferDetailFlagMinedTransfer else 0) ||| 0) &&&
      walletTransferDetailFlagSpent != 0) = true) := by
    rw [bne_iff_ne, not_not]
    exact hclear
  cases (tx.vout[out.o]?).map TxOut.target with
  | none => exact ⟨hreserved, iff_of_false hnot fun hne => hne rfl, fun hne => absurd rfl hne⟩
  | some target =>
      cases target with
      | toKey target =>
          exact ⟨hreserved, iff_of_false hnot fun hne => hne rfl, fun hne => absurd rfl hne⟩
      | multisig target =>
          exact ⟨hreserved, iff_of_false hnot fun hne => hne rfl, fun hne => absurd rfl hne⟩
      | htlc target =>
          obtain ⟨hreserved, hset, hredeem⟩ := hhtlc out.isMined out.isWalletOwnsRedeem
          exact ⟨hreserved, iff_of_true (bne_iff_ne.mpr hset) (Option.some_ne_none _),
            fun _ => hredeem⟩

theorem le_expiration {td : IndexedTransfer} {expiration : Nat}
    (h : td.htlcExpiration? = some expiration) : td.blockHeight ≤ expiration := by
  unfold htlcExpiration? at h
  split at h
  · cases h
    exact Nat.le_add_right _ _
  · cases h

/-- A new transfer. -/
theorem told_transfer (out : IndexedWallet.OwnOutput) (tx : Transaction) {height : Nat}
    (hnot : ∀ p ∈ seen, ¬ (out.transfer tx height).SpentBy tracking p.2) :
    (out.transfer tx height).Told tracking seen height := by
  obtain ⟨hreserved, hspent, _⟩ := flags_transfer out tx height
  have hnone : ¬ ∃ p ∈ seen, (out.transfer tx height).SpentBy tracking p.2 := by
    rintro ⟨p, hp, hspends⟩
    exact hnot p hp hspends
  have hexpires : ∀ expiration, (out.transfer tx height).htlcExpiration? = some expiration →
      (out.transfer tx height).isSpent = true ∧ height ≤ expiration := by
    intro expiration hexpiration
    exact ⟨hspent.mpr (Option.ne_none_iff_exists'.mpr ⟨expiration, hexpiration⟩),
      le_expiration hexpiration⟩
  exact {
    reserved := hreserved
    toKey := fun hto => iff_of_false (fun htrue => hspent.mp htrue hto) hnone
    refund := fun expiration hexpiration _ =>
      iff_of_true (hexpires expiration hexpiration).1 (Or.inl (hexpires expiration hexpiration).2)
    redeem := fun expiration hexpiration _ => (hexpires expiration hexpiration).1
    spentHeight := fun p hp hspends _ => absurd hspends (hnot p hp)
    unspent := fun _ _ => rfl }

end IndexedTransfer

/-! ## The containers and the transfers -/

namespace IndexedWallet

open IndexedTransfer

variable {w : IndexedWallet} {tracking : Bool} {shapes received : List IndexedTransfer}
  {seen : List (Nat × Txin)} {next : Nat}

/-- The containers find each transfer by its key image, its global index and its expiration. -/
structure Indexed (w : IndexedWallet) (tracking : Bool) (shapes : List IndexedTransfer) :
    Prop where
  shapes_eq : w.transfers.map shape = shapes
  tracking_eq : (w.auditable && w.watchOnly) = tracking
  keyImages : ∀ k i, w.keyImages k = some i ↔
    k ≠ nullKi ∧ (shapes[i]?).map IndexedTransfer.keyImage = some k
  amountGindex : tracking = true → ∀ k i, w.amountGindexToTransferId k = some i ↔
    (shapes[i]?).map key = some k
  htlcs : ∀ e, e ∈ w.htlcs ↔ ∃ td, shapes[e.2.transferIndex]? = some td ∧
    td.htlcExpiration? = some e.1 ∧ td.isRedeem = e.2.isWalletOwnsRedeem
  activeHtlcs : ∀ k i, w.activeHtlcs k = some i → ∃ td, shapes[i]? = some td ∧ td.key = k

theorem Indexed.getElem?_shapes (h : w.Indexed tracking shapes) {i : Nat} {td : IndexedTransfer}
    (hi : w.transfers[i]? = some td) : shapes[i]? = some td.shape := by
  rw [← h.shapes_eq, List.getElem?_map, hi]
  rfl

theorem Indexed.getElem?_of_shapes (h : w.Indexed tracking shapes) {i : Nat} {td : IndexedTransfer}
    (hi : shapes[i]? = some td) : ∃ td', w.transfers[i]? = some td' ∧ td'.shape = td := by
  rw [← h.shapes_eq, List.getElem?_map] at hi
  exact Option.map_eq_some_iff.mp hi

theorem Indexed.modify (h : w.Indexed tracking shapes) {i : Nat}
    {f : IndexedTransfer → IndexedTransfer} (hf : ∀ td, (f td).shape = td.shape) :
    (w.transfers.modify i f).map shape = shapes := by
  rw [← h.shapes_eq]
  apply List.ext_getElem?
  intro j
  rw [List.getElem?_map, List.getElem?_map, List.getElem?_modify]
  cases w.transfers[j]? with
  | none => rfl
  | some td =>
      by_cases hij : i = j
      · simp [hij, hf]
      · simp [hij]

theorem directReference?_eq_some {input : TxinToKey} {k : Nat × Nat} :
    input.directReference? = some k ↔
      ∃ gindex, input.keyOffsets = [.globalIndex gindex] ∧ (input.amount.toNat, gindex.toNat) = k := by
  unfold TxinToKey.directReference?
  split
  · rename_i gindex heq
    rw [heq]
    simp
  · rename_i hnot
    simp only [reduceCtorEq, false_iff, not_exists, not_and]
    exact fun gindex heq => absurd heq (hnot gindex)

/-- The transfer that an input spends is the one that is found, unless an exception ends the
search. -/
theorem Indexed.spentTransferId_iff (h : w.Indexed tracking shapes) {input : TxinToKey}
    {found : Option Nat} (hfound : w.spentTransferId input = some found) {i : Nat} :
    found = some i ↔ ∃ td, shapes[i]? = some td ∧ td.SpentBy tracking (.toKey input) := by
  unfold spentTransferId at hfound
  rw [h.tracking_eq] at hfound
  cases htracking : tracking with
  | false =>
      rw [htracking, if_neg Bool.false_ne_true] at hfound
      rw [← Option.some.inj hfound, h.keyImages, Option.map_eq_some_iff]
      constructor
      · rintro ⟨hnull, td, htd, hkey⟩
        exact ⟨td, htd, hkey.symm ▸ hnull, hkey.symm⟩
      · rintro ⟨td, htd, hnull, hkey⟩
        exact ⟨hkey.symm ▸ hnull, td, htd, hkey.symm⟩
  | true =>
      rw [htracking, if_pos rfl] at hfound
      have hone (ref : TxoutRef) : relativeOutputOffsetsToAbsolute [ref] = .ok [ref] := by
        cases ref <;> rfl
      constructor
      · rintro rfl
        split at hfound
        · cases hfound
        · rename_i offsets hoffsets
          obtain ⟨hlength, gindex, hmem, hgindex⟩ := directlySpentTransferId_some hfound
          obtain ⟨ref, href⟩ := List.length_eq_one_iff.mp hlength
          rw [href, hone] at hoffsets
          cases hoffsets
          cases List.mem_singleton.mp hmem
          obtain ⟨td, htd, hkey⟩ :=
            Option.map_eq_some_iff.mp ((h.amountGindex htracking _ i).mp hgindex)
          exact ⟨td, htd, directReference?_eq_some.mpr ⟨gindex, href, hkey.symm⟩⟩
      · rintro ⟨td, htd, hreference⟩
        obtain ⟨gindex, href, hkey⟩ := directReference?_eq_some.mp hreference
        have hgindex : w.amountGindexToTransferId (input.amount.toNat, gindex.toNat) = some i := by
          rw [h.amountGindex htracking, htd, hkey]
          rfl
        obtain ⟨td', htd', -⟩ := h.getElem?_of_shapes htd
        rw [href, hone] at hfound
        simp only [directlySpentTransferId, hgindex, htd', href] at hfound
        split at hfound
        · rename_i hlength
          exact absurd rfl hlength
        · split at hfound
          · cases hfound
          · exact (Option.some.inj hfound).symm

/-- What holds of the inputs and the transfers of a whole chain. -/
structure SpendsInOrder (tracking : Bool) (received : List IndexedTransfer)
    (inputs : List (Nat × Txin)) : Prop where
  spentLater : ∀ td ∈ received, ∀ p ∈ inputs, td.SpentBy tracking p.2 → td.blockHeight < p.1
  spentOnce : ∀ td ∈ received, ∀ p ∈ inputs, ∀ q ∈ inputs,
    td.SpentBy tracking p.2 → td.SpentBy tracking q.2 → p.1 = q.1
  refundedLater : ∀ td ∈ received, ∀ expiration, td.htlcExpiration? = some expiration →
    ∀ p ∈ inputs, td.SpentBy tracking p.2 → expiration < p.1
  oneAtIndex : tracking = true → (received.map key).Nodup

/-- The wallet in the course of a chain: the blocks below a height are done, and some of the
block at it. -/
structure Truthful (w : IndexedWallet) (tracking : Bool) (received : List IndexedTransfer)
    (seen : List (Nat × Txin)) (next : Nat) (shapes : List IndexedTransfer) : Prop where
  indexed : w.Indexed tracking shapes
  origin : ∀ td ∈ shapes, ∃ td₀ ∈ received, td₀.shape = td
  told : ∀ (i : Nat) (td : IndexedTransfer), w.transfers[i]? = some td →
    td.Told tracking seen next
  active : ∀ k i, w.activeHtlcs k = some i →
    ∃ td expiration, shapes[i]? = some td ∧ td.htlcExpiration? = some expiration ∧ next ≤ expiration
  heights : ∀ p ∈ seen, p.1 ≤ next

/-- What is known of the transfers of a chain is known of those of the wallet. -/
theorem Truthful.received_of (h : w.Truthful tracking received seen next shapes) {i : Nat}
    {td : IndexedTransfer} (hi : w.transfers[i]? = some td) :
    ∃ td₀ ∈ received, td₀.shape = td.shape :=
  h.origin td.shape (List.mem_of_getElem? (h.indexed.getElem?_shapes hi))

theorem Truthful.spendsOnce (h : w.Truthful tracking received seen next shapes)
    {allReceived : List IndexedTransfer} {inputs : List (Nat × Txin)}
    (horder : SpendsInOrder tracking allReceived inputs) (hreceived : received ⊆ allReceived)
    {i : Nat} {td : IndexedTransfer} (hi : w.transfers[i]? = some td) {p q : Nat × Txin}
    (hp : p ∈ inputs) (hq : q ∈ inputs) (hspent : td.SpentBy tracking p.2)
    (hspent' : td.SpentBy tracking q.2) : p.1 = q.1 := by
  obtain ⟨td₀, htd₀, hshape⟩ := h.received_of hi
  exact horder.spentOnce td₀ (hreceived htd₀) p hp q hq
    ((spentBy_iff_of_shape hshape tracking p.2).mpr hspent)
    ((spentBy_iff_of_shape hshape tracking q.2).mpr hspent')

/-! ### Inputs -/

/-- The change of one transfer in place, and of nothing that finds transfers. -/
theorem Indexed.withTransfer (h : w.Indexed tracking shapes) {v : IndexedWallet} {i : Nat}
    {f : IndexedTransfer → IndexedTransfer} (htransfers : v.transfers = w.transfers.modify i f)
    (hf : ∀ td, (f td).shape = td.shape)
    (hwatch : v.watchOnly = w.watchOnly) (haudit : v.auditable = w.auditable)
    (hkey : v.keyImages = w.keyImages)
    (hgindex : v.amountGindexToTransferId = w.amountGindexToTransferId)
    (hhtlcs : v.htlcs = w.htlcs)
    (hactive : ∀ k i, v.activeHtlcs k = some i → w.activeHtlcs k = some i) :
    v.Indexed tracking shapes where
  shapes_eq := htransfers ▸ h.modify hf
  tracking_eq := by rw [hwatch, haudit, h.tracking_eq]
  keyImages := hkey ▸ h.keyImages
  amountGindex := hgindex ▸ h.amountGindex
  htlcs := hhtlcs ▸ h.htlcs
  activeHtlcs k i hk := h.activeHtlcs k i (hactive k i hk)

theorem getElem?_modify_cases {l : List IndexedTransfer} {i j : Nat}
    {f : IndexedTransfer → IndexedTransfer} {td' : IndexedTransfer}
    (h : (l.modify i f)[j]? = some td') :
    ∃ td, l[j]? = some td ∧ (i = j ∧ td' = f td ∨ i ≠ j ∧ td' = td) := by
  rw [List.getElem?_modify] at h
  obtain ⟨td, htd, heq⟩ := Option.map_eq_some_iff.mp h
  refine ⟨td, htd, ?_⟩
  by_cases hij : i = j
  · rw [if_pos hij] at heq
    exact Or.inl ⟨hij, heq.symm⟩
  · rw [if_neg hij] at heq
    exact Or.inr ⟨hij, heq.symm⟩

theorem transfers_spent (tid height : Nat) :
    ((w.modifyTransfer tid (· ||| walletTransferDetailFlagSpent)
      fun _ => height).removeTransferFromExpirationList tid).transfers =
      w.transfers.modify tid (spentAt height) := by
  change (w.transfers.modify tid _).modify tid _ = _
  rw [List.modify_modify_eq]
  rfl

theorem heights_concat (hheights : ∀ p ∈ seen, p.1 ≤ next) (x : Txin) :
    ∀ p ∈ seen ++ [(next, x)], p.1 ≤ next := by
  intro p hp
  rcases List.mem_append.mp hp with hp | hp
  · exact hheights p hp
  · rw [List.mem_singleton.mp hp]

/-- An input that spends no transfer and changes nothing. -/
theorem Truthful.notSpent (h : w.Truthful tracking received seen next shapes) {x : Txin}
    (hx : ∀ (i : Nat) (td : IndexedTransfer), w.transfers[i]? = some td →
      ¬ td.SpentBy tracking x) :
    w.Truthful tracking received (seen ++ [(next, x)]) next shapes where
  indexed := h.indexed
  origin := h.origin
  told i td hi := (h.told i td hi).notSpent (hx i td hi) (Or.inl rfl)
  active := h.active
  heights := heights_concat h.heights x

theorem Truthful.processInput (h : w.Truthful tracking received seen next shapes)
    {allReceived : List IndexedTransfer} {inputs : List (Nat × Txin)}
    (horder : SpendsInOrder tracking allReceived inputs) (hreceived : received ⊆ allReceived)
    {x : Txin} (hinputs : seen ++ [(next, x)] ⊆ inputs)
    (hdone : (IndexedWallet.processInput next w x).2 = true) :
    (IndexedWallet.processInput next w x).1.Truthful tracking received (seen ++ [(next, x)]) next
      shapes := by
  have hmem : (next, x) ∈ inputs :=
    hinputs (List.mem_append_right _ (List.mem_singleton_self _))
  unfold IndexedWallet.processInput at hdone ⊢
  cases x with
  | gen height => exact h.notSpent fun _ _ _ => id
  | multisig input => exact h.notSpent fun _ _ _ => id
  | toKey input =>
      dsimp only at hdone ⊢
      cases hid : w.spentTransferId input with
      | none =>
          rw [hid] at hdone
          cases hdone
      | some found =>
          cases found with
          | none =>
              refine h.notSpent ?_
              intro i td hi hspent
              have hsome := (h.indexed.spentTransferId_iff hid).mpr
                ⟨td.shape, h.indexed.getElem?_shapes hi, hspent⟩
              cases hsome
          | some tid =>
              have htransfers := transfers_spent (w := w) tid next
              refine ⟨?_, h.origin, ?_, h.active, heights_concat h.heights _⟩
              · exact h.indexed.withTransfer htransfers (shape_spentAt · next) rfl rfl rfl rfl rfl
                  fun _ _ => id
              · intro j td' hj
                dsimp only at hj
                rw [htransfers] at hj
                obtain ⟨td, htd, hcase⟩ := getElem?_modify_cases hj
                rcases hcase with ⟨rfl, rfl⟩ | ⟨hne, rfl⟩
                · -- the transfer that was found is the one that the input spends
                  obtain ⟨shape, hshape, hspent⟩ := (h.indexed.spentTransferId_iff hid).mp rfl
                  rw [h.indexed.getElem?_shapes htd] at hshape
                  cases hshape
                  refine (h.told _ td htd).spent (p := (next, .toKey input)) hspent ?_
                  intro q hq hspent'
                  exact h.spendsOnce horder hreceived htd (hinputs (List.mem_append_left _ hq)) hmem
                    hspent' hspent
                · refine (h.told j td' htd).notSpent ?_ (Or.inl rfl)
                  intro hspent
                  have hsome := (h.indexed.spentTransferId_iff hid).mpr
                    ⟨td'.shape, h.indexed.getElem?_shapes htd, hspent⟩
                  exact hne (Option.some.inj hsome)
  | htlc input =>
      dsimp only
      cases hid : input.directReference?.bind w.activeHtlcs with
      | none => exact h.notSpent fun _ _ _ => id
      | some tid =>
          obtain ⟨k, hreference, hactive⟩ := Option.bind_eq_some_iff.mp hid
          obtain ⟨shape, hshape, hkey⟩ := h.indexed.activeHtlcs k tid hactive
          obtain ⟨shape', expiration, hshape', hexpiration, hlater⟩ := h.active k tid hactive
          rw [hshape] at hshape'
          cases hshape'
          refine ⟨?_, h.origin, ?_, h.active, heights_concat h.heights _⟩
          · exact h.indexed.withTransfer rfl (fun _ => rfl) rfl rfl rfl rfl rfl fun _ _ => id
          · intro j td' hj
            obtain ⟨td, htd, hcase⟩ := getElem?_modify_cases hj
            rcases hcase with ⟨rfl, rfl⟩ | ⟨hne, rfl⟩
            · rw [h.indexed.getElem?_shapes htd] at hshape
              cases hshape
              refine (h.told _ td htd).notSpent (p := (next, .htlc input)) id
                (Or.inr ⟨expiration, hexpiration, hlater, ?_⟩)
              exact hreference.trans (congrArg some hkey.symm)
            · exact (h.told j td' htd).notSpent id (Or.inl rfl)

/-! ### Outputs -/

/-- What an output that is not skipped changes. -/
theorem processOutput_eq (tx : Transaction) (txHash : Hash) (height : Nat) {out : OwnOutput}
    (hnew : ¬ (out.keyImage ≠ nullKi ∧ (w.keyImages out.keyImage).isSome)) :
    let td := out.transfer tx height
    let w' := w.processOutput tx txHash height out
    w'.transfers = w.transfers ++ [td] ∧ w'.watchOnly = w.watchOnly ∧
      w'.auditable = w.auditable ∧
      w'.keyImages = (if out.keyImage = nullKi then w.keyImages
        else Function.update w.keyImages out.keyImage (some w.transfers.length)) ∧
      w'.amountGindexToTransferId = (if w.watchOnly && w.auditable then
        Function.update w.amountGindexToTransferId td.key (some w.transfers.length)
        else w.amountGindexToTransferId) ∧
      w'.htlcs = (match td.htlcExpiration? with
        | some expiration =>
            w.htlcs ++ [(expiration, ⟨out.isWalletOwnsRedeem, w.transfers.length⟩)]
        | none => w.htlcs) ∧
      w'.activeHtlcs = (match td.htlcExpiration? with
        | some _ => Function.update w.activeHtlcs td.key (some w.transfers.length)
        | none => w.activeHtlcs) := by
  dsimp only
  unfold IndexedWallet.processOutput
  rw [if_neg hnew]
  generalize out.transfer tx height = td
  unfold recordAmountGindex recordKeyImage recordHtlc
  cases hexpiration : td.htlcExpiration? <;> by_cases hnull : out.keyImage = nullKi <;>
    by_cases hwatch : (w.watchOnly && w.auditable) = true <;>
    simp only [hexpiration, hnull, hwatch, key, if_true, if_false, Bool.false_eq_true, and_self]

theorem getElem?_concat_eq_some {α : Type} {l : List α} {a b : α} {i : Nat} :
    (l ++ [a])[i]? = some b ↔ l[i]? = some b ∨ i = l.length ∧ a = b := by
  rcases Nat.lt_trichotomy i l.length with hlt | rfl | hlt
  · rw [List.getElem?_append_left hlt]
    constructor
    · exact Or.inl
    · rintro (h | ⟨heq, _⟩)
      · exact h
      · omega
  · rw [List.getElem?_concat_length, List.getElem?_eq_none le_rfl]
    simp
  · rw [List.getElem?_eq_none (by rw [List.length_append]; exact hlt), List.getElem?_eq_none hlt.le]
    simp only [reduceCtorEq, false_or, false_iff]
    omega

theorem map_concat_eq_some {l : List IndexedTransfer} {a : IndexedTransfer} {i : Nat} {β : Type}
    {f : IndexedTransfer → β} {b : β} :
    ((l ++ [a])[i]?).map f = some b ↔ (l[i]?).map f = some b ∨ i = l.length ∧ f a = b := by
  rw [← List.getElem?_map, ← List.getElem?_map, List.map_append, List.map_singleton,
    getElem?_concat_eq_some, List.length_map]

/-- A transfer is found by what is new of it. -/
theorem update_eq_some_iff {α : Type} [DecidableEq α] {m : α → Option Nat} {k₀ : α} {n : Nat}
    {P : α → Nat → Prop} (hm : ∀ k i, m k = some i ↔ P k i) (hnew : ∀ i, ¬ P k₀ i) (k : α) (i : Nat) :
    Function.update m k₀ (some n) k = some i ↔ P k i ∨ i = n ∧ k₀ = k := by
  rw [Function.update_apply]
  split
  case isTrue heq =>
    subst heq
    constructor
    · intro h
      exact Or.inr ⟨(Option.some.inj h).symm, rfl⟩
    · rintro (h | ⟨rfl, _⟩)
      · exact absurd h (hnew i)
      · rfl
  case isFalse hne =>
    rw [hm]
    constructor
    · exact Or.inl
    · rintro (h | ⟨_, heq⟩)
      · exact h
      · exact absurd heq.symm hne

/-- The containers find the new transfer too. -/
theorem Truthful.processOutput_indexed (h : w.Truthful tracking received seen next shapes)
    {allReceived : List IndexedTransfer} {inputs : List (Nat × Txin)}
    (horder : SpendsInOrder tracking allReceived inputs) {tx : Transaction} {out : OwnOutput}
    (hreceived : received ++ [out.transfer tx next] <+: allReceived) (txHash : Hash)
    (hnew : ¬ (out.keyImage ≠ nullKi ∧ (w.keyImages out.keyImage).isSome)) :
    (w.processOutput tx txHash next out).Indexed tracking
      (shapes ++ [(out.transfer tx next).shape]) := by
  obtain ⟨htransfers, hwatch, haudit, hkey, hgindex, hhtlcs, hactive⟩ :=
    processOutput_eq (w := w) tx txHash next hnew
  have hindexed := h.indexed
  have hlength : w.transfers.length = shapes.length := by
    rw [← hindexed.shapes_eq, List.length_map]
  have hredeem := (flags_transfer out tx next).2.2
  have hkeyImage : (out.transfer tx next).keyImage = out.keyImage := rfl
  generalize out.transfer tx next = td at *
  exact {
    shapes_eq := by rw [htransfers, List.map_append, hindexed.shapes_eq, List.map_singleton]
    tracking_eq := by rw [hwatch, haudit, hindexed.tracking_eq]
    keyImages := by
      intro k i
      have hshape : td.shape.keyImage = out.keyImage := hkeyImage
      rw [hkey, map_concat_eq_some, hshape]
      -- without a key image nothing is listed; otherwise the new index is the only one
      by_cases hnull : out.keyImage = nullKi
      · rw [if_pos hnull, hindexed.keyImages, hnull]
        constructor
        · rintro ⟨hk, hi⟩
          exact ⟨hk, Or.inl hi⟩
        · rintro ⟨hk, hi | ⟨_, rfl⟩⟩
          · exact ⟨hk, hi⟩
          · exact absurd rfl hk
      · rw [if_neg hnull, update_eq_some_iff hindexed.keyImages, hlength]
        · constructor
          · rintro (⟨hk, hi⟩ | ⟨hi, rfl⟩)
            · exact ⟨hk, Or.inl hi⟩
            · exact ⟨hnull, Or.inr ⟨hi, rfl⟩⟩
          · rintro ⟨hk, hi | hi⟩
            · exact Or.inl ⟨hk, hi⟩
            · exact Or.inr hi
        · intro j hj
          refine hnew ⟨hnull, ?_⟩
          rw [(hindexed.keyImages _ j).mpr hj]
          rfl
    amountGindex := by
      intro htracking k i
      have hwatching : (w.watchOnly && w.auditable) = true := by
        rw [Bool.and_comm, hindexed.tracking_eq, htracking]
      -- no two outputs of a tracked chain share amount and global index
      have hunique : ∀ j : Nat, (shapes[j]?).map key ≠ some td.key := by
        intro j hj
        obtain ⟨shape, hshape, heq⟩ := Option.map_eq_some_iff.mp hj
        obtain ⟨td₀, htd₀, hshape₀⟩ := h.origin shape (List.mem_of_getElem? hshape)
        have hnodup := (horder.oneAtIndex htracking).sublist (hreceived.sublist.map key)
        rw [List.map_append, List.map_singleton] at hnodup
        have hkey₀ : td₀.key = td.key := by
          rw [← heq, ← hshape₀]
          rfl
        exact (List.nodup_append.mp hnodup).2.2 td₀.key (List.mem_map_of_mem htd₀) td.key
          (List.mem_singleton_self _) hkey₀
      rw [hgindex, if_pos hwatching, map_concat_eq_some,
        update_eq_some_iff (hindexed.amountGindex htracking) hunique, hlength]
      rfl
    htlcs := by
      intro e
      rw [hhtlcs]
      simp only [getElem?_concat_eq_some]
      cases hexpiration : td.htlcExpiration? with
      | none =>
          rw [hindexed.htlcs]
          constructor
          · rintro ⟨td', htd', hrest⟩
            exact ⟨td', Or.inl htd', hrest⟩
          · rintro ⟨td', htd' | ⟨_, rfl⟩, hrest⟩
            · exact ⟨td', htd', hrest⟩
            · have hsome : td.htlcExpiration? = some e.1 := hrest.1
              rw [hexpiration] at hsome
              cases hsome
      | some expiration =>
          have hside : td.isRedeem = out.isWalletOwnsRedeem :=
            hredeem (by rw [hexpiration]; exact Option.some_ne_none _)
          rw [List.mem_append, List.mem_singleton, hindexed.htlcs]
          constructor
          · rintro (⟨td', htd', hrest⟩ | rfl)
            · exact ⟨td', Or.inl htd', hrest⟩
            · exact ⟨td.shape, Or.inr ⟨hlength, rfl⟩, hexpiration,
                (isRedeem_eq_of_shape (shape_shape td)).trans hside⟩
          · rintro ⟨td', htd' | ⟨hi, rfl⟩, hsome, hside'⟩
            · exact Or.inl ⟨td', htd', hsome, hside'⟩
            · refine Or.inr ?_
              have hsome' : td.htlcExpiration? = some e.1 := hsome
              rw [hexpiration] at hsome'
              rw [isRedeem_eq_of_shape (shape_shape td), hside] at hside'
              obtain ⟨height, owns, i⟩ := e
              cases hsome'
              cases hside'
              rw [hlength, ← hi]
    activeHtlcs := by
      intro k i hk
      rw [hactive] at hk
      -- an old entry points to a transfer of the longer list too
      have hold : ∀ {k : Nat × Nat} {i : Nat}, w.activeHtlcs k = some i →
          ∃ td', (shapes ++ [td.shape])[i]? = some td' ∧ td'.key = k := by
        intro k i hk
        obtain ⟨td', htd', hkey⟩ := hindexed.activeHtlcs k i hk
        exact ⟨td', getElem?_concat_eq_some.mpr (Or.inl htd'), hkey⟩
      cases hexpiration : td.htlcExpiration? with
      | none =>
          rw [hexpiration] at hk
          exact hold hk
      | some expiration =>
          rw [hexpiration] at hk
          dsimp only at hk
          rw [Function.update_apply] at hk
          split at hk
          case isTrue heq =>
            cases hk
            exact ⟨td.shape, getElem?_concat_eq_some.mpr (Or.inr ⟨hlength, rfl⟩), heq.symm⟩
          case isFalse => exact hold hk }

theorem Truthful.processOutput (h : w.Truthful tracking received seen next shapes)
    {allReceived : List IndexedTransfer} {inputs : List (Nat × Txin)}
    (horder : SpendsInOrder tracking allReceived inputs) {tx : Transaction} {out : OwnOutput}
    (hreceived : received ++ [out.transfer tx next] <+: allReceived) (hinputs : seen ⊆ inputs)
    (txHash : Hash) : ∃ shapes', (w.processOutput tx txHash next out).Truthful tracking
      (received ++ [out.transfer tx next]) seen next shapes' := by
  have horigin : ∀ td ∈ shapes, ∃ td₀ ∈ received ++ [out.transfer tx next], td₀.shape = td := by
    intro td htd
    obtain ⟨td₀, htd₀, hshape⟩ := h.origin td htd
    exact ⟨td₀, List.mem_append_left _ htd₀, hshape⟩
  by_cases hskip : out.keyImage ≠ nullKi ∧ (w.keyImages out.keyImage).isSome
  · refine ⟨shapes, ?_⟩
    unfold IndexedWallet.processOutput
    rw [if_pos hskip]
    exact { h with origin := horigin }
  · refine ⟨shapes ++ [(out.transfer tx next).shape], ?_⟩
    have hnot : ∀ p ∈ seen, ¬ (out.transfer tx next).SpentBy tracking p.2 := by
      intro p hp hspent
      have hlater := horder.spentLater _
        (hreceived.subset (List.mem_append_right _ (List.mem_singleton_self _))) p (hinputs hp) hspent
      exact Nat.not_le_of_lt hlater (h.heights p hp)
    obtain ⟨htransfers, _, _, _, _, _, hactive⟩ := processOutput_eq (w := w) tx txHash next hskip
    exact {
      indexed := h.processOutput_indexed horder hreceived txHash hskip
      origin := by
        intro td htd
        rcases List.mem_append.mp htd with htd | htd
        · exact horigin td htd
        · exact ⟨_, List.mem_append_right _ (List.mem_singleton_self _),
            (List.mem_singleton.mp htd).symm⟩
      told := by
        intro i td hi
        rw [htransfers] at hi
        rcases getElem?_concat_eq_some.mp hi with hi | ⟨_, rfl⟩
        · exact h.told i td hi
        · exact told_transfer out tx hnot
      active := by
        have hold : ∀ k i, w.activeHtlcs k = some i → ∃ td expiration,
            (shapes ++ [(out.transfer tx next).shape])[i]? = some td ∧
              td.htlcExpiration? = some expiration ∧ next ≤ expiration := by
          intro k i hk
          obtain ⟨td, expiration, htd, hrest⟩ := h.active k i hk
          exact ⟨td, expiration, getElem?_concat_eq_some.mpr (Or.inl htd), hrest⟩
        intro k i hk
        rw [hactive] at hk
        cases hexpiration : (out.transfer tx next).htlcExpiration? with
        | none =>
            rw [hexpiration] at hk
            exact hold k i hk
        | some expiration =>
            rw [hexpiration] at hk
            dsimp only at hk
            rw [Function.update_apply] at hk
            split at hk
            · cases hk
              refine ⟨_, expiration, getElem?_concat_eq_some.mpr (Or.inr ⟨?_, rfl⟩), hexpiration,
                le_expiration hexpiration⟩
              rw [← h.indexed.shapes_eq, List.length_map]
            · exact hold k i hk
      heights := h.heights }

/-- Nothing of this is in the other fields. -/
theorem Truthful.of_eq (h : w.Truthful tracking received seen next shapes) {v : IndexedWallet}
    (htransfers : v.transfers = w.transfers) (hwatch : v.watchOnly = w.watchOnly)
    (haudit : v.auditable = w.auditable) (hkey : v.keyImages = w.keyImages)
    (hgindex : v.amountGindexToTransferId = w.amountGindexToTransferId)
    (hhtlcs : v.htlcs = w.htlcs) (hactive : v.activeHtlcs = w.activeHtlcs) :
    v.Truthful tracking received seen next shapes where
  indexed := {
    shapes_eq := htransfers ▸ h.indexed.shapes_eq
    tracking_eq := by rw [hwatch, haudit, h.indexed.tracking_eq]
    keyImages := hkey ▸ h.indexed.keyImages
    amountGindex := hgindex ▸ h.indexed.amountGindex
    htlcs := hhtlcs ▸ h.indexed.htlcs
    activeHtlcs := hactive ▸ h.indexed.activeHtlcs }
  origin := h.origin
  told := htransfers ▸ h.told
  active := hactive ▸ h.active
  heights := h.heights

theorem Truthful.processInputs (h : w.Truthful tracking received seen next shapes)
    {allReceived : List IndexedTransfer} {inputs : List (Nat × Txin)}
    (horder : SpendsInOrder tracking allReceived inputs) (hreceived : received ⊆ allReceived)
    {vin : List Txin} (hinputs : seen ++ vin.map (next, ·) ⊆ inputs)
    (hdone : (goThrough (IndexedWallet.processInput next) vin w).2 = []) :
    (goThrough (IndexedWallet.processInput next) vin w).1.Truthful tracking received
      (seen ++ vin.map (next, ·)) next shapes := by
  induction vin generalizing w seen with
  | nil =>
      rw [List.map_nil, List.append_nil]
      exact h
  | cons x vin ih =>
      obtain ⟨hfirst, hrest⟩ := goThrough_cons hdone
      rw [hrest] at hdone ⊢
      rw [List.map_cons, List.append_cons] at hinputs ⊢
      have hstep := h.processInput horder hreceived
        (fun p hp => hinputs (List.mem_append_left _ hp)) hfirst
      exact ih hstep hinputs hdone

theorem Truthful.processOutputs (h : w.Truthful tracking received seen next shapes)
    {allReceived : List IndexedTransfer} {inputs : List (Nat × Txin)}
    (horder : SpendsInOrder tracking allReceived inputs) (hinputs : seen ⊆ inputs)
    (tx : Transaction) (txHash : Hash) {outs : List OwnOutput}
    (hreceived : received ++ outs.map (fun out => out.transfer tx next) <+: allReceived) :
    ∃ shapes', (outs.foldl (fun w out => w.processOutput tx txHash next out) w).Truthful tracking
      (received ++ outs.map fun out => out.transfer tx next) seen next shapes' := by
  induction outs generalizing w received shapes with
  | nil =>
      rw [List.map_nil, List.append_nil]
      exact ⟨shapes, h⟩
  | cons out outs ih =>
      rw [List.map_cons, List.append_cons] at hreceived ⊢
      obtain ⟨shapes', hstep⟩ := h.processOutput horder
        ((List.prefix_append _ _).trans hreceived) hinputs txHash
      exact ih hstep hreceived

theorem Truthful.processNewTransaction (h : w.Truthful tracking received seen next shapes)
    {allReceived : List IndexedTransfer} {inputs : List (Nat × Txin)}
    (horder : SpendsInOrder tracking allReceived inputs) (t : WalletTransaction) (txHash : Hash)
    (hreceived : received ++ t.received next <+: allReceived)
    (hinputs : seen ++ t.inputs next ⊆ inputs)
    (hdone : (w.processNewTransaction t.tx txHash next t.outs).2 = true) :
    ∃ shapes', (w.processNewTransaction t.tx txHash next t.outs).1.Truthful tracking
      (received ++ t.received next) (seen ++ t.inputs next) next shapes' := by
  have hunconfirmed : ({ w with unconfirmedTxs := Function.update w.unconfirmedTxs txHash none } :
      IndexedWallet).Truthful tracking received seen next shapes :=
    h.of_eq rfl rfl rfl rfl rfl rfl rfl
  have hspent := hunconfirmed.processInputs horder
    (fun td htd => hreceived.subset (List.mem_append_left _ htd)) hinputs
  change (w.processInputs t.tx txHash next).2 = [] →
    (w.processInputs t.tx txHash next).1.Truthful tracking received _ next shapes at hspent
  unfold IndexedWallet.processNewTransaction at hdone ⊢
  split at hdone
  · rename_i heq
    rw [heq] at hspent
    exact (hspent rfl).processOutputs horder hinputs t.tx txHash hreceived
  · cases hdone

theorem Truthful.processTransactions (h : w.Truthful tracking received seen next shapes)
    {allReceived : List IndexedTransfer} {inputs : List (Nat × Txin)}
    (horder : SpendsInOrder tracking allReceived inputs) (hash : Transaction → Hash)
    {transactions : List WalletTransaction}
    (hreceived : received ++ transactions.flatMap (WalletTransaction.received next) <+: allReceived)
    (hinputs : seen ++ transactions.flatMap (WalletTransaction.inputs next) ⊆ inputs)
    (hdone : (goThrough (fun w t => w.processNewTransaction t.tx (hash t.tx) next t.outs)
      transactions w).2 = []) :
    ∃ shapes', (goThrough (fun w t => w.processNewTransaction t.tx (hash t.tx) next t.outs)
        transactions w).1.Truthful tracking
      (received ++ transactions.flatMap (WalletTransaction.received next))
      (seen ++ transactions.flatMap (WalletTransaction.inputs next)) next shapes' := by
  induction transactions generalizing w received seen shapes with
  | nil =>
      rw [List.flatMap_nil, List.flatMap_nil, List.append_nil, List.append_nil]
      exact ⟨shapes, h⟩
  | cons t transactions ih =>
      obtain ⟨hfirst, hrest⟩ := goThrough_cons hdone
      rw [hrest] at hdone ⊢
      rw [List.flatMap_cons, ← List.append_assoc] at hreceived hinputs ⊢
      rw [List.flatMap_cons, ← List.append_assoc]
      obtain ⟨shapes', hstep⟩ := h.processNewTransaction horder t (hash t.tx)
        ((List.prefix_append _ _).trans hreceived)
        (fun p hp => hinputs (List.mem_append_left _ hp)) hfirst
      exact ih hstep hreceived hinputs hdone

/-! ### Expirations -/

/-- What an entry of `process_htlc_triggers_on_block_added` changes. -/
theorem deactivateHtlc_eq (w : IndexedWallet) (hash : Transaction → Hash) (height : Nat)
    (trigger : HtlcExpirationTrigger) :
    let w' := deactivateHtlc hash height w trigger
    w'.transfers =
        w.transfers.modify trigger.transferIndex (expiredAt height trigger.isWalletOwnsRedeem) ∧
      w'.watchOnly = w.watchOnly ∧ w'.auditable = w.auditable ∧ w'.keyImages = w.keyImages ∧
      w'.amountGindexToTransferId = w.amountGindexToTransferId ∧ w'.htlcs = w.htlcs ∧
      ∀ k i, w'.activeHtlcs k = some i → w.activeHtlcs k = some i := by
  have hexpired : (w.expireHtlcTransfer height trigger).transfers =
        w.transfers.modify trigger.transferIndex (expiredAt height trigger.isWalletOwnsRedeem) ∧
      (w.expireHtlcTransfer height trigger).watchOnly = w.watchOnly ∧
      (w.expireHtlcTransfer height trigger).auditable = w.auditable ∧
      (w.expireHtlcTransfer height trigger).keyImages = w.keyImages ∧
      (w.expireHtlcTransfer height trigger).amountGindexToTransferId = w.amountGindexToTransferId ∧
      (w.expireHtlcTransfer height trigger).htlcs = w.htlcs ∧
      (w.expireHtlcTransfer height trigger).activeHtlcs = w.activeHtlcs := by
    unfold expireHtlcTransfer
    cases trigger.isWalletOwnsRedeem <;> exact ⟨rfl, rfl, rfl, rfl, rfl, rfl, rfl⟩
  obtain ⟨htransfers, hwatch, haudit, hkey, hgindex, hhtlcs, hactive⟩ := hexpired
  have hsub : ∀ k i, (w.expireHtlcTransfer height trigger).activeHtlcs k = some i →
      w.activeHtlcs k = some i := fun k i hk => hactive ▸ hk
  unfold deactivateHtlc
  generalize w.expireHtlcTransfer height trigger = v at *
  dsimp only
  split
  case h_1 => exact ⟨htransfers, hwatch, haudit, hkey, hgindex, hhtlcs, hsub⟩
  case h_2 =>
    split
    case isTrue =>
      refine ⟨htransfers, hwatch, haudit, hkey, hgindex, hhtlcs, ?_⟩
      intro k' i hk
      dsimp only at hk
      rw [Function.update_apply] at hk
      split at hk
      · cases hk
      · exact hsub k' i hk
    case isFalse => exact ⟨htransfers, hwatch, haudit, hkey, hgindex, hhtlcs, hsub⟩

theorem Indexed.deactivateHtlc (h : w.Indexed tracking shapes) (hash : Transaction → Hash)
    (height : Nat) (trigger : HtlcExpirationTrigger) :
    (deactivateHtlc hash height w trigger).Indexed tracking shapes := by
  obtain ⟨htransfers, hwatch, haudit, hkey, hgindex, hhtlcs, hactive⟩ :=
    deactivateHtlc_eq w hash height trigger
  exact h.withTransfer htransfers (shape_expiredAt · height trigger.isWalletOwnsRedeem) hwatch
    haudit hkey hgindex hhtlcs hactive

theorem expiredAt_expiredAt (height : Nat) (redeem : Bool) (td : IndexedTransfer) :
    (td.expiredAt height redeem).expiredAt height redeem = td.expiredAt height redeem := by
  unfold expiredAt
  cases redeem with
  | true =>
      simp only [if_true]
      rw [BitVec.or_assoc, BitVec.or_self]
  | false =>
      simp only [Bool.false_eq_true, if_false]
      rw [BitVec.and_assoc, BitVec.and_self]

/-- A trigger takes the HTLC of its transfer out of the active ones. -/
theorem deactivateHtlc_active (w : IndexedWallet) (hash : Transaction → Hash) (height : Nat)
    (trigger : HtlcExpirationTrigger) {td : IndexedTransfer}
    (htd : w.transfers[trigger.transferIndex]? = some td) :
    (deactivateHtlc hash height w trigger).activeHtlcs td.key = none := by
  have hkey : ∃ tx, (w.expireHtlcTransfer height trigger).activeKey trigger.transferIndex =
      some (td.key, tx) := by
    have htransfers : (w.expireHtlcTransfer height trigger).transfers =
        w.transfers.modify trigger.transferIndex (expiredAt height trigger.isWalletOwnsRedeem) := by
      unfold expireHtlcTransfer
      cases trigger.isWalletOwnsRedeem <;> rfl
    unfold activeKey
    rw [htransfers, List.getElem?_modify, htd]
    cases trigger.isWalletOwnsRedeem <;> simp [expiredAt, key, TransferDetails.amount,
      TransferDetails.output?]
  obtain ⟨tx, hkey⟩ := hkey
  unfold deactivateHtlc
  dsimp only
  rw [hkey]
  dsimp only
  split
  · exact Function.update_self _ _ _
  · rename_i hnone
    exact Option.not_isSome_iff_eq_none.mp hnone

/-- The transfers after the triggers: each that has one has expired, once, and is not active. -/
theorem transfers_foldl_deactivateHtlc (h : w.Indexed tracking shapes) (hash : Transaction → Hash)
    (height : Nat) {triggers : List HtlcExpirationTrigger}
    (hside : ∀ trigger ∈ triggers, ∀ td, shapes[trigger.transferIndex]? = some td →
      td.isRedeem = trigger.isWalletOwnsRedeem) :
    (triggers.foldl (deactivateHtlc hash height) w).Indexed tracking shapes ∧
      (∀ k i, (triggers.foldl (deactivateHtlc hash height) w).activeHtlcs k = some i →
        w.activeHtlcs k = some i ∧ ∀ trigger ∈ triggers, trigger.transferIndex ≠ i) ∧
      ∀ (i : Nat) (td' : IndexedTransfer),
        (triggers.foldl (deactivateHtlc hash height) w).transfers[i]? = some td' →
        ∃ td, w.transfers[i]? = some td ∧
          ((∃ trigger ∈ triggers, trigger.transferIndex = i) ∧
              td' = td.expiredAt height td.isRedeem ∨
            (∀ trigger ∈ triggers, trigger.transferIndex ≠ i) ∧ td' = td) := by
  induction triggers generalizing w with
  | nil =>
      refine ⟨h, fun _ _ hk => ⟨hk, List.forall_mem_nil _⟩, ?_⟩
      intro i td' hi
      exact ⟨td', hi, Or.inr ⟨List.forall_mem_nil _, rfl⟩⟩
  | cons trigger triggers ih =>
      obtain ⟨hhead, htail⟩ := List.forall_mem_cons.mp hside
      have hfirst := h.deactivateHtlc hash height trigger
      obtain ⟨hindexed, hactive, hrest⟩ := ih hfirst htail
      refine ⟨hindexed, ?_, ?_⟩
      · intro k i hk
        obtain ⟨hbefore, hothers⟩ := hactive k i hk
        refine ⟨(deactivateHtlc_eq w hash height trigger).2.2.2.2.2.2 k i hbefore,
          List.forall_mem_cons.mpr ⟨?_, hothers⟩⟩
        rintro rfl
        -- the entry is under the key of its transfer, and was taken out
        obtain ⟨shape, hshape, hkey⟩ := hfirst.activeHtlcs k _ hbefore
        obtain ⟨td, htd, hsame⟩ := h.getElem?_of_shapes hshape
        have hnone := deactivateHtlc_active w hash height trigger htd
        have hkey' : td.key = k := by
          rw [← hkey, ← hsame]
          rfl
        rw [hkey', hbefore] at hnone
        cases hnone
      intro i td' hi
      obtain ⟨td₁, htd₁, hcase⟩ := hrest i td' hi
      rw [(deactivateHtlc_eq w hash height trigger).1] at htd₁
      obtain ⟨td, htd, hmodified⟩ := getElem?_modify_cases htd₁
      refine ⟨td, htd, ?_⟩
      rcases hmodified with ⟨rfl, rfl⟩ | ⟨hne, rfl⟩
      · have hredeem : td.isRedeem = trigger.isWalletOwnsRedeem :=
          (isRedeem_eq_of_shape (shape_shape td)).symm.trans (hhead _ (h.getElem?_shapes htd))
        refine Or.inl ⟨⟨trigger, List.mem_cons_self, rfl⟩, ?_⟩
        rcases hcase with ⟨_, rfl⟩ | ⟨_, rfl⟩
        · rw [isRedeem_eq_of_shape (shape_expiredAt td height trigger.isWalletOwnsRedeem), hredeem,
            expiredAt_expiredAt]
        · rw [hredeem]
      · rcases hcase with ⟨⟨t, ht, hti⟩, heq⟩ | ⟨hnone, heq⟩
        · exact Or.inl ⟨⟨t, List.mem_cons_of_mem _ ht, hti⟩, heq⟩
        · exact Or.inr ⟨List.forall_mem_cons.mpr ⟨hne, hnone⟩, heq⟩

/-- The end of a block: the HTLCs of its height expire. -/
theorem Truthful.blockAdded (h : w.Truthful tracking received seen next shapes)
    {allReceived : List IndexedTransfer} {inputs : List (Nat × Txin)}
    (horder : SpendsInOrder tracking allReceived inputs) (hreceived : received ⊆ allReceived)
    (hinputs : seen ⊆ inputs) (hash : Transaction → Hash) :
    (processHtlcTriggersOnBlockAdded hash w next).Truthful tracking received seen (next + 1)
      shapes := by
  have hmem : ∀ trigger, trigger ∈ w.expiringHtlcs next ↔
      ∃ td, shapes[trigger.transferIndex]? = some td ∧ td.htlcExpiration? = some next ∧
        td.isRedeem = trigger.isWalletOwnsRedeem := by
    intro trigger
    unfold expiringHtlcs
    rw [List.mem_map]
    constructor
    · rintro ⟨e, he, rfl⟩
      obtain ⟨hentry, hheight⟩ := List.mem_filter.mp he
      obtain ⟨td, htd, hexpiration, hside⟩ := (h.indexed.htlcs e).mp hentry
      exact ⟨td, htd, (of_decide_eq_true hheight) ▸ hexpiration, hside⟩
    · intro hentry
      exact ⟨(next, trigger), List.mem_filter.mpr ⟨(h.indexed.htlcs (next, trigger)).mpr hentry,
        decide_eq_true rfl⟩, rfl⟩
  have hside : ∀ trigger ∈ w.expiringHtlcs next, ∀ td, shapes[trigger.transferIndex]? = some td →
      td.isRedeem = trigger.isWalletOwnsRedeem := by
    intro trigger htrigger td htd
    obtain ⟨td', htd', _, hredeem⟩ := (hmem trigger).mp htrigger
    rw [htd'] at htd
    exact Option.some.inj htd ▸ hredeem
  obtain ⟨hindexed, hactive, hexpired⟩ := transfers_foldl_deactivateHtlc h.indexed hash next hside
  refine ⟨hindexed, h.origin, ?_, ?_, fun p hp => Nat.le_succ_of_le (h.heights p hp)⟩
  · intro i td' hi
    obtain ⟨td, htd, hcase⟩ := hexpired i td' hi
    have hshape := h.indexed.getElem?_shapes htd
    rcases hcase with ⟨⟨trigger, htrigger, rfl⟩, rfl⟩ | ⟨hnone, rfl⟩
    · obtain ⟨shape, hshape', hexpiration, _⟩ := (hmem trigger).mp htrigger
      rw [hshape] at hshape'
      cases hshape'
      refine (h.told _ td htd).expired hexpiration ?_
      -- an input that spends the HTLC comes after its expiration
      intro p hp hspent
      obtain ⟨td₀, htd₀, hshape₀⟩ := h.received_of htd
      have hexpiration₀ : td₀.htlcExpiration? = some next :=
        (htlcExpiration?_eq_of_shape hshape₀).trans hexpiration
      have hlater := horder.refundedLater td₀ (hreceived htd₀) next hexpiration₀ p (hinputs hp)
        ((spentBy_iff_of_shape hshape₀ tracking p.2).mpr hspent)
      exact Nat.not_le_of_lt hlater (h.heights p hp)
    · refine (h.told i td' htd).later ?_
      intro hexpiration
      refine hnone ⟨td'.isRedeem, i⟩ ((hmem _).mpr ⟨td'.shape, hshape, hexpiration, ?_⟩) rfl
      exact isRedeem_eq_of_shape (shape_shape td')
  · intro k i hk
    obtain ⟨hbefore, hothers⟩ := hactive k i hk
    obtain ⟨td, expiration, htd, hexpiration, hle⟩ := h.active k i hbefore
    refine ⟨td, expiration, htd, hexpiration, Nat.succ_le_of_lt (lt_of_le_of_ne hle ?_)⟩
    rintro rfl
    exact hothers ⟨td.isRedeem, i⟩ ((hmem _).mpr ⟨td, htd, hexpiration, rfl⟩) rfl

/-! ### Blocks and chains -/

theorem Truthful.processNewBlockchainEntry {b : WalletBlock}
    (h : w.Truthful tracking received seen b.height shapes)
    {allReceived : List IndexedTransfer} {inputs : List (Nat × Txin)}
    (horder : SpendsInOrder tracking allReceived inputs) (hash : Transaction → Hash)
    (hreceived : received ++ b.received <+: allReceived) (hinputs : seen ++ b.inputs ⊆ inputs)
    (hdone : (processNewBlockchainEntry hash w b).2 = true) :
    ∃ shapes', (processNewBlockchainEntry hash w b).1.Truthful tracking (received ++ b.received)
      (seen ++ b.inputs) (b.height + 1) shapes' := by
  have htransactions := h.processTransactions horder hash hreceived hinputs
  unfold IndexedWallet.processNewBlockchainEntry at hdone ⊢
  split at hdone
  · rename_i v heq
    rw [heq] at htransactions
    obtain ⟨shapes', htransactions⟩ := htransactions rfl
    have hsize := htransactions.of_eq (v := { v with blockchainCurrentSize := b.height + 1 })
      rfl rfl rfl rfl rfl rfl rfl
    exact ⟨shapes', hsize.blockAdded horder hreceived.subset hinputs hash⟩
  · cases hdone

section

variable {allReceived : List IndexedTransfer} {inputs : List (Nat × Txin)}

/-- A transfer that the next input spends has no spent height. -/
theorem Truthful.unspent (h : w.Truthful true received seen next shapes)
    (horder : SpendsInOrder true allReceived inputs) (htrack : Trackable allReceived inputs)
    (hreceived : received ⊆ allReceived) {x : Txin} (hinputs : seen ++ [(next, x)] <+: inputs)
    {i : Nat} {td : IndexedTransfer} (hi : w.transfers[i]? = some td) (hspent : td.SpentBy true x) :
    td.spentHeight = 0 := by
  have hmem : (next, x) ∈ inputs :=
    hinputs.subset (List.mem_append_right _ (List.mem_singleton_self _))
  obtain ⟨td₀, htd₀, hshape⟩ := h.received_of hi
  have hspends (y : Txin) := spentBy_iff_of_shape hshape true y
  refine (h.told i td hi).unspent ?_ ?_
  · intro expiration hexpiration
    constructor
    · rw [← isRedeem_eq_of_shape hshape, ← Bool.not_eq_true]
      intro hredeem
      exact htrack.refund td₀ (hreceived htd₀) hredeem _ hmem ((hspends x).mpr hspent)
    · exact horder.refundedLater td₀ (hreceived htd₀) expiration
        ((htlcExpiration?_eq_of_shape hshape).trans hexpiration) _ hmem ((hspends x).mpr hspent)
  · intro p hp hbefore
    have honce := htrack.once.sublist hinputs.sublist
    exact (List.pairwise_append.mp honce).2.2 p hp _ (List.mem_singleton_self _) td₀
      (hreceived htd₀) ((hspends p.2).mpr hbefore) ((hspends x).mpr hspent)

/-- An input with several references spends no transfer of a tracking wallet. -/
theorem Truthful.found_several (h : w.Truthful true received seen next shapes)
    (hreceived : received ⊆ allReceived) {input : TxinToKey} (hone : input.keyOffsets.length ≠ 1)
    {offsets : List TxoutRef}
    (hmixed : ∀ gindex, .globalIndex gindex ∈ offsets → ∀ td ∈ allReceived,
      td.key = (input.amount.toNat, gindex.toNat) → ∀ out,
        td.output?.map TxOut.target = some (.toKey out) →
          out.mixAttr ≠ currencyToKeyOutForcedNoMix) :
    w.directlySpentTransferId input offsets = some none := by
  induction offsets with
  | nil => rfl
  | cons ref offsets ih =>
      have hrest := ih fun gindex hgindex => hmixed gindex (List.mem_cons_of_mem _ hgindex)
      cases ref with
      | refById txId n => exact hrest
      | globalIndex gindex =>
          rw [directlySpentTransferId]
          split
          · exact hrest
          · rename_i tid hgindex
            obtain ⟨shape, hshape, hkey⟩ :=
              Option.map_eq_some_iff.mp ((h.indexed.amountGindex rfl _ tid).mp hgindex)
            obtain ⟨td, htd, rfl⟩ := h.indexed.getElem?_of_shapes hshape
            obtain ⟨td₀, htd₀, hshape₀⟩ := h.received_of htd
            rw [htd]
            dsimp only
            rw [if_pos hone]
            split
            · rename_i out hout
              have hmix : out.mixAttr ≠ currencyToKeyOutForcedNoMix :=
                hmixed gindex List.mem_cons_self td₀ (hreceived htd₀)
                  ((congrArg key hshape₀ : td₀.shape.key = td.shape.key).trans hkey) out
                  ((congrArg (fun td : IndexedTransfer => td.output?.map TxOut.target) hshape₀ :
                    td₀.shape.output?.map TxOut.target = td.shape.output?.map TxOut.target).trans
                    hout)
              rw [if_neg hmix]
              exact hrest
            · exact hrest

/-- The search for the transfer of an input ends without an exception. -/
theorem Truthful.found (h : w.Truthful tracking received seen next shapes)
    (horder : SpendsInOrder tracking allReceived inputs)
    (htrack : tracking = true → Trackable allReceived inputs) (hreceived : received ⊆ allReceived)
    {input : TxinToKey} (hinputs : seen ++ [(next, .toKey input)] <+: inputs) :
    ∃ found, w.spentTransferId input = some found := by
  unfold spentTransferId
  rw [h.indexed.tracking_eq]
  cases tracking with
  | false => exact ⟨_, if_neg Bool.false_ne_true⟩
  | true =>
      have htrack := htrack rfl
      have hmem : (next, .toKey input) ∈ inputs :=
        hinputs.subset (List.mem_append_right _ (List.mem_singleton_self _))
      obtain ⟨offsets, hoffsets, hmixed⟩ := htrack.references _ hmem input rfl
      rw [if_pos rfl, hoffsets]
      dsimp only
      by_cases hone : input.keyOffsets.length = 1
      · obtain ⟨ref, href⟩ := List.length_eq_one_iff.mp hone
        rw [href] at hoffsets
        cases ref with
        | refById txId n =>
            cases hoffsets
            exact ⟨none, rfl⟩
        | globalIndex gindex =>
            cases hoffsets
            rw [directlySpentTransferId]
            split
            · exact ⟨none, rfl⟩
            · rename_i tid hgindex
              obtain ⟨shape, hshape, hkey⟩ :=
                Option.map_eq_some_iff.mp ((h.indexed.amountGindex rfl _ tid).mp hgindex)
              obtain ⟨td, htd, rfl⟩ := h.indexed.getElem?_of_shapes hshape
              have hspent : td.SpentBy true (.toKey input) :=
                directReference?_eq_some.mpr ⟨gindex, href, hkey.symm⟩
              have hheight := h.unspent horder htrack hreceived hinputs htd hspent
              rw [htd]
              dsimp only
              rw [if_neg (not_not.mpr hone), if_neg (not_not.mpr hheight)]
              exact ⟨some tid, rfl⟩
      · exact ⟨none, h.found_several hreceived hone (hmixed hone)⟩

end

end IndexedWallet

namespace IndexedWallet

end IndexedWallet

end Chinet
