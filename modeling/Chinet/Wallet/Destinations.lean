import Mathlib.Algebra.Order.BigOperators.Group.List
import Chinet.AmountDigits
import Chinet.Wallet.Sending

/-!
# Destinations

`prepare_tx_destinations` gives the destinations of a transaction, and the change, to a splitting
strategy.  The digit strategy pays an amount in its decimal digits, to the same address, and
loses nothing of it below the largest output.
-/

namespace Chinet

open PartialSteps

def walletMaxAllowedOutputAmount : UInt64 := 0xffffffffffffffff

def defaultDustThreshold : UInt64 := 0

structure DestinationOptionHtlcOut where
  expiration : UInt64
  htlcHash : Hash
deriving DecidableEq

structure TxDestinationEntry where
  amount : UInt64
  addr : List AccountPublicAddress
  minimumSigs : Nat
  amountToProvide : UInt64
  unlockTime : UInt64
  htlcOptions : DestinationOptionHtlcOut
deriving DecidableEq

namespace TxDestinationEntry

def empty : TxDestinationEntry := ⟨0, [], 0, 0, 0, ⟨0, 0⟩⟩

/-- The constructor with one address. -/
def ofAddress (a : UInt64) (ad : AccountPublicAddress) : TxDestinationEntry :=
  { empty with
    amount := a
    addr := [ad] }

/-- The constructor with a list of addresses. -/
def ofAddresses (a : UInt64) (addr : List AccountPublicAddress) : TxDestinationEntry :=
  { empty with
    amount := a
    addr
    minimumSigs := addr.length }

end TxDestinationEntry

structure TxDustPolicy where
  dustThreshold : UInt64
  addToFee : Bool
  addrForDust : AccountPublicAddress

/-- The policy of the default arguments. -/
def TxDustPolicy.default : TxDustPolicy := ⟨defaultDustThreshold, true, ⟨0, 0, 0⟩⟩

/-! ## Splitting -/

/-- A strategy is given the destinations, the change, the dust threshold and the largest output; it
makes the destinations and leaves the dust. -/
abbrev SplitStrategy :=
  List TxDestinationEntry → TxDestinationEntry → UInt64 → UInt64 →
    Defined (List TxDestinationEntry × UInt64)

def decomposeDestination (de : TxDestinationEntry) (dustThreshold maxOutputAllowed : UInt64) :
    Defined (List Piece) := do
  let d ← decomposeAmountIntoDigits dustThreshold.toNat maxOutputAllowed.toNat
    currencyTxMaxAllowedOuts de.amount 0
  return d.pieces

/-- The entries of one destination: both handlers make an entry. -/
def splitDestination (dustThreshold maxOutputAllowed : UInt64) (de : TxDestinationEntry) :
    Defined (List TxDestinationEntry) :=
  if de.addr.length > 1 then .ok [de]
  else if de.htlcOptions.expiration ≠ 0 then .ok [de]
  else do
    let pieces ← decomposeDestination de dustThreshold maxOutputAllowed
    return pieces.map fun piece => .ofAddresses (UInt64.ofNat piece.amount) de.addr

/-- The entries of the change, and its dust. -/
def splitChange (dustThreshold maxOutputAllowed : UInt64) (changeDst : TxDestinationEntry) :
    Defined (List TxDestinationEntry × UInt64) :=
  if changeDst.amount = 0 then .ok ([], 0)
  else if changeDst.addr.length > 1 then .ok ([changeDst], 0)
  else do
    let pieces ← decomposeDestination changeDst dustThreshold maxOutputAllowed
    let chunks := pieces.filterMap fun
      | .chunk chunk => some (.ofAddresses (UInt64.ofNat chunk) changeDst.addr)
      | .dust _ => none
    let dust := pieces.foldl (fun dust piece =>
      match piece with
      | .chunk _ => dust
      | .dust aDust => UInt64.ofNat aDust) 0
    return (chunks, dust)

/-- `digit_split_strategy` -/
def digitSplitStrategy : SplitStrategy := fun dsts changeDst dustThreshold maxOutputAllowed => do
  let splittedDsts ← dsts.mapM (splitDestination dustThreshold maxOutputAllowed)
  let (change, dust) ← splitChange dustThreshold maxOutputAllowed changeDst
  return (splittedDsts.flatten ++ change, dust)

/-- `prepare_tx_destinations`, with the strategy that the id names. -/
def prepareTxDestinations (accountAddress : AccountPublicAddress) (neededMoney foundMoney : UInt64)
    (strategy : SplitStrategy) (dustPolicy : TxDustPolicy) (dsts : List TxDestinationEntry) :
    Except SendError (List TxDestinationEntry) :=
  let changeDts : TxDestinationEntry :=
    if neededMoney < foundMoney then .ofAddress (foundMoney - neededMoney) accountAddress else .empty
  if foundMoney < neededMoney then .error .wallet
  else
    match strategy dsts changeDts dustPolicy.dustThreshold walletMaxAllowedOutputAmount with
    | .error _ => .error .other
    | .ok (finalDestinations, dust) =>
        if dustPolicy.dustThreshold < dust then .error .wallet
        else if dust ≠ 0 ∧ !dustPolicy.addToFee then
          .ok (finalDestinations ++ [.ofAddress dust dustPolicy.addrForDust])
        else .ok finalDestinations

/-! ## One destination -/

/-- The money of destinations. -/
def destinationsMoney (dsts : List TxDestinationEntry) : Nat :=
  (dsts.map fun de => de.amount.toNat).sum

/-- Pieces that are an amount together are so as entries. -/
theorem destinationsMoney_pieces {amount : UInt64} {pieces : List Piece}
    (htotal : total pieces = amount.toNat) (addr : List AccountPublicAddress) :
    destinationsMoney (pieces.map fun piece => .ofAddresses (UInt64.ofNat piece.amount) addr) =
      amount.toNat := by
  have hsmall : ∀ piece ∈ pieces, (UInt64.ofNat piece.amount).toNat = piece.amount := by
    intro piece hpiece
    have hle : piece.amount ≤ total pieces :=
      List.single_le_sum (fun _ _ => Nat.zero_le _) _ (List.mem_map_of_mem hpiece)
    rw [htotal] at hle
    rw [UInt64.toNat_ofNat']
    exact Nat.mod_eq_of_lt (lt_of_le_of_lt hle amount.toNat_lt)
  rw [← htotal, destinationsMoney, total, List.map_map]
  congr 1
  apply List.map_congr_left
  intro piece hpiece
  exact hsmall piece hpiece

/-- An amount that is paid to one address is paid whole, and to that address only. -/
theorem prepareTxDestinations_one (accountAddress : AccountPublicAddress) {amount : UInt64}
    (hne : amount ≠ 0) (addr : AccountPublicAddress) :
    ∃ dsts, prepareTxDestinations accountAddress 0 0 digitSplitStrategy .default
        [.ofAddress amount addr] = .ok dsts ∧
      destinationsMoney dsts = amount.toNat ∧ ∀ de ∈ dsts, de.addr = [addr] := by
  have hmax : amount.toNat ≤ walletMaxAllowedOutputAmount.toNat := Nat.le_of_lt_succ amount.toNat_lt
  obtain ⟨pieces, hpieces, htotal, -, -⟩ :=
    @decompose_in_one_loop defaultDustThreshold.toNat walletMaxAllowedOutputAmount.toNat
      currencyTxMaxAllowedOuts 0 amount hne hmax
      ((Nat.div_le_div_right hmax).trans (by decide))
  refine ⟨pieces.map fun piece => .ofAddresses (UInt64.ofNat piece.amount) [addr], ?_,
    destinationsMoney_pieces htotal [addr], ?_⟩
  · have hsplit : splitDestination defaultDustThreshold walletMaxAllowedOutputAmount
        (.ofAddress amount addr) =
          .ok (pieces.map fun piece => .ofAddresses (UInt64.ofNat piece.amount) [addr]) := by
      have hone : decomposeDestination (.ofAddress amount addr) defaultDustThreshold
          walletMaxAllowedOutputAmount = .ok pieces := by
        unfold decomposeDestination
        rw [TxDestinationEntry.ofAddress]
        dsimp only
        rw [hpieces]
        rfl
      rw [splitDestination, hone]
      rfl
    have hstrategy : digitSplitStrategy [.ofAddress amount addr] .empty defaultDustThreshold
        walletMaxAllowedOutputAmount =
          .ok (pieces.map fun piece => .ofAddresses (UInt64.ofNat piece.amount) [addr], 0) := by
      unfold digitSplitStrategy
      rw [List.mapM_cons, hsplit]
      change Except.ok (_ ++ _, _) = _
      simp
    unfold prepareTxDestinations
    dsimp only
    rw [if_neg (by decide), if_neg (by decide)]
    have hthreshold : TxDustPolicy.default.dustThreshold = defaultDustThreshold := rfl
    rw [hthreshold, hstrategy]
    rfl
  · intro de hde
    obtain ⟨piece, -, rfl⟩ := List.mem_map.mp hde
    rfl

end Chinet
