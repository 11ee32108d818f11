import Mathlib.Data.Nat.Prime.Basic
import Chinet.AmountPlaces
import Chinet.Wallet.Destinations

/-!
# The split strategies

A transaction's destinations and its change are split by one of three strategies.  The digit
strategy decomposes every amount, the null strategy takes dust off the change only, and the void
strategy leaves all as it is.

A strategy conserves money when each destination is paid its amount, those of several owners or
with a contract unsplit, and the outputs of the change and the reported dust are the change
(`ConservesMoney`).  The digit strategy does so unless a decomposition meets its checks or a zero
largest output, or hands out the dust of the change twice: the second dust takes the place of
the first.  The loop of the null strategy has an order that wraps; when nothing ends it before,
it comes to zero and is divided by (`SplitConserves`).
-/

namespace Chinet

open PartialSteps

inductive SplitStrategyId
  | none
  | digit
  | null
  | void
deriving DecidableEq, Repr

/-! ## The strategies -/

/-- An order and what it has in common with `2 ^ 64` reach that bound together. -/
theorem order_gcd_lt {order : UInt64} (hne : order ≠ 0) :
    2 ^ 64 / Nat.gcd (order * 10).toNat (2 ^ 64) < 2 ^ 64 / Nat.gcd order.toNat (2 ^ 64) := by
  have hpos : 0 < order.toNat := Nat.pos_of_ne_zero fun h => hne (UInt64.toNat_inj.mp h)
  have hlt := order.toNat_lt
  obtain ⟨j, hj, hgcd⟩ := (Nat.dvd_prime_pow Nat.prime_two).mp
    (Nat.gcd_dvd_right order.toNat (2 ^ 64))
  have hsmall : j < 64 := by
    apply (Nat.pow_lt_pow_iff_right (a := 2) (by decide)).mp
    calc 2 ^ j = Nat.gcd order.toNat (2 ^ 64) := hgcd.symm
      _ ≤ order.toNat := Nat.gcd_le_left _ hpos
      _ < 2 ^ 64 := hlt
  have hdvd : 2 ^ (j + 1) ∣ Nat.gcd (order * 10).toNat (2 ^ 64) := by
    have hbound : 2 ^ (j + 1) ∣ 2 ^ 64 := Nat.pow_dvd_pow 2 hsmall
    apply Nat.dvd_gcd _ hbound
    rw [UInt64.toNat_mul]
    apply (Nat.dvd_mod_iff hbound).mpr
    rw [pow_succ]
    exact Nat.mul_dvd_mul (hgcd ▸ Nat.gcd_dvd_left _ _) (by decide)
  have hle : 2 ^ (j + 1) ≤ Nat.gcd (order * 10).toNat (2 ^ 64) :=
    Nat.le_of_dvd (Nat.gcd_pos_of_pos_right _ (by decide)) hdvd
  have hquotient : 2 ^ 64 / 2 ^ (j + 1) < 2 ^ 64 / 2 ^ j := by
    rw [Nat.pow_div hsmall (by decide), Nat.pow_div hj (by decide)]
    exact Nat.pow_lt_pow_right (by decide) (by omega)
  calc 2 ^ 64 / Nat.gcd (order * 10).toNat (2 ^ 64) ≤ 2 ^ 64 / 2 ^ (j + 1) :=
        Nat.div_le_div_left hle (Nat.pow_pos (by decide))
    _ < 2 ^ 64 / 2 ^ j := hquotient
    _ = 2 ^ 64 / Nat.gcd order.toNat (2 ^ 64) := by rw [hgcd]

/-- The loop of `null_split_strategy`, with the dust and the change that it has found.  The orders
are those of `uint64_t`; each is an even larger power of two, so that they come to zero. -/
def dustLoop (dustThreshold amount order : UInt64) (found : UInt64 × UInt64) :
    Defined (UInt64 × UInt64) :=
  if 10 * dustThreshold < order then .ok found
  else if _hzero : order = 0 then .error .divisionByZero
  else if dustThreshold < amount % order then .ok found
  else dustLoop dustThreshold amount (order * 10) (amount % order, amount / order * order)
termination_by 2 ^ 64 / Nat.gcd order.toNat (2 ^ 64)
decreasing_by exact order_gcd_lt _hzero

/-- `null_split_strategy` -/
def nullSplitStrategy : SplitStrategy := fun dsts changeDst dustThreshold _ => do
  let (dust, change) ←
    if 0 < dustThreshold then dustLoop dustThreshold changeDst.amount 10 (0, changeDst.amount)
    else .ok (0, changeDst.amount)
  return (if change ≠ 0 then dsts ++ [.ofAddresses change changeDst.addr] else dsts, dust)

/-- `void_split_strategy`; the dust is left as the caller has set it. -/
def voidSplitStrategy (dust : UInt64) : SplitStrategy := fun dsts changeDst _ _ =>
  .ok (if 0 < changeDst.amount then dsts ++ [changeDst] else dsts, dust)

/-- `apply_split_strategy_by_id`; an id without a strategy is refused. -/
def applySplitStrategyById (id : SplitStrategyId) (dsts : List TxDestinationEntry)
    (changeDst : TxDestinationEntry) (dustThreshold maxOutputAllowed dust : UInt64) :
    Defined (Option (List TxDestinationEntry × UInt64)) :=
  match id with
  | .digit => some <$> digitSplitStrategy dsts changeDst dustThreshold maxOutputAllowed
  | .null => some <$> nullSplitStrategy dsts changeDst dustThreshold maxOutputAllowed
  | .void => some <$> voidSplitStrategy dust dsts changeDst dustThreshold maxOutputAllowed
  | .none => .ok none

/-! ## Conserving money -/

/-- The entries of a destination pay it; one of several owners or with a contract is not split. -/
structure PaidWhole (de : TxDestinationEntry) (entries : List TxDestinationEntry) : Prop where
  unsplit : de.addr.length > 1 ∨ de.htlcOptions.expiration ≠ 0 → entries = [de]
  addressed : ∀ e ∈ entries, e.addr = de.addr
  money : destinationsMoney entries = de.amount.toNat

/-- The entries are those of the destinations and of the change. -/
def ConservesMoney (dsts : List TxDestinationEntry) (changeDst : TxDestinationEntry)
    (splittedDsts : List TxDestinationEntry) (dust : UInt64) : Prop :=
  ∃ paid change, splittedDsts = paid.flatten ++ change ∧ List.Forall₂ PaidWhole dsts paid ∧
    (∀ e ∈ change, e.addr = changeDst.addr) ∧
    destinationsMoney change + dust.toNat = changeDst.amount.toNat

@[simp] theorem destinationsMoney_nil : destinationsMoney [] = 0 := rfl

@[simp] theorem destinationsMoney_cons (de : TxDestinationEntry) (dsts : List TxDestinationEntry) :
    destinationsMoney (de :: dsts) = de.amount.toNat + destinationsMoney dsts := by
  simp [destinationsMoney]

@[simp] theorem destinationsMoney_append (xs ys : List TxDestinationEntry) :
    destinationsMoney (xs ++ ys) = destinationsMoney xs + destinationsMoney ys := by
  simp [destinationsMoney]

theorem paidWhole_unsplit (de : TxDestinationEntry) : PaidWhole de [de] where
  unsplit _ := rfl
  addressed e he := by rw [List.mem_singleton.mp he]
  money := by simp

theorem paid_money {dsts : List TxDestinationEntry} {paid : List (List TxDestinationEntry)}
    (h : List.Forall₂ PaidWhole dsts paid) :
    destinationsMoney paid.flatten = destinationsMoney dsts := by
  induction h with
  | nil => rfl
  | cons hde _ ih => simp [hde.money, ih]

/-- All money is in the entries and the dust. -/
theorem ConservesMoney.total {dsts splittedDsts : List TxDestinationEntry}
    {changeDst : TxDestinationEntry} {dust : UInt64}
    (h : ConservesMoney dsts changeDst splittedDsts dust) :
    destinationsMoney splittedDsts + dust.toNat =
      destinationsMoney dsts + changeDst.amount.toNat := by
  obtain ⟨paid, change, rfl, hpaid, -, hchange⟩ := h
  rw [destinationsMoney_append, paid_money hpaid]
  omega

/-- Destinations that all stay as they are conserve money when the change does. -/
theorem conserves_unsplit {dsts change : List TxDestinationEntry} {changeDst : TxDestinationEntry}
    {dust : UInt64} (haddr : ∀ e ∈ change, e.addr = changeDst.addr)
    (hmoney : destinationsMoney change + dust.toNat = changeDst.amount.toNat) :
    ConservesMoney dsts changeDst (dsts ++ change) dust := by
  refine ⟨dsts.map fun de => [de], change, ?_, ?_, haddr, hmoney⟩
  · congr 1
    induction dsts with
    | nil => rfl
    | cons de dsts ih => rw [List.map_cons, List.flatten_cons, ← ih, List.singleton_append]
  · induction dsts with
    | nil => exact .nil
    | cons de dsts ih => exact .cons (paidWhole_unsplit de) ih

/-! ## The orders of the null strategy -/

/-- The order of a turn, which wraps from the twentieth on. -/
def orderAt : Nat → UInt64
  | 0 => 1
  | turn + 1 => orderAt turn * 10

/-- The loop ends before the turn's order is taken. -/
def EndsAt (dustThreshold amount : UInt64) (turn : Nat) : Prop :=
  10 * dustThreshold < orderAt turn ∨ dustThreshold < amount % orderAt turn

theorem orderAt_ne_zero : ∀ turn < 64, orderAt turn ≠ 0 := by
  decide +kernel

/-- An order splits an amount in two. -/
theorem order_splits (amount order : UInt64) :
    (amount % order).toNat + (amount / order * order).toNat = amount.toNat := by
  have hle : amount.toNat / order.toNat * order.toNat ≤ amount.toNat := Nat.div_mul_le_self _ _
  rw [UInt64.toNat_mod, UInt64.toNat_mul, UInt64.toNat_div,
    Nat.mod_eq_of_lt (lt_of_le_of_lt hle amount.toNat_lt)]
  exact Nat.mod_add_div' _ _

section

variable {dustThreshold amount : UInt64}

/-- A loop that some turn ends has found an order that splits the amount. -/
theorem dustLoop_ends {turns turn : Nat} (hturns : turn + turns = 64) {found : UInt64 × UInt64}
    (hfound : found.1.toNat + found.2.toNat = amount.toNat)
    (hends : ∃ last, turn ≤ last ∧ last < 64 ∧ EndsAt dustThreshold amount last) :
    ∃ dust change, dustLoop dustThreshold amount (orderAt turn) found = .ok (dust, change) ∧
      dust.toNat + change.toNat = amount.toNat := by
  induction turns generalizing turn found with
  | zero =>
      obtain ⟨last, hle, hlt, -⟩ := hends
      omega
  | succ turns ih =>
      rw [dustLoop]
      by_cases hbeyond : 10 * dustThreshold < orderAt turn
      · rw [if_pos hbeyond]
        exact ⟨_, _, rfl, hfound⟩
      rw [if_neg hbeyond, dif_neg (orderAt_ne_zero turn (by omega))]
      by_cases hmuch : dustThreshold < amount % orderAt turn
      · rw [if_pos hmuch]
        exact ⟨_, _, rfl, hfound⟩
      rw [if_neg hmuch]
      apply @ih (turn + 1) (by omega) _ (order_splits amount (orderAt turn))
      obtain ⟨last, hle, hlt, hend⟩ := hends
      refine ⟨last, Nat.lt_of_le_of_ne hle ?_, hlt, hend⟩
      rintro rfl
      exact hend.elim hbeyond hmuch

/-- A loop that no turn ends divides by an order of zero. -/
theorem dustLoop_fails {turns turn : Nat} (hturns : turn + turns = 64) {found : UInt64 × UInt64}
    (hends : ¬ ∃ last, turn ≤ last ∧ last < 64 ∧ EndsAt dustThreshold amount last) :
    dustLoop dustThreshold amount (orderAt turn) found = .error .divisionByZero := by
  induction turns generalizing turn found with
  | zero =>
      obtain rfl : turn = 64 := hturns
      have hzero : orderAt 64 = 0 := by decide +kernel
      rw [dustLoop, hzero, if_neg (UInt64.not_lt.mpr UInt64.zero_le), dif_pos rfl]
  | succ turns ih =>
      have hgoes : ¬ EndsAt dustThreshold amount turn :=
        fun hend => hends ⟨turn, le_rfl, by omega, hend⟩
      rw [EndsAt, not_or] at hgoes
      rw [dustLoop, if_neg hgoes.1, dif_neg (orderAt_ne_zero turn (by omega)), if_neg hgoes.2]
      apply @ih (turn + 1) (by omega)
      rintro ⟨last, hle, hend⟩
      exact hends ⟨last, Nat.le_of_succ_le hle, hend⟩

end

/-! ## The digits of the digit strategy -/

/-- An amount can be decomposed whole. -/
def Decomposes (dustThreshold maxOutputAllowed amount : UInt64) : Prop :=
  maxOutputAllowed ≠ 0 ∧
    Fits dustThreshold.toNat maxOutputAllowed.toNat currencyTxMaxAllowedOuts amount.toNat

/-- A destination that is split can be decomposed whole. -/
def DestinationSplits (dustThreshold maxOutputAllowed : UInt64) (de : TxDestinationEntry) : Prop :=
  de.addr.length ≤ 1 → de.htlcOptions.expiration = 0 → de.amount ≠ 0 →
    Decomposes dustThreshold maxOutputAllowed de.amount

/-- The change can be decomposed whole, and has dust in one place only. -/
def ChangeSplits (dustThreshold maxOutputAllowed : UInt64) (changeDst : TxDestinationEntry) :
    Prop :=
  changeDst.addr.length ≤ 1 → changeDst.amount ≠ 0 →
    Decomposes dustThreshold maxOutputAllowed changeDst.amount ∧
      ¬ DustTwice dustThreshold.toNat maxOutputAllowed.toNat changeDst.amount.toNat

section

variable {dustThreshold maxOutputAllowed : UInt64}

/-- A decomposition fails or is one by places. -/
theorem decomposeDestination_cases {de : TxDestinationEntry} (hne : de.amount ≠ 0) :
    maxOutputAllowed = 0 ∧
        decomposeDestination de dustThreshold maxOutputAllowed = .error .divisionByZero ∨
      maxOutputAllowed ≠ 0 ∧ ∃ d,
        decomposeDestination de dustThreshold maxOutputAllowed = .ok d.pieces ∧
          ByPlaces dustThreshold.toNat maxOutputAllowed.toNat currencyTxMaxAllowedOuts
            de.amount.toNat d := by
  by_cases hmax : maxOutputAllowed = 0
  · refine .inl ⟨hmax, ?_⟩
    subst hmax
    have hzero : (0 : UInt64).toNat = 0 := rfl
    rw [decomposeDestination, hzero, decompose_zero_max hne]
    rfl
  · have hpos : 0 < maxOutputAllowed.toNat :=
      Nat.pos_of_ne_zero fun h => hmax (UInt64.toNat_inj.mp h)
    obtain ⟨d, hd, hplaces⟩ := @decompose_by_places dustThreshold.toNat maxOutputAllowed.toNat
      currencyTxMaxAllowedOuts de.amount hne hpos (by decide)
    refine .inr ⟨hmax, d, ?_, hplaces⟩
    rw [decomposeDestination, hd]
    rfl

/-- The entries of pieces that are no more than an amount are worth the pieces. -/
theorem destinationsMoney_total {amount : UInt64} {pieces : List Piece}
    (hle : total pieces ≤ amount.toNat) (addr : List AccountPublicAddress) :
    destinationsMoney (pieces.map fun piece => .ofAddresses (UInt64.ofNat piece.amount) addr) =
      total pieces := by
  have hvalue : (UInt64.ofNat (total pieces)).toNat = total pieces := by
    rw [UInt64.toNat_ofNat']
    exact Nat.mod_eq_of_lt (lt_of_le_of_lt hle amount.toNat_lt)
  rw [destinationsMoney_pieces hvalue.symm, hvalue]

/-- How one destination ends: without a result, or with entries of at most its amount. -/
theorem splitDestination_cases (de : TxDestinationEntry) :
    (∃ e, splitDestination dustThreshold maxOutputAllowed de = .error e ∧
        ¬ DestinationSplits dustThreshold maxOutputAllowed de) ∨
      ∃ entries, splitDestination dustThreshold maxOutputAllowed de = .ok entries ∧
        destinationsMoney entries ≤ de.amount.toNat ∧
        (destinationsMoney entries = de.amount.toNat ↔
          DestinationSplits dustThreshold maxOutputAllowed de) ∧
        (DestinationSplits dustThreshold maxOutputAllowed de → PaidWhole de entries) := by
  by_cases hunsplit : de.addr.length > 1 ∨ de.htlcOptions.expiration ≠ 0
  · -- nothing is split here
    refine .inr ⟨[de], ?_, by simp, ?_, fun _ => paidWhole_unsplit de⟩
    · rw [splitDestination]
      rcases hunsplit with hmany | hcontract
      · rw [if_pos hmany]
      · rw [if_pos hcontract]
        exact ite_self _
    · have hsplits : DestinationSplits dustThreshold maxOutputAllowed de := by
        intro hone hplain
        exact absurd hunsplit (by rw [not_or]; exact ⟨by omega, fun h => h hplain⟩)
      exact ⟨fun _ => hsplits, fun _ => by simp⟩
  have hplain := not_or.mp hunsplit
  have hone : de.addr.length ≤ 1 := not_lt.mp hplain.1
  have hcontract : de.htlcOptions.expiration = 0 := not_not.mp hplain.2
  rw [splitDestination, if_neg hplain.1, if_neg hplain.2]
  by_cases hne : de.amount = 0
  · have hnothing : decomposeDestination de dustThreshold maxOutputAllowed = .ok [] := by
      rw [decomposeDestination, decomposeAmountIntoDigits, if_pos hne]
      rfl
    have hsplits : DestinationSplits dustThreshold maxOutputAllowed de :=
      fun _ _ h => absurd hne h
    have hzero : de.amount.toNat = 0 := by rw [hne]; rfl
    rw [hnothing]
    refine .inr ⟨[], rfl, Nat.zero_le _, ⟨fun _ => hsplits, fun _ => hzero.symm⟩, fun _ => ?_⟩
    exact {
      unsplit := fun h => absurd h hunsplit
      addressed := fun _ h => absurd h List.not_mem_nil
      money := hzero.symm }
  rcases @decomposeDestination_cases dustThreshold maxOutputAllowed de hne with
    ⟨hmax, hfails⟩ | ⟨hmax, d, hd, hplaces⟩
  · rw [hfails]
    exact .inl ⟨_, rfl, fun h => (h hone hcontract hne).1 hmax⟩
  · have hmoney := destinationsMoney_total hplaces.le de.addr
    have hsplits : total d.pieces = de.amount.toNat ↔
        DestinationSplits dustThreshold maxOutputAllowed de := by
      rw [hplaces.whole]
      exact ⟨fun h _ _ _ => ⟨hmax, h⟩, fun h => (h hone hcontract hne).2⟩
    rw [hd, ok_bind]
    refine .inr ⟨_, rfl, hmoney.trans_le hplaces.le, by rw [hmoney]; exact hsplits, fun h => ?_⟩
    exact {
      unsplit := fun h => absurd h hunsplit
      addressed := fun e he => by
        obtain ⟨piece, -, rfl⟩ := List.mem_map.mp he
        rfl
      money := hmoney.trans (hsplits.mpr h) }

/-- How the destinations end: without a result, or with entries of at most their money. -/
theorem splitDestinations_cases (dsts : List TxDestinationEntry) :
    (∃ e, dsts.mapM (splitDestination dustThreshold maxOutputAllowed) = .error e ∧
        ¬ ∀ de ∈ dsts, DestinationSplits dustThreshold maxOutputAllowed de) ∨
      ∃ paid, dsts.mapM (splitDestination dustThreshold maxOutputAllowed) = .ok paid ∧
        destinationsMoney paid.flatten ≤ destinationsMoney dsts ∧
        (destinationsMoney paid.flatten = destinationsMoney dsts ↔
          ∀ de ∈ dsts, DestinationSplits dustThreshold maxOutputAllowed de) ∧
        ((∀ de ∈ dsts, DestinationSplits dustThreshold maxOutputAllowed de) →
          List.Forall₂ PaidWhole dsts paid) := by
  induction dsts with
  | nil => exact .inr ⟨[], rfl, le_rfl, by simp, fun _ => .nil⟩
  | cons de dsts ih =>
      rw [List.mapM_cons]
      rcases @splitDestination_cases dustThreshold maxOutputAllowed de with
        ⟨e, hfails, hnot⟩ | ⟨entries, hentries, hle, hwhole, hpaid⟩
      · rw [hfails]
        exact .inl ⟨e, rfl, fun h => hnot (h de List.mem_cons_self)⟩
      rw [hentries, ok_bind]
      rcases ih with ⟨e, hfails, hnot⟩ | ⟨paid, hrest, hrestLe, hrestWhole, hrestPaid⟩
      · rw [hfails]
        exact .inl ⟨e, rfl, fun h => hnot fun de' hde' => h de' (List.mem_cons_of_mem de hde')⟩
      rw [hrest, ok_bind]
      refine .inr ⟨entries :: paid, rfl, ?_, ?_, ?_⟩
      · simp only [List.flatten_cons, destinationsMoney_append, destinationsMoney_cons]
        omega
      · rw [List.forall_mem_cons, ← hwhole, ← hrestWhole]
        simp only [List.flatten_cons, destinationsMoney_append, destinationsMoney_cons]
        omega
      · intro h
        rw [List.forall_mem_cons] at h
        exact .cons (hpaid h.1) (hrestPaid h.2)

end

/-! ## The dust of the change -/

/-- The handler keeps the last dust. -/
theorem lastDust (dusts : List Nat) (hsmall : dusts.sum < 2 ^ 64) :
    (dusts.foldl (fun _ aDust => UInt64.ofNat aDust) 0).toNat ≤ dusts.sum ∧
      ((∀ aDust ∈ dusts, 0 < aDust) →
        ((dusts.foldl (fun _ aDust => UInt64.ofNat aDust) 0).toNat = dusts.sum ↔
          dusts.length ≤ 1)) := by
  rcases List.eq_nil_or_concat dusts with rfl | ⟨before, last, rfl⟩
  · exact ⟨le_rfl, fun _ => by simp⟩
  · rw [List.concat_eq_append, List.sum_append, List.sum_singleton] at *
    have hlast : ((before ++ [last]).foldl (fun _ aDust => UInt64.ofNat aDust) 0).toNat = last := by
      rw [List.foldl_append, List.foldl_cons, List.foldl_nil, UInt64.toNat_ofNat']
      exact Nat.mod_eq_of_lt (by omega)
    rw [hlast]
    refine ⟨Nat.le_add_left _ _, fun hpos => ?_⟩
    cases before with
    | nil => simp
    | cons first before =>
        have hfirst := hpos first (by simp)
        simp only [List.sum_cons, List.length_append, List.length_cons, List.length_nil]
        omega

/-- The entry of a chunk of the change. -/
def changeEntry (addr : List AccountPublicAddress) : Piece → Option TxDestinationEntry
  | .chunk chunk => some (.ofAddresses (UInt64.ofNat chunk) addr)
  | .dust _ => none

/-- The chunks and the dusts are the pieces. -/
theorem changeEntries_money {amount : UInt64} {pieces : List Piece}
    (hle : total pieces ≤ amount.toNat) (addr : List AccountPublicAddress) :
    destinationsMoney (pieces.filterMap (changeEntry addr)) + (dustsOf pieces).sum =
      total pieces := by
  induction pieces with
  | nil => rfl
  | cons piece pieces ih =>
      have hparts : total (piece :: pieces) = piece.amount + total pieces := rfl
      rw [hparts] at hle ⊢
      have hrest := ih (by omega)
      cases piece with
      | chunk chunk =>
          have hvalue : (UInt64.ofNat chunk).toNat = chunk := by
            rw [UInt64.toNat_ofNat']
            apply Nat.mod_eq_of_lt
            exact lt_of_le_of_lt ((Nat.le_add_right _ _).trans hle) amount.toNat_lt
          have hcons : (Piece.chunk chunk :: pieces).filterMap (changeEntry addr) =
            .ofAddresses (UInt64.ofNat chunk) addr :: pieces.filterMap (changeEntry addr) := rfl
          calc destinationsMoney ((Piece.chunk chunk :: pieces).filterMap (changeEntry addr)) +
                (dustsOf (.chunk chunk :: pieces)).sum
            _ = (UInt64.ofNat chunk).toNat + destinationsMoney (pieces.filterMap (changeEntry addr)) +
                (dustsOf pieces).sum := by
              rw [hcons, destinationsMoney_cons]
              rfl
            _ = chunk + total pieces := by rw [hvalue, Nat.add_assoc, hrest]
      | dust aDust =>
          calc destinationsMoney ((Piece.dust aDust :: pieces).filterMap (changeEntry addr)) +
                (dustsOf (.dust aDust :: pieces)).sum
            _ = destinationsMoney (pieces.filterMap (changeEntry addr)) +
                (aDust + (dustsOf pieces).sum) := rfl
            _ = aDust + total pieces := by omega

/-- The dust that the handlers of the change leave. -/
def changeDust (pieces : List Piece) : UInt64 :=
  (dustsOf pieces).foldl (fun _ aDust => UInt64.ofNat aDust) 0

theorem splitChange_eq {dustThreshold maxOutputAllowed : UInt64} {changeDst : TxDestinationEntry}
    {pieces : List Piece} (hne : changeDst.amount ≠ 0) (hone : ¬ changeDst.addr.length > 1)
    (h : decomposeDestination changeDst dustThreshold maxOutputAllowed = .ok pieces) :
    splitChange dustThreshold maxOutputAllowed changeDst =
      .ok (pieces.filterMap (changeEntry changeDst.addr), changeDust pieces) := by
  have hdust (before : UInt64) : pieces.foldl (fun dust piece =>
      match piece with
      | .chunk _ => dust
      | .dust aDust => UInt64.ofNat aDust) before =
      (dustsOf pieces).foldl (fun _ aDust => UInt64.ofNat aDust) before := by
    clear h
    induction pieces generalizing before with
    | nil => rfl
    | cons piece pieces ih =>
        cases piece with
        | chunk chunk => exact ih before
        | dust aDust => exact ih (UInt64.ofNat aDust)
  rw [splitChange, if_neg hne, if_neg hone, h, ok_bind, changeDust, ← hdust 0]
  rfl

section

variable {dustThreshold maxOutputAllowed : UInt64}

/-- How the change ends: without a result, or with entries and a dust of at most its amount. -/
theorem splitChange_cases (changeDst : TxDestinationEntry) :
    (∃ e, splitChange dustThreshold maxOutputAllowed changeDst = .error e ∧
        ¬ ChangeSplits dustThreshold maxOutputAllowed changeDst) ∨
      ∃ change dust, splitChange dustThreshold maxOutputAllowed changeDst = .ok (change, dust) ∧
        (∀ e ∈ change, e.addr = changeDst.addr) ∧
        destinationsMoney change + dust.toNat ≤ changeDst.amount.toNat ∧
        (destinationsMoney change + dust.toNat = changeDst.amount.toNat ↔
          ChangeSplits dustThreshold maxOutputAllowed changeDst) := by
  by_cases hne : changeDst.amount = 0
  · have hzero : changeDst.amount.toNat = 0 := by rw [hne]; rfl
    rw [splitChange, if_pos hne]
    refine .inr ⟨[], 0, rfl, fun _ h => absurd h List.not_mem_nil, Nat.zero_le _, ?_⟩
    exact ⟨fun _ _ h => absurd hne h, fun _ => hzero.symm⟩
  by_cases hmany : changeDst.addr.length > 1
  · rw [splitChange, if_neg hne, if_pos hmany]
    refine .inr ⟨[changeDst], 0, rfl, ?_, by simp, ?_⟩
    · intro e he
      rw [List.mem_singleton.mp he]
    · exact ⟨fun _ hone => absurd hmany (not_lt.mpr hone), fun _ => by simp⟩
  have hone : changeDst.addr.length ≤ 1 := not_lt.mp hmany
  rcases @decomposeDestination_cases dustThreshold maxOutputAllowed changeDst hne with
    ⟨hmax, hfails⟩ | ⟨hmax, d, hd, hplaces⟩
  · rw [splitChange, if_neg hne, if_neg hmany, hfails]
    exact .inl ⟨_, rfl, fun h => (h hone hne).1.1 hmax⟩
  · have hchunks := changeEntries_money hplaces.le changeDst.addr
    have hlt := changeDst.amount.toNat_lt
    have hle := hplaces.le
    have hdust := lastDust (dustsOf d.pieces) (by omega)
    have hlast := hdust.2 hplaces.pos
    change (changeDust d.pieces).toNat ≤ _ ∧ _ at hdust
    change (changeDust d.pieces).toNat = _ ↔ _ at hlast
    rw [splitChange_eq hne hmany hd]
    refine .inr ⟨_, _, rfl, ?_, by omega, ?_⟩
    · intro e he
      obtain ⟨piece, -, hpiece⟩ := List.mem_filterMap.mp he
      cases piece with
      | chunk chunk =>
          cases hpiece
          rfl
      | dust aDust => cases hpiece
    · -- all is paid just when the pieces are the amount and none of the dust is replaced
      constructor
      · intro hall _ _
        have hwhole : total d.pieces = changeDst.amount.toNat := by omega
        exact ⟨⟨hmax, hplaces.whole.mp hwhole⟩, (hplaces.dusts hwhole).mp (hlast.mp (by omega))⟩
      · intro h
        obtain ⟨⟨-, hfits⟩, htwice⟩ := h hone hne
        have hwhole := hplaces.whole.mpr hfits
        have hsame := hlast.mpr ((hplaces.dusts hwhole).mpr htwice)
        omega

end

/-! ## When a strategy conserves money -/

/-- What the amounts must be for a strategy to conserve money. -/
def SplitConserves (id : SplitStrategyId) (dsts : List TxDestinationEntry)
    (changeDst : TxDestinationEntry) (dustThreshold maxOutputAllowed : UInt64) : Prop :=
  match id with
  | .digit =>
      (∀ de ∈ dsts, DestinationSplits dustThreshold maxOutputAllowed de) ∧
        ChangeSplits dustThreshold maxOutputAllowed changeDst
  | .null =>
      dustThreshold = 0 ∨
        ∃ turn, 1 ≤ turn ∧ turn < 64 ∧ EndsAt dustThreshold changeDst.amount turn
  | .void => True
  | .none => False

section

variable {dsts : List TxDestinationEntry} {changeDst : TxDestinationEntry}
  {dustThreshold maxOutputAllowed : UInt64}

theorem digit_conserves_iff :
    (∃ splittedDsts dust, digitSplitStrategy dsts changeDst dustThreshold maxOutputAllowed =
        .ok (splittedDsts, dust) ∧ ConservesMoney dsts changeDst splittedDsts dust) ↔
      (∀ de ∈ dsts, DestinationSplits dustThreshold maxOutputAllowed de) ∧
        ChangeSplits dustThreshold maxOutputAllowed changeDst := by
  rw [digitSplitStrategy]
  rcases @splitDestinations_cases dustThreshold maxOutputAllowed dsts with
    ⟨e, hfails, hnot⟩ | ⟨paid, hpaid, hle, hwhole, hall⟩
  · rw [hfails]
    constructor
    · rintro ⟨_, _, h, -⟩
      cases h
    · exact fun h => absurd h.1 hnot
  rw [hpaid, ok_bind]
  rcases @splitChange_cases dustThreshold maxOutputAllowed changeDst with
    ⟨e, hfails, hnot⟩ | ⟨change, dust, hchange, haddr, hchangeLe, hchangeWhole⟩
  · rw [hfails]
    constructor
    · rintro ⟨_, _, h, -⟩
      cases h
    · exact fun h => absurd h.2 hnot
  rw [hchange, ok_bind]
  constructor
  · -- with all money in the result no part of it can lack any
    rintro ⟨splittedDsts, dust', h, hconserves⟩
    cases h
    have htotal := hconserves.total
    rw [destinationsMoney_append] at htotal
    exact ⟨hwhole.mp (by omega), hchangeWhole.mp (by omega)⟩
  · rintro ⟨hdsts, hchanges⟩
    exact ⟨_, _, rfl, paid, change, rfl, hall hdsts, haddr, hchangeWhole.mpr hchanges⟩

theorem null_conserves_iff :
    (∃ splittedDsts dust, nullSplitStrategy dsts changeDst dustThreshold maxOutputAllowed =
        .ok (splittedDsts, dust) ∧ ConservesMoney dsts changeDst splittedDsts dust) ↔
      dustThreshold = 0 ∨
        ∃ turn, 1 ≤ turn ∧ turn < 64 ∧ EndsAt dustThreshold changeDst.amount turn := by
  have hresult (dust change : UInt64) (h : dust.toNat + change.toNat = changeDst.amount.toNat) :
      ConservesMoney dsts changeDst
        (if change ≠ 0 then dsts ++ [.ofAddresses change changeDst.addr] else dsts) dust := by
    by_cases hzero : change = 0
    · have hnone : change.toNat = 0 := by rw [hzero]; rfl
      have hconserves := @conserves_unsplit dsts [] changeDst dust
        (fun _ h => absurd h List.not_mem_nil) (by simp; omega)
      rw [if_neg (not_not.mpr hzero)]
      rwa [List.append_nil] at hconserves
    · rw [if_pos hzero]
      apply conserves_unsplit
      · intro e he
        rw [List.mem_singleton.mp he]
        rfl
      · have hentry : (TxDestinationEntry.ofAddresses change changeDst.addr).amount = change := rfl
        simp only [destinationsMoney_cons, destinationsMoney_nil, hentry]
        omega
  have hstart : (0 : UInt64).toNat + changeDst.amount.toNat = changeDst.amount.toNat := by
    simp
  rw [nullSplitStrategy]
  by_cases hthreshold : dustThreshold = 0
  · rw [if_neg (by rw [hthreshold]; decide), ok_bind]
    exact ⟨fun _ => .inl hthreshold, fun _ => ⟨_, _, rfl, hresult 0 changeDst.amount hstart⟩⟩
  · have hpos : 0 < dustThreshold := by
      rw [UInt64.lt_iff_toNat_lt]
      exact Nat.pos_of_ne_zero fun h => hthreshold (UInt64.toNat_inj.mp h)
    have hfirst : orderAt 1 = 10 := rfl
    rw [if_pos hpos, ← hfirst, or_iff_right hthreshold]
    constructor
    · rintro ⟨splittedDsts, dust, h, -⟩
      by_contra hends
      rw [@dustLoop_fails _ _ 63 1 rfl _ hends] at h
      cases h
    · intro hends
      obtain ⟨dust, change, hloop, hsum⟩ :=
        @dustLoop_ends dustThreshold changeDst.amount 63 1 rfl (0, changeDst.amount) hstart hends
      rw [hloop, ok_bind]
      exact ⟨_, _, rfl, hresult dust change hsum⟩

theorem void_conserves :
    ∃ splittedDsts dust, voidSplitStrategy 0 dsts changeDst dustThreshold maxOutputAllowed =
        .ok (splittedDsts, dust) ∧ ConservesMoney dsts changeDst splittedDsts dust := by
  refine ⟨_, _, rfl, ?_⟩
  by_cases hchange : 0 < changeDst.amount
  · rw [if_pos hchange]
    apply conserves_unsplit
    · intro e he
      rw [List.mem_singleton.mp he]
    · simp
  · have hzero : changeDst.amount.toNat = 0 := by
      rw [UInt64.lt_iff_toNat_lt] at hchange
      exact Nat.eq_zero_of_not_pos hchange
    have hconserves := @conserves_unsplit dsts [] changeDst 0
      (fun _ h => absurd h List.not_mem_nil) (by simp [hzero])
    rw [if_neg hchange]
    rwa [List.append_nil] at hconserves

theorem map_some_eq_ok {α : Type} {x : Defined α} {a : α} :
    some <$> x = .ok (some a) ↔ x = .ok a := by
  cases x with
  | error e => simp [Functor.map, Except.map]
  | ok b => simp [Functor.map, Except.map]

end

/-- A strategy, with the dust that its caller sets to zero, conserves money just when its condition
on the amounts is met. -/
theorem applySplitStrategyById_conserves_iff (id : SplitStrategyId) (dsts : List TxDestinationEntry)
    (changeDst : TxDestinationEntry) (dustThreshold maxOutputAllowed : UInt64) :
    (∃ splittedDsts dust,
      applySplitStrategyById id dsts changeDst dustThreshold maxOutputAllowed 0 =
        .ok (some (splittedDsts, dust)) ∧ ConservesMoney dsts changeDst splittedDsts dust) ↔
      SplitConserves id dsts changeDst dustThreshold maxOutputAllowed := by
  cases id with
  | none =>
      constructor
      · rintro ⟨_, _, h, -⟩
        cases h
      · exact False.elim
  | digit =>
      simp only [applySplitStrategyById, map_some_eq_ok]
      exact digit_conserves_iff
  | null =>
      simp only [applySplitStrategyById, map_some_eq_ok]
      exact null_conserves_iff
  | void =>
      simp only [applySplitStrategyById, map_some_eq_ok]
      exact ⟨fun _ => trivial, fun _ => void_conserves⟩

/-- A change of 1002 with a threshold of 3 and a largest output of 997 has the dust 2 and then the
dust 3, which is lost; and with a threshold of all bits the null strategy divides by zero. -/
theorem splitStrategies_lose_change :
    (∃ splittedDsts, applySplitStrategyById .digit [] (.ofAddresses 1002 [⟨1, 2, 0⟩]) 3 997 0 =
        .ok (some (splittedDsts, 2)) ∧ destinationsMoney splittedDsts = 997 ∧
        ¬ ConservesMoney [] (.ofAddresses 1002 [⟨1, 2, 0⟩]) splittedDsts 2) ∧
      applySplitStrategyById .null [] (.ofAddresses 5 [⟨1, 2, 0⟩]) 0xffffffffffffffff
        walletMaxAllowedOutputAmount 0 = .error .divisionByZero := by
  constructor
  · refine ⟨[.ofAddresses 997 [⟨1, 2, 0⟩]], by decide +kernel, by decide +kernel, ?_⟩
    intro h
    exact absurd h.total (by decide +kernel)
  · decide +kernel

end Chinet
