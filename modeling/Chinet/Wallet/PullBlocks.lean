import Chinet.Wallet.ChainShortener

/-!
# The blocks that a wallet pulls

`wallet2::handle_pulled_blocks` over the wallet's shortened chain.  The other containers of
the wallet are what the calls of `process_new_blockchain_entry` and `detach_blockchain` have
made of them, so a state holds these calls, and what the rest of the wallet does is a
function of them.  The progress callback is left out.
-/

namespace Chinet

universe u

/-- An entry of the response, with the height and the id of its block. -/
structure PulledBlock (θ : Type*) where
  height : Nat
  id : θ
deriving DecidableEq

inductive WalletCall (θ : Type*) where
  | processGenesis (genesis : PulledBlock θ)
  | detachBlockchain (includingHeight : Nat)
  | processNewBlockchainEntry (block : PulledBlock θ) (height : Nat)
deriving DecidableEq

inductive PullError where
  /-- `first block expected to be genesis` -/
  | firstBlockNotGenesis
  /-- `Can't change wallet genesis block once the blockchain has been populated` -/
  | genesisOfPopulatedChain
  /-- `height > processed_blocks_count` -/
  | heightAboveProcessed
  /-- `been_matched_block == false on process_new_blockchain_entry` -/
  | beenMatchedBlockFalse
  /-- `unmatched block while never been mathced block` -/
  | unmatchedBlock
  /-- The check of the height in `process_new_blockchain_entry`. -/
  | wrongIndex
  | chain (e : ChainShortenerError)
  /-- The rest of the wallet has thrown. -/
  | refused
deriving DecidableEq

/-- The rest of the wallet after some calls: whether the next one throws, and whether
`m_transfers` or `m_key_images` hold something. -/
structure WalletRest (θ : Type*) where
  refuses : List (WalletCall θ) → WalletCall θ → Bool
  hasTransfers : List (WalletCall θ) → Bool

structure PullingWallet (θ : Type*) where
  chain : WalletChainShortener θ
  minimumHeight : Nat
  calls : List (WalletCall θ)
deriving DecidableEq

/-- The variables of the loop. -/
structure PullState (θ : Type*) where
  wallet : PullingWallet θ
  blocksAdded : Nat
  currentIndex : Nat
  beenMatchedBlock : Bool
  lastMatchedIndex : Nat
deriving DecidableEq

namespace WalletChainShortener

variable {θ : Type*}

def clear (s : WalletChainShortener θ) : WalletChainShortener θ := ⟨1, s.genesis, [], [], [], []⟩

def setGenesis (s : WalletChainShortener θ) (id : θ) : WalletChainShortener θ :=
  { s with genesis := id, localBcSize := 1 }

/-- The height and the id of the last block. -/
def topBlock (s : WalletChainShortener θ) : Nat × θ :=
  (s.localBcSize - 1, match s.last20Blocks.getLast? with
    | some item => item.2
    | none => s.genesis)

end WalletChainShortener

section

variable {θ : Type*} (rest : WalletRest θ)

/-- The rest of the wallet takes a call, and the chain is changed. -/
def PullingWallet.call (w : PullingWallet θ) (c : WalletCall θ) (chain : WalletChainShortener θ) :
    Except PullError (PullingWallet θ) :=
  if rest.refuses w.calls c then .error .refused
  else .ok { w with chain, calls := w.calls ++ [c] }

def processGenesisIfNeeded (genesis : PulledBlock θ) (w : PullingWallet θ) :
    Except PullError (PullingWallet θ) :=
  if rest.hasTransfers w.calls then .ok w
  else if w.chain.localBcSize > 1 then .error .genesisOfPopulatedChain
  else w.call rest (.processGenesis genesis) (w.chain.setGenesis genesis.id)

def processNewBlockchainEntry (block : PulledBlock θ) (height : Nat) (w : PullingWallet θ) :
    Except PullError (PullingWallet θ) :=
  if height ≠ w.chain.localBcSize ∧ ¬ (height = w.minimumHeight ∨ w.chain.localBcSize ≤ 1) then
    .error .wrongIndex
  else
    match w.chain.pushNewBlockId block.id height with
    | .error e => .error (.chain e)
    | .ok chain => w.call rest (.processNewBlockchainEntry block height) chain

def detachBlockchain (includingHeight : Nat) (w : PullingWallet θ) :
    Except PullError (PullingWallet θ) :=
  w.call rest (.detachBlockchain includingHeight) (w.chain.detach includingHeight)

variable [DecidableEq θ]

/-- One turn of the loop. -/
def pullBlock (st : PullState θ) (block : PulledBlock θ) : Except PullError (PullState θ) := do
  let processedBlocksCount := st.wallet.chain.localBcSize
  let st ←
    if processedBlocksCount ≠ 1 ∧ block.height > processedBlocksCount then
      if block.height ≠ st.wallet.minimumHeight then .error .heightAboveProcessed
      -- possible case, wallet rewound to `m_minimum_height`
      else .ok { st with wallet := { st.wallet with chain := st.wallet.chain.clear } }
    else if block.height = processedBlocksCount then
      if st.beenMatchedBlock then do
        let wallet ← processNewBlockchainEntry rest block st.currentIndex st.wallet
        .ok { st with wallet, blocksAdded := st.blocksAdded + 1 }
      else .error .beenMatchedBlockFalse
    else
      match st.wallet.chain.checkIfBlockMatched block.height block.id with
      | .error e => .error (.chain e)
      | .ok m =>
          if m.blockFound && m.blockMatched then
            .ok { st with lastMatchedIndex := block.height, beenMatchedBlock := true }
          else
            let st :=
              if m.fullResetNeeded then { st with lastMatchedIndex := 0, beenMatchedBlock := true }
              else st
            if st.beenMatchedBlock then do
              let wallet ← detachBlockchain rest (st.lastMatchedIndex + 1) st.wallet
              let wallet ← processNewBlockchainEntry rest block block.height wallet
              .ok { st with wallet, blocksAdded := st.blocksAdded + 1 }
            else .error .unmatchedBlock
  return { st with currentIndex := st.currentIndex + 1 }

/-- The loop; the flag `stop` is read before each block. -/
def pullLoop (stop : Nat → Bool) : Nat → List (PulledBlock θ) → PullState θ →
    Except PullError (PullState θ)
  | _, [], st => .ok st
  | i, block :: blocks, st =>
      if stop i then .ok st
      else do
        let st ← pullBlock rest st block
        pullLoop stop (i + 1) blocks st

/-- `handle_pulled_blocks`: the wallet after it, and `blocks_added`. -/
def handlePulledBlocks (stop : Nat → Bool) (startHeight : Nat) (blocks : List (PulledBlock θ))
    (w : PullingWallet θ) : Except PullError (PullingWallet θ × Nat) := do
  let (st, blocks) ←
    match blocks with
    | genesis :: others =>
        if startHeight = 0 ∧ w.chain.localBcSize = 1 then
          if genesis.height ≠ 0 then .error .firstBlockNotGenesis
          else do
            let w ← processGenesisIfNeeded rest genesis w
            .ok (⟨w, 0, startHeight + 1, true, 0⟩, others)
        else .ok (⟨w, 0, startHeight, false, 0⟩, genesis :: others)
    | [] => Except.ok (PullState.mk w 0 startHeight false 0, [])
  let st ← pullLoop rest stop 0 blocks st
  return (st.wallet, st.blocksAdded)

end

/-! ## Responses -/

section

variable {θ : Type*}

/-- The blocks before the one at which the loop is stopped. -/
def takenBlocks (stop : Nat → Bool) : Nat → List (PulledBlock θ) → List (PulledBlock θ)
  | _, [] => []
  | i, block :: blocks => if stop i then [] else block :: takenBlocks stop (i + 1) blocks

/-- The blocks of a response, at the heights from its start on. -/
def Contiguous (startHeight : Nat) (blocks : List (PulledBlock θ)) : Prop :=
  blocks.map PulledBlock.height = List.range' startHeight blocks.length

theorem contiguous_cons {startHeight : Nat} {block : PulledBlock θ} {blocks : List (PulledBlock θ)} :
    Contiguous startHeight (block :: blocks) ↔
      block.height = startHeight ∧ Contiguous (startHeight + 1) blocks := by
  unfold Contiguous
  rw [List.map_cons, List.length_cons, List.range'_succ, List.cons.injEq]

theorem Contiguous.taken {stop : Nat → Bool} {startHeight i : Nat} {blocks : List (PulledBlock θ)}
    (h : Contiguous startHeight blocks) : Contiguous startHeight (takenBlocks stop i blocks) := by
  induction blocks generalizing startHeight i with
  | nil => exact h
  | cons block blocks ih =>
      rw [contiguous_cons] at h
      unfold takenBlocks
      split
      · rfl
      · exact contiguous_cons.mpr ⟨h.1, ih h.2⟩

variable [DecidableEq θ] {rest : WalletRest θ}

/-- A loop that is stopped does what it does on the blocks before. -/
theorem pullLoop_eq {stop : Nat → Bool} {i : Nat} {blocks : List (PulledBlock θ)}
    {st : PullState θ} :
    pullLoop rest stop i blocks st = (takenBlocks stop i blocks).foldlM (pullBlock rest) st := by
  induction blocks generalizing i st with
  | nil => rfl
  | cons block blocks ih =>
      unfold pullLoop takenBlocks
      split
      · rfl
      · rw [List.foldlM_cons]
        congr 1
        funext st'
        exact ih

end

/-! ## The top of the chain -/

namespace WalletChainShortener

variable {θ : Type*} {s : WalletChainShortener θ} {ids : Nat → θ}

theorem setItem_ne_nil {α : Type*} (items : List (Nat × α)) (key : Nat) (value : α) :
    StepWindow.setItem items key value ≠ [] := by
  cases items with
  | nil => exact List.cons_ne_nil _ _
  | cons item items =>
      unfold StepWindow.setItem
      split
      · exact List.cons_ne_nil _ _
      · split
        · exact List.cons_ne_nil _ _
        · exact List.cons_ne_nil _ _

theorem trim_ne_nil {α : Type*} {limit : Nat} {items : List (Nat × α)} (hlimit : 0 < limit)
    (h : items ≠ []) : StepWindow.trim limit items ≠ [] := by
  unfold StepWindow.trim
  split
  case isTrue hlong =>
    intro hnil
    have hlength : items.tail.length = 0 := by rw [hnil, List.length_nil]
    rw [List.length_tail] at hlength
    omega
  case isFalse => exact h

/-- The block that was pushed is the last one. -/
theorem Holds.topBlock_afterPush (h : Holds s ids) {id : θ} {height : Nat}
    (hnext : s.Consecutive height) : (s.afterPush id height).topBlock = (height, id) := by
  have hholds : Holds (s.afterPush id height) (Function.update ids height id) := (h.push hnext).2
  unfold topBlock
  by_cases hzero : height = 0
  · have hlast : s.last20Blocks = [] := by
      refine h.last20.eq_nil_of_size_le (by decide) ?_
      rcases hnext with hsize | hsize <;> omega
    unfold afterPush
    rw [if_pos hzero, hlast, hzero]
    rfl
  · have hsize : (s.afterPush id height).localBcSize = height + 1 := by
      unfold afterPush
      rw [if_neg hzero]
    have hne : (s.afterPush id height).last20Blocks ≠ [] := by
      unfold afterPush pushed
      rw [if_neg hzero, Nat.mod_one, if_pos rfl]
      exact trim_ne_nil (by decide) (setItem_ne_nil _ _ _)
    obtain ⟨first, count, hfirst, -, hwindow, hcovers⟩ := hholds.last20
    rw [hsize] at hcovers ⊢
    rw [hwindow] at hne ⊢
    cases count with
    | zero => exact absurd StepWindow.window_zero hne
    | succ count =>
        have htop : 1 * (first + count) = height := by
          have := hcovers (Nat.succ_pos count)
          omega
        rw [StepWindow.getLast?_window, htop]
        simp only [Function.update_self, Nat.add_sub_cancel]

end WalletChainShortener

/-! ## Calls that the rest of the wallet takes -/

section

variable {θ : Type*}

/-- The result is there with the property, or the rest of the wallet has thrown. -/
def Returns (rest : WalletRest θ) {α : Type*} (r : Except PullError α) (p : α → Prop) : Prop :=
  (∃ a, r = .ok a ∧ p a) ∨ (r = .error .refused ∧ ∃ calls c, rest.refuses calls c = true)

variable {rest : WalletRest θ}

theorem Returns.pure {α : Type*} {a : α} {p : α → Prop} (h : p a) :
    Returns rest (.ok a) p :=
  Or.inl ⟨a, rfl, h⟩

theorem Returns.bind {α β : Type u} {r : Except PullError α} {f : α → Except PullError β}
    {p : α → Prop} {q : β → Prop} (h : Returns rest r p) (hf : ∀ a, p a → Returns rest (f a) q) :
    Returns rest (r >>= f) q := by
  rcases h with ⟨a, rfl, ha⟩ | ⟨rfl, hrefuses⟩
  · exact hf a ha
  · exact Or.inr ⟨rfl, hrefuses⟩

theorem Returns.bind_ok {α β : Type u} {a : α} {f : α → Except PullError β} {p : β → Prop}
    (h : Returns rest (f a) p) : Returns rest (Except.ok a >>= f) p :=
  h

theorem Returns.bind_bind {α β γ : Type u} {r : Except PullError α} {f : α → Except PullError β}
    {g : β → Except PullError γ} {p : β → Prop} {q : γ → Prop} (h : Returns rest (r >>= f) p)
    (hg : ∀ b, p b → Returns rest (g b) q) : Returns rest (r >>= fun a => f a >>= g) q := by
  rw [← bind_assoc]
  exact h.bind hg

theorem Returns.mono {α : Type*} {r : Except PullError α} {p q : α → Prop}
    (h : Returns rest r p) (himp : ∀ a, p a → q a) : Returns rest r q :=
  h.imp (fun ⟨a, ha, hp⟩ => ⟨a, ha, himp a hp⟩) id

theorem returns_call {w : PullingWallet θ} {c : WalletCall θ} {chain : WalletChainShortener θ} :
    Returns rest (w.call rest c chain)
      (· = { w with chain, calls := w.calls ++ [c] }) := by
  unfold PullingWallet.call
  split
  case isTrue hrefuses => exact Or.inr ⟨rfl, _, _, hrefuses⟩
  case isFalse => exact Returns.pure rfl

open WalletChainShortener in
/-- The next block is recorded on top. -/
theorem returns_processNewBlockchainEntry {w : PullingWallet θ} {ids : Nat → θ}
    {block : PulledBlock θ} (h : Reached w.chain ids) (hnext : w.chain.Consecutive block.height) :
    Returns rest (processNewBlockchainEntry rest block block.height w) fun w' =>
      w' = { w with
        chain := w.chain.afterPush block.id block.height
        calls := w.calls ++ [.processNewBlockchainEntry block block.height] } ∧
      Reached w'.chain (Function.update ids block.height block.id) ∧
      w'.chain.topBlock = (block.height, block.id) ∧ w'.chain.localBcSize = block.height + 1 := by
  have hpush : w.chain.pushNewBlockId block.id block.height =
      .ok (w.chain.afterPush block.id block.height) := (h.holds.push hnext).1
  unfold processNewBlockchainEntry
  rw [if_neg, hpush]
  · refine returns_call.mono ?_
    rintro w' rfl
    refine ⟨rfl, h.push hnext hpush, h.holds.topBlock_afterPush hnext, ?_⟩
    unfold afterPush
    split
    case isTrue hzero => rw [hzero]
    case isFalse => rfl
  · rintro ⟨hne, hguard⟩
    rcases hnext with hsize | hsize
    · exact hguard (Or.inr hsize.le)
    · exact hne hsize.symm

/-! ## The blocks that are new -/

/-- The calls that process blocks. -/
def processCalls (blocks : List (PulledBlock θ)) : List (WalletCall θ) :=
  blocks.map fun block => .processNewBlockchainEntry block block.height

/-- The ids that the wallet has pushed last, after some blocks. -/
def recordIds (ids : Nat → θ) (blocks : List (PulledBlock θ)) : Nat → θ :=
  blocks.foldl (fun ids block => Function.update ids block.height block.id) ids

/-- What the loop does with blocks on top of the chain. -/
structure Appended (w w' : PullingWallet θ) (ids : Nat → θ) (blocks : List (PulledBlock θ)) :
    Prop where
  calls : w'.calls = w.calls ++ processCalls blocks
  minimumHeight : w'.minimumHeight = w.minimumHeight
  reached : WalletChainShortener.Reached w'.chain (recordIds ids blocks)
  size : w'.chain.localBcSize = w.chain.localBcSize + blocks.length
  top : w'.chain.topBlock =
    (blocks.getLast?.map fun block => (block.height, block.id)).getD w.chain.topBlock

theorem Appended.refl {w : PullingWallet θ} {ids : Nat → θ}
    (h : WalletChainShortener.Reached w.chain ids) : Appended w w ids [] where
  calls := (List.append_nil _).symm
  minimumHeight := rfl
  reached := h
  size := rfl
  top := rfl

theorem Appended.cons {w w' w'' : PullingWallet θ} {ids : Nat → θ} {block : PulledBlock θ}
    {blocks : List (PulledBlock θ)} (h : Appended w w' ids [block])
    (h' : Appended w' w'' (Function.update ids block.height block.id) blocks) :
    Appended w w'' ids (block :: blocks) where
  calls := by
    rw [h'.calls, h.calls, List.append_assoc]
    rfl
  minimumHeight := h'.minimumHeight.trans h.minimumHeight
  reached := h'.reached
  size := by
    rw [h'.size, h.size, List.length_singleton, List.length_cons]
    omega
  top := by
    rw [h'.top, h.top]
    cases hlast : blocks.getLast? with
    | none =>
        rw [List.getLast?_eq_none_iff.mp hlast]
        rfl
    | some last =>
        have hlast' : (block :: blocks).getLast? = some last := by
          rw [List.getLast?_cons, hlast]
          rfl
        rw [hlast']
        rfl

variable [DecidableEq θ]

/-- The state of the loop is at the top of the chain. -/
structure AtTop (st : PullState θ) (ids : Nat → θ) : Prop where
  reached : WalletChainShortener.Reached st.wallet.chain ids
  matched : st.beenMatchedBlock = true
  index : st.currentIndex = st.wallet.chain.localBcSize

theorem returns_pullBlock_of_atTop {st : PullState θ} {ids : Nat → θ} {block : PulledBlock θ}
    (h : AtTop st ids) (hheight : block.height = st.currentIndex) :
    Returns rest (pullBlock rest st block) fun st' =>
      AtTop st' (Function.update ids block.height block.id) ∧
        Appended st.wallet st'.wallet ids [block] := by
  have hsize : block.height = st.wallet.chain.localBcSize := hheight.trans h.index
  unfold pullBlock
  dsimp only
  rw [if_neg (by omega), if_pos hsize, if_pos h.matched, ← hheight]
  refine Returns.bind (returns_processNewBlockchainEntry h.reached (Or.inr hsize.symm)) ?_
  rintro w' ⟨hw', hreached, htop, hsize'⟩
  refine Returns.pure ⟨⟨hreached, h.matched, ?_⟩, ?_⟩
  · show block.height + 1 = w'.chain.localBcSize
    exact hsize'.symm
  · refine ⟨?_, ?_, hreached, ?_, htop⟩
    · show w'.calls = _
      rw [hw']
      rfl
    · show w'.minimumHeight = _
      rw [hw']
    · show w'.chain.localBcSize = _
      rw [hsize', hsize]
      rfl

/-- From the top of the chain on, every block is processed. -/
theorem returns_pullBlocks_of_atTop {blocks : List (PulledBlock θ)} {st : PullState θ}
    {ids : Nat → θ} (h : AtTop st ids) (hblocks : Contiguous st.currentIndex blocks) :
    Returns rest (blocks.foldlM (pullBlock rest) st) fun st' =>
      Appended st.wallet st'.wallet ids blocks := by
  induction blocks generalizing st ids with
  | nil => exact Returns.pure (Appended.refl h.reached)
  | cons block blocks ih =>
      rw [contiguous_cons] at hblocks
      rw [List.foldlM_cons]
      refine Returns.bind (returns_pullBlock_of_atTop h hblocks.1) ?_
      rintro st' ⟨htop, happended⟩
      have hindex : st'.currentIndex = st.currentIndex + 1 := by
        rw [htop.index, happended.size, h.index]
        rfl
      refine (ih htop ?_).mono fun st'' h' => happended.cons h'
      rw [hindex]
      exact hblocks.2

/-! ## The blocks that the wallet has -/

/-- The wallet holds the block's id at its height. -/
def Held (s : WalletChainShortener θ) (block : PulledBlock θ) : Prop :=
  block.height < s.localBcSize ∧
    s.checkIfBlockMatched block.height block.id = .ok ⟨true, true, false⟩

/-- The check of the block asks for a full reset. -/
def NeedsFullReset (s : WalletChainShortener θ) (block : PulledBlock θ) : Prop :=
  ∃ m, s.checkIfBlockMatched block.height block.id = .ok m ∧ m.fullResetNeeded = true

/-- The loop has found every block so far in the wallet. -/
structure AmongHeld (st : PullState θ) (ids : Nat → θ) (height : Nat) : Prop where
  reached : WalletChainShortener.Reached st.wallet.chain ids
  index : st.currentIndex = height
  matched : st.beenMatchedBlock = true → st.lastMatchedIndex + 1 = height

theorem pullBlock_of_held {st : PullState θ} {block : PulledBlock θ}
    (h : Held st.wallet.chain block) :
    pullBlock rest st block = .ok { st with
      lastMatchedIndex := block.height
      beenMatchedBlock := true
      currentIndex := st.currentIndex + 1 } := by
  obtain ⟨hlt, hcheck⟩ := h
  unfold pullBlock
  dsimp only
  rw [if_neg (by omega), if_neg (by omega), hcheck]
  rfl

/-- A block that matches asks for no reset. -/
theorem eq_of_blockMatched {s : WalletChainShortener θ} {i : Nat} {id : θ} {m : BlockMatch}
    (h : s.checkIfBlockMatched i id = .ok m) (hmatched : m.blockMatched = true) :
    m = ⟨true, true, false⟩ := by
  have hlazy : ∀ {m : BlockMatch}, s.lazyLookup i id = .ok m → m.blockMatched = true →
      m = ⟨true, true, false⟩ := by
    intro m h hmatched
    unfold WalletChainShortener.lazyLookup at h
    split at h
    · cases h
    · cases h
      cases hmatched
    · split at h
      · cases h
        rw [show decide _ = true from hmatched]
      · cases h
        cases hmatched
  unfold WalletChainShortener.checkIfBlockMatched at h
  split at h
  · split at h
    · cases h
      rw [show decide (id = s.genesis) = true from hmatched]
      rfl
    · cases h
      cases hmatched
  · split at h
    · split at h
      · split at h
        · split at h
          · cases h
            rw [show decide _ = true from hmatched]
          · cases h
        · cases h
      · exact hlazy h hmatched
    · exact hlazy h hmatched

/-- Above the genesis block, a wallet that has no other one asks for a full reset. -/
theorem checkIfBlockMatched_of_genesis_alone {s : WalletChainShortener θ} {ids : Nat → θ} {i : Nat}
    {id : θ} (h : s.Holds ids) (hsize : s.localBcSize = 1) (hi : 0 < i) :
    s.checkIfBlockMatched i id = .ok ⟨false, false, true⟩ := by
  have h20 := h.last20.eq_nil_of_size_le (by decide) hsize.le
  have h10 := h.every10.eq_nil_of_size_le (by decide) hsize.le
  have h100 := h.every100.eq_nil_of_size_le (by decide) hsize.le
  have h1000 := h.every1000.eq_nil_of_size_le (by decide) hsize.le
  unfold WalletChainShortener.checkIfBlockMatched WalletChainShortener.lazyLookup
    WalletChainShortener.lookupItemAround WalletChainShortener.containerAround
  rw [if_neg (by omega), h20, h10, h100, h1000]
  rfl

/-- The check of a block that is not above the chain answers. -/
theorem exists_check {s : WalletChainShortener θ} {ids : Nat → θ} {block : PulledBlock θ}
    (h : WalletChainShortener.Reached s ids)
    (hrange : block.height < s.localBcSize ∨ s.localBcSize = 1) :
    ∃ m, s.checkIfBlockMatched block.height block.id = .ok m := by
  rcases hrange with hlt | hone
  · obtain ⟨m, hm, _⟩ := h.holds.check hlt block.id
    exact ⟨m, hm⟩
  · rcases Nat.eq_zero_or_pos block.height with hzero | hpos
    · obtain ⟨m, hm, _⟩ := h.holds.check (show block.height < s.localBcSize by omega) block.id
      exact ⟨m, hm⟩
    · exact ⟨_, checkIfBlockMatched_of_genesis_alone h.holds hone hpos⟩

/-- The height from which the wallet is detached for the first block that it does not hold. -/
def DetachHeight (s : WalletChainShortener θ) (block : PulledBlock θ) (height : Nat) : Prop :=
  (NeedsFullReset s block ∧ height = 1) ∨ (¬ NeedsFullReset s block ∧ height = block.height)

/-- What the loop does with the first block that the wallet does not hold, and with those
that follow. -/
structure Reorganized (w w' : PullingWallet θ) (ids : Nat → θ) (first : PulledBlock θ)
    (blocks : List (PulledBlock θ)) : Prop where
  calls : ∃ height, DetachHeight w.chain first height ∧
    w'.calls = w.calls ++ .detachBlockchain height :: processCalls (first :: blocks)
  minimumHeight : w'.minimumHeight = w.minimumHeight
  reached : WalletChainShortener.Reached w'.chain (recordIds ids (first :: blocks))
  top : w'.chain.topBlock =
    (((first :: blocks).getLast?.map fun block => (block.height, block.id)).getD w.chain.topBlock)

omit [DecidableEq θ] in
/-- A detach, and the block that comes next. -/
theorem returns_detach_and_process {w : PullingWallet θ} {ids : Nat → θ} {block : PulledBlock θ}
    {includingHeight : Nat} (h : WalletChainShortener.Reached w.chain ids)
    (hle : includingHeight ≤ w.chain.localBcSize)
    (hnext : includingHeight = 1 ∨ includingHeight = block.height) :
    Returns rest (detachBlockchain rest includingHeight w >>=
        processNewBlockchainEntry rest block block.height) fun w' =>
      w'.calls = w.calls ++ [.detachBlockchain includingHeight,
        .processNewBlockchainEntry block block.height] ∧
      w'.minimumHeight = w.minimumHeight ∧
      WalletChainShortener.Reached w'.chain (Function.update ids block.height block.id) ∧
      w'.chain.topBlock = (block.height, block.id) ∧ w'.chain.localBcSize = block.height + 1 := by
  unfold detachBlockchain
  refine Returns.bind returns_call ?_
  intro w₁ hw₁
  subst hw₁
  have hconsecutive : (w.chain.detach includingHeight).Consecutive block.height := hnext
  refine (returns_processNewBlockchainEntry (h.detach hle) hconsecutive).mono ?_
  intro w' ⟨hw', hreached, htop, hsize⟩
  refine ⟨?_, ?_, hreached, htop, hsize⟩
  · rw [hw']
    exact List.append_assoc _ _ _
  · rw [hw']

theorem not_blockMatched_of_not_held {s : WalletChainShortener θ} {ids : Nat → θ}
    {block : PulledBlock θ} {m : BlockMatch} (h : WalletChainShortener.Reached s ids)
    (hrange : block.height < s.localBcSize ∨ s.localBcSize = 1 ∧ block.height ≠ 1)
    (hheld : ¬ Held s block) (hm : s.checkIfBlockMatched block.height block.id = .ok m) :
    (m.blockFound && m.blockMatched) = false := by
  by_contra hboth
  rw [Bool.not_eq_false, Bool.and_eq_true] at hboth
  have hmatch := eq_of_blockMatched hm hboth.2
  refine hheld ⟨?_, hmatch ▸ hm⟩
  by_contra habove
  have hreset : s.checkIfBlockMatched block.height block.id = .ok ⟨false, false, true⟩ :=
    checkIfBlockMatched_of_genesis_alone h.holds (by omega) (by omega)
  rw [hm, hmatch] at hreset
  cases hreset

theorem returns_pullBlock_of_not_held {st : PullState θ} {ids : Nat → θ} {block : PulledBlock θ}
    (h : AmongHeld st ids block.height)
    (hrange : block.height < st.wallet.chain.localBcSize ∨
      st.wallet.chain.localBcSize = 1 ∧ block.height ≠ 1)
    (hheld : ¬ Held st.wallet.chain block)
    (hmatched : st.beenMatchedBlock = true ∨ NeedsFullReset st.wallet.chain block) :
    Returns rest (pullBlock rest st block) fun st' =>
      AtTop st' (Function.update ids block.height block.id) ∧
        st'.currentIndex = block.height + 1 ∧ Reorganized st.wallet st'.wallet ids block [] := by
  obtain ⟨m, hm⟩ := exists_check h.reached (hrange.imp id And.left)
  have hunmatched := not_blockMatched_of_not_held h.reached hrange hheld hm
  unfold pullBlock
  dsimp only
  rw [if_neg (by omega), if_neg (by omega), hm]
  dsimp only
  rw [hunmatched]
  by_cases hreset : m.fullResetNeeded = true
  · have hneeds : NeedsFullReset st.wallet.chain block := ⟨m, hm, hreset⟩
    rw [hreset]
    refine Returns.bind_bind (returns_detach_and_process h.reached ?_ (Or.inl rfl)) ?_
    · show 1 ≤ st.wallet.chain.localBcSize
      omega
    · rintro w' ⟨hcalls, hmin, hreached, htop, hsize⟩
      have hindex : st.currentIndex + 1 = block.height + 1 := congrArg Nat.succ h.index
      exact Returns.pure ⟨⟨hreached, rfl, hindex.trans hsize.symm⟩, hindex,
        ⟨1, Or.inl ⟨hneeds, rfl⟩, hcalls⟩, hmin, hreached, htop⟩
  · have hneeds : ¬ NeedsFullReset st.wallet.chain block := by
      rintro ⟨m', hm', hreset'⟩
      rw [hm] at hm'
      cases hm'
      exact hreset hreset'
    have hbeen := hmatched.resolve_right hneeds
    have hlast := h.matched hbeen
    rw [Bool.not_eq_true] at hreset
    simp only [hreset, Bool.false_eq_true, if_false, hbeen, hlast, if_true]
    refine Returns.bind_bind (returns_detach_and_process h.reached ?_ (Or.inr rfl)) ?_
    · refine (hrange.resolve_right ?_).le
      rintro ⟨hone, hne⟩
      -- a wallet of the genesis block alone asks for a reset
      exact hneeds ⟨_, checkIfBlockMatched_of_genesis_alone h.reached.holds hone (by omega), rfl⟩
    · rintro w' ⟨hcalls, hmin, hreached, htop, hsize⟩
      have hindex : st.currentIndex + 1 = block.height + 1 := congrArg Nat.succ h.index
      exact Returns.pure ⟨⟨hreached, rfl, hindex.trans hsize.symm⟩, hindex,
        ⟨_, Or.inr ⟨hneeds, rfl⟩, hcalls⟩, hmin, hreached, htop⟩

omit [DecidableEq θ] in
theorem Appended.topBlock_eq {w w' : PullingWallet θ} {ids : Nat → θ} {first : PulledBlock θ}
    {blocks : List (PulledBlock θ)} {top : Nat × θ} (h : Appended w w' ids blocks)
    (htop : w.chain.topBlock = (first.height, first.id)) :
    w'.chain.topBlock =
      ((first :: blocks).getLast?.map fun block => (block.height, block.id)).getD top := by
  rw [h.top, htop]
  cases hlast : blocks.getLast? with
  | none =>
      rw [List.getLast?_eq_none_iff.mp hlast]
      rfl
  | some last =>
      have hlast' : (first :: blocks).getLast? = some last := by
        rw [List.getLast?_cons, hlast]
        rfl
      rw [hlast']
      rfl

theorem Reorganized.append {w w' w'' : PullingWallet θ} {ids : Nat → θ} {first : PulledBlock θ}
    {blocks : List (PulledBlock θ)} (h : Reorganized w w' ids first [])
    (h' : Appended w' w'' (Function.update ids first.height first.id) blocks) :
    Reorganized w w'' ids first blocks where
  calls := by
    obtain ⟨height, hheight, hcalls⟩ := h.calls
    refine ⟨height, hheight, ?_⟩
    rw [h'.calls, hcalls, List.append_assoc]
    rfl
  minimumHeight := h'.minimumHeight.trans h.minimumHeight
  reached := h'.reached
  top := h'.topBlock_eq h.top

/-- What the loop does with the blocks that follow those the wallet holds. -/
inductive Brought (w w' : PullingWallet θ) (ids : Nat → θ) : List (PulledBlock θ) → Prop
  | none (h : w' = w) : Brought w w' ids []
  | appended {first : PulledBlock θ} {blocks : List (PulledBlock θ)}
      (hheight : first.height = w.chain.localBcSize) (h : Appended w w' ids (first :: blocks)) :
      Brought w w' ids (first :: blocks)
  | reorganized {first : PulledBlock θ} {blocks : List (PulledBlock θ)}
      (hheight : first.height ≠ w.chain.localBcSize) (hheld : ¬ Held w.chain first)
      (h : Reorganized w w' ids first blocks) : Brought w w' ids (first :: blocks)

/-- What a response does: the blocks that the wallet holds are skipped. -/
def Pulled (w w' : PullingWallet θ) (ids : Nat → θ) (blocks : List (PulledBlock θ)) : Prop :=
  ∃ skipped brought, blocks = skipped ++ brought ∧
    (∀ block ∈ skipped, Held w.chain block ∧ ids block.height = block.id) ∧ Brought w w' ids brought

/-- The wallet holds the first block, or must be reset for it. -/
def FirstKnown (s : WalletChainShortener θ) (blocks : List (PulledBlock θ)) : Prop :=
  ∀ first, blocks.head? = some first → Held s first ∨ NeedsFullReset s first

theorem Held.id_eq {s : WalletChainShortener θ} {ids : Nat → θ} {block : PulledBlock θ}
    (hheld : Held s block) (h : WalletChainShortener.Reached s ids) :
    ids block.height = block.id := by
  obtain ⟨m, hm, htells⟩ := h.holds.check hheld.1 block.id
  rw [hheld.2] at hm
  cases hm
  exact (htells.matched rfl rfl).symm

/-- The whole loop, from a state in which the wallet has every block so far. -/
theorem returns_pullBlocks {blocks : List (PulledBlock θ)} {st : PullState θ} {ids : Nat → θ}
    {height : Nat} (h : AmongHeld st ids height) (hblocks : Contiguous height blocks)
    (hrange : height < st.wallet.chain.localBcSize ∨
      (height = st.wallet.chain.localBcSize ∧ st.beenMatchedBlock = true) ∨
      (st.wallet.chain.localBcSize = 1 ∧ height ≠ 1))
    (hfirst : st.beenMatchedBlock = true ∨ FirstKnown st.wallet.chain blocks) :
    Returns rest (blocks.foldlM (pullBlock rest) st) fun st' =>
      Pulled st.wallet st'.wallet ids blocks := by
  induction blocks generalizing st height with
  | nil => exact Returns.pure ⟨[], [], rfl, fun _ h => (by cases h), .none rfl⟩
  | cons block blocks ih =>
      obtain ⟨hheight, hrest⟩ := contiguous_cons.mp hblocks
      subst hheight
      by_cases hheld : Held st.wallet.chain block
      · rw [List.foldlM_cons, pullBlock_of_held hheld]
        have hnext : AmongHeld { st with
            lastMatchedIndex := block.height
            beenMatchedBlock := true
            currentIndex := st.currentIndex + 1 } ids (block.height + 1) :=
          ⟨h.reached, congrArg Nat.succ h.index, fun _ => rfl⟩
        refine (ih hnext hrest ?_ (Or.inl rfl)).mono ?_
        · have hlt := hheld.1
          rcases Nat.lt_or_ge (block.height + 1) st.wallet.chain.localBcSize with hbelow | htop
          · exact Or.inl hbelow
          · refine Or.inr (Or.inl ⟨?_, rfl⟩)
            show block.height + 1 = st.wallet.chain.localBcSize
            omega
        · rintro st' ⟨skipped, brought, hsplit, hskipped, hbrought⟩
          refine ⟨block :: skipped, brought, by rw [hsplit, List.cons_append], ?_, hbrought⟩
          intro other hother
          rcases List.mem_cons.mp hother with rfl | hother
          · exact ⟨hheld, hheld.id_eq h.reached⟩
          · exact hskipped other hother
      · by_cases htop : block.height = st.wallet.chain.localBcSize
        · have hbeen : st.beenMatchedBlock = true := by
            rcases hrange with hlt | ⟨_, hbeen⟩ | ⟨hone, hne⟩
            · omega
            · exact hbeen
            · omega
          have hattop : AtTop st ids := ⟨h.reached, hbeen, h.index.trans htop⟩
          rw [← h.index] at hblocks
          refine (returns_pullBlocks_of_atTop hattop hblocks).mono ?_
          intro st' happended
          exact ⟨[], block :: blocks, rfl, fun _ h => (by cases h), .appended htop happended⟩
        · have hrange' : block.height < st.wallet.chain.localBcSize ∨
              st.wallet.chain.localBcSize = 1 ∧ block.height ≠ 1 := by
            rcases hrange with hlt | ⟨heq, _⟩ | hone
            · exact Or.inl hlt
            · exact absurd heq htop
            · exact Or.inr hone
          have hknown : st.beenMatchedBlock = true ∨ NeedsFullReset st.wallet.chain block :=
            hfirst.imp id fun hfirst => (hfirst block rfl).resolve_left hheld
          rw [List.foldlM_cons]
          refine Returns.bind (returns_pullBlock_of_not_held h hrange' hheld hknown) ?_
          rintro st' ⟨hattop, hindex, hreorganized⟩
          rw [← hindex] at hrest
          refine (returns_pullBlocks_of_atTop hattop hrest).mono ?_
          intro st'' happended
          exact ⟨[], block :: blocks, rfl, fun _ h => (by cases h),
            .reorganized htop hheld (hreorganized.append happended)⟩

/-- A first block that the wallet neither holds nor must be reset for ends the loop. -/
theorem pullBlock_eq_unmatched {st : PullState θ} {ids : Nat → θ} {block : PulledBlock θ}
    (h : WalletChainShortener.Reached st.wallet.chain ids)
    (hrange : block.height < st.wallet.chain.localBcSize ∨
      st.wallet.chain.localBcSize = 1 ∧ block.height ≠ 1)
    (hmatched : st.beenMatchedBlock = false) (hheld : ¬ Held st.wallet.chain block)
    (hreset : ¬ NeedsFullReset st.wallet.chain block) :
    pullBlock rest st block = .error .unmatchedBlock := by
  obtain ⟨m, hm⟩ := exists_check h (hrange.imp id And.left)
  have hunmatched := not_blockMatched_of_not_held h hrange hheld hm
  have hreset' : m.fullResetNeeded = false := by
    by_contra htrue
    rw [Bool.not_eq_false] at htrue
    exact hreset ⟨m, hm, htrue⟩
  unfold pullBlock
  dsimp only
  rw [if_neg (by omega), if_neg (by omega), hm]
  simp only [hunmatched, hreset', hmatched, Bool.false_eq_true, if_false]
  rfl

/-! ## A response -/

/-- The response begins with the genesis block, and the wallet has no other one. -/
def BeginsAtGenesis (s : WalletChainShortener θ) (startHeight : Nat) : Prop :=
  startHeight = 0 ∧ s.localBcSize = 1

/-- The wallet after `process_genesis_if_needed`. -/
structure GenesisProcessed (rest : WalletRest θ) (w w' : PullingWallet θ) (ids ids' : Nat → θ)
    (genesis : PulledBlock θ) : Prop where
  calls : w'.calls =
    w.calls ++ if rest.hasTransfers w.calls then [] else [.processGenesis genesis]
  minimumHeight : w'.minimumHeight = w.minimumHeight
  reached : WalletChainShortener.Reached w'.chain ids'
  size : w'.chain.localBcSize = 1
  ids_eq : ids' = if rest.hasTransfers w.calls then ids else Function.update ids 0 genesis.id

omit [DecidableEq θ] in
theorem returns_processGenesisIfNeeded {w : PullingWallet θ} {ids : Nat → θ}
    {genesis : PulledBlock θ} (h : WalletChainShortener.Reached w.chain ids)
    (hsize : w.chain.localBcSize = 1) :
    Returns rest (processGenesisIfNeeded rest genesis w) fun w' =>
      ∃ ids', GenesisProcessed rest w w' ids ids' genesis := by
  unfold processGenesisIfNeeded
  by_cases htransfers : rest.hasTransfers w.calls = true
  · rw [if_pos htransfers]
    refine Returns.pure ⟨ids, ?_, rfl, h, hsize, ?_⟩
    · rw [if_pos htransfers, List.append_nil]
    · rw [if_pos htransfers]
  · rw [if_neg htransfers, if_neg (by omega)]
    refine returns_call.mono ?_
    rintro w' rfl
    refine ⟨Function.update ids 0 genesis.id, ?_, rfl, h.push (Or.inl hsize) rfl, rfl, ?_⟩
    · rw [if_neg htransfers]
    · rw [if_neg htransfers]

/-- What a response does that begins with the genesis block. -/
def PulledFromGenesis (rest : WalletRest θ) (w w' : PullingWallet θ) (ids : Nat → θ)
    (genesis : PulledBlock θ) (blocks : List (PulledBlock θ)) : Prop :=
  ∃ w₁ ids', GenesisProcessed rest w w₁ ids ids' genesis ∧ Appended w₁ w' ids' blocks

/-- What a response does. -/
def PulledResponse (rest : WalletRest θ) (stop : Nat → Bool) (w w' : PullingWallet θ)
    (ids : Nat → θ) (startHeight : Nat) : List (PulledBlock θ) → Prop
  | [] => w' = w
  | first :: blocks =>
      (BeginsAtGenesis w.chain startHeight ∧
        PulledFromGenesis rest w w' ids first (takenBlocks stop 0 blocks)) ∨
      (¬ BeginsAtGenesis w.chain startHeight ∧
        Pulled w w' ids (takenBlocks stop 0 (first :: blocks)))

theorem returns_handlePulledBlocks {stop : Nat → Bool} {startHeight : Nat}
    {blocks : List (PulledBlock θ)} {w : PullingWallet θ} {ids : Nat → θ}
    (h : WalletChainShortener.Reached w.chain ids) (hblocks : Contiguous startHeight blocks)
    (hrange : startHeight < w.chain.localBcSize ∨
      w.chain.localBcSize = 1 ∧ startHeight ≠ 1)
    (hfirst : BeginsAtGenesis w.chain startHeight ∨ FirstKnown w.chain (takenBlocks stop 0 blocks)) :
    Returns rest (handlePulledBlocks rest stop startHeight blocks w) fun result =>
      PulledResponse rest stop w result.1 ids startHeight blocks := by
  unfold handlePulledBlocks
  cases blocks with
  | nil => exact Returns.pure rfl
  | cons first blocks =>
      obtain ⟨hheight, hrest⟩ := contiguous_cons.mp hblocks
      by_cases hgenesis : BeginsAtGenesis w.chain startHeight
      · have hstart : startHeight = 0 ∧ w.chain.localBcSize = 1 := hgenesis
        dsimp only
        rw [if_pos hstart, if_neg (by omega)]
        refine Returns.bind (returns_processGenesisIfNeeded h hstart.2) ?_
        rintro w₁ ⟨ids', hprocessed⟩
        have hattop : AtTop (PullState.mk w₁ 0 (startHeight + 1) true 0) ids' :=
          ⟨hprocessed.reached, rfl, by rw [hstart.1, hprocessed.size]⟩
        refine Returns.bind_ok ?_
        dsimp only
        rw [pullLoop_eq]
        refine Returns.bind (returns_pullBlocks_of_atTop hattop hrest.taken) ?_
        intro st happended
        exact Returns.pure (Or.inl ⟨hgenesis, w₁, ids', hprocessed, happended⟩)
      · have hamong : AmongHeld (PullState.mk w 0 startHeight false 0) ids startHeight :=
          ⟨h, rfl, fun hfalse => by cases hfalse⟩
        dsimp only
        rw [if_neg (show ¬ (startHeight = 0 ∧ w.chain.localBcSize = 1) from hgenesis)]
        refine Returns.bind_ok ?_
        dsimp only
        rw [pullLoop_eq]
        refine Returns.bind (returns_pullBlocks hamong hblocks.taken (hrange.imp id Or.inr)
          (Or.inr (hfirst.resolve_left hgenesis))) ?_
        intro st hpulled
        exact Returns.pure (Or.inr ⟨hgenesis, hpulled⟩)

/-- A response whose first block the wallet does not know is not taken. -/
theorem handlePulledBlocks_eq_unmatched {stop : Nat → Bool} {startHeight : Nat}
    {blocks : List (PulledBlock θ)} {w : PullingWallet θ} {ids : Nat → θ}
    (h : WalletChainShortener.Reached w.chain ids) (hblocks : Contiguous startHeight blocks)
    (hrange : startHeight < w.chain.localBcSize ∨
      w.chain.localBcSize = 1 ∧ startHeight ≠ 1)
    (hgenesis : ¬ BeginsAtGenesis w.chain startHeight)
    (hfirst : ¬ FirstKnown w.chain (takenBlocks stop 0 blocks)) :
    handlePulledBlocks rest stop startHeight blocks w = .error .unmatchedBlock := by
  unfold FirstKnown at hfirst
  push Not at hfirst
  obtain ⟨first, hhead, hheld, hreset⟩ := hfirst
  cases blocks with
  | nil => cases hhead
  | cons block blocks =>
      obtain ⟨hheight, _⟩ := contiguous_cons.mp hblocks
      unfold takenBlocks at hhead
      by_cases hstop : stop 0 = true
      · rw [if_pos hstop] at hhead
        cases hhead
      · rw [if_neg hstop] at hhead
        cases hhead
        rw [← hheight] at hrange
        have hpull : pullBlock rest (PullState.mk w 0 startHeight false 0) first =
            .error .unmatchedBlock := pullBlock_eq_unmatched h hrange rfl hheld hreset
        unfold handlePulledBlocks
        dsimp only
        rw [if_neg (show ¬ (startHeight = 0 ∧ w.chain.localBcSize = 1) from hgenesis)]
        show (pullLoop rest stop 0 (first :: blocks) (PullState.mk w 0 startHeight false 0) >>= _) = _
        unfold pullLoop
        rw [if_neg hstop, hpull]
        rfl

/-- A response that begins at or below the wallet's top, or, for a wallet of the genesis
block alone, anywhere but at the next block.  What `handle_pulled_blocks` does when it
returns; and, when the rest of the wallet does not throw, when it does. -/
theorem pulled_blocks_processed (rest : WalletRest θ) (stop : Nat → Bool) {startHeight : Nat}
    {blocks : List (PulledBlock θ)} {w : PullingWallet θ} {ids : Nat → θ}
    (h : WalletChainShortener.Reached w.chain ids) (hblocks : Contiguous startHeight blocks)
    (hrange : startHeight < w.chain.localBcSize ∨
      w.chain.localBcSize = 1 ∧ startHeight ≠ 1) :
    (∀ result, handlePulledBlocks rest stop startHeight blocks w = .ok result →
      PulledResponse rest stop w result.1 ids startHeight blocks) ∧
    ((∀ calls c, rest.refuses calls c = false) →
      ((∃ result, handlePulledBlocks rest stop startHeight blocks w = .ok result) ↔
        BeginsAtGenesis w.chain startHeight ∨ FirstKnown w.chain (takenBlocks stop 0 blocks))) := by
  by_cases hfirst : BeginsAtGenesis w.chain startHeight ∨
      FirstKnown w.chain (takenBlocks stop 0 blocks)
  · rcases @returns_handlePulledBlocks _ rest _ stop _ _ _ _ h hblocks hrange hfirst with
      ⟨result, hresult, hpulled⟩ | ⟨hrefused, calls, c, hrefuses⟩
    · refine ⟨?_, fun _ => iff_of_true ⟨result, hresult⟩ hfirst⟩
      intro result' hresult'
      rw [hresult] at hresult'
      cases hresult'
      exact hpulled
    · refine ⟨?_, ?_⟩
      · intro result hresult
        rw [hrefused] at hresult
        cases hresult
      · intro haccepts
        rw [haccepts] at hrefuses
        cases hrefuses
  · have hneither := not_or.mp hfirst
    have herror : handlePulledBlocks rest stop startHeight blocks w = .error .unmatchedBlock :=
      handlePulledBlocks_eq_unmatched h hblocks hrange hneither.1 hneither.2
    refine ⟨?_, fun _ => iff_of_false ?_ hfirst⟩
    · intro result hresult
      rw [herror] at hresult
      cases hresult
    · rintro ⟨result, hresult⟩
      rw [herror] at hresult
      cases hresult

/-- The rest of a wallet that never throws. -/
def sampleRest : WalletRest Nat where
  refuses _ _ := false
  hasTransfers _ := false

/-- A wallet with the blocks 7, 8 and 9. -/
def samplePullingWallet : PullingWallet Nat where
  chain := ⟨3, 7, [(1, 8), (2, 9)], [], [], []⟩
  minimumHeight := 0
  calls := []

theorem reached_samplePullingWallet : WalletChainShortener.Reached samplePullingWallet.chain
    (Function.update (Function.update (fun _ => 7) 1 8) 2 9) :=
  .push (.push (.init rfl) (Or.inl rfl) rfl) (Or.inr rfl) rfl

/-- The block 9 is replaced: the wallet is detached once, and has the new blocks. -/
theorem pulled_blocks_processed_sample :
    ∃ result, handlePulledBlocks sampleRest (fun _ => false) 1 [⟨1, 8⟩, ⟨2, 10⟩, ⟨3, 11⟩]
      samplePullingWallet = .ok result ∧
        PulledResponse sampleRest (fun _ => false) samplePullingWallet result.1
          (Function.update (Function.update (fun _ => 7) 1 8) 2 9) 1
          [⟨1, 8⟩, ⟨2, 10⟩, ⟨3, 11⟩] ∧
        result.1.calls = [.detachBlockchain 2, .processNewBlockchainEntry ⟨2, 10⟩ 2,
          .processNewBlockchainEntry ⟨3, 11⟩ 3] := by
  have hblocks : Contiguous 1 [PulledBlock.mk 1 8, ⟨2, 10⟩, ⟨3, 11⟩] := rfl
  have hspec := pulled_blocks_processed sampleRest (fun _ => false) reached_samplePullingWallet
    hblocks (Or.inl (by decide))
  exact ⟨_, rfl, hspec.1 _ rfl, rfl⟩

/-- A response that ends below the wallet's top, of blocks that the wallet has, leaves the
wallet with its own top. -/
theorem pulled_blocks_below_top :
    ¬ ∀ (rest : WalletRest Nat) (w : PullingWallet Nat) (ids : Nat → Nat) (startHeight : Nat)
        (blocks : List (PulledBlock Nat)) (last : PulledBlock Nat) (result : PullingWallet Nat × Nat),
      WalletChainShortener.Reached w.chain ids → Contiguous startHeight blocks →
        startHeight < w.chain.localBcSize → blocks.getLast? = some last →
          handlePulledBlocks rest (fun _ => false) startHeight blocks w = .ok result →
            result.1.chain.topBlock = (last.height, last.id) := by
  intro hclaim
  have htop := hclaim sampleRest samplePullingWallet _ 1 [⟨1, 8⟩] ⟨1, 8⟩ (samplePullingWallet, 0)
    reached_samplePullingWallet rfl (by decide) rfl rfl
  exact absurd htop (by decide)

end

end Chinet
