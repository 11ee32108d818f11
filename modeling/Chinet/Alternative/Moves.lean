import Chinet.Alternative.Accept
import Chinet.Storage.FeeMedian
import Mathlib.Logic.Relation

/-!
# What a call does, move by move

`add_new_block` may push and pop many blocks and change the alternative containers on
the way.  Every procedure it consists of is a sequence of a few kinds of moves, and so
an invariant of the node has to be checked for these only.

A call happens in a database transaction: when it fails, the database is restored, but
the alternative containers stay as they are.
-/

namespace Chinet

open Procedure

variable {env : Env}

/-! ## Moves -/

def Node.altContainers (node : Node) :
    FiniteStore Hash AltBlockExtendedInfo × AltTxCounts × KeyimagesHeap :=
  (node.alternativeChains, node.alternativeChainsTxs, node.altblocksKeyimages)

/-- All but the checkpoint zone flag, the invalid blocks, the flag of a reorganization
and the cached difficulties. -/
def Node.contents (node : Node) := (node.db, node.pool, node.feeFields, node.altContainers)

/-- The main chain and the alternative containers stay; the transactions of the database
may have been written. -/
structure Refusal (node node' : Node) : Prop where
  feeStep : FeeStep node node'
  altContainers : node'.altContainers = node.altContainers

instance : IsPreorder Node Refusal where
  refl _ := ⟨Std.Refl.refl _, rfl⟩
  trans := fun _ _ _ h h' => ⟨IsTrans.trans _ _ _ h.feeStep h'.feeStep,
    h'.altContainers.trans h.altContainers⟩

inductive NodeMove (env : Env) : Node → Node → Prop
  | added {now : Nat} {bl : Block} {onboard : TransactionsMap} {node node' : Node}
      (hrun : handleBlockToMainChain env now bl (env.crypto.getBlockHash bl) onboard node =
        (.ok .addedToMainChain, node')) : NodeMove env node node'
  | removed {onboard : TransactionsMap} {node node' : Node}
      (hrun : popBlockFromBlockchain env node = (.ok onboard, node')) : NodeMove env node node'
  | accepted {now : Nat} {b : Block} {onboard : TransactionsMap} {place : AltPlace}
      {abei : AltBlockExtendedInfo} {node node' : Node}
      (hplace : findAltPlace node b.prevId = .ok (some place))
      (hrun : acceptAlternativeBlock env now b onboard place node = (.ok abei, node')) :
      NodeMove env node node'
  | erased (abei : AltBlockExtendedInfo) (node : Node) :
      NodeMove env node (doEraseAltblock env abei node)
  | pruned (node : Node) : NodeMove env node (pruneAgedAltBlocks env node)
  | cleared (node : Node) : NodeMove env node (clearAltblocks node)
  /-- A block that the main chain does not take, or does not give back. -/
  | refused {node node' : Node} (hrefusal : Refusal node node') : NodeMove env node node'
  | elsewhere {node node' : Node} (hcontents : node'.contents = node.contents) :
      NodeMove env node node'

abbrev NodeMoves (env : Env) : Node → Node → Prop := Relation.ReflTransGen (NodeMove env)

instance : IsPreorder Node (NodeMoves env) where
  refl _ := .refl
  trans _ _ _ := .trans

/-- A call in a database transaction, with steps of the kind `Step`. -/
inductive NodeCall (Step : Node → Node → Prop) (node : Node) : Node → Prop
  | committed {node' : Node} (h : Relation.ReflTransGen Step node node') : NodeCall Step node node'
  | aborted {node' : Node} (h : Relation.ReflTransGen Step node node') :
      NodeCall Step node { node' with db := node.db }

/-- The states between the calls of a node that starts without alternative blocks.  The
pool may change at any time. -/
inductive NodeReachable (Step : Node → Node → Prop) : Node → Prop
  | start {node : Node} (hdb : node.db = Db.empty)
      (halt : node.altContainers = (∅, ∅, ∅)) : NodeReachable Step node
  | call {node node' : Node} (hreach : NodeReachable Step node) (hcall : NodeCall Step node node') :
      NodeReachable Step node'
  | poolChanged {node : Node} (hreach : NodeReachable Step node)
      (pool : FiniteStore Hash TxDetails) : NodeReachable Step { node with pool }

/-! ## Invariants -/

/-- What every step keeps, and what does not depend on the database and the pool, holds
between all calls. -/
theorem NodeReachable.invariant {Step : Node → Node → Prop} {P : Node → Prop}
    (hstart : ∀ node, node.altContainers = (∅, ∅, ∅) → P node)
    (hstep : ∀ node node', Step node node' → P node → P node')
    (helse : ∀ node node', node'.altContainers = node.altContainers → P node → P node')
    {node : Node} (h : NodeReachable Step node) : P node := by
  have hpath : ∀ node node', Relation.ReflTransGen Step node node' → P node → P node' := by
    intro node node' hsteps hP
    induction hsteps with
    | refl => exact hP
    | tail _ hlast ih => exact hstep _ _ hlast ih
  induction h with
  | start hdb halt => exact hstart _ halt
  | call hreach hcall ih =>
      cases hcall with
      | committed hsteps => exact hpath _ _ hsteps ih
      | aborted hsteps =>
          refine helse _ _ ?_ (hpath _ _ hsteps ih)
          rfl
  | poolChanged hreach pool ih =>
      refine helse _ _ ?_ ih
      rfl

/-! ## Procedures -/

theorem moves_of_contents {α : Type} {x : NodeProcedure α} (hx : Keeps Node.contents x) :
    Follows (NodeMoves env) x :=
  fun node => .single (.elsewhere (hx node))

theorem refusalSteps : FrameSteps Refusal where
  median node := by
    have hview := congrArg (fun store => store.2.2) (keeps_getTxFeeMedian node)
    exact ⟨follows_getTxFeeMedian node, congrArg (fun view : AltView =>
      (view.alternativeChains, view.alternativeChainsTxs, view.altblocksKeyimages)) hview⟩
  same hframe hfee := by
    have hview := congrArg Prod.snd hframe
    exact ⟨feeSteps.same hframe hfee, congrArg (fun view : AltView =>
      (view.alternativeChains, view.alternativeChainsTxs, view.altblocksKeyimages)) hview⟩

/-! ### Blocks of the main chain -/

section

/-! A block that is refused has run procedures that write to the transactions of the
database only.  `R` is any relation that their steps respect. -/

variable {R : Node → Node → Prop} [IsPreorder Node R] (hR : FrameSteps R)

include hR

theorem rel_of_addBlockToMainChain_error {now : Nat} {bl : Block} {id : Hash}
    {onboard : TransactionsMap} {node node' : Node} {failure : Failure}
    (h : addBlockToMainChain env now bl id onboard node = (.error failure, node')) :
    R node node' := by
  have hheaders : Follows R (checkBlockHeader env now bl id) :=
    follows_checkBlockHeader env hR.storeSteps now bl id
  have hcoinbases : ∀ tx txId height, Follows R (addTransactionFromBlock env tx txId height) :=
    follows_addTransactionFromBlock env hR
  have htransactions : ∀ totals txIds,
      Follows R (addBlockTransactions env now bl id onboard 0 totals txIds) :=
    follows_addBlockTransactions env hR now bl id onboard 0
  unfold addBlockToMainChain at h
  rw [bind_error_iff] at h
  obtain h | ⟨⟨currentDiffic, stakeHash⟩, n₁, hheader, h⟩ := h
  · exact hheaders.rel_of_run h
  · refine IsTrans.trans _ _ _ (hheaders.rel_of_run hheader) ?_
    simp only [gets_bind] at h
    rw [bind_error_iff] at h
    obtain h | ⟨_, n₂, hcoinbase, h⟩ := h
    · exact (hcoinbases _ _ _).rel_of_run h
    · refine IsTrans.trans _ _ _ ((hcoinbases _ _ _).rel_of_run hcoinbase) ?_
      rw [bind_error_iff] at h
      obtain h | ⟨totals, n₃, htxs, h⟩ := h
      · exact (htransactions _ _).rel_of_run h
      · refine IsTrans.trans _ _ _ ((htransactions _ _).rel_of_run htxs) ?_
        rw [bind_error_iff] at h
        obtain h | ⟨bei, n₄, _, h⟩ := h
        · exact (follows_onReject (follows_makeBlockExtendedInfo env hR.storeSteps bl id totals
            currentDiffic stakeHash _) (follows_purgeBlockDataFromBlockchain env hR bl _)).rel_of_run h
        · cases h

/-- What a block leaves behind that is not added. -/
theorem rel_of_handleBlockToMainChain_refused {now : Nat} {bl : Block} {id : Hash}
    {onboard : TransactionsMap} {node node' : Node} {r : Except Failure BlockVerdict}
    (h : handleBlockToMainChain env now bl id onboard node = (r, node'))
    (hr : r ≠ .ok .addedToMainChain) : R node node' := by
  unfold handleBlockToMainChain at h
  rw [gets_bind] at h
  split at h
  · cases h
    exact Std.Refl.refl _
  · rw [bind_apply] at h
    rcases hrun : addBlockToMainChain env now bl id onboard node with ⟨failure | _, n⟩
    · have hstep := rel_of_addBlockToMainChain_error hR hrun
      cases failure with
      | rejected =>
          simp only [succeeds, hrun] at h
          cases h
          exact hstep
      | thrown =>
          simp only [succeeds, hrun] at h
          cases h
          exact hstep
    · simp only [succeeds, hrun] at h
      cases h
      exact absurd rfl hr

/-- What a block leaves behind that is not removed. -/
theorem rel_of_popBlockFromBlockchain_error {node node' : Node} {failure : Failure}
    (h : popBlockFromBlockchain env node = (.error failure, node')) : R node node' := by
  unfold popBlockFromBlockchain at h
  rw [bind_error_iff] at h
  obtain h | ⟨_, n₁, hsize, h⟩ := h
  · obtain ⟨_, rfl⟩ := Prod.mk.inj h
    exact Std.Refl.refl _
  · obtain ⟨_, rfl⟩ := Prod.mk.inj hsize
    rw [gets_bind] at h
    cases hlast : node.db.blocks.getLast? with
    | none =>
        rw [hlast] at h
        cases h
        exact Std.Refl.refl _
    | some bei =>
        rw [hlast] at h
        dsimp only at h
        rw [bind_error_iff] at h
        obtain hpurge | ⟨_, _, _, hrest⟩ := h
        · exact (follows_purgeBlockDataFromBlockchain env hR _ _).rel_of_run hpurge
        · rw [modify_bind] at hrest
          cases hrest

end

theorem handleBlockToMainChain_refused {now : Nat} {bl : Block} {id : Hash}
    {onboard : TransactionsMap} {node node' : Node} {r : Except Failure BlockVerdict}
    (h : handleBlockToMainChain env now bl id onboard node = (r, node'))
    (hr : r ≠ .ok .addedToMainChain) : Refusal node node' :=
  rel_of_handleBlockToMainChain_refused refusalSteps h hr

theorem moves_handleBlockToMainChain (now : Nat) (bl : Block) (onboard : TransactionsMap) :
    Follows (NodeMoves env)
      (handleBlockToMainChain env now bl (env.crypto.getBlockHash bl) onboard) := by
  intro node
  rcases hrun : handleBlockToMainChain env now bl (env.crypto.getBlockHash bl) onboard node with
    ⟨r, node'⟩
  by_cases hr : r = .ok .addedToMainChain
  · subst hr
    exact .single (.added hrun)
  · exact .single (.refused (handleBlockToMainChain_refused hrun hr))

theorem popBlockFromBlockchain_error {node node' : Node} {failure : Failure}
    (h : popBlockFromBlockchain env node = (.error failure, node')) : Refusal node node' :=
  rel_of_popBlockFromBlockchain_error refusalSteps h

theorem moves_popBlockFromBlockchain : Follows (NodeMoves env) (popBlockFromBlockchain env) := by
  intro node
  rcases hrun : popBlockFromBlockchain env node with ⟨failure | onboard, node'⟩
  · exact .single (.refused (popBlockFromBlockchain_error hrun))
  · exact .single (.removed hrun)

/-! ### Switches -/

theorem moves_disconnectBlocks (linksChecked : Bool) (n : Nat) (disconnected : List BlockWsTxs) :
    Follows (NodeMoves env) (disconnectBlocks env linksChecked n disconnected) := by
  induction n generalizing disconnected with
  | zero => exact Follows.pure _
  | succ n ih =>
      refine (Follows.gets _).bind fun last => ?_
      cases last with
      | none => exact Follows.fail _
      | some bei =>
          refine moves_popBlockFromBlockchain.bind fun _ => ?_
          cases linksChecked with
          | false => exact (Follows.pure ()).bind fun _ => ih _
          | true => exact (Follows.check _).bind fun _ => ih _

theorem moves_connectBlock (now : Nat) (entry : BlockWsTxs) :
    Follows (NodeMoves env) (connectBlock env now entry) := by
  refine (moves_handleBlockToMainChain now entry.b _).bind fun verdict => ?_
  split
  · exact Follows.pure ()
  · exact Follows.fail _

theorem moves_rollbackBlockchainSwitching (now : Nat) (originalChain : List BlockWsTxs)
    (rollbackHeight : Nat) :
    Follows (NodeMoves env) (rollbackBlockchainSwitching env now originalChain rollbackHeight) :=
  (Follows.gets _).bind fun _ => (moves_disconnectBlocks _ _ _).bind fun _ =>
    Follows.forEach (moves_connectBlock now) _

theorem moves_connectAltChain (now : Nat) (altChain : AltChain) :
    Follows (NodeMoves env) (connectAltChain env now altChain) := by
  induction altChain with
  | nil => exact Follows.pure _
  | cons abei rest ih =>
      refine (follows_succeeds (moves_connectBlock now _)).bind fun connected => ?_
      split
      · exact ih
      · exact Follows.pure _

/-! ### Alternative blocks -/

theorem moves_catchThrown {α : Type} {x : NodeProcedure α} (hx : Follows (NodeMoves env) x) :
    Follows (NodeMoves env) (catchThrown x) := by
  intro node
  have hxs := hx node
  rcases hrun : x node with ⟨_ | _, node'⟩ <;> rw [hrun] at hxs <;>
    simpa [catchThrown, hrun] using hxs

theorem moves_guardReorganize {switch : NodeProcedure Unit} (hx : Follows (NodeMoves env) switch) :
    Follows (NodeMoves env) (guardReorganize switch) := by
  have hflag : ∀ (node : Node) (flag : Bool),
      NodeMoves env node { node with isReorganizeInProcess := flag } :=
    fun _ _ => .single (.elsewhere rfl)
  intro node
  unfold guardReorganize
  split
  · exact hflag node false
  · exact IsTrans.trans _ _ _ (hflag node true) (IsTrans.trans _ _ _ (hx _) (hflag _ false))

theorem keeps_contents_checkAltHeader (now : Nat) (b : Block) (place : AltPlace) :
    Keeps Node.contents (checkAltHeader env now b place) := by
  refine (Keeps.check _).bind fun _ => (Keeps.check _).bind fun _ => Keeps.bind ?_ fun _ =>
    Keeps.check _
  exact (Keeps.modify (by intro _; rfl)).bind fun _ => Keeps.check _

/-- A block that is not accepted leaves the containers as they are. -/
theorem acceptAlternativeBlock_error {now : Nat} {b : Block} {onboard : TransactionsMap}
    {place : AltPlace} {node node' : Node} {failure : Failure}
    (h : acceptAlternativeBlock env now b onboard place node = (.error failure, node')) :
    node'.contents = node.contents := by
  unfold acceptAlternativeBlock at h
  simp only [gets_bind] at h
  rw [bind_error_iff] at h
  obtain h | ⟨header, n, hheader, h⟩ := h
  · exact (keeps_contents_checkAltHeader now b place).eq_of_run h
  · have hn := (keeps_contents_checkAltHeader now b place).eq_of_run hheader
    rw [bind_error_iff] at h
    obtain h | ⟨result, n₁, htxs, h⟩ := h
    · obtain ⟨_, rfl⟩ := Prod.mk.inj h
      exact hn
    · obtain ⟨_, rfl⟩ := Prod.mk.inj htxs
      rw [bind_error_iff] at h
      obtain h | ⟨_, n₂, _, h⟩ := h
      · obtain ⟨_, rfl⟩ := Prod.mk.inj h
        exact hn
      · cases h

theorem moves_acceptAlternativeBlock {now : Nat} {b : Block} {onboard : TransactionsMap}
    {place : AltPlace} {node : Node} (hplace : findAltPlace node b.prevId = .ok (some place)) :
    NodeMoves env node (acceptAlternativeBlock env now b onboard place node).2 := by
  rcases hrun : acceptAlternativeBlock env now b onboard place node with ⟨failure | abei, node'⟩
  · exact .single (.elsewhere (acceptAlternativeBlock_error hrun))
  · exact .single (.accepted hplace hrun)

theorem moves_eraseAltblocks (altChain : AltChain) :
    Follows (NodeMoves env) (Procedure.modify (fun node =>
      altChain.foldl (fun node abei => doEraseAltblock env abei node) node) :
        NodeProcedure Unit) := by
  refine Follows.modify fun node => ?_
  induction altChain generalizing node with
  | nil => exact .refl
  | cons abei rest ih => exact .head (.erased abei node) (ih _)

theorem moves_discardAltblocks (altChain : AltChain) :
    Follows (NodeMoves env) (Procedure.modify (fun node =>
      altChain.foldl (fun node abei => discardAltblock env abei node) node) :
        NodeProcedure Unit) := by
  refine Follows.modify fun node => ?_
  induction altChain generalizing node with
  | nil => exact .refl
  | cons abei rest ih =>
      have hmark : NodeMove env node { node with
          invalidBlocks := insert (env.crypto.getBlockHash abei.bl) node.invalidBlocks } :=
        .elsewhere rfl
      exact .head hmark (.head (.erased abei _) (ih _))

theorem keeps_contents_getXDifficultyAfterHeight (height : Nat) (pos : Bool) :
    Keeps Node.contents (getXDifficultyAfterHeight env height pos) := by
  refine (Keeps.check _).bind fun _ => (Keeps.gets _).bind fun diff => ?_
  split
  · exact Keeps.pure _
  · refine (Keeps.gets _).bind fun res => ?_
    split
    · exact Keeps.pure _
    · refine Keeps.bind (fun node => ?_) fun _ => Keeps.gets _
      unfold nextDiffConditional
      dsimp only
      split
      · rfl
      · split <;> rfl

theorem keeps_contents_isReorganizeRequiredFor (altChain : AltChain) (proofAlt : Hash) :
    Keeps Node.contents (isReorganizeRequiredFor env altChain proofAlt) := by
  refine (Keeps.gets _).bind fun last => ?_
  split
  · unfold isReorganizeRequired
    split
    · exact Keeps.pure _
    · split
      · exact (keeps_contents_getXDifficultyAfterHeight _ _).bind fun _ =>
          (keeps_contents_getXDifficultyAfterHeight _ _).bind fun _ => (Keeps.gets _).bind fun _ =>
            (Keeps.gets _).bind fun _ => (Keeps.check _).bind fun _ => Keeps.pure _
      · exact Keeps.fail _
  · exact Keeps.fail _

theorem moves_isReorganizeRequiredFor (altChain : AltChain) (proofAlt : Hash) :
    Follows (NodeMoves env) (isReorganizeRequiredFor env altChain proofAlt) :=
  moves_of_contents (keeps_contents_isReorganizeRequiredFor altChain proofAlt)

theorem moves_chooseFork {switch : AltChain → NodeProcedure Unit}
    (hswitch : ∀ altChain, Follows (NodeMoves env) (switch altChain)) (altChain : AltChain)
    (abei : AltBlockExtendedInfo) : Follows (NodeMoves env) (chooseFork env switch altChain abei) := by
  refine (moves_isReorganizeRequiredFor altChain _).bind fun required => ?_
  split
  · exact (moves_guardReorganize (hswitch altChain)).bind fun _ => Follows.pure _
  · refine (Follows.modify fun node => ?_).bind fun _ => Follows.pure _
    split
    · exact .single (.pruned node)
    · exact .refl

theorem moves_handleAlternativeBlockWith {switch : AltChain → NodeProcedure Unit}
    (hswitch : ∀ altChain, Follows (NodeMoves env) (switch altChain)) (now : Nat) (b : Block)
    (onboard : TransactionsMap) :
    Follows (NodeMoves env) (handleAlternativeBlockWith env switch now b onboard) := by
  refine (Follows.check _).bind fun _ => moves_catchThrown fun node => ?_
  refine check_bind_elim (motive := fun result => NodeMoves env node result.2)
    (fun _ _ => .refl) fun place hplace => ?_
  cases place with
  | none =>
      have hlinks : Follows (NodeMoves env) (do checkPrevLinks env; pure AltVerdict.orphaned) :=
        (Follows.check _).bind fun _ => Follows.pure _
      exact hlinks node
  | some place =>
      exact Follows.rel_bind (moves_acceptAlternativeBlock hplace) fun abei =>
        moves_chooseFork hswitch _ abei

theorem moves_handOverDisconnected (now : Nat) (handed disconnected : List BlockWsTxs) :
    Follows (NodeMoves env) (handOverDisconnected env now handed disconnected) := by
  induction disconnected generalizing handed with
  | nil => exact Follows.pure _
  | cons entry rest ih =>
      refine Follows.bind (follows_succeeds ?_) fun accepted => ?_
      · exact (moves_handleAlternativeBlockWith (fun _ => Follows.fail _) now entry.b _).bind
          fun _ => Follows.pure ()
      · split
        · exact ih _
        · exact Follows.pure _

theorem moves_finishSwitch (now : Nat) (altChain : AltChain) (disconnected : List BlockWsTxs)
    (splitHeight : Nat) :
    Follows (NodeMoves env) (finishSwitch env now altChain disconnected splitHeight) := by
  refine (moves_handOverDisconnected now _ _).bind fun handed => ?_
  cases handed with
  | none => exact moves_eraseAltblocks altChain
  | some originalChain =>
      exact (follows_succeeds (moves_rollbackBlockchainSwitching now _ _)).bind fun _ =>
        (Follows.check _).bind fun _ => moves_eraseAltblocks altChain

theorem moves_abandonSwitch (now : Nat) (refused : AltChain) (disconnected : List BlockWsTxs)
    (splitHeight : Nat) :
    Follows (NodeMoves env) (abandonSwitch env now refused disconnected splitHeight) :=
  (follows_succeeds (moves_rollbackBlockchainSwitching now _ _)).bind fun _ =>
    (moves_discardAltblocks refused).bind fun _ => (Follows.check _).bind fun _ => Follows.fail _

theorem moves_switchToAlternativeBlockchain (now : Nat) (altChain : AltChain) :
    Follows (NodeMoves env) (switchToAlternativeBlockchain env now altChain) := by
  refine (Follows.check _).bind fun _ => ?_
  cases altChain with
  | nil => exact Follows.fail _
  | cons front rest =>
      refine (Follows.check _).bind fun _ => (Follows.gets _).bind fun _ =>
        (moves_disconnectBlocks _ _ _).bind fun disconnected =>
          (moves_connectAltChain now _).bind fun refused => ?_
      split
      · exact moves_finishSwitch now _ disconnected _
      · exact moves_abandonSwitch now refused disconnected _

/-! ## Calls -/

/-- A procedure in a database transaction is a call. -/
theorem nodeCall_of_moves {α : Type} {x : NodeProcedure α} (hx : Follows (NodeMoves env) x)
    (node : Node) : NodeCall (NodeMove env) node (inDbTransaction x node).2 := by
  have hmoves := hx node
  unfold inDbTransaction
  rcases hrun : x node with ⟨failure | a, node'⟩
  · rw [hrun] at hmoves
    exact .aborted hmoves
  · rw [hrun] at hmoves
    exact .committed hmoves

theorem moves_handleAlternativeBlock (now : Nat) (bl : Block) (onboard : TransactionsMap) :
    Follows (NodeMoves env) (handleAlternativeBlock env now bl onboard) :=
  moves_handleAlternativeBlockWith (moves_switchToAlternativeBlockchain now) now bl onboard

theorem moves_addToMainChain (now : Nat) (bl : Block) (onboard : TransactionsMap) :
    Follows (NodeMoves env) (addToMainChain env now bl onboard) := by
  refine (moves_handleBlockToMainChain now bl onboard).bind fun verdict => ?_
  split
  · exact Follows.pure _
  · exact Follows.fail _

theorem addNewBlock_nodeCall (now : Nat) (bl : Block) (onboard : TransactionsMap) (node : Node) :
    NodeCall (NodeMove env) node (addNewBlock env now bl onboard node).2 := by
  unfold addNewBlock
  refine check_bind_elim (motive := fun result => NodeCall (NodeMove env) node result.2)
    (fun _ _ => .committed .refl) fun _ _ => ?_
  rw [gets_bind]
  split
  · exact nodeCall_of_moves (moves_handleAlternativeBlock now bl onboard) node
  · exact nodeCall_of_moves (moves_addToMainChain now bl onboard) node

theorem moves_truncateBlockchain (toHeight : Nat) :
    Follows (NodeMoves env) (truncateBlockchain env toHeight) :=
  (Follows.gets _).bind fun _ => (moves_disconnectBlocks _ _ _).bind fun _ =>
    Follows.modify fun node => .single (.cleared node)

end Chinet
