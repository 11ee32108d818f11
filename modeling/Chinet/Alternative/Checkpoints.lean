import Chinet.Alternative.Moves

/-!
# Checkpoints are final

A block enters the main chain at a checkpoint height only with the hash of the
checkpoint, and so does an alternative block.  An alternative block is declined
where the main chain has passed a checkpoint at its height or above.

So once the main chain has passed a checkpoint, no alternative block stands at the
height of the checkpoint, and no alternative chain can split off at or below it: it
would have to go through that height.
-/

namespace Chinet

open Procedure FiniteStore

variable {env : Env}

/-! ## Checkpoints -/

namespace Checkpoints

/-- `m_points.find(height)`. -/
def pointAt (points : Checkpoints) (height : Nat) : Option Hash :=
  (points.find? (·.1 = height)).map Prod.snd

variable {points : Checkpoints} {height : Nat} {id : Hash}

theorem mem_of_pointAt (h : points.pointAt height = some id) : (height, id) ∈ points := by
  obtain ⟨point, hfind, rfl⟩ := Option.map_eq_some_iff.mp h
  have hheight : point.1 = height := by simpa using List.find?_some hfind
  rw [← hheight]
  exact List.mem_of_find?_eq_some hfind

theorem checkBlock_iff {h : Hash} :
    points.checkBlock height h = true ↔ ∀ id, points.pointAt height = some id → h = id := by
  unfold checkBlock pointAt
  cases points.find? (·.1 = height) with
  | none => simp
  | some point => simp [eq_comm]

theorem checkBlock_of_zone {h : Hash}
    (hzone : (!points.isInCheckpointZone height || points.checkBlock height h) = true) :
    points.checkBlock height h = true := by
  rw [Bool.or_eq_true] at hzone
  refine hzone.elim (fun hout => ?_) id
  -- outside the zone there is no checkpoint at this height
  rw [checkBlock_iff]
  intro id hid
  have hin : points.isInCheckpointZone height = true :=
    List.any_eq_true.mpr ⟨_, mem_of_pointAt hid, decide_eq_true le_rfl⟩
  rw [hin] at hout
  cases hout

theorem isHeightPassedZone_of_pointAt {low top : Nat} (h : points.pointAt height = some id)
    (hlow : low ≤ height) (htop : height ≤ top) : points.isHeightPassedZone low top = true := by
  rw [isHeightPassedZone, Bool.and_eq_true, decide_eq_true_eq]
  refine ⟨le_trans hlow htop, ?_⟩
  refine List.any_eq_true.mpr ⟨_, mem_of_pointAt h, ?_⟩
  rw [Bool.and_eq_true]
  exact ⟨decide_eq_true hlow, decide_eq_true htop⟩

end Checkpoints

theorem prevalidateMinerTransaction_height {b : Block} {height : Nat} {pos : Bool}
    (h : prevalidateMinerTransaction env b height pos = .ok ()) : getBlockHeight b = height := by
  unfold prevalidateMinerTransaction at h
  rw [require_bind_eq_ok] at h
  have hvin := h.1
  unfold getBlockHeight
  split at hvin
  · rename_i hgen
    rw [hgen]
    exact of_decide_eq_true (Bool.and_eq_true _ _ ▸ hvin).2
  · rename_i hgen
    rw [hgen]
    exact of_decide_eq_true (Bool.and_eq_true _ _ ▸ hvin).2
  · cases hvin

/-- A block of the main chain was compared with the checkpoint of its height. -/
theorem checkBlockHeader_checkpoint {now : Nat} {bl : Block} {id : Hash} {node node' : Node}
    {result : WideDifficulty × Hash}
    (h : checkBlockHeader env now bl id node = (.ok result, node')) :
    env.checkpoints.checkBlock node.db.size id = true := by
  unfold checkBlockHeader at h
  rw [check_bind_ok_iff] at h
  obtain ⟨_, _, h⟩ := h
  rw [bind_ok_iff] at h
  obtain ⟨_, n₁, hzone, _⟩ := h
  unfold enterCheckpointZone at hzone
  rw [modify_bind] at hzone
  simp only [check_apply, Prod.mk.injEq, require_eq_ok] at hzone
  exact Checkpoints.checkBlock_of_zone hzone.1

/-- So was an alternative block. -/
theorem acceptAlternativeBlock_checkpoint {now : Nat} {b : Block} {onboard : TransactionsMap}
    {place : AltPlace} {node node' : Node} {abei : AltBlockExtendedInfo}
    (h : acceptAlternativeBlock env now b onboard place node = (.ok abei, node')) :
    env.checkpoints.checkBlock place.height (env.crypto.getBlockHash b) = true := by
  unfold acceptAlternativeBlock at h
  simp only [gets_bind] at h
  rw [bind_ok_iff] at h
  obtain ⟨header, n, hheader, _⟩ := h
  unfold checkAltHeader at hheader
  simp only [check_bind_ok_iff] at hheader
  obtain ⟨_, _, _, _, hheader⟩ := hheader
  rw [bind_ok_iff] at hheader
  obtain ⟨_, n, hzone, _⟩ := hheader
  unfold enterAltCheckpointZone at hzone
  rw [modify_bind] at hzone
  simp only [check_apply, Prod.mk.injEq, require_eq_ok] at hzone
  exact Checkpoints.checkBlock_of_zone hzone.1

/-! ## What is known of the blocks of a node

`S` is a set that has all blocks the node was given; hashes tell its blocks apart. -/

structure MainEntry (env : Env) (S : Set Block) (i : Nat) (bei : BlockExtendedInfo) : Prop where
  mem : bei.bl ∈ S
  height_eq : getBlockHeight bei.bl = i
  checkpoint : env.checkpoints.checkBlock i (env.crypto.getBlockHash bei.bl) = true

structure AltEntry (env : Env) (S : Set Block) (id : Hash) (abei : AltBlockExtendedInfo) : Prop where
  mem : abei.bl ∈ S
  id_eq : env.crypto.getBlockHash abei.bl = id
  height_eq : getBlockHeight abei.bl = abei.height
  /-- It is one above its predecessor, wherever that is by now. -/
  above : ∀ b ∈ S, env.crypto.getBlockHash b = abei.bl.prevId → getBlockHeight b + 1 = abei.height
  checkpoint : env.checkpoints.checkBlock abei.height id = true

/-- The alternative blocks, none of them at a checkpoint below `s`. -/
def AltsAbove (env : Env) (S : Set Block) (s : Nat)
    (alternativeChains : FiniteStore Hash AltBlockExtendedInfo) : Prop :=
  ∀ id abei, alternativeChains.lookup id = some abei → AltEntry env S id abei ∧
    ∀ point, env.checkpoints.pointAt abei.height = some point → s ≤ abei.height

theorem AltsAbove.shrink {S : Set Block} {s : Nat}
    {alts alts' : FiniteStore Hash AltBlockExtendedInfo} (h : AltsAbove env S s alts)
    (hsub : ∀ id abei, alts'.lookup id = some abei → alts.lookup id = some abei) :
    AltsAbove env S s alts' :=
  fun id abei hlookup => h id abei (hsub id abei hlookup)

/-- The node during a switch that splits at `s`: the first `s` blocks are those of
`base`, and a block from `s` on is an alternative block of `added` or is below `n`. -/
structure SplitState (env : Env) (S : Set Block) (s n : Nat) (base : List BlockExtendedInfo)
    (added : Set Block) (node : Node) : Prop where
  base_eq : node.db.blocks.take s = base
  size_ge : s ≤ node.db.size
  main : ∀ i bei, node.db.blocks[i]? = some bei → MainEntry env S i bei
  index : ∀ id k, node.db.blocksIndex.lookup id = some k →
    ∃ bei, node.db.blocks[k]? = some bei ∧ env.crypto.getBlockHash bei.bl = id
  above : ∀ i bei, s ≤ i → node.db.blocks[i]? = some bei → i < n ∨ bei.bl ∈ added
  alts : AltsAbove env S s node.alternativeChains

/-- The containers the invariant is about. -/
def Node.chainsView (node : Node) :
    List BlockExtendedInfo × FiniteStore Hash Nat × FiniteStore Hash AltBlockExtendedInfo :=
  (node.db.blocks, node.db.blocksIndex, node.alternativeChains)

theorem chainsView_of_frame {node node' : Node} (h : node'.frame = node.frame) :
    node'.chainsView = node.chainsView :=
  congrArg (fun frame : _ × AltView =>
    (frame.1.1, frame.1.2.1, frame.2.alternativeChains)) h

theorem chainsView_of_contents {node node' : Node} (h : node'.contents = node.contents) :
    node'.chainsView = node.chainsView := by
  have hdb : node'.db = node.db := congrArg Prod.fst h
  have halts : node'.altContainers = node.altContainers :=
    congrArg (fun contents => contents.2.2.2) h
  have hchains : node'.alternativeChains = node.alternativeChains := congrArg Prod.fst halts
  rw [Node.chainsView, hdb, hchains, Node.chainsView]

namespace SplitState

variable {S : Set Block} {s n : Nat} {base : List BlockExtendedInfo} {added : Set Block}
  {node node' : Node}

theorem of_view (h : SplitState env S s n base added node)
    (hview : node'.chainsView = node.chainsView) : SplitState env S s n base added node' := by
  have hblocks : node'.db.blocks = node.db.blocks := congrArg Prod.fst hview
  have hindex : node'.db.blocksIndex = node.db.blocksIndex := congrArg (fun view => view.2.1) hview
  have hchains : node'.alternativeChains = node.alternativeChains :=
    congrArg (fun view => view.2.2) hview
  constructor
  · rw [hblocks]
    exact h.base_eq
  · rw [Db.size, hblocks]
    exact h.size_ge
  · rw [hblocks]
    exact h.main
  · rw [hblocks, hindex]
    exact h.index
  · rw [hblocks]
    exact h.above
  · rw [hchains]
    exact h.alts

theorem shrink (h : SplitState env S s n base added node) (hdb : node'.db = node.db)
    (hsub : ∀ id abei, node'.alternativeChains.lookup id = some abei →
      node.alternativeChains.lookup id = some abei) : SplitState env S s n base added node' := by
  constructor
  · rw [hdb]
    exact h.base_eq
  · rw [hdb]
    exact h.size_ge
  · rw [hdb]
    exact h.main
  · rw [hdb]
    exact h.index
  · rw [hdb]
    exact h.above
  · exact h.alts.shrink hsub

/-- A block is put at the end of the main chain. -/
theorem addBlock {now : Nat} {bl : Block} {onboard : TransactionsMap}
    (h : SplitState env S s n base added node) (hmem : bl ∈ S)
    (hallowed : node.db.size < n ∨ bl ∈ added)
    (hrun : handleBlockToMainChain env now bl (env.crypto.getBlockHash bl) onboard node =
      (.ok .addedToMainChain, node')) : SplitState env S s n base added node' := by
  obtain ⟨a⟩ := handleBlockToMainChain_added hrun
  have hbl : a.bei.bl = bl := congrArg BlockHeaderInfo.bl a.header_eq
  have hheight : a.bei.height = node.db.size := a.height_eq
  have hlast : ∀ i bei, node'.db.blocks[i]? = some bei →
      node.db.blocks[i]? = some bei ∨ i = node.db.size ∧ bei = a.bei := by
    intro i bei hget
    rw [a.blocks_eq] at hget
    rcases lt_or_ge i node.db.blocks.length with hlt | hge
    · rw [List.getElem?_append_left hlt] at hget
      exact Or.inl hget
    · rw [List.getElem?_append_right hge] at hget
      obtain ⟨hi, hbei⟩ := List.getElem?_eq_some_iff.mp hget
      rw [List.length_singleton] at hi
      have hzero : i - node.db.blocks.length = 0 := by omega
      right
      refine ⟨?_, ?_⟩
      · rw [Db.size]
        omega
      · rw [← hbei]
        simp [hzero]
  constructor
  · rw [a.blocks_eq, List.take_append_of_le_length h.size_ge]
    exact h.base_eq
  · have hsize : node'.db.size = node.db.size + 1 := by
      rw [Db.size, a.blocks_eq, List.length_append, List.length_singleton, Db.size]
    rw [hsize]
    exact le_trans h.size_ge (Nat.le_succ _)
  · intro i bei hget
    obtain hold | ⟨rfl, rfl⟩ := hlast i bei hget
    · exact h.main i bei hold
    · rw [← hbl] at hmem
      refine ⟨hmem, ?_, ?_⟩
      · rw [hbl]
        exact prevalidateMinerTransaction_height a.checkedHeader.minerTx
      · rw [hbl]
        exact checkBlockHeader_checkpoint a.header
  · intro id k hlookup
    rw [a.blocksIndex_eq, lookup_insert_ite] at hlookup
    rw [a.blocks_eq]
    split at hlookup
    · rename_i hid
      cases hlookup
      refine ⟨a.bei, ?_, ?_⟩
      · rw [hheight, Db.size, List.getElem?_append_right le_rfl, Nat.sub_self]
        rfl
      · rw [hbl, hid]
    · obtain ⟨bei, hget, hhash⟩ := h.index id k hlookup
      have hlt := (List.getElem?_eq_some_iff.mp hget).1
      exact ⟨bei, by rw [List.getElem?_append_left hlt]; exact hget, hhash⟩
  · intro i bei hi hget
    obtain hold | ⟨rfl, rfl⟩ := hlast i bei hget
    · exact h.above i bei hi hold
    · rw [hbl]
      exact hallowed
  · have hchains : node'.alternativeChains = node.alternativeChains :=
      congrArg AltView.alternativeChains a.altView_eq
    rw [hchains]
    exact h.alts

/-- The last block of the main chain is taken away, above the split. -/
theorem popBlock {onboard : TransactionsMap} (h : SplitState env S s n base added node)
    (hsize : s < node.db.size) (hrun : popBlockFromBlockchain env node = (.ok onboard, node')) :
    SplitState env S s n base added node' := by
  obtain ⟨p⟩ := popBlockFromBlockchain_ok hrun
  have hlength : node'.db.blocks.length = node.db.blocks.length - 1 := by
    rw [p.blocks_eq, List.length_dropLast]
  have hold : ∀ (i : Nat) (bei : BlockExtendedInfo), node'.db.blocks[i]? = some bei →
      node.db.blocks[i]? = some bei := by
    intro i bei hget
    have hlt := (List.getElem?_eq_some_iff.mp hget).1
    rw [p.blocks_eq, List.getElem?_dropLast] at hget
    rw [hlength] at hlt
    rwa [if_pos hlt] at hget
  rw [Db.size] at hsize
  constructor
  · rw [p.blocks_eq, List.dropLast_eq_take, List.take_take, min_eq_left (by omega)]
    exact h.base_eq
  · rw [Db.size, hlength]
    omega
  · intro i bei hget
    exact h.main i bei (hold i bei hget)
  · intro id k hlookup
    rw [p.blocksIndex_eq, lookup_erase_ite] at hlookup
    split at hlookup
    · cases hlookup
    · rename_i hid
      obtain ⟨bei, hget, hhash⟩ := h.index id k hlookup
      obtain ⟨hlt, hbei⟩ := List.getElem?_eq_some_iff.mp hget
      refine ⟨bei, ?_, hhash⟩
      -- the block that was taken away had another id
      have hne : k ≠ node.db.blocks.length - 1 := by
        intro hk
        apply hid
        have hlast := p.last
        rw [List.getLast?_eq_getElem?, ← hk, hget] at hlast
        cases hlast
        exact hhash.symm
      rw [p.blocks_eq, List.getElem?_dropLast, if_pos (by omega)]
      exact hget
  · intro i bei hi hget
    exact h.above i bei hi (hold i bei hget)
  · have hchains : node'.alternativeChains = node.alternativeChains :=
      congrArg AltView.alternativeChains p.altView_eq
    rw [hchains]
    exact h.alts

/-- An alternative block is accepted that no checkpoint of the main chain has passed. -/
theorem acceptBlock {now : Nat} {b : Block} {onboard : TransactionsMap} {place : AltPlace}
    {abei : AltBlockExtendedInfo} (hinj : Set.InjOn env.crypto.getBlockHash S)
    (h : SplitState env S s n base added node) (hmem : b ∈ S)
    (hopen : env.checkpoints.isHeightPassedZone (getBlockHeight b) (node.db.size - 1) = false)
    (hplace : findAltPlace node b.prevId = .ok (some place))
    (hrun : acceptAlternativeBlock env now b onboard place node = (.ok abei, node')) :
    SplitState env S s n base added node' := by
  obtain ⟨a⟩ := acceptAlternativeBlock_ok hrun
  have hcheckpoint := acceptAlternativeBlock_checkpoint hrun
  have hbl : abei.bl = b := a.bl_eq
  have hheight : abei.height = place.height := by
    have heq := congrArg BlockHeaderInfo.height a.header.header_eq
    rw [heq, altHeaderInfo]
  have hcoinbase : getBlockHeight b = place.height := a.header.coinbaseHeight
  have hprev : ∃ prev ∈ S, env.crypto.getBlockHash prev = b.prevId ∧
      getBlockHeight prev + 1 = place.height := by
    cases findAltPlace_ok hplace with
    | alternative below prev lookup_eq altChain_eq walk_eq prev_eq height_eq =>
        obtain ⟨hentry, _⟩ := h.alts _ _ lookup_eq
        exact ⟨prev.bl, hentry.mem, hentry.id_eq, by rw [hentry.height_eq, height_eq]⟩
    | mainChain mainPrev lookup_none lookup_eq altChain_eq prev_eq height_eq =>
        obtain ⟨bei, hget, hhash⟩ := h.index _ _ lookup_eq
        have hentry := h.main _ _ hget
        exact ⟨bei.bl, hentry.mem, hhash, by rw [hentry.height_eq, height_eq]⟩
  obtain ⟨prev, hprevmem, hprevhash, hprevheight⟩ := hprev
  have hview : node'.db = node.db ∧
      node'.alternativeChains = node.alternativeChains.insert (env.crypto.getBlockHash b) abei := by
    rw [a.result]
    exact ⟨rfl, rfl⟩
  have hentry : AltEntry env S (env.crypto.getBlockHash b) abei := by
    constructor
    · rw [hbl]
      exact hmem
    · rw [hbl]
    · rw [hbl, hheight, hcoinbase]
    · intro other hother hhash
      have hsame : other = prev := hinj hother hprevmem (by rw [hhash, hbl, hprevhash])
      rw [hsame, hprevheight, hheight]
    · rw [hheight]
      exact hcheckpoint
  -- below the split there are checkpoints that the main chain has passed
  have hfresh : ∀ point, env.checkpoints.pointAt abei.height = some point → s ≤ abei.height := by
    intro point hpoint
    by_contra hlt
    have hsize := h.size_ge
    have hpassed : env.checkpoints.isHeightPassedZone abei.height (node.db.size - 1) = true :=
      Checkpoints.isHeightPassedZone_of_pointAt hpoint le_rfl (by omega)
    rw [hcoinbase, ← hheight, hpassed] at hopen
    cases hopen
  constructor
  · rw [hview.1]
    exact h.base_eq
  · rw [hview.1]
    exact h.size_ge
  · rw [hview.1]
    exact h.main
  · rw [hview.1]
    exact h.index
  · rw [hview.1]
    exact h.above
  · intro id other hlookup
    rw [hview.2, lookup_insert_ite] at hlookup
    split at hlookup
    · rename_i hid
      cases hlookup
      rw [hid]
      exact ⟨hentry, hfresh⟩
    · exact h.alts id other hlookup

end SplitState

/-! ## Erasing alternative blocks -/

theorem pruneAgedAltBlocks_db (node : Node) : (pruneAgedAltBlocks env node).db = node.db := by
  have hloop : ∀ (ids : List Hash) (height count : Nat) (state : Node × AltsToDelete),
      (ids.foldl (pruneAltblock env height count) state).1.db = state.1.db := by
    intro ids height count
    induction ids with
    | nil => exact fun _ => rfl
    | cons id rest ih =>
        intro state
        rw [List.foldl_cons, ih]
        unfold pruneAltblock
        split
        · rfl
        · split
          · rfl
          · split <;> rfl
  exact hloop _ _ _ _

theorem lookup_of_pruneAgedAltBlocks {node : Node} {id : Hash} {abei : AltBlockExtendedInfo}
    (h : (pruneAgedAltBlocks env node).alternativeChains.lookup id = some abei) :
    node.alternativeChains.lookup id = some abei := by
  have hloop : ∀ (ids : List Hash) (height count : Nat) (state : Node × AltsToDelete),
      (ids.foldl (pruneAltblock env height count) state).1.alternativeChains.lookup id = some abei →
      state.1.alternativeChains.lookup id = some abei := by
    intro ids height count
    induction ids with
    | nil => exact fun _ hlookup => hlookup
    | cons id' rest ih =>
        intro state hlookup
        rw [List.foldl_cons] at hlookup
        have hfirst := ih _ hlookup
        unfold pruneAltblock at hfirst
        split at hfirst
        · exact hfirst
        · split at hfirst
          · exact lookup_of_erase hfirst
          · split at hfirst <;> exact hfirst
  have hcount : ∀ (entries : AltsToDelete) (alts : FiniteStore Hash AltBlockExtendedInfo),
      (entries.foldl (fun alts entry => alts.erase entry.2) alts).lookup id = some abei →
      alts.lookup id = some abei := by
    intro entries
    induction entries with
    | nil => exact fun _ hlookup => hlookup
    | cons entry rest ih => exact fun _ hlookup => lookup_of_erase (ih _ hlookup)
  exact hloop _ _ _ _ (hcount _ _ h)

/-! ## The procedures of a switch -/

/-- Where `P` held before, it holds after. -/
abbrev Preserves (P : Node → Prop) (node node' : Node) : Prop := P node → P node'

instance (P : Node → Prop) : IsPreorder Node (Preserves P) where
  refl _ := id
  trans _ _ _ h h' := h' ∘ h

section

variable {S : Set Block} {s n : Nat} {base : List BlockExtendedInfo} {added : Set Block}

theorem preserves_of_contents {α : Type} {x : NodeProcedure α} (hx : Keeps Node.contents x) :
    Follows (Preserves (SplitState env S s n base added)) x :=
  fun node h => h.of_view (chainsView_of_contents (hx node))

theorem SplitState.handleBlockToMainChain {now : Nat} {bl : Block} {onboard : TransactionsMap}
    {node : Node} (h : SplitState env S s n base added node) (hmem : bl ∈ S)
    (hallowed : node.db.size < n ∨ bl ∈ added) :
    SplitState env S s n base added
      (handleBlockToMainChain env now bl (env.crypto.getBlockHash bl) onboard node).2 := by
  rcases hrun : Chinet.handleBlockToMainChain env now bl (env.crypto.getBlockHash bl) onboard node
    with ⟨r, node'⟩
  by_cases hr : r = .ok .addedToMainChain
  · subst hr
    exact h.addBlock hmem hallowed hrun
  · have hsame : node'.frame = node.frame :=
      rel_of_handleBlockToMainChain_refused frameSteps hrun hr
    exact h.of_view (chainsView_of_frame hsame)

/-- Blocks that the node was given. -/
def FromSet (S : Set Block) (blocks : List BlockWsTxs) : Prop := ∀ entry ∈ blocks, entry.b ∈ S

theorem FromSet.nil : FromSet S [] := fun _ hentry => absurd hentry List.not_mem_nil

theorem FromSet.cons {entry : BlockWsTxs} {blocks : List BlockWsTxs} (hmem : entry.b ∈ S)
    (h : FromSet S blocks) : FromSet S (entry :: blocks) := by
  intro other hother
  rcases List.mem_cons.mp hother with rfl | hother
  · exact hmem
  · exact h other hother

/-- `disconnectBlocks` does not go below the split. -/
theorem SplitState.disconnectBlocks {linksChecked : Bool} {count : Nat}
    {disconnected : List BlockWsTxs} {node node' : Node} {r : Except Failure (List BlockWsTxs)}
    (h : SplitState env S s n base added node) (hcount : s + count ≤ node.db.size)
    (hset : FromSet S disconnected)
    (hrun : Chinet.disconnectBlocks env linksChecked count disconnected node = (r, node')) :
    SplitState env S s n base added node' ∧ ∀ result, r = .ok result →
      node'.db.size + count = node.db.size ∧ result.length = disconnected.length + count ∧
        FromSet S result := by
  induction count generalizing disconnected node with
  | zero =>
      cases hrun
      refine ⟨h, fun result hresult => ?_⟩
      cases hresult
      exact ⟨rfl, rfl, hset⟩
  | succ count ih =>
      rw [Chinet.disconnectBlocks, gets_bind] at hrun
      cases hlast : node.db.blocks.getLast? with
      | none =>
          rw [hlast] at hrun
          cases hrun
          exact ⟨h, fun _ hr => by cases hr⟩
      | some bei =>
          rw [hlast] at hrun
          dsimp only at hrun
          have hmem : bei.bl ∈ S := by
            rw [List.getLast?_eq_getElem?] at hlast
            exact (h.main _ _ hlast).mem
          rw [bind_apply] at hrun
          rcases hpop : popBlockFromBlockchain env node with ⟨failure | onboard, n₁⟩
          · rw [hpop] at hrun
            -- a block that is not given back leaves both chains as they are
            have hsame : n₁.frame = node.frame :=
              rel_of_popBlockFromBlockchain_error frameSteps hpop
            cases hrun
            exact ⟨h.of_view (chainsView_of_frame hsame), fun _ hr => by cases hr⟩
          · rw [hpop] at hrun
            dsimp only at hrun
            have hpopped := h.popBlock (by omega) hpop
            obtain ⟨p⟩ := popBlockFromBlockchain_ok hpop
            have hsize : n₁.db.size + 1 = node.db.size := by
              have hgt := p.size_gt
              rw [Db.size, p.blocks_eq, List.length_dropLast, ← Db.size]
              omega
            -- the rest of the loop, after the check of the links or without it
            have hrest : Chinet.disconnectBlocks env linksChecked count
                ({ b := bei.bl, onboardTransactions := onboard } :: disconnected) n₁ = (r, node') →
                SplitState env S s n base added node' ∧ ∀ result, r = .ok result →
                  node'.db.size + (count + 1) = node.db.size ∧
                    result.length = disconnected.length + (count + 1) ∧ FromSet S result := by
              intro hrest
              obtain ⟨hstate, hok⟩ := ih hpopped (by omega) (hset.cons hmem) hrest
              refine ⟨hstate, fun result hresult => ?_⟩
              obtain ⟨hm, hlength, hfrom⟩ := hok result hresult
              rw [List.length_cons] at hlength
              exact ⟨by omega, by omega, hfrom⟩
            cases linksChecked with
            | false => exact hrest hrun
            | true =>
                simp only [if_true, checkPrevLinks] at hrun
                rw [bind_apply, check_apply] at hrun
                split at hrun
                · rename_i hcheck
                  obtain ⟨_, rfl⟩ := Prod.mk.inj hcheck
                  exact hrest hrun
                · rename_i hcheck
                  obtain ⟨_, rfl⟩ := Prod.mk.inj hcheck
                  cases hrun
                  exact ⟨hpopped, fun _ hr => by cases hr⟩

theorem SplitState.connectBlock {now : Nat} {entry : BlockWsTxs} {node node' : Node}
    {r : Except Failure Unit} (h : SplitState env S s n base added node) (hmem : entry.b ∈ S)
    (hallowed : node.db.size < n ∨ entry.b ∈ added)
    (hrun : Chinet.connectBlock env now entry node = (r, node')) :
    SplitState env S s n base added node' ∧
      (r = .ok () → node'.db.size = node.db.size + 1) := by
  have hadd : SplitState env S s n base added (Chinet.handleBlockToMainChain env now entry.b
      (env.crypto.getBlockHash entry.b) entry.onboardTransactions node).2 :=
    h.handleBlockToMainChain hmem hallowed
  unfold Chinet.connectBlock at hrun
  rw [bind_apply] at hrun
  rcases hmain : Chinet.handleBlockToMainChain env now entry.b (env.crypto.getBlockHash entry.b)
      entry.onboardTransactions node with ⟨failure | verdict, n₁⟩
  · rw [hmain] at hrun hadd
    cases hrun
    exact ⟨hadd, fun hr => by cases hr⟩
  · rw [hmain] at hrun hadd
    dsimp only at hrun
    split at hrun
    · rename_i hverdict
      subst hverdict
      cases hrun
      obtain ⟨a⟩ := handleBlockToMainChain_added hmain
      refine ⟨hadd, fun _ => ?_⟩
      rw [Db.size, a.blocks_eq, List.length_append, List.length_singleton, Db.size]
    · cases hrun
      exact ⟨hadd, fun hr => by cases hr⟩

/-- Blocks that are connected again stay below `n`. -/
theorem SplitState.connectBlocks {now : Nat} {blocks : List BlockWsTxs} {node : Node}
    (h : SplitState env S s n base added node) (hset : FromSet S blocks)
    (hsize : node.db.size + blocks.length ≤ n) :
    SplitState env S s n base added (forEach (Chinet.connectBlock env now) blocks node).2 := by
  induction blocks generalizing node with
  | nil => exact h
  | cons entry rest ih =>
      rw [List.length_cons] at hsize
      rw [forEach_cons, bind_apply]
      rcases hrun : Chinet.connectBlock env now entry node with ⟨failure | _, n₁⟩
      · exact (h.connectBlock (hset entry List.mem_cons_self) (Or.inl (by omega)) hrun).1
      · obtain ⟨hnext, hnode⟩ :=
          h.connectBlock (hset entry List.mem_cons_self) (Or.inl (by omega)) hrun
        have hone := hnode rfl
        apply ih hnext
        · exact fun other hother => hset other (List.mem_cons_of_mem entry hother)
        · omega

theorem SplitState.rollback {now : Nat} {originalChain : List BlockWsTxs} {node : Node}
    (h : SplitState env S s n base added node) (hset : FromSet S originalChain)
    (hsize : s + originalChain.length ≤ n) :
    SplitState env S s n base added
      (rollbackBlockchainSwitching env now originalChain s node).2 := by
  unfold rollbackBlockchainSwitching
  rw [gets_bind, bind_apply]
  have hge := h.size_ge
  rcases hrun : Chinet.disconnectBlocks env false (node.db.size - s) [] node with ⟨failure | popped, n₁⟩
  · exact (h.disconnectBlocks (by omega) FromSet.nil hrun).1
  · obtain ⟨hstate, hok⟩ := h.disconnectBlocks (by omega) FromSet.nil hrun
    obtain ⟨hpopped, _, _⟩ := hok popped rfl
    exact hstate.connectBlocks hset (by omega)

/-- `connectAltChain` adds blocks of the alternative chain only. -/
theorem SplitState.connectAltChain {now : Nat} {altChain : AltChain} {node : Node}
    (h : SplitState env S s n base added node)
    (hset : ∀ abei ∈ altChain, abei.bl ∈ S ∧ abei.bl ∈ added) :
    SplitState env S s n base added (Chinet.connectAltChain env now altChain node).2 := by
  induction altChain generalizing node with
  | nil => exact h
  | cons abei rest ih =>
      obtain ⟨hmem, hadded⟩ := hset abei List.mem_cons_self
      rw [Chinet.connectAltChain, bind_apply, succeeds]
      rcases hrun : Chinet.connectBlock env now
          { b := abei.bl, onboardTransactions := abei.onboardTransactions } node with ⟨r, n₁⟩
      have hnext := (h.connectBlock hmem (Or.inr hadded) hrun).1
      rcases r with (_ | _) | _
      · exact hnext
      · exact hnext
      · exact ih hnext fun other hother => hset other (List.mem_cons_of_mem abei hother)

/-! ## Alternative blocks during a switch -/

theorem SplitState.eraseAltblock {node : Node} (h : SplitState env S s n base added node)
    (abei : AltBlockExtendedInfo) :
    SplitState env S s n base added (doEraseAltblock env abei node) :=
  h.shrink rfl fun _ _ hlookup => lookup_of_erase hlookup

theorem SplitState.prune {node : Node} (h : SplitState env S s n base added node) :
    SplitState env S s n base added (pruneAgedAltBlocks env node) :=
  h.shrink (pruneAgedAltBlocks_db node) fun _ _ hlookup => lookup_of_pruneAgedAltBlocks hlookup

/-- The end of `handle_alternative_block` where no switch follows. -/
theorem SplitState.chooseFork {switch : AltChain → NodeProcedure Unit} {altChain : AltChain}
    {abei : AltBlockExtendedInfo} (hswitch : Follows (Preserves (SplitState env S s n base added))
      (guardReorganize (switch altChain))) :
    Follows (Preserves (SplitState env S s n base added)) (chooseFork env switch altChain abei) := by
  refine (preserves_of_contents (keeps_contents_isReorganizeRequiredFor altChain _)).bind
    fun required => ?_
  split
  · exact hswitch.bind fun _ => Follows.pure _
  · refine (Follows.modify fun node h => ?_).bind fun _ => Follows.pure _
    split
    · exact h.prune
    · exact h

theorem preserves_catchThrown {P : Node → Prop} {α : Type} {x : NodeProcedure α} {node : Node}
    (hx : P (x node).2) : P (catchThrown x node).2 := by
  rcases hrun : x node with ⟨_ | _, node'⟩ <;> rw [hrun] at hx <;>
    simpa [catchThrown, hrun] using hx

/-- A disconnected block is handed over. -/
theorem SplitState.handleDisconnectedBlock (hinj : Set.InjOn env.crypto.getBlockHash S) {now : Nat}
    {b : Block} {onboard : TransactionsMap} {node : Node}
    (h : SplitState env S s n base added node) (hmem : b ∈ S) :
    SplitState env S s n base added (Chinet.handleDisconnectedBlock env now b onboard node).2 := by
  unfold Chinet.handleDisconnectedBlock handleAlternativeBlockWith
  refine check_bind_elim (motive := fun result => SplitState env S s n base added result.2)
    (fun _ _ => h) fun _ hopen => preserves_catchThrown ?_
  refine check_bind_elim (motive := fun result => SplitState env S s n base added result.2)
    (fun _ _ => h) fun place hplace => ?_
  rw [require_eq_ok, Bool.not_eq_true'] at hopen
  cases place with
  | none =>
      have hlinks : Follows (Preserves (SplitState env S s n base added))
          (do checkPrevLinks env; pure AltVerdict.orphaned : NodeProcedure AltVerdict) :=
        (Follows.check _).bind fun _ => Follows.pure _
      exact hlinks node h
  | some place =>
      dsimp only
      rw [bind_apply]
      rcases hrun : acceptAlternativeBlock env now b onboard place node with ⟨failure | abei, n₁⟩
      · exact h.of_view (chainsView_of_contents (acceptAlternativeBlock_error hrun))
      · have haccepted := h.acceptBlock hinj hmem hopen hplace hrun
        refine SplitState.chooseFork (fun node h => ?_) n₁ haccepted
        -- a switch inside a switch only throws
        have hsame : (guardReorganize (fail Failure.thrown) node).2.contents = node.contents := by
          unfold guardReorganize
          split <;> rfl
        exact h.of_view (chainsView_of_contents hsame)

theorem SplitState.handOverDisconnected (hinj : Set.InjOn env.crypto.getBlockHash S) {now : Nat}
    {handed disconnected : List BlockWsTxs} {node node' : Node}
    {r : Except Failure (Option (List BlockWsTxs))} (h : SplitState env S s n base added node)
    (hhanded : FromSet S handed) (hset : FromSet S disconnected)
    (hrun : Chinet.handOverDisconnected env now handed disconnected node = (r, node')) :
    SplitState env S s n base added node' ∧ ∀ originalChain, r = .ok (some originalChain) →
      originalChain.length = handed.length + disconnected.length ∧ FromSet S originalChain := by
  induction disconnected generalizing handed node with
  | nil =>
      cases hrun
      exact ⟨h, fun _ hr => by cases hr⟩
  | cons entry rest ih =>
      have hmem : entry.b ∈ S := hset entry List.mem_cons_self
      have hrest : FromSet S rest := fun other hother => hset other (List.mem_cons_of_mem entry hother)
      have hhanded' : FromSet S (handed ++ [{ entry with onboardTransactions := ∅ }]) := by
        intro other hother
        rcases List.mem_append.mp hother with hother | hother
        · exact hhanded other hother
        · rw [List.mem_singleton.mp hother]
          exact hmem
      have hnext : SplitState env S s n base added (Chinet.handleDisconnectedBlock env now entry.b
          entry.onboardTransactions node).2 := h.handleDisconnectedBlock hinj hmem
      rw [Chinet.handOverDisconnected] at hrun
      rw [bind_apply, succeeds, bind_apply] at hrun
      rcases hblock : Chinet.handleDisconnectedBlock env now entry.b entry.onboardTransactions node
        with ⟨(_ | _) | _, n₁⟩
      · rw [hblock] at hrun hnext
        cases hrun
        refine ⟨hnext, fun originalChain heq => ?_⟩
        cases heq
        refine ⟨?_, ?_⟩
        · simp only [List.length_append, List.length_cons, List.length_nil]
          omega
        · intro other hother
          rcases List.mem_append.mp hother with hother | hother
          · exact hhanded' other hother
          · exact hrest other hother
      · rw [hblock] at hrun hnext
        cases hrun
        exact ⟨hnext, fun _ hr => by cases hr⟩
      · rw [hblock] at hrun hnext
        obtain ⟨hstate, hok⟩ := ih hnext hhanded' hrest hrun
        refine ⟨hstate, fun originalChain heq => ?_⟩
        obtain ⟨hlength, hfrom⟩ := hok originalChain heq
        refine ⟨?_, hfrom⟩
        simp only [List.length_append, List.length_cons, List.length_nil] at hlength ⊢
        omega

/-! ## The switch -/

/-- None of the blocks of `altChain` is an alternative block. -/
def Erased (env : Env) (altChain : AltChain) (node : Node) : Prop :=
  ∀ abei ∈ altChain, node.alternativeChains.lookup (env.crypto.getBlockHash abei.bl) = none

theorem SplitState.eraseAltblocks {altChain : AltChain} {node : Node}
    (h : SplitState env S s n base added node) :
    SplitState env S s n base added
        (altChain.foldl (fun node abei => doEraseAltblock env abei node) node) ∧
      Erased env altChain (altChain.foldl (fun node abei => doEraseAltblock env abei node) node) := by
  have hsub : ∀ (altChain : AltChain) (node : Node) (id : Hash),
      node.alternativeChains.lookup id = none →
      (altChain.foldl (fun node abei => doEraseAltblock env abei node) node).alternativeChains.lookup
        id = none := by
    intro altChain
    induction altChain with
    | nil => exact fun _ _ hnone => hnone
    | cons abei rest ih =>
        intro node id hnone
        apply ih
        have herase : (doEraseAltblock env abei node).alternativeChains.lookup id =
            (node.alternativeChains.erase (env.crypto.getBlockHash abei.bl)).lookup id := rfl
        rw [herase, lookup_erase_ite]
        split
        · rfl
        · exact hnone
  induction altChain generalizing node with
  | nil => exact ⟨h, fun _ habei => absurd habei List.not_mem_nil⟩
  | cons abei rest ih =>
      obtain ⟨hstate, herased⟩ := ih (h.eraseAltblock abei)
      refine ⟨hstate, fun other hother => ?_⟩
      rcases List.mem_cons.mp hother with rfl | hother
      · apply hsub rest
        have herase : (doEraseAltblock env other node).alternativeChains.lookup
            (env.crypto.getBlockHash other.bl) =
            (node.alternativeChains.erase (env.crypto.getBlockHash other.bl)).lookup
              (env.crypto.getBlockHash other.bl) := rfl
        rw [herase, lookup_erase_ite, if_pos rfl]
      · exact herased other hother

theorem SplitState.discardAltblocks {altChain : AltChain} {node : Node}
    (h : SplitState env S s n base added node) :
    SplitState env S s n base added
      (altChain.foldl (fun node abei => discardAltblock env abei node) node) := by
  induction altChain generalizing node with
  | nil => exact h
  | cons abei rest ih =>
      apply ih
      have hmarked : SplitState env S s n base added { node with
          invalidBlocks := insert (env.crypto.getBlockHash abei.bl) node.invalidBlocks } :=
        h.of_view rfl
      exact hmarked.eraseAltblock abei

theorem SplitState.finishSwitch (hinj : Set.InjOn env.crypto.getBlockHash S) {now : Nat}
    {altChain : AltChain} {disconnected : List BlockWsTxs} {node node' : Node}
    {r : Except Failure Unit} (h : SplitState env S s n base added node)
    (hset : FromSet S disconnected) (hsize : s + disconnected.length ≤ n)
    (hrun : Chinet.finishSwitch env now altChain disconnected s node = (r, node')) :
    SplitState env S s n base added node' ∧ (r = .ok () → Erased env altChain node') := by
  unfold Chinet.finishSwitch at hrun
  rw [bind_apply] at hrun
  rcases hhand : Chinet.handOverDisconnected env now [] disconnected node with
    ⟨failure | (_ | originalChain), n₁⟩
  · rw [hhand] at hrun
    cases hrun
    exact ⟨(h.handOverDisconnected hinj FromSet.nil hset hhand).1, fun hr => by cases hr⟩
  · rw [hhand] at hrun
    cases hrun
    have hstate := (h.handOverDisconnected hinj FromSet.nil hset hhand).1
    exact ⟨hstate.eraseAltblocks.1, fun _ => hstate.eraseAltblocks.2⟩
  · rw [hhand] at hrun
    obtain ⟨hstate, hok⟩ := h.handOverDisconnected hinj FromSet.nil hset hhand
    obtain ⟨hlength, hfrom⟩ := hok originalChain rfl
    rw [List.length_nil, Nat.zero_add] at hlength
    have hrolled : Follows (Preserves (SplitState env S s n base added))
        (rollbackBlockchainSwitching env now originalChain s) :=
      fun node h => h.rollback hfrom (by omega)
    have hnext := follows_succeeds hrolled n₁ hstate
    dsimp only at hrun
    rw [bind_apply] at hrun
    rcases hback : succeeds (rollbackBlockchainSwitching env now originalChain s) n₁ with
      ⟨failure | back, n₂⟩
    · rw [hback] at hrun hnext
      cases hrun
      exact ⟨hnext, fun hr => by cases hr⟩
    · rw [hback] at hrun hnext
      dsimp only at hrun
      rw [bind_apply, checkPrevLinks, check_apply] at hrun
      split at hrun
      · rename_i hcheck
        obtain ⟨_, rfl⟩ := Prod.mk.inj hcheck
        cases hrun
        exact ⟨hnext.eraseAltblocks.1, fun _ => hnext.eraseAltblocks.2⟩
      · rename_i hcheck
        obtain ⟨_, rfl⟩ := Prod.mk.inj hcheck
        cases hrun
        exact ⟨hnext, fun hr => by cases hr⟩

theorem SplitState.abandonSwitch {now : Nat} {refused : AltChain} {disconnected : List BlockWsTxs}
    (hset : FromSet S disconnected) (hsize : s + disconnected.length ≤ n) :
    Follows (Preserves (SplitState env S s n base added))
      (Chinet.abandonSwitch env now refused disconnected s) := by
  have hrolled : Follows (Preserves (SplitState env S s n base added))
      (rollbackBlockchainSwitching env now disconnected s) :=
    fun node h => h.rollback hset hsize
  refine (follows_succeeds hrolled).bind fun _ => ?_
  refine (Follows.modify fun node h => h.discardAltblocks).bind fun _ => ?_
  exact (Follows.check _).bind fun _ => Follows.fail _

theorem abandonSwitch_ne_ok {now : Nat} {refused : AltChain} {disconnected : List BlockWsTxs}
    {node node' : Node} : Chinet.abandonSwitch env now refused disconnected s node ≠ (.ok (), node') := by
  intro h
  unfold Chinet.abandonSwitch at h
  rw [bind_ok_iff] at h
  obtain ⟨_, n₁, _, h⟩ := h
  rw [modify_bind, checkPrevLinks, check_bind_ok_iff] at h
  obtain ⟨_, _, h⟩ := h
  cases h

/-- A switch: the main chain is cut back to the split and not further. -/
theorem SplitState.switchToAlternativeBlockchain (hinj : Set.InjOn env.crypto.getBlockHash S)
    {now : Nat} {altChain : AltChain} {node node' : Node} {r : Except Failure Unit}
    (h : SplitState env S s n base added node) (hsplit : ∀ front ∈ altChain.head?, front.height = s)
    (hset : ∀ abei ∈ altChain, abei.bl ∈ S ∧ abei.bl ∈ added) (hsize : node.db.size ≤ n)
    (hrun : Chinet.switchToAlternativeBlockchain env now altChain node = (r, node')) :
    SplitState env S s n base added node' ∧ (r = .ok () → Erased env altChain node') := by
  unfold Chinet.switchToAlternativeBlockchain at hrun
  rw [bind_apply, checkPrevLinks, check_apply] at hrun
  split at hrun
  · rename_i hcheck
    obtain ⟨_, rfl⟩ := Prod.mk.inj hcheck
    cases altChain with
    | nil =>
        cases hrun
        exact ⟨h, fun hr => by cases hr⟩
    | cons front rest =>
        have hfront : front.height = s := hsplit front rfl
        dsimp only at hrun
        rw [bind_apply, check_apply] at hrun
        split at hrun
        · rename_i hcheck
          obtain ⟨_, rfl⟩ := Prod.mk.inj hcheck
          rw [gets_bind, hfront, bind_apply] at hrun
          have hge := h.size_ge
          rcases hpop : Chinet.disconnectBlocks env true (node.db.size - s) [] node with
            ⟨failure | disconnected, n₁⟩
          · rw [hpop] at hrun
            cases hrun
            exact ⟨(h.disconnectBlocks (by omega) FromSet.nil hpop).1, fun hr => by cases hr⟩
          · rw [hpop] at hrun
            obtain ⟨hcut, hok⟩ := h.disconnectBlocks (by omega) FromSet.nil hpop
            obtain ⟨_, hlength, hfrom⟩ := hok disconnected rfl
            rw [List.length_nil, Nat.zero_add] at hlength
            have hconnected : SplitState env S s n base added
                (Chinet.connectAltChain env now (front :: rest) n₁).2 := hcut.connectAltChain hset
            dsimp only at hrun
            rw [bind_apply] at hrun
            rcases hconnect : Chinet.connectAltChain env now (front :: rest) n₁ with
              ⟨failure | refused, n₂⟩
            · rw [hconnect] at hrun hconnected
              cases hrun
              exact ⟨hconnected, fun hr => by cases hr⟩
            · rw [hconnect] at hrun hconnected
              dsimp only at hrun
              split at hrun
              · exact hconnected.finishSwitch hinj hfrom (by omega) hrun
              · have habandon : Follows (Preserves (SplitState env S s n base added))
                    (Chinet.abandonSwitch env now refused disconnected s) :=
                  SplitState.abandonSwitch hfrom (by omega)
                refine ⟨habandon.rel_of_run hrun hconnected, fun hr => ?_⟩
                rw [hr] at hrun
                exact absurd hrun abandonSwitch_ne_ok
        · rename_i hcheck
          obtain ⟨_, rfl⟩ := Prod.mk.inj hcheck
          cases hrun
          exact ⟨h, fun hr => by cases hr⟩
  · rename_i hcheck
    obtain ⟨_, rfl⟩ := Prod.mk.inj hcheck
    cases hrun
    exact ⟨h, fun hr => by cases hr⟩

end

/-! ## A call -/

section

variable {S : Set Block}

/-- The invariant between calls: no alternative block stands at a checkpoint that the
main chain has passed. -/
def CheckpointInv (env : Env) (S : Set Block) (node : Node) : Prop :=
  SplitState env S node.db.size node.db.size node.db.blocks ∅ node

/-- Up to each checkpoint that `node` has passed, `node'` has the blocks of `node`. -/
def KeepsCheckpoints (env : Env) (node node' : Node) : Prop :=
  ∀ c point, env.checkpoints.pointAt c = some point → c < node.db.size →
    ∀ i ≤ c, node'.db.blocks[i]? = node.db.blocks[i]?

/-- What a call has done before its database transaction ends. -/
structure CallOutcome (env : Env) (S : Set Block) {α : Type} (node : Node)
    (result : Except Failure α × Node) : Prop where
  alts : AltsAbove env S node.db.size result.2.alternativeChains
  settled : ∀ a, result.1 = .ok a →
    CheckpointInv env S result.2 ∧ KeepsCheckpoints env node result.2

/-- The chain was rebuilt from `s` on, above all checkpoints that it has passed. -/
theorem CallOutcome.of_split {α : Type} {s : Nat} {added : Set Block} {node node' : Node}
    {r : Except Failure α}
    (h : SplitState env S s node.db.size (node.db.blocks.take s) added node')
    (hfar : ∀ c point, env.checkpoints.pointAt c = some point → c < node.db.size → c < s)
    (hclear : ∀ a, r = .ok a → ∀ b ∈ added,
      node'.alternativeChains.lookup (env.crypto.getBlockHash b) = none) :
    CallOutcome env S node (r, node') := by
  constructor
  · intro id abei hlookup
    obtain ⟨hentry, habove⟩ := h.alts id abei hlookup
    refine ⟨hentry, fun point hpoint => ?_⟩
    have hge := habove point hpoint
    have hlow := hfar abei.height point hpoint
    omega
  · intro a ha
    refine ⟨?_, ?_⟩
    · refine ⟨List.take_length, le_rfl, h.main, h.index, ?_, ?_⟩
      · intro i bei _ hget
        exact Or.inl (List.getElem?_eq_some_iff.mp hget).1
      · intro id abei hlookup
        obtain ⟨hentry, habove⟩ := h.alts id abei hlookup
        refine ⟨hentry, fun point hpoint => ?_⟩
        by_contra hlt
        rw [not_le, Db.size] at hlt
        have hget := List.getElem?_eq_getElem hlt
        have hmain := h.main _ _ hget
        -- both have the hash of the checkpoint
        have hid : id = point := Checkpoints.checkBlock_iff.mp hentry.checkpoint point hpoint
        have hhash := Checkpoints.checkBlock_iff.mp hmain.checkpoint point hpoint
        obtain hlow | hadded := h.above _ _ (habove point hpoint) hget
        · have hs := hfar abei.height point hpoint hlow
          have hge := habove point hpoint
          omega
        · have hnone := hclear a ha _ hadded
          rw [hhash, ← hid, hlookup] at hnone
          cases hnone
    · intro c point hpoint hc i hi
      have hs : i < s := lt_of_le_of_lt hi (hfar c point hpoint hc)
      calc node'.db.blocks[i]? = (node'.db.blocks.take s)[i]? := (List.getElem?_take_of_lt hs).symm
        _ = (node.db.blocks.take s)[i]? := by rw [h.base_eq]
        _ = node.db.blocks[i]? := List.getElem?_take_of_lt hs

/-- Nothing has happened to the main chain. -/
theorem CallOutcome.of_unchanged {α : Type} {node node' : Node} {r : Except Failure α}
    (h : SplitState env S node.db.size node.db.size node.db.blocks ∅ node') :
    CallOutcome env S node (r, node') := by
  have hbase : node.db.blocks.take node.db.size = node.db.blocks := List.take_length
  have hsplit : SplitState env S node.db.size node.db.size (node.db.blocks.take node.db.size) ∅
      node' := by
    rw [hbase]
    exact h
  exact CallOutcome.of_split hsplit (fun _ _ _ hc => hc)
    fun _ _ _ hb => absurd hb (Set.notMem_empty _)

theorem CallOutcome.inDbTransaction {α : Type} {x : NodeProcedure α} {node : Node}
    (h : CheckpointInv env S node) (hx : CallOutcome env S node (x node)) :
    CheckpointInv env S (Chinet.inDbTransaction x node).2 ∧
      KeepsCheckpoints env node (Chinet.inDbTransaction x node).2 := by
  unfold Chinet.inDbTransaction
  rcases hrun : x node with ⟨failure | a, node'⟩
  · rw [hrun] at hx
    refine ⟨⟨h.base_eq, h.size_ge, h.main, h.index, h.above, hx.alts⟩, ?_⟩
    exact fun _ _ _ _ _ _ => rfl
  · rw [hrun] at hx
    exact hx.settled a rfl

theorem CallOutcome.catchThrown {α : Type} {x : NodeProcedure α} {node : Node}
    (hx : CallOutcome env S node (x node)) : CallOutcome env S node (Chinet.catchThrown x node) := by
  unfold Chinet.catchThrown
  rcases hrun : x node with ⟨failure | a, node'⟩
  · rw [hrun] at hx
    exact ⟨hx.alts, fun _ hr => by cases hr⟩
  · rw [hrun] at hx
    exact hx

/-- Looking at a split lower down. -/
theorem SplitState.lower {s n : Nat} {base : List BlockExtendedInfo} {added : Set Block}
    {node : Node} (h : SplitState env S n n base ∅ node) (hs : s ≤ n) :
    SplitState env S s n (base.take s) added node := by
  constructor
  · rw [← h.base_eq, List.take_take, min_eq_left hs]
  · exact le_trans hs h.size_ge
  · exact h.main
  · exact h.index
  · intro i bei _ hget
    left
    by_contra hge
    obtain hlt | hempty := h.above i bei (not_lt.mp hge) hget
    · exact hge hlt
    · exact absurd hempty (Set.notMem_empty _)
  · intro id abei hlookup
    obtain ⟨hentry, habove⟩ := h.alts id abei hlookup
    exact ⟨hentry, fun point hpoint => le_trans hs (habove point hpoint)⟩

/-! ### The heights of an alternative chain -/

theorem mem_altChainFrom {alts : FiniteStore Hash AltBlockExtendedInfo} {fuel : Nat} {id : Hash}
    {abei : AltBlockExtendedInfo} (h : abei ∈ altChainFrom alts fuel id) :
    ∃ key, alts.lookup key = some abei := by
  induction fuel generalizing id with
  | zero => exact absurd h List.not_mem_nil
  | succ fuel ih =>
      rw [altChainFrom] at h
      split at h
      · exact absurd h List.not_mem_nil
      · rename_i last hlast
        rcases List.mem_append.mp h with h | h
        · exact ih h
        · rw [List.mem_singleton.mp h]
          exact ⟨id, hlast⟩

/-- An alternative chain has a block at every height from its front to its head. -/
theorem altChainFrom_covers {s : Nat} {alts : FiniteStore Hash AltBlockExtendedInfo}
    (halts : AltsAbove env S s alts) {fuel : Nat} {id : Hash} {head front : AltBlockExtendedInfo}
    (hhead : alts.lookup id = some head)
    (hfront : (altChainFrom alts (fuel + 1) id).head? = some front) {c : Nat}
    (hlow : front.height ≤ c) (hhigh : c ≤ head.height) :
    ∃ abei ∈ altChainFrom alts (fuel + 1) id, abei.height = c := by
  induction fuel generalizing id head with
  | zero =>
      simp only [altChainFrom, hhead, List.nil_append, List.head?_cons, Option.some.injEq] at hfront ⊢
      rw [← hfront] at hlow
      exact ⟨head, List.mem_singleton_self head, le_antisymm hlow hhigh⟩
  | succ fuel ih =>
      rw [altChainFrom, hhead] at hfront ⊢
      dsimp only at hfront ⊢
      cases hprev : alts.lookup head.bl.prevId with
      | none =>
          have hnil : altChainFrom alts (fuel + 1) head.bl.prevId = [] := by
            rw [altChainFrom, hprev]
          rw [hnil, List.nil_append, List.head?_cons, Option.some.injEq] at hfront
          rw [← hfront] at hlow
          refine ⟨head, List.mem_append_right _ (List.mem_singleton_self head), ?_⟩
          exact le_antisymm hlow hhigh
      | some prev =>
          have hentry := (halts _ _ hprev).1
          have hheight : prev.height + 1 = head.height := by
            rw [← hentry.height_eq]
            exact (halts _ _ hhead).1.above prev.bl hentry.mem hentry.id_eq
          have hne : altChainFrom alts (fuel + 1) head.bl.prevId ≠ [] := by
            rw [altChainFrom, hprev]
            exact List.append_ne_nil_of_right_ne_nil _ (List.cons_ne_nil _ _)
          rw [List.head?_append_of_ne_nil _ hne] at hfront
          rcases Nat.lt_or_ge prev.height c with hlt | hge
          · refine ⟨head, List.mem_append_right _ (List.mem_singleton_self head), ?_⟩
            omega
          · obtain ⟨abei, habei, hc⟩ := ih hprev hfront hge
            exact ⟨abei, List.mem_append_left _ habei, hc⟩

/-- A chain that splits off at `s` does so above every checkpoint the main chain has passed. -/
theorem checkpoint_lt_split {now : Nat} {b : Block} {onboard : TransactionsMap} {place : AltPlace}
    {node node' : Node} {abei front : AltBlockExtendedInfo}
    (halts : AltsAbove env S node.db.size node.alternativeChains)
    (hopen : env.checkpoints.isHeightPassedZone (getBlockHeight b) (node.db.size - 1) = false)
    (hplace : FoundPlace node b.prevId place)
    (a : AcceptedAltBlock env now b onboard place node node' abei)
    (hfront : (place.altChain ++ [abei]).head? = some front) {c : Nat} {point : Hash}
    (hpoint : env.checkpoints.pointAt c = some point) (hc : c < node.db.size) :
    c < front.height := by
  by_contra hle
  rw [not_lt] at hle
  have hheight : abei.height = place.height := by
    have heq := congrArg BlockHeaderInfo.height a.header.header_eq
    rw [heq, altHeaderInfo]
  -- the new block itself is above the checkpoint
  have hhigh : c < place.height := by
    by_contra hlow
    have hpassed : env.checkpoints.isHeightPassedZone (getBlockHeight b) (node.db.size - 1) = true := by
      rw [a.header.coinbaseHeight]
      exact Checkpoints.isHeightPassedZone_of_pointAt hpoint (by omega) (by omega)
    rw [hpassed] at hopen
    cases hopen
  cases hplace with
  | mainChain mainPrev lookup_none lookup_eq altChain_eq prev_eq height_eq =>
      rw [altChain_eq, List.nil_append, List.head?_cons, Option.some.injEq] at hfront
      rw [← hfront] at hle
      omega
  | alternative below prev lookup_eq altChain_eq walk_eq prev_eq height_eq =>
      have hne : place.altChain ≠ [] := by
        rw [altChain_eq]
        exact List.append_ne_nil_of_right_ne_nil _ (List.cons_ne_nil _ _)
      rw [List.head?_append_of_ne_nil _ hne, walk_eq, Node.altChain] at hfront
      obtain ⟨fuel, hfuel⟩ := Nat.exists_eq_succ_of_ne_zero (size_ne_zero_of_lookup lookup_eq)
      rw [hfuel] at hfront
      obtain ⟨e, he, heheight⟩ := altChainFrom_covers halts lookup_eq hfront hle (by omega)
      obtain ⟨key, hkey⟩ := mem_altChainFrom he
      -- but no alternative block stands there
      have hge := (halts key e hkey).2 point (by rw [heheight]; exact hpoint)
      omega

/-! ### Alternative blocks -/

/-- The split is not above the main chain. -/
theorem split_le_size {now : Nat} {b : Block} {onboard : TransactionsMap} {place : AltPlace}
    {node node' : Node} {abei front : AltBlockExtendedInfo} (hplace : FoundPlace node b.prevId place)
    (a : AcceptedAltBlock env now b onboard place node node' abei)
    (hfront : (place.altChain ++ [abei]).head? = some front) : front.height ≤ node.db.size := by
  have hheight : abei.height = place.height := by
    have heq := congrArg BlockHeaderInfo.height a.header.header_eq
    rw [heq, altHeaderInfo]
  cases hplace with
  | mainChain mainPrev lookup_none lookup_eq altChain_eq prev_eq height_eq =>
      have hlt := (List.getElem?_eq_some_iff.mp prev_eq).1
      rw [Db.headers_length] at hlt
      rw [altChain_eq, List.nil_append, List.head?_cons, Option.some.injEq] at hfront
      rw [← hfront, hheight, height_eq]
      exact hlt
  | alternative below prev lookup_eq altChain_eq walk_eq prev_eq height_eq =>
      have htimestamp := a.header.timestamp
      unfold checkAltTimestamp at htimestamp
      cases hchain : place.altChain with
      | nil =>
          rw [altChain_eq] at hchain
          exact absurd hchain (List.append_ne_nil_of_right_ne_nil _ (List.cons_ne_nil _ _))
      | cons first rest =>
          rw [hchain, List.cons_append, List.head?_cons, Option.some.injEq] at hfront
          rw [hchain] at htimestamp
          simp only [bind_eq_ok, require_eq_ok, decide_eq_true_eq] at htimestamp
          obtain ⟨_, hsize, _⟩ := htimestamp
          rw [← hfront]
          exact hsize

/-- A switch inside a switch only throws. -/
theorem guardReorganize_cases {switch : NodeProcedure Unit} {node node' : Node}
    {r : Except Failure Unit} (h : guardReorganize switch node = (r, node')) :
    ((∃ failure, r = .error failure) ∧ node'.contents = node.contents) ∨
      ∃ n₁, switch { node with isReorganizeInProcess := true } = (r, n₁) ∧
        node'.contents = n₁.contents := by
  unfold guardReorganize at h
  split at h
  · cases h
    exact Or.inl ⟨⟨_, rfl⟩, rfl⟩
  · cases h
    exact Or.inr ⟨_, rfl, rfl⟩

theorem mem_of_place {s : Nat} {prevId : Hash} {place : AltPlace} {node : Node}
    {abei : AltBlockExtendedInfo} (halts : AltsAbove env S s node.alternativeChains)
    (hplace : FoundPlace node prevId place) (h : abei ∈ place.altChain) : abei.bl ∈ S := by
  cases hplace with
  | mainChain mainPrev lookup_none lookup_eq altChain_eq prev_eq height_eq =>
      rw [altChain_eq] at h
      exact absurd h List.not_mem_nil
  | alternative below prev lookup_eq altChain_eq walk_eq prev_eq height_eq =>
      rw [walk_eq] at h
      obtain ⟨key, hkey⟩ := mem_altChainFrom h
      exact (halts key abei hkey).1.mem

/-- `handle_alternative_block` from a state between two calls. -/
theorem handleAlternativeBlock_outcome (hinj : Set.InjOn env.crypto.getBlockHash S) {now : Nat}
    {b : Block} {onboard : TransactionsMap} {node : Node} (h : CheckpointInv env S node)
    (hmem : b ∈ S) : CallOutcome env S node (handleAlternativeBlock env now b onboard node) := by
  unfold handleAlternativeBlock handleAlternativeBlockWith
  refine check_bind_elim (motive := fun result => CallOutcome env S node result)
    (fun _ _ => .of_unchanged h) fun _ hopen => CallOutcome.catchThrown ?_
  refine check_bind_elim (motive := fun result => CallOutcome env S node result)
    (fun _ _ => .of_unchanged h) fun place hplace => ?_
  rw [require_eq_ok, Bool.not_eq_true'] at hopen
  cases place with
  | none =>
      refine check_bind_elim (motive := fun result => CallOutcome env S node result)
        (fun _ _ => .of_unchanged h) fun _ _ => .of_unchanged h
  | some place =>
      dsimp only
      rw [bind_apply]
      rcases hrun : acceptAlternativeBlock env now b onboard place node with ⟨failure | abei, n₁⟩
      · exact .of_unchanged (h.of_view (chainsView_of_contents (acceptAlternativeBlock_error hrun)))
      dsimp only
      have haccepted : SplitState env S node.db.size node.db.size node.db.blocks ∅ n₁ :=
        SplitState.acceptBlock hinj h hmem hopen hplace hrun
      obtain ⟨a⟩ := acceptAlternativeBlock_ok hrun
      have hfound := findAltPlace_ok hplace
      unfold chooseFork
      rw [bind_apply]
      have hkeep := (keeps_contents_isReorganizeRequiredFor (place.altChain ++ [abei])
        (proofOf env abei) : Keeps Node.contents (isReorganizeRequiredFor env _ _)) n₁
      rcases hchoice : isReorganizeRequiredFor env (place.altChain ++ [abei]) (proofOf env abei) n₁
        with ⟨failure | required, n₂⟩
      · rw [hchoice] at hkeep
        exact .of_unchanged (haccepted.of_view (chainsView_of_contents hkeep))
      rw [hchoice] at hkeep
      have hchosen : SplitState env S node.db.size node.db.size node.db.blocks ∅ n₂ :=
        haccepted.of_view (chainsView_of_contents hkeep)
      dsimp only
      cases required with
      | false =>
          rw [if_neg Bool.false_ne_true, modify_bind]
          refine .of_unchanged ?_
          split
          · exact hchosen.prune
          · exact hchosen
      | true =>
          rw [if_pos rfl, bind_apply]
          -- the split is where the front of the chain stands
          obtain ⟨front, hfront⟩ : ∃ front, (place.altChain ++ [abei]).head? = some front := by
            have hne : place.altChain ++ [abei] ≠ [] :=
              List.append_ne_nil_of_right_ne_nil _ (List.cons_ne_nil _ _)
            exact ⟨_, List.head?_eq_some_head hne⟩
          have hle := split_le_size hfound a hfront
          have hfar : ∀ c point, env.checkpoints.pointAt c = some point → c < node.db.size →
              c < front.height :=
            fun c point hpoint hc => checkpoint_lt_split h.alts hopen hfound a hfront hpoint hc
          have hsplit : SplitState env S front.height node.db.size
              (node.db.blocks.take front.height)
              {b | ∃ abei' ∈ place.altChain ++ [abei], abei'.bl = b} n₂ :=
            hchosen.lower hle
          have hset : ∀ abei' ∈ place.altChain ++ [abei], abei'.bl ∈ S ∧
              abei'.bl ∈ {b | ∃ abei' ∈ place.altChain ++ [abei], abei'.bl = b} := by
            intro abei' habei'
            refine ⟨?_, abei', habei', rfl⟩
            rcases List.mem_append.mp habei' with hbelow | hnew
            · exact mem_of_place h.alts hfound hbelow
            · rw [List.mem_singleton.mp hnew, a.bl_eq]
              exact hmem
          have hsize : n₂.db.size ≤ node.db.size := by
            by_contra hgt
            rw [not_le, Db.size] at hgt
            obtain hlt | hempty := hchosen.above _ _ le_rfl (List.getElem?_eq_getElem hgt)
            · exact absurd hlt (lt_irrefl _)
            · exact absurd hempty (Set.notMem_empty _)
          have hhead : ∀ front' ∈ (place.altChain ++ [abei]).head?, front'.height = front.height := by
            intro front' hfront'
            rw [hfront] at hfront'
            cases hfront'
            rfl
          rcases hguard : guardReorganize (switchToAlternativeBlockchain env now
            (place.altChain ++ [abei])) n₂ with ⟨r, n₄⟩
          obtain ⟨⟨failure, rfl⟩, hsame⟩ | ⟨n₃, hswitch, hsame⟩ := guardReorganize_cases hguard
          · exact .of_unchanged (hchosen.of_view (chainsView_of_contents hsame))
          · have hstart : SplitState env S front.height node.db.size
                (node.db.blocks.take front.height)
                {b | ∃ abei' ∈ place.altChain ++ [abei], abei'.bl = b}
                { n₂ with isReorganizeInProcess := true } := hsplit.of_view rfl
            obtain ⟨hend, herased⟩ :=
              hstart.switchToAlternativeBlockchain hinj hhead hset hsize hswitch
            have hend' := hend.of_view (chainsView_of_contents hsame)
            have hchains : n₄.alternativeChains = n₃.alternativeChains :=
              congrArg (fun view => view.2.2) (chainsView_of_contents hsame)
            cases r with
            | error failure => exact CallOutcome.of_split hend' hfar fun _ hr => by cases hr
            | ok _ =>
                refine CallOutcome.of_split hend' hfar fun _ _ b' hb' => ?_
                obtain ⟨abei', habei', rfl⟩ := hb'
                rw [hchains]
                exact herased rfl abei' habei'

/-- A block for the head of the main chain, which is not an alternative block. -/
theorem addToMainChain_outcome {now : Nat} {bl : Block} {onboard : TransactionsMap} {node : Node}
    (h : CheckpointInv env S node) (hmem : bl ∈ S)
    (hfresh : node.alternativeChains.lookup (env.crypto.getBlockHash bl) = none) :
    CallOutcome env S node (addToMainChain env now bl onboard node) := by
  have hstart : SplitState env S node.db.size node.db.size (node.db.blocks.take node.db.size) {bl}
      node := h.lower le_rfl
  have hadded : SplitState env S node.db.size node.db.size (node.db.blocks.take node.db.size) {bl}
      (handleBlockToMainChain env now bl (env.crypto.getBlockHash bl) onboard node).2 :=
    hstart.handleBlockToMainChain hmem (Or.inr rfl)
  unfold addToMainChain
  rw [bind_apply]
  rcases hrun : handleBlockToMainChain env now bl (env.crypto.getBlockHash bl) onboard node with
    ⟨failure | verdict, n₁⟩
  · rw [hrun] at hadded
    exact CallOutcome.of_split hadded (fun _ _ _ hc => hc) fun _ hr => by cases hr
  · rw [hrun] at hadded
    dsimp only
    split
    · rename_i hverdict
      subst hverdict
      obtain ⟨s⟩ := handleBlockToMainChain_added hrun
      have hchains : n₁.alternativeChains = node.alternativeChains :=
        congrArg AltView.alternativeChains s.altView_eq
      refine CallOutcome.of_split hadded (fun _ _ _ hc => hc) fun _ _ b hb => ?_
      rw [Set.mem_singleton_iff.mp hb, hchains]
      exact hfresh
    · exact CallOutcome.of_split hadded (fun _ _ _ hc => hc) fun _ hr => by cases hr

/-- One call of `add_new_block`. -/
theorem addNewBlock_checkpoints (hinj : Set.InjOn env.crypto.getBlockHash S) {now : Nat}
    {bl : Block} {onboard : TransactionsMap} {node : Node} (h : CheckpointInv env S node)
    (hmem : bl ∈ S) :
    CheckpointInv env S (addNewBlock env now bl onboard node).2 ∧
      KeepsCheckpoints env node (addNewBlock env now bl onboard node).2 := by
  unfold addNewBlock
  refine check_bind_elim
    (motive := fun result => CheckpointInv env S result.2 ∧ KeepsCheckpoints env node result.2)
    (fun _ _ => ⟨h, fun _ _ _ _ _ _ => rfl⟩) fun _ hchecks => ?_
  rw [require_bind_eq_ok] at hchecks
  have hhave := hchecks.1
  simp only [haveBlock, Bool.not_eq_true', Bool.or_eq_false_iff] at hhave
  rw [gets_bind]
  split
  · exact (handleAlternativeBlock_outcome hinj h hmem).inDbTransaction h
  · refine (addToMainChain_outcome h hmem ?_).inDbTransaction h
    simpa using hhave.1.2

/-! ## Runs -/

/-- A node is given a block of `S`, or its pool changes. -/
inductive AddStep (env : Env) (S : Set Block) : Node → Node → Prop
  | newBlock (now : Nat) (bl : Block) (onboard : TransactionsMap) (node : Node) (hmem : bl ∈ S) :
      AddStep env S node (addNewBlock env now bl onboard node).2
  | poolChanged (node : Node) (pool : FiniteStore Hash TxDetails) :
      AddStep env S node { node with pool }

theorem CheckpointInv.start {node : Node} (hdb : node.db = Db.empty)
    (halts : node.alternativeChains = ∅) : CheckpointInv env S node := by
  constructor
  · rw [hdb]
    rfl
  · exact le_rfl
  · intro i bei hget
    rw [hdb] at hget
    exact absurd hget (by simp [Db.empty])
  · intro id k hlookup
    rw [hdb] at hlookup
    exact absurd hlookup (by simp [Db.empty])
  · intro i bei _ hget
    rw [hdb] at hget
    exact absurd hget (by simp [Db.empty])
  · intro id abei hlookup
    rw [halts] at hlookup
    exact absurd hlookup (by simp)

theorem AddStep.checkpoints (hinj : Set.InjOn env.crypto.getBlockHash S) {node node' : Node}
    (hstep : AddStep env S node node') (h : CheckpointInv env S node) :
    CheckpointInv env S node' ∧ KeepsCheckpoints env node node' := by
  cases hstep with
  | newBlock now bl onboard node hmem => exact addNewBlock_checkpoints hinj h hmem
  | poolChanged node pool => exact ⟨h.of_view rfl, fun _ _ _ _ _ _ => rfl⟩

/-- By induction over the run, with the invariant of the state it starts in. -/
theorem checkpoints_of_run (hinj : Set.InjOn env.crypto.getBlockHash S) {node node' : Node}
    (hrun : Relation.ReflTransGen (AddStep env S) node node') (h : CheckpointInv env S node) :
    CheckpointInv env S node' ∧ KeepsCheckpoints env node node' := by
  induction hrun with
  | refl => exact ⟨h, fun _ _ _ _ _ _ => rfl⟩
  | tail _ hlast ih =>
      obtain ⟨hmid, hkeep⟩ := ih
      obtain ⟨hend, hkeep'⟩ := hlast.checkpoints hinj hmid
      refine ⟨hend, fun c point hpoint hc i hi => ?_⟩
      -- the chain has not become shorter than the checkpoint
      have hc' := hkeep c point hpoint hc c le_rfl
      rw [List.getElem?_eq_getElem hc] at hc'
      have hlt := (List.getElem?_eq_some_iff.mp hc').1
      rw [hkeep' c point hpoint hlt i hi, hkeep c point hpoint hc i hi]

/-- Whatever blocks a node is given, its main chain agrees with the checkpoints, and
up to a checkpoint that it has passed it never changes again. -/
theorem checkpoints_final (hinj : Set.InjOn env.crypto.getBlockHash S) {start node : Node}
    (hdb : start.db = Db.empty) (halts : start.alternativeChains = ∅)
    (hrun : Relation.ReflTransGen (AddStep env S) start node) :
    (∀ c point bei, env.checkpoints.pointAt c = some point → node.db.blocks[c]? = some bei →
      env.crypto.getBlockHash bei.bl = point) ∧
    ∀ node', Relation.ReflTransGen (AddStep env S) node node' → KeepsCheckpoints env node node' := by
  obtain ⟨h, _⟩ := checkpoints_of_run hinj hrun (.start hdb halts)
  refine ⟨fun c point bei hpoint hget => ?_, fun node' hrun' => (checkpoints_of_run hinj hrun' h).2⟩
  exact Checkpoints.checkBlock_iff.mp (h.main c bei hget).checkpoint point hpoint

end

/-! ### A sample run -/

/-- The sample environment with a checkpoint at the first block after the genesis. -/
def checkpointEnv : Env := { sampleEnv with checkpoints := [(1, BitVec.ofNat 256 2)] }

def checkpointNode : Node :=
  (addNewBlock checkpointEnv 0 (samplePlainBlock 1) ∅
    (addNewBlock checkpointEnv 0 (samplePlainBlock 0) ∅ emptyNode).2).2

theorem checkpoints_final_sample :
    checkpointNode.db.size = 2 ∧
    (∀ c point bei, checkpointEnv.checkpoints.pointAt c = some point →
      checkpointNode.db.blocks[c]? = some bei →
      checkpointEnv.crypto.getBlockHash bei.bl = point) ∧
    ∀ node', Relation.ReflTransGen (AddStep checkpointEnv {samplePlainBlock 0, samplePlainBlock 1})
        checkpointNode node' → KeepsCheckpoints checkpointEnv checkpointNode node' := by
  refine ⟨by decide, checkpoints_final ?_ (rfl : emptyNode.db = Db.empty) rfl ?_⟩
  · have hne : checkpointEnv.crypto.getBlockHash (samplePlainBlock 0) ≠
        checkpointEnv.crypto.getBlockHash (samplePlainBlock 1) := by decide
    intro a ha b hb heq
    rcases ha with rfl | rfl <;> rcases hb with rfl | rfl
    · rfl
    · exact absurd heq hne
    · exact absurd heq.symm hne
    · rfl
  · exact .tail (.single (.newBlock 0 _ ∅ _ (Set.mem_insert _ _)))
      (.newBlock 0 _ ∅ _ (Set.mem_insert_of_mem _ rfl))

end Chinet
