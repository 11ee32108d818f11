import Chinet.Alternative.Containers
import Chinet.Lib.Records
import Chinet.Storage.Chain

/-!
# Pruning the alternative blocks

`prune_aged_alt_blocks` erases the aged blocks and, if there were more blocks than allowed, as
many others as there were too many.  It looks for the others in one turn over the hash table, in
a map from timestamps to blocks that it trims at its old end: what the map holds in the end are
the last records of the timestamps in the order of the table, the newest block always among
them, and of blocks with one timestamp at most one.
-/

namespace Chinet

open FiniteStore

variable (env : Env)

/-- A turn over the hash table meets every alternative block once. -/
structure ListsAltBlocks (order : List Hash)
    (chains : FiniteStore Hash AltBlockExtendedInfo) : Prop where
  nodup : order.Nodup
  mem : ∀ id, id ∈ order ↔ id ∈ chains

/-- Each alternative block is kept under its own id. -/
def KeptUnderIds (chains : FiniteStore Hash AltBlockExtendedInfo) : Prop :=
  ∀ id abei, chains.lookup id = some abei → env.crypto.getBlockHash abei.bl = id

/-- As many blocks are left as are allowed, and none of the blocks that left is newer than one
that is still there. -/
structure KeepsNewest (before after : FiniteStore Hash AltBlockExtendedInfo) : Prop where
  size : FiniteStore.size after = env.config.maxAltBlocks
  notNewer : ∀ removed kept abei abei', before.lookup removed = some abei →
    after.lookup removed = none → after.lookup kept = some abei' → abei.timestamp ≤ abei'.timestamp

/-! ## What the loop collects -/

section Loop

variable (currentHeight : Nat) (chains : FiniteStore Hash AltBlockExtendedInfo)

def isAgedId (id : Hash) : Bool := (chains.lookup id).any (isAgedAltblock currentHeight)

def agedIds (ids : List Hash) : List Hash := ids.filter (isAgedId currentHeight chains)

/-- A block that is not aged, with its timestamp. -/
def freshEntry (id : Hash) : Option (Nat × Hash) :=
  (chains.lookup id).bind fun abei =>
    if isAgedAltblock currentHeight abei then none else some (abei.timestamp, id)

def freshEntries (ids : List Hash) : List (Nat × Hash) :=
  ids.filterMap (freshEntry currentHeight chains)

variable {currentHeight chains}

theorem freshEntry_eq_some {id : Hash} {entry : Nat × Hash} :
    freshEntry currentHeight chains id = some entry ↔
      ∃ abei, chains.lookup id = some abei ∧ isAgedAltblock currentHeight abei = false ∧
        entry = (abei.timestamp, id) := by
  rw [freshEntry]
  cases chains.lookup id with
  | none => simp
  | some abei =>
      rw [Option.bind_some]
      cases haged : isAgedAltblock currentHeight abei with
      | true => simp [haged]
      | false =>
          simp only [Bool.false_eq_true, if_false, Option.some.injEq, exists_eq_left', haged,
            true_and]
          exact eq_comm

theorem mem_freshEntries {ids : List Hash} {entry : Nat × Hash} :
    entry ∈ freshEntries currentHeight chains ids ↔
      entry.2 ∈ ids ∧ ∃ abei, chains.lookup entry.2 = some abei ∧
        isAgedAltblock currentHeight abei = false ∧ entry.1 = abei.timestamp := by
  rw [freshEntries, List.mem_filterMap]
  constructor
  · intro h
    obtain ⟨id, hid, hentry⟩ := h
    obtain ⟨abei, hlookup, hfresh, rfl⟩ := freshEntry_eq_some.mp hentry
    exact ⟨hid, abei, hlookup, hfresh, rfl⟩
  · intro h
    obtain ⟨hid, abei, hlookup, hfresh, htime⟩ := h
    refine ⟨entry.2, hid, freshEntry_eq_some.mpr ⟨abei, hlookup, hfresh, ?_⟩⟩
    rw [← htime]

theorem mem_agedIds {ids : List Hash} {id : Hash} :
    id ∈ agedIds currentHeight chains ids ↔
      id ∈ ids ∧ ∃ abei, chains.lookup id = some abei ∧
        isAgedAltblock currentHeight abei = true := by
  rw [agedIds, List.mem_filter, isAgedId, Option.any_eq_true]

/-- No block has two entries. -/
theorem freshEntries_ids_nodup {ids : List Hash} (h : ids.Nodup) :
    ((freshEntries currentHeight chains ids).map Prod.snd).Nodup := by
  induction ids with
  | nil => exact .nil
  | cons id rest ih =>
      obtain ⟨hid, hrest⟩ := List.nodup_cons.mp h
      rw [freshEntries, List.filterMap_cons]
      cases hentry : freshEntry currentHeight chains id with
      | none => exact ih hrest
      | some entry =>
          obtain ⟨abei, -, -, rfl⟩ := freshEntry_eq_some.mp hentry
          refine List.nodup_cons.mpr ⟨?_, ih hrest⟩
          intro hmem
          obtain ⟨other, hother, hsame⟩ := List.mem_map.mp hmem
          have hin := (mem_freshEntries.mp hother).1
          rw [hsame] at hin
          exact hid hin

/-- Each block is aged or fresh. -/
theorem length_aged_fresh {ids : List Hash} (h : ∀ id ∈ ids, id ∈ chains) :
    (agedIds currentHeight chains ids).length + (freshEntries currentHeight chains ids).length =
      ids.length := by
  induction ids with
  | nil => rfl
  | cons id rest ih =>
      have hrest := ih fun other hother => h other (List.mem_cons_of_mem _ hother)
      obtain ⟨abei, hlookup⟩ := Finmap.mem_iff.mp (h id List.mem_cons_self)
      rw [agedIds, freshEntries, List.filter_cons, List.filterMap_cons, freshEntry, isAgedId,
        hlookup]
      rw [agedIds, freshEntries] at hrest
      cases haged : isAgedAltblock currentHeight abei <;> simp [haged] <;> omega

theorem note_eq {count : Nat} (hcount : 0 < count) (alts : AltsToDelete) (timestamp : Nat)
    (id : Hash) : alts.note count timestamp id = Records.note count alts (timestamp, id) := by
  rw [AltsToDelete.note, Records.note, Records.add]
  cases alts.getLast? with
  | none => rw [if_neg (by rw [List.length_singleton]; omega)]
  | some last => rfl

theorem agedIds_concat (ids : List Hash) {id : Hash} {abei : AltBlockExtendedInfo}
    (h : chains.lookup id = some abei) :
    agedIds currentHeight chains (ids ++ [id]) =
      agedIds currentHeight chains ids ++
        if isAgedAltblock currentHeight abei then [id] else [] := by
  rw [agedIds, List.filter_append, List.filter_singleton, isAgedId, h]
  cases haged : isAgedAltblock currentHeight abei <;> simp [agedIds, haged]

theorem freshEntries_concat (ids : List Hash) {id : Hash} {abei : AltBlockExtendedInfo}
    (h : chains.lookup id = some abei) :
    freshEntries currentHeight chains (ids ++ [id]) =
      freshEntries currentHeight chains ids ++
        if isAgedAltblock currentHeight abei then [] else [(abei.timestamp, id)] := by
  rw [freshEntries, List.filterMap_append, List.filterMap_cons, freshEntry, h]
  cases haged : isAgedAltblock currentHeight abei <;> simp [freshEntries, haged]

/-- The loop erases the aged blocks and notes the others. -/
theorem foldl_pruneAltblock {count : Nat} (hcount : 0 < count) {node : Node} {ids : List Hash}
    (hkeys : KeptUnderIds env node.alternativeChains) (hids : ids.Nodup)
    (hmem : ∀ id ∈ ids, id ∈ node.alternativeChains) :
    (ids.foldl (pruneAltblock env currentHeight count) (node, [])).1.alternativeChains =
        eraseMany (agedIds currentHeight node.alternativeChains ids) node.alternativeChains ∧
      (ids.foldl (pruneAltblock env currentHeight count) (node, [])).2 =
        Records.newest count
          (Records.records (freshEntries currentHeight node.alternativeChains ids)) := by
  rw [← Records.foldl_note hcount]
  induction ids using List.reverseRecOn with
  | nil => exact ⟨rfl, rfl⟩
  | append_singleton ids id ih =>
      obtain ⟨hbefore, -, hnew⟩ := List.nodup_append.mp hids
      obtain ⟨hchains, halts⟩ := ih hbefore fun other hother =>
        hmem other (List.mem_append_left _ hother)
      obtain ⟨abei, habei⟩ := Finmap.mem_iff.mp (hmem id (by simp))
      -- the turns before did not touch this block
      have hlookup : (ids.foldl (pruneAltblock env currentHeight count)
          (node, [])).1.alternativeChains.lookup id = some abei := by
        have hnot : id ∉ agedIds currentHeight node.alternativeChains ids := fun hin =>
          hnew id (mem_agedIds.mp hin).1 id List.mem_cons_self rfl
        rw [hchains, lookup_eraseMany, if_neg hnot, habei]
      rw [List.foldl_concat, agedIds_concat ids habei, freshEntries_concat ids habei]
      generalize ids.foldl (pruneAltblock env currentHeight count) (node, []) = state at *
      cases haged : isAgedAltblock currentHeight abei with
      | true =>
          have hturn : pruneAltblock env currentHeight count state id =
              (doEraseAltblock env abei state.1, state.2) := by
            simp only [pruneAltblock, hlookup, haged, if_true]
          rw [hturn, if_pos rfl, if_pos rfl, eraseMany_append, List.append_nil, ← hchains]
          refine ⟨?_, halts⟩
          rw [doEraseAltblock, hkeys id abei habei]
          rfl
      | false =>
          have hturn : pruneAltblock env currentHeight count state id =
              (state.1, state.2.note count abei.timestamp id) := by
            simp only [pruneAltblock, hlookup, haged, Bool.false_eq_true, if_false, hcount.ne']
          rw [hturn, if_neg Bool.false_ne_true, if_neg Bool.false_ne_true, List.append_nil,
            List.foldl_append, ← halts]
          exact ⟨hchains, note_eq hcount _ _ _⟩

end Loop

/-! ## What the call erases -/

section Call

variable (node : Node)

def agedAltblocks : List Hash :=
  agedIds node.db.size node.alternativeChains (env.altBlocksOrder node.alternativeChains)

/-- The timestamps and ids of the blocks that are not aged, in the order of the hash table. -/
def freshAltblocks : List (Nat × Hash) :=
  freshEntries node.db.size node.alternativeChains (env.altBlocksOrder node.alternativeChains)

/-- How many blocks there are more than allowed. -/
def countToDelete : Nat := FiniteStore.size node.alternativeChains - env.config.maxAltBlocks

/-- What is left in `alts_to_delete` after the loop. -/
def collectedAltblocks : List (Nat × Hash) :=
  Records.newest (countToDelete env node) (Records.records (freshAltblocks env node))

variable {env node}

theorem pruneAgedAltBlocks_chains
    (hlists : ListsAltBlocks (env.altBlocksOrder node.alternativeChains) node.alternativeChains)
    (hkeys : KeptUnderIds env node.alternativeChains)
    (hmany : env.config.maxAltBlocks < FiniteStore.size node.alternativeChains) :
    (pruneAgedAltBlocks env node).alternativeChains =
      eraseMany (agedAltblocks env node ++ (collectedAltblocks env node).map Prod.snd)
        node.alternativeChains := by
  have hcount : 0 < countToDelete env node := Nat.sub_pos_of_lt hmany
  obtain ⟨hchains, halts⟩ := @foldl_pruneAltblock env node.db.size _ hcount node _ hkeys
    hlists.nodup fun id hid => (hlists.mem id).mp hid
  rw [eraseMany_append, agedAltblocks, ← hchains, collectedAltblocks, freshAltblocks, ← halts,
    eraseMany, List.foldl_map]
  rfl

theorem mem_collectedAltblocks {entry : Nat × Hash} (h : entry ∈ collectedAltblocks env node) :
    entry ∈ freshAltblocks env node :=
  Records.mem_of_mem_records (Records.mem_newest h)

theorem size_altblocks
    (hlists : ListsAltBlocks (env.altBlocksOrder node.alternativeChains) node.alternativeChains) :
    FiniteStore.size node.alternativeChains =
      (agedAltblocks env node).length + (freshAltblocks env node).length := by
  have hkeys : node.alternativeChains.keys =
      (env.altBlocksOrder node.alternativeChains).toFinset := by
    ext id
    rw [Finmap.mem_keys, List.mem_toFinset, hlists.mem id]
  rw [FiniteStore.size, hkeys, List.toFinset_card_of_nodup hlists.nodup, agedAltblocks,
    freshAltblocks, length_aged_fresh fun id hid => (hlists.mem id).mp hid]

theorem size_pruned
    (hlists : ListsAltBlocks (env.altBlocksOrder node.alternativeChains) node.alternativeChains)
    (hkeys : KeptUnderIds env node.alternativeChains)
    (hmany : env.config.maxAltBlocks < FiniteStore.size node.alternativeChains) :
    FiniteStore.size (pruneAgedAltBlocks env node).alternativeChains =
      (freshAltblocks env node).length - (collectedAltblocks env node).length := by
  have hnodup : (agedAltblocks env node ++
      (collectedAltblocks env node).map Prod.snd).Nodup := by
    refine List.nodup_append.mpr ⟨hlists.nodup.filter _, ?_, ?_⟩
    · -- the collected entries are fresh ones, each of them once
      have hrising : Records.Rising (collectedAltblocks env node) :=
        (Records.records_rising _).sublist (List.drop_sublist _ _)
      refine List.Nodup.map_on ?_ (hrising.imp fun hlt heq => hlt.ne (congrArg Prod.fst heq))
      intro entry hentry other hother hsame
      exact List.inj_on_of_nodup_map (freshEntries_ids_nodup hlists.nodup)
        (mem_collectedAltblocks hentry) (mem_collectedAltblocks hother) hsame
    · intro id haged other hother heq
      obtain ⟨entry, hentry, rfl⟩ := List.mem_map.mp hother
      obtain ⟨-, abei, hlookup, htrue⟩ := mem_agedIds.mp haged
      obtain ⟨-, abei', hlookup', hfalse, -⟩ := mem_freshEntries.mp (mem_collectedAltblocks hentry)
      rw [← heq, hlookup] at hlookup'
      cases hlookup'
      rw [htrue] at hfalse
      cases hfalse
  have hmem : ∀ id ∈ agedAltblocks env node ++ (collectedAltblocks env node).map Prod.snd,
      id ∈ node.alternativeChains := by
    intro id hid
    apply (hlists.mem id).mp
    rcases List.mem_append.mp hid with hid | hid
    · exact (mem_agedIds.mp hid).1
    · obtain ⟨entry, hentry, rfl⟩ := List.mem_map.mp hid
      exact (mem_freshEntries.mp (mem_collectedAltblocks hentry)).1
  rw [pruneAgedAltBlocks_chains hlists hkeys hmany, size_eraseMany hnodup hmem,
    size_altblocks hlists, List.length_append, List.length_map]
  omega

/-- Which blocks leave. -/
theorem pruned_eq_none_iff
    (hlists : ListsAltBlocks (env.altBlocksOrder node.alternativeChains) node.alternativeChains)
    (hkeys : KeptUnderIds env node.alternativeChains)
    (hmany : env.config.maxAltBlocks < FiniteStore.size node.alternativeChains)
    {id : Hash} {abei : AltBlockExtendedInfo} (hlookup : node.alternativeChains.lookup id = some abei) :
    (pruneAgedAltBlocks env node).alternativeChains.lookup id = none ↔
      id ∈ agedAltblocks env node ∨ (abei.timestamp, id) ∈ collectedAltblocks env node := by
  rw [pruneAgedAltBlocks_chains hlists hkeys hmany, lookup_eraseMany, hlookup, ite_eq_left_iff]
  constructor
  · intro h
    have hin : id ∈ agedAltblocks env node ++ (collectedAltblocks env node).map Prod.snd := by
      by_contra hout
      cases h hout
    refine (List.mem_append.mp hin).imp_right fun hin => ?_
    obtain ⟨entry, hentry, rfl⟩ := List.mem_map.mp hin
    obtain ⟨-, abei', hlookup', -, htime⟩ := mem_freshEntries.mp (mem_collectedAltblocks hentry)
    rw [hlookup] at hlookup'
    cases hlookup'
    rwa [← htime]
  · intro h hout
    have hin : id ∈ agedAltblocks env node ∨ id ∈ (collectedAltblocks env node).map Prod.snd :=
      h.imp_right fun hin => List.mem_map.mpr ⟨_, hin, rfl⟩
    exact absurd (List.mem_append.mpr hin) hout

theorem mem_freshAltblocks_iff
    (hlists : ListsAltBlocks (env.altBlocksOrder node.alternativeChains) node.alternativeChains)
    {id : Hash} {abei : AltBlockExtendedInfo} (hlookup : node.alternativeChains.lookup id = some abei) :
    (abei.timestamp, id) ∈ freshAltblocks env node ↔ id ∉ agedAltblocks env node := by
  have hin := (hlists.mem id).mpr (Finmap.mem_iff.mpr ⟨abei, hlookup⟩)
  rw [freshAltblocks, mem_freshEntries, agedAltblocks, mem_agedIds, hlookup]
  cases haged : isAgedAltblock node.db.size abei <;> simp [hin, haged]

/-- Which blocks stay. -/
theorem pruned_eq_some_iff
    (hlists : ListsAltBlocks (env.altBlocksOrder node.alternativeChains) node.alternativeChains)
    (hkeys : KeptUnderIds env node.alternativeChains)
    (hmany : env.config.maxAltBlocks < FiniteStore.size node.alternativeChains)
    {id : Hash} {abei : AltBlockExtendedInfo} :
    (pruneAgedAltBlocks env node).alternativeChains.lookup id = some abei ↔
      node.alternativeChains.lookup id = some abei ∧
        (abei.timestamp, id) ∈ freshAltblocks env node ∧
        (abei.timestamp, id) ∉ collectedAltblocks env node := by
  have hsub : (pruneAgedAltBlocks env node).alternativeChains.lookup id = some abei ↔
      node.alternativeChains.lookup id = some abei ∧
        ¬ (pruneAgedAltBlocks env node).alternativeChains.lookup id = none := by
    rw [pruneAgedAltBlocks_chains hlists hkeys hmany, lookup_eraseMany]
    split
    · simp
    · cases node.alternativeChains.lookup id <;> simp
  rw [hsub]
  apply and_congr_right
  intro hlookup
  rw [pruned_eq_none_iff hlists hkeys hmany hlookup, not_or, mem_freshAltblocks_iff hlists hlookup]

/-- The call keeps the newest blocks if it erases as many as there are too many and no block it
leaves is older than one of those. -/
theorem keepsNewest_iff_collected
    (hlists : ListsAltBlocks (env.altBlocksOrder node.alternativeChains) node.alternativeChains)
    (hkeys : KeptUnderIds env node.alternativeChains)
    (hmany : env.config.maxAltBlocks < FiniteStore.size node.alternativeChains) :
    KeepsNewest env node.alternativeChains (pruneAgedAltBlocks env node).alternativeChains ↔
      (freshAltblocks env node).length - (collectedAltblocks env node).length =
          env.config.maxAltBlocks ∧
        ∀ kept ∈ freshAltblocks env node, kept ∉ collectedAltblocks env node →
          (∀ entry ∈ collectedAltblocks env node, entry.1 ≤ kept.1) ∧
          ∀ id ∈ agedAltblocks env node, ∀ abei, node.alternativeChains.lookup id = some abei →
            abei.timestamp ≤ kept.1 := by
  rw [← size_pruned hlists hkeys hmany]
  constructor
  · intro h
    refine ⟨h.size, ?_⟩
    intro kept hfresh hnot
    obtain ⟨-, abei', hlookup', -, htime⟩ := mem_freshEntries.mp hfresh
    have hentry : kept = (abei'.timestamp, kept.2) := by rw [← htime]
    have hstays := (pruned_eq_some_iff hlists hkeys hmany).mpr
      ⟨hlookup', hentry ▸ hfresh, hentry ▸ hnot⟩
    constructor
    · intro entry hcollected
      obtain ⟨-, abei, hlookup, -, htime'⟩ :=
        mem_freshEntries.mp (mem_collectedAltblocks hcollected)
      have hleaves := (pruned_eq_none_iff hlists hkeys hmany hlookup).mpr
        (.inr (by rwa [← htime']))
      rw [htime, htime']
      exact h.notNewer _ _ _ _ hlookup hleaves hstays
    · intro id haged abei hlookup
      have hleaves := (pruned_eq_none_iff hlists hkeys hmany hlookup).mpr (.inl haged)
      rw [htime]
      exact h.notNewer _ _ _ _ hlookup hleaves hstays
  · intro h
    refine ⟨h.1, ?_⟩
    intro removed kept abei abei' hlookup hleaves hstays
    obtain ⟨-, hfresh, hnot⟩ := (pruned_eq_some_iff hlists hkeys hmany).mp hstays
    obtain ⟨hcollected, haged⟩ := h.2 _ hfresh hnot
    rcases (pruned_eq_none_iff hlists hkeys hmany hlookup).mp hleaves with hin | hin
    · exact haged removed hin abei hlookup
    · exact hcollected _ hin

end Call

/-! ## When the newest blocks are kept -/

/-- Along the hash table the timestamps of the blocks that are not aged rise strictly up to one
that the last blocks share, one more of them than may stay, and no aged block is newer. -/
def RisesToNewest (node : Node) : Prop :=
  (freshAltblocks env node = [] ∧ env.config.maxAltBlocks = 0) ∨
    ∃ rising newest,
      (freshAltblocks env node).map Prod.fst =
          rising ++ List.replicate (env.config.maxAltBlocks + 1) newest ∧
        (rising ++ [newest]).Pairwise (· < ·) ∧
        (env.config.maxAltBlocks ≠ 0 → ∀ id ∈ agedAltblocks env node, ∀ abei,
          node.alternativeChains.lookup id = some abei → abei.timestamp ≤ newest)

section Newest

variable {env} {node : Node}

/-- Where the newest blocks are kept the timestamps rise to them. -/
theorem risesToNewest_of_kept
    (hlists : ListsAltBlocks (env.altBlocksOrder node.alternativeChains) node.alternativeChains)
    (hmany : env.config.maxAltBlocks < FiniteStore.size node.alternativeChains)
    (hsize : (freshAltblocks env node).length - (collectedAltblocks env node).length =
      env.config.maxAltBlocks)
    (hkept : ∀ kept ∈ freshAltblocks env node, kept ∉ collectedAltblocks env node →
      (∀ entry ∈ collectedAltblocks env node, entry.1 ≤ kept.1) ∧
      ∀ id ∈ agedAltblocks env node, ∀ abei, node.alternativeChains.lookup id = some abei →
        abei.timestamp ≤ kept.1) :
    RisesToNewest env node := by
  have hcount : 0 < countToDelete env node := Nat.sub_pos_of_lt hmany
  have hids : ((freshAltblocks env node).map Prod.snd).Nodup := freshEntries_ids_nodup hlists.nodup
  by_cases hnil : freshAltblocks env node = []
  · rw [hnil] at hsize
    exact .inl ⟨hnil, by simpa using hsize.symm⟩
  · have hrest : ∀ x ∈ freshAltblocks env node, x ∉ collectedAltblocks env node →
        ∀ r ∈ collectedAltblocks env node, r.1 ≤ x.1 := fun x hx hnot => (hkept x hx hnot).1
    have hshort := Records.length_records_le hcount hrest
    obtain ⟨ys, zs, z, hfresh, hrising, hsame⟩ :=
      Records.plateau_of_newest hcount hnil (List.Nodup.of_map _ hids) hrest
    -- nothing was trimmed from the map, so it holds all records
    have hcollected : collectedAltblocks env node = ys ++ [z] := by
      calc collectedAltblocks env node
          = Records.records (freshAltblocks env node) := Records.newest_of_length_le hshort
        _ = Records.records (ys ++ zs ++ [z]) := by rw [hfresh]
        _ = ys ++ [z] := Records.records_of_plateau hrising hsame
    have hlast : zs.length = env.config.maxAltBlocks := by
      rw [hcollected, hfresh] at hsize
      simp only [List.length_append, List.length_singleton] at hsize
      omega
    refine .inr ⟨ys.map Prod.fst, z.1, ?_, ?_, ?_⟩
    · have hplateau : zs.map Prod.fst = List.replicate env.config.maxAltBlocks z.1 := by
        rw [List.eq_replicate_iff, List.length_map]
        exact ⟨hlast, by simpa using hsame⟩
      rw [hfresh, List.map_append, List.map_append, hplateau, List.replicate_succ',
        List.append_assoc]
      rfl
    · have hkeysRise := List.pairwise_map.mpr hrising
      rwa [List.map_append] at hkeysRise
    · intro hmax id haged abei hlookup
      obtain ⟨w, hw⟩ := List.exists_mem_of_length_pos (by omega : 0 < zs.length)
      have hstays : w ∉ collectedAltblocks env node := by
        rw [hfresh] at hids
        have hnodup := List.nodup_append.mp (List.Nodup.of_map _ hids)
        rw [hcollected]
        intro hin
        rcases List.mem_append.mp hin with hin | hin
        · exact (List.nodup_append.mp hnodup.1).2.2 w hin w hw rfl
        · exact hnodup.2.2 w (List.mem_append_right _ hw) w hin rfl
      rw [← hsame w hw]
      exact (hkept w (by rw [hfresh]; simp [hw]) hstays).2 id haged abei hlookup

/-- Where the timestamps rise to the newest blocks those are kept. -/
theorem kept_of_plateau
    (hlists : ListsAltBlocks (env.altBlocksOrder node.alternativeChains) node.alternativeChains)
    {rising : List Nat} {newest : Nat}
    (htimes : (freshAltblocks env node).map Prod.fst =
      rising ++ List.replicate (env.config.maxAltBlocks + 1) newest)
    (hpairwise : (rising ++ [newest]).Pairwise (· < ·)) :
    (freshAltblocks env node).length - (collectedAltblocks env node).length =
        env.config.maxAltBlocks ∧
      (∀ entry ∈ collectedAltblocks env node, entry.1 ≤ newest) ∧
      ∀ kept ∈ freshAltblocks env node, kept ∉ collectedAltblocks env node →
        kept.1 = newest ∧ 0 < env.config.maxAltBlocks := by
  rw [List.replicate_succ', ← List.append_assoc] at htimes
  obtain ⟨front, back, hfresh, hfront, hback⟩ := List.map_eq_append_iff.mp htimes
  obtain ⟨ys, zs, rfl, hys, hzs⟩ := List.map_eq_append_iff.mp hfront
  obtain ⟨z, rfl, hz⟩ := List.map_eq_singleton_iff.mp hback
  have hsame : ∀ z' ∈ zs, z'.1 = z.1 := by
    intro z' hz'
    rw [hz]
    apply List.eq_of_mem_replicate (n := env.config.maxAltBlocks)
    rw [← hzs]
    exact List.mem_map_of_mem hz'
  have hrising : Records.Rising (ys ++ [z]) := by
    apply List.pairwise_map.mp
    rwa [List.map_append, hys, List.map_singleton, hz]
  have hlast : zs.length = env.config.maxAltBlocks := by
    rw [← List.length_map Prod.fst, hzs, List.length_replicate]
  have hcollected : collectedAltblocks env node = ys ++ [z] := by
    have hall := size_altblocks hlists
    rw [collectedAltblocks, hfresh, Records.records_of_plateau hrising hsame]
    apply Records.newest_of_length_le
    rw [hfresh] at hall
    simp only [List.length_append, List.length_singleton] at hall ⊢
    rw [countToDelete]
    omega
  rw [hcollected, hfresh]
  refine ⟨?_, ?_, ?_⟩
  · simp only [List.length_append, List.length_singleton]
    omega
  · intro entry hentry
    rw [← hz]
    rcases List.mem_append.mp hentry with hentry | hentry
    · exact ((Records.rising_concat.mp hrising).2 entry hentry).le
    · rw [List.mem_singleton.mp hentry]
  · intro kept hkept hnot
    have hin : kept ∈ zs := by
      simp only [List.mem_append] at hkept hnot
      tauto
    have hpos := List.length_pos_of_mem hin
    exact ⟨(hsame kept hin).trans hz, by omega⟩

end Newest

/-- With more blocks than allowed the call keeps the newest ones exactly where the timestamps rise
to the newest. -/
theorem pruneAgedAltBlocks_keepsNewest_iff (node : Node)
    (hlists : ListsAltBlocks (env.altBlocksOrder node.alternativeChains) node.alternativeChains)
    (hkeys : KeptUnderIds env node.alternativeChains)
    (hmany : env.config.maxAltBlocks < FiniteStore.size node.alternativeChains) :
    KeepsNewest env node.alternativeChains (pruneAgedAltBlocks env node).alternativeChains ↔
      RisesToNewest env node := by
  rw [keepsNewest_iff_collected hlists hkeys hmany]
  constructor
  · intro h
    exact risesToNewest_of_kept hlists hmany h.1 h.2
  · intro h
    rcases h with ⟨hnil, hmax⟩ | ⟨rising, newest, htimes, hpairwise, haged⟩
    · rw [hnil, hmax]
      exact ⟨by simp, fun kept hkept => nomatch hkept⟩
    · obtain ⟨hsize, hcollected, hkept⟩ := kept_of_plateau hlists htimes hpairwise
      refine ⟨hsize, ?_⟩
      intro kept hfresh hnot
      obtain ⟨htime, hpos⟩ := hkept kept hfresh hnot
      rw [htime]
      exact ⟨hcollected, haged hpos.ne'⟩

/-- The alternative block with nonce `branch`. -/
def sampleAltblock (branch timestamp : Nat) : AltBlockExtendedInfo where
  bl := sampleBlock branch 1 1 [] []
  height := 1
  difficulty := 1
  cumulativeDiffAdjusted := 1
  cumulativeDiffPrecise := 1
  cumulativeDiffPreciseAdjusted := 1
  stakeHash := 0
  blockCumulativeSize := 0
  alreadyGeneratedCoins := 0
  thisBlockTxFeeMedian := 0
  effectiveTxFeeMedian := 0
  gindexLookupTable _ := none
  outputsPubKeys _ := []
  timestamp
  onboardTransactions := ∅

def sampleAltblockId (branch : Nat) : Hash := sampleCrypto.getBlockHash (sampleAltblock branch 0).bl

/-- One alternative block is allowed, and the table has branch 1 before branch 2. -/
def samplePruneEnv : Env :=
  { sampleEnv with
    config := { getDefaultCoreRuntimeConfig with maxAltBlocks := 1 }
    altBlocksOrder := fun _ => [sampleAltblockId 1, sampleAltblockId 2] }

def samplePruneNode (first second : Nat) : Node :=
  { emptyNode with
    alternativeChains := ((∅ : FiniteStore Hash AltBlockExtendedInfo).insert (sampleAltblockId 1)
      (sampleAltblock 1 first)).insert (sampleAltblockId 2) (sampleAltblock 2 second) }

theorem samplePruneNode_lookup (first second : Nat) (id : Hash) :
    (samplePruneNode first second).alternativeChains.lookup id =
      if id = sampleAltblockId 2 then some (sampleAltblock 2 second)
      else if id = sampleAltblockId 1 then some (sampleAltblock 1 first) else none := by
  rw [samplePruneNode, lookup_insert_ite, lookup_insert_ite]
  rfl

theorem samplePruneNode_lists (first second : Nat) :
    ListsAltBlocks (samplePruneEnv.altBlocksOrder (samplePruneNode first second).alternativeChains)
      (samplePruneNode first second).alternativeChains where
  nodup := by
    change [sampleAltblockId 1, sampleAltblockId 2].Nodup
    decide
  mem id := by
    rw [mem_iff_lookup_ne_none, samplePruneNode_lookup]
    simp only [samplePruneEnv, List.mem_cons, List.not_mem_nil, or_false]
    split
    · simp [*]
    · split <;> simp [*]

theorem samplePruneNode_keys (first second : Nat) :
    KeptUnderIds samplePruneEnv (samplePruneNode first second).alternativeChains := by
  intro id abei h
  rw [samplePruneNode_lookup] at h
  split at h
  · rename_i hid
    cases h
    exact hid.symm
  · split at h
    · rename_i hid
      cases h
      exact hid.symm
    · cases h

theorem samplePruneNode_size (first second : Nat) :
    samplePruneEnv.config.maxAltBlocks <
      FiniteStore.size (samplePruneNode first second).alternativeChains := by
  rw [size_altblocks (samplePruneNode_lists first second), agedAltblocks, freshAltblocks,
    length_aged_fresh fun id hid => ((samplePruneNode_lists first second).mem id).mp hid]
  exact Nat.one_lt_two

/-- Of two blocks that came at the same time one is erased, and any of them is the newest. -/
theorem pruneAgedAltBlocks_keepsNewest_sample :
    KeepsNewest samplePruneEnv (samplePruneNode 5 5).alternativeChains
      (pruneAgedAltBlocks samplePruneEnv (samplePruneNode 5 5)).alternativeChains := by
  apply (pruneAgedAltBlocks_keepsNewest_iff samplePruneEnv (samplePruneNode 5 5)
    (samplePruneNode_lists 5 5) (samplePruneNode_keys 5 5) (samplePruneNode_size 5 5)).mpr
  refine .inr ⟨[], 5, by decide +kernel, by decide, ?_⟩
  intro _ id haged
  have hnone : agedAltblocks samplePruneEnv (samplePruneNode 5 5) = [] := by decide +kernel
  rw [hnone] at haged
  cases haged

/-- Of a block from time 1 and one from time 2 the newer one is erased. -/
theorem pruneAgedAltBlocks_erases_newest :
    ¬ ∀ (env : Env) (node : Node),
      ListsAltBlocks (env.altBlocksOrder node.alternativeChains) node.alternativeChains →
      KeptUnderIds env node.alternativeChains →
      env.config.maxAltBlocks < FiniteStore.size node.alternativeChains →
      KeepsNewest env node.alternativeChains (pruneAgedAltBlocks env node).alternativeChains := by
  intro h
  have hkeeps := h samplePruneEnv (samplePruneNode 1 2) (samplePruneNode_lists 1 2)
    (samplePruneNode_keys 1 2) (samplePruneNode_size 1 2)
  have hleaves : (pruneAgedAltBlocks samplePruneEnv (samplePruneNode 1 2)).alternativeChains.lookup
      (sampleAltblockId 2) = none := by
    rw [← Option.isNone_iff_eq_none]
    decide +kernel
  have hstays : ∃ abei, (pruneAgedAltBlocks samplePruneEnv
      (samplePruneNode 1 2)).alternativeChains.lookup (sampleAltblockId 1) = some abei ∧
      abei.timestamp = 1 := by
    rw [← Option.map_eq_some_iff]
    decide +kernel
  obtain ⟨abei, hlookup, htime⟩ := hstays
  have hle := hkeeps.notNewer _ _ (sampleAltblock 2 2) abei
    (by rw [samplePruneNode_lookup, if_pos rfl]) hleaves hlookup
  rw [htime] at hle
  exact absurd hle (by decide)

end Chinet
