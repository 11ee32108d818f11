import Chinet.Wallet.BlocksWithoutCache
import Chinet.Wallet.StoreAndLoad

/-!
# Wallets over a restart

A wallet that is stored with its own password and loaded again is the wallet it was, exactly
when it holds nothing that the serializers leave out: no HTLC option of a transfer, and no
preview of an offer in its history.  A watch-only wallet needs the file of its pending key
images next to the wallet file.  `store_watch_only` makes a wallet that has no password, so only
the empty one opens what it stores.
-/

namespace Chinet.WalletFile

open Archive Archive.Layout BoostArchive Keystream

/-! ## What comes back -/

/-- The entries of the history, confirmed or not. -/
def WalletData.transferInfos (d : WalletData) : List TransferInfo :=
  d.transferHistory ++ d.unconfirmedTxs.entries.map Prod.snd

def noDerivedInfo : DerivedInfo := ⟨false, false, false, 0, 0, false, 0, 0⟩

def TransferInfo.streamed (wti : TransferInfo) : TransferInfo := ⟨wti.toStreamedInfo, noDerivedInfo⟩

/-- The containers without the fields of the history that are computed again. -/
def WalletData.streamed (d : WalletData) : WalletData :=
  { d with
    unconfirmedTxs := d.unconfirmedTxs.mapValues TransferInfo.streamed
    transferHistory := d.transferHistory.map TransferInfo.streamed }

/-- All that the containers hold is listed. -/
structure WalletData.Listed (d : WalletData) : Prop where
  options : ∀ td ∈ d.transfers, ∀ o ∈ td.varianOptions, ∀ info, o ≠ .htlcInfo info
  previews : ∀ wti ∈ d.transferInfos, ∀ o ∈ wti.marketplaceEntries, ∀ details,
    o.details? = some details → details.previewUrl = []

theorem ExtraOption.restored_eq {mem : Memory} {o : ExtraOption}
    (h : ∀ info, o ≠ .htlcInfo info) : o.restored mem = o := by
  cases o with
  | htlcInfo info => exact absurd rfl (h info)
  | payer accAddr => rfl

theorem OffersAttachment.restored_eq_iff {o : OffersAttachment} :
    o.restored = o ↔ ∀ details, o.details? = some details → details.previewUrl = [] := by
  cases o with
  | offer details =>
      simp only [OffersAttachment.restored, OffersAttachment.details?, OffersAttachment.offer.injEq,
        Option.some.injEq]
      constructor
      · rintro h _ rfl
        rw [← h]
      · intro h
        rw [← h details rfl]
  | update od =>
      simp only [OffersAttachment.restored, OffersAttachment.details?, OffersAttachment.update.injEq,
        Option.some.injEq]
      constructor
      · rintro h _ rfl
        rw [← h]
      · intro h
        rw [← h od.of rfl]
  | cancel od => simp [OffersAttachment.restored, OffersAttachment.details?]

theorem map_eq_self_iff {α : Type} {f : α → α} {l : List α} : l.map f = l ↔ ∀ x ∈ l, f x = x := by
  induction l with
  | nil => simp
  | cons x l ih => rw [List.map_cons, List.cons.injEq, ih, List.forall_mem_cons]

theorem StreamedInfo.restored_eq_iff {x : StreamedInfo} :
    x.restored = x ↔ ∀ o ∈ x.marketplaceEntries, o.restored = o := by
  rw [← map_eq_self_iff]
  constructor
  · intro h
    exact congrArg StreamedInfo.marketplaceEntries h
  · intro h
    rw [StreamedInfo.restored, h]

theorem TransferInfo.streamed_restored_iff {mem : Memory} {wti : TransferInfo} :
    (wti.restored mem).streamed = wti.streamed ↔ wti.toStreamedInfo.restored = wti.toStreamedInfo := by
  constructor
  · intro h
    exact congrArg TransferInfo.toStreamedInfo h
  · intro h
    rw [TransferInfo.streamed, TransferInfo.restored, h]
    rfl

/-- The containers come back whatever the memory holds exactly when all of them is listed. -/
theorem WalletData.streamed_restored_iff {d : WalletData} :
    (∀ mem, (d.restored mem).streamed = d.streamed) ↔ d.Listed := by
  constructor
  · intro h
    constructor
    · rintro td htd o ho info rfl
      -- another id in the memory than the one that is there
      have htransfers := congrArg WalletData.transfers
        (h { redeemTxId := info.redeemTxId + 1, derived := noDerivedInfo })
      have hoptions := congrArg TransferDetails.varianOptions (map_eq_self_iff.mp htransfers td htd)
      have hoption := map_eq_self_iff.mp hoptions _ ho
      injection hoption with hinfo
      have hid := congrArg HtlcInfo.redeemTxId hinfo
      simp at hid
    · intro wti hwti o ho
      have hmem := h { redeemTxId := 0, derived := noDerivedInfo }
      have hstreamed : wti.toStreamedInfo.restored = wti.toStreamedInfo := by
        rcases List.mem_append.mp hwti with hhistory | hunconfirmed
        · have hall := congrArg WalletData.transferHistory hmem
          simp only [WalletData.streamed, WalletData.restored, List.map_map] at hall
          exact TransferInfo.streamed_restored_iff.mp (List.map_inj_left.mp hall wti hhistory)
        · have hall := congrArg (fun d => d.unconfirmedTxs.entries.map Prod.snd) hmem
          obtain ⟨e, he, rfl⟩ := List.mem_map.mp hunconfirmed
          simp only [WalletData.streamed, WalletData.restored, Table.mapValues, List.map_map] at hall
          exact TransferInfo.streamed_restored_iff.mp (List.map_inj_left.mp hall e he)
      exact OffersAttachment.restored_eq_iff.mp (StreamedInfo.restored_eq_iff.mp hstreamed o ho)
  · intro h mem
    have hinfo : ∀ wti ∈ d.transferInfos, (wti.restored mem).streamed = wti.streamed :=
      fun wti hwti => TransferInfo.streamed_restored_iff.mpr (StreamedInfo.restored_eq_iff.mpr
        fun o ho => OffersAttachment.restored_eq_iff.mpr (h.previews wti hwti o ho))
    have htransfers : d.transfers.map (TransferDetails.restored mem) = d.transfers := by
      rw [map_eq_self_iff]
      intro td htd
      have hoptions : td.varianOptions.map (ExtraOption.restored mem) = td.varianOptions :=
        map_eq_self_iff.mpr fun o ho => ExtraOption.restored_eq (h.options td htd o ho)
      rw [TransferDetails.restored, hoptions]
    have hhistory : (d.transferHistory.map (TransferInfo.restored mem)).map TransferInfo.streamed =
        d.transferHistory.map TransferInfo.streamed := by
      rw [List.map_map]
      exact List.map_inj_left.mpr fun wti hwti => hinfo wti (List.mem_append_left _ hwti)
    have hunconfirmed : (d.unconfirmedTxs.mapValues (TransferInfo.restored mem)).mapValues
        TransferInfo.streamed = d.unconfirmedTxs.mapValues TransferInfo.streamed := by
      apply Table.ext
      simp only [Table.mapValues, List.map_map]
      refine List.map_inj_left.mpr fun e he => ?_
      exact congrArg (Prod.mk e.1) (hinfo e.2
        (List.mem_append_right _ (List.mem_map_of_mem (f := Prod.snd) he)))
    simp only [WalletData.streamed, WalletData.restored, htransfers, hhistory, hunconfirmed]

/-! ## Blocks after it -/

def TransferDetails.indexed (td : TransferDetails) : IndexedTransfer where
  tx := td.ptxWalletInfo.tx
  blockHeight := td.ptxWalletInfo.blockHeight
  internalOutputIndex := td.internalOutputIndex
  flags := td.flags
  globalOutputIndex := td.globalOutputIndex
  keyImage := td.keyImage
  spentHeight := td.spentHeight

/-- What of a wallet lives with the object and is not stored. -/
structure Session where
  foundFreeAmounts : List FreeAmountEntry
  fakeOutputsCount : Nat
  coreTime : Nat

/-- The containers as the handling of blocks sees them. -/
def WalletData.indexed (d : WalletData) (watchOnly auditable : Bool) (session : Session) :
    IndexedWallet where
  watchOnly
  auditable
  transfers := d.transfers.map TransferDetails.indexed
  keyImages := d.keyImages.lookup
  amountGindexToTransferId := d.amountGindexToTransferId.lookup
  htlcs := d.htlcs
  activeHtlcs := d.activeHtlcs.lookup
  activeHtlcsTxid := d.activeHtlcsTxid.lookup
  foundFreeAmounts := session.foundFreeAmounts
  fakeOutputsCount := session.fakeOutputsCount
  moneyExpirations := d.moneyExpirations.map fun e => ⟨e.expirationTime, e.selectedTransfers⟩
  unconfirmedTxs k := (d.unconfirmedTxs.lookup k).map fun wti => wti.selectedIndicies
  blockchainCurrentSize := d.chain.localBcSize
  coreTime := session.coreTime

def Wallet2.indexed (w : Wallet2) (session : Session) : IndexedWallet :=
  w.data.indexed w.watchOnly w.isAuditable session

/-- The session of an object that has just been made. -/
def newSession (coreTime : Nat) : Session := ⟨[], 0, coreTime⟩

/-- Blocks, detaches and pools that come to two wallets leave them the same. -/
def SameBlocks (w w' : Wallet2) : Prop :=
  ∀ (hash : Transaction → Hash) (session : Session) (events : List IndexesEvent),
    (∀ e ∈ events, ¬ e.ReadsCache) →
      (IndexedWallet.run hash (w.indexed session) events).withoutCache =
        (IndexedWallet.run hash (w'.indexed (newSession session.coreTime)) events).withoutCache

theorem lookup_mapValues {κ ν μ : Type} [DecidableEq κ] (t : Table κ ν) (f : ν → μ) (k : κ) :
    (t.mapValues f).lookup k = (t.lookup k).map f := by
  rw [Table.lookup, Table.lookup, Table.mapValues, List.find?_map, Option.map_map, Option.map_map]
  rfl

theorem WalletData.indexed_streamed (d : WalletData) (watchOnly auditable : Bool)
    (session : Session) :
    d.streamed.indexed watchOnly auditable session = d.indexed watchOnly auditable session := by
  have hunconfirmed (k : Hash) : (d.streamed.unconfirmedTxs.lookup k).map
      (fun wti => wti.selectedIndicies) = (d.unconfirmedTxs.lookup k).map
        fun wti => wti.selectedIndicies := by
    rw [WalletData.streamed, lookup_mapValues, Option.map_map]
    rfl
  simp only [WalletData.indexed, hunconfirmed]
  rfl

theorem sameBlocks_of_streamed {w w' : Wallet2} (haccount : w'.account = w.account)
    (hwatchOnly : w'.watchOnly = w.watchOnly) (hdata : w'.data.streamed = w.data.streamed) :
    SameBlocks w w' := by
  intro hash session events hevents
  have hindexed : w'.indexed (newSession session.coreTime) =
      w.indexed (newSession session.coreTime) := by
    rw [Wallet2.indexed, ← WalletData.indexed_streamed, hdata, WalletData.indexed_streamed,
      hwatchOnly, Wallet2.isAuditable, haccount]
    rfl
  have hrun := IndexedWallet.run_ignoresCache hash hevents
  rw [hindexed, hrun (w.indexed session), hrun (w.indexed (newSession session.coreTime))]
  rfl

/-! ## Stored and loaded -/

/-- A wallet that was loaded is another wallet. -/
structure SameWallet (w w' : Wallet2) : Prop where
  account : w'.account = w.account
  watchOnly : w'.watchOnly = w.watchOnly
  data : w'.data.streamed = w.data.streamed
  blocks : SameBlocks w w'

variable (prims : Primitives)

/-- `store` succeeds, and whatever a new object finds in its memory `load` makes it the wallet. -/
def Restores (w : Wallet2) (files : Files) (path : Path) (password : ByteString) (iv : ChachaIv)
    (ts : Nat) : Prop :=
  ∃ files', store prims w files path password iv ts = .ok files' ∧
    ∀ mem genesis, ∃ w' files'',
      load prims mem (newWallet genesis) files' path password = .ok (w', files'') ∧ SameWallet w w'

/-- What a store to a path asks of a wallet: its password, and if it is watch-only the file of
the pending key images. -/
structure StoresAt (w : Wallet2) (files : Files) (path : Path) (password : ByteString) : Prop where
  password : password = w.password
  keyImages : w.watchOnly = true → w.isAuditable = false →
    pendingKiFileOf path ≠ path ∧ KeyImagesFileMatches files path w.data

variable {prims}

/-- The file of the pending key images is none of the files that a store writes. -/
theorem pendingKiFileOf_ne_tmpPath (path : Path) (extension : String) (ts : Nat) :
    pendingKiFileOf path ≠ tmpPath path extension ts := by
  intro heq
  have hlast := congrArg List.getLast? heq
  rw [pendingKiFileOf, tmpPath, ← List.append_assoc,
    List.getLast?_append_of_ne_nil _ (by decide : ".outkey2ki".toList ≠ []),
    List.getLast?_append_of_ne_nil _ Nat.toDigits_ne_nil] at hlast
  have hmem : 'i' ∈ Nat.toDigits 10 ts := List.mem_of_getLast? hlast.symm
  have hdigit := Nat.isDigit_of_mem_toDigits (by decide) (by decide) hmem
  exact absurd hdigit (by decide)

theorem Replaced.pendingKiFile {files files' : Files} {path : Path} {content : ByteString} {ts : Nat}
    (h : Replaced files files' path content ts) (hother : pendingKiFileOf path ≠ path) :
    files' (pendingKiFileOf path) = files (pendingKiFileOf path) :=
  h.others _ hother (pendingKiFileOf_ne_tmpPath path _ ts) (pendingKiFileOf_ne_tmpPath path _ ts)

/-- A store in its place loads back, and the containers with what is listed of them. -/
theorem exists_store_load {w : Wallet2} (hw : Opened prims w) {files : Files} {path : Path}
    {password : ByteString} (h : StoresAt w files path password) (iv : ChachaIv) (ts : Nat) :
    ∃ files', store prims w files path password iv ts = .ok files' ∧ ∀ mem genesis, ∃ w' files'',
      load prims mem (newWallet genesis) files' path password = .ok (w', files'') ∧
        w'.account = w.account ∧ w'.watchOnly = w.watchOnly ∧ w'.data = w.data.restored mem := by
  obtain ⟨files', hstore, hreplaced⟩ := @store_eq prims w files path password iv ts
  refine ⟨files', hstore, fun mem genesis => ?_⟩
  have hfile := hreplaced.content
  rw [h.password] at hfile ⊢
  refine load_stored mem hw rfl hfile fun hwatchOnly hauditable => ?_
  obtain ⟨hother, hmatches⟩ := h.keyImages hwatchOnly hauditable
  rw [KeyImagesFileMatches, hreplaced.pendingKiFile hother]
  exact hmatches

/-- With its own password a wallet comes back exactly when all that it holds is listed. -/
theorem restores_iff {w : Wallet2} (hw : Opened prims w) {files : Files} {path : Path}
    {password : ByteString} (h : StoresAt w files path password) (iv : ChachaIv) (ts : Nat) :
    Restores prims w files path password iv ts ↔ w.data.Listed := by
  obtain ⟨files', hstore, hload⟩ := exists_store_load hw h iv ts
  rw [← WalletData.streamed_restored_iff]
  constructor
  · rintro ⟨files₁, hstore₁, hback⟩ mem
    cases hstore.symm.trans hstore₁
    obtain ⟨w', files'', hw', hsame⟩ := hback mem 0
    obtain ⟨w₁, files₁, hw₁, -, -, hdata⟩ := hload mem 0
    cases hw'.symm.trans hw₁
    rw [← hdata]
    exact hsame.data
  · intro hlisted
    refine ⟨files', hstore, fun mem genesis => ?_⟩
    obtain ⟨w', files'', hw', haccount, hwatchOnly, hdata⟩ := hload mem genesis
    have hstreamed : w'.data.streamed = w.data.streamed := by rw [hdata, hlisted mem]
    exact ⟨w', files'', hw', haccount, hwatchOnly, hstreamed,
      sameBlocks_of_streamed haccount hwatchOnly hstreamed⟩

/-! ## Watch-only copies -/

/-- The key and the key image of a transfer that a watch-only copy is told of. -/
def TransferDetails.spentKeyImage? (td : TransferDetails) : Option OutKeyToKi :=
  if td.isSpent then
    match (td.ptxWalletInfo.tx.vout[td.internalOutputIndex]?).map TxOut.target with
    | some (.toKey target) => some ⟨target.key, td.keyImage⟩
    | _ => none
  else none

def WalletData.spentKeyImages (d : WalletData) : List OutKeyToKi :=
  d.transfers.filterMap TransferDetails.spentKeyImage?

/-- What a watch-only store asks of a wallet: what it tests itself, and a path that is not the
name of a file of pending key images. -/
structure StoresWatchOnlyAt (w : Wallet2) (files : Files) (path : Path) : Prop where
  full : w.watchOnly = false
  otherPath : path ≠ w.walletFile
  noFile : files path = none
  noKeyImagesFile : files (pendingKiFileOf path) = none
  noKeyImages : w.data.pendingKeyImages.entries = []
  outputs : ∀ td ∈ w.data.transfers, td.isSpent = true →
    td.internalOutputIndex < td.ptxWalletInfo.tx.vout.length
  keys : (w.data.spentKeyImages.map OutKeyToKi.outKey).Nodup
  otherFile : pendingKiFileOf path ≠ path

/-- What the container has after some items were pushed into it. -/
structure Pushed (container : Option Path) (items : List OutKeyToKi) (files files' : Files) :
    Prop where
  closed : container = none → files' = files
  opened : ∀ path, container = some path → (files' path).getD [] =
    (files path).getD [] ++ items.flatMap OutKeyToKi.bytes
  others : ∀ q, container ≠ some q → files' q = files q

theorem Pushed.nil (container : Option Path) (files : Files) : Pushed container [] files files where
  closed _ := rfl
  opened path _ := by simp
  others _ _ := rfl

theorem Pushed.cons {container : Option Path} {item : OutKeyToKi} {items : List OutKeyToKi}
    {files files' : Files} (h : Pushed container items (pushBack files container item) files') :
    Pushed container (item :: items) files files' where
  closed hnone := by
    rw [h.closed hnone, hnone]
    rfl
  opened path hpath := by
    rw [h.opened path hpath, hpath, pushBack, Files.write_self, Option.getD_some,
      List.append_assoc, List.flatMap_cons]
  others q hq := by
    rw [h.others q hq]
    cases container with
    | none => rfl
    | some path => exact Files.write_other fun hqp => hq (by rw [hqp])

/-- The loop over the transfers tells of the spent ones, in their order. -/
theorem foldlM_addSpentKeyImage {container : Option Path} {transfers : List TransferDetails}
    {table : Table PublicKey KeyImage} {files : Files}
    (houtputs : ∀ td ∈ transfers, td.isSpent = true →
      td.internalOutputIndex < td.ptxWalletInfo.tx.vout.length)
    (hkeys : (table.entries.map Prod.fst ++
      (transfers.filterMap TransferDetails.spentKeyImage?).map OutKeyToKi.outKey).Nodup) :
    ∃ table' files', transfers.foldlM (addSpentKeyImage container) (table, files) =
        .ok (table', files') ∧
      table'.entries = table.entries ++ (transfers.filterMap TransferDetails.spentKeyImage?).map
        (fun item => (item.outKey, item.keyImage)) ∧
      Pushed container (transfers.filterMap TransferDetails.spentKeyImage?) files files' := by
  induction transfers generalizing table files with
  | nil => exact ⟨table, files, rfl, by simp, Pushed.nil container files⟩
  | cons td transfers ih =>
      have houtputs' := fun td' htd' => houtputs td' (List.mem_cons_of_mem td htd')
      rw [List.foldlM_cons]
      cases hitem : td.spentKeyImage? with
      | none =>
          -- an unspent transfer, or one whose output is not to a key, is passed over
          have hstay : addSpentKeyImage container (table, files) td = .ok (table, files) := by
            rw [addSpentKeyImage]
            split
            · rfl
            · rename_i hspent
              have hspent' : td.isSpent = true := by simpa using hspent
              have hlt := houtputs td List.mem_cons_self hspent'
              rw [List.getElem?_eq_getElem hlt]
              rw [TransferDetails.spentKeyImage?, if_pos hspent', List.getElem?_eq_getElem hlt] at hitem
              simp only [Option.map_some] at hitem ⊢
              split
              · rename_i target htarget
                rw [htarget] at hitem
                cases hitem
              · rfl
          rw [List.filterMap_cons_none hitem] at hkeys ⊢
          rw [hstay]
          exact ih houtputs' hkeys
      | some item =>
          have hspent : td.isSpent = true := by
            rw [TransferDetails.spentKeyImage?] at hitem
            split at hitem
            · assumption
            · cases hitem
          have hlt := houtputs td List.mem_cons_self hspent
          have hpush : addSpentKeyImage container (table, files) td =
              .ok (table.insert (item.outKey, item.keyImage), pushBack files container item) := by
            rw [TransferDetails.spentKeyImage?, if_pos hspent, List.getElem?_eq_getElem hlt] at hitem
            rw [addSpentKeyImage, if_neg (by rw [hspent]; decide), List.getElem?_eq_getElem hlt]
            simp only [Option.map_some] at hitem ⊢
            split at hitem
            · rename_i target htarget
              cases hitem
              rw [Option.some.injEq] at htarget
              rw [htarget]
            · cases hitem
          rw [List.filterMap_cons_some hitem] at hkeys ⊢
          -- the keys of spent outputs differ, so the insertion appends
          have hnew : item.outKey ∉ table.entries.map Prod.fst := by
            intro hmem
            rw [List.nodup_append] at hkeys
            exact hkeys.2.2 _ hmem _ (by simp) rfl
          have hentries := Table.entries_insert_of_notMem
            (e := (item.outKey, item.keyImage)) hnew
          have hkeys' : ((table.insert (item.outKey, item.keyImage)).entries.map Prod.fst ++
              (transfers.filterMap TransferDetails.spentKeyImage?).map OutKeyToKi.outKey).Nodup := by
            rw [hentries, List.map_append, List.append_assoc]
            exact hkeys
          obtain ⟨table', files', hfold, htable', hpushed⟩ :=
            @ih _ (pushBack files container item) houtputs' hkeys'
          refine ⟨table', files', ?_, ?_, hpushed.cons⟩
          · rw [hpush]
            exact hfold
          · rw [htable', hentries, List.append_assoc]
            rfl

@[simp] theorem TransferDetails.spentKeyImage?_restored (mem : Memory) (td : TransferDetails) :
    (td.restored mem).spentKeyImage? = td.spentKeyImage? := rfl

theorem WalletData.spentKeyImages_restored (d : WalletData) (mem : Memory) :
    (d.restored mem).spentKeyImages = d.spentKeyImages := by
  rw [WalletData.spentKeyImages, WalletData.restored, List.filterMap_map]
  rfl

/-- Of two loads only the second leaves something of the memory. -/
theorem WalletData.restored_restored (d : WalletData) (mem mem' : Memory) :
    (d.restored mem).restored mem' = d.restored mem' := by
  have hoption (o : ExtraOption) : (o.restored mem).restored mem' = o.restored mem' := by
    cases o <;> rfl
  have hoffer (o : OffersAttachment) : o.restored.restored = o.restored := by
    cases o <;> rfl
  have hoptions : (ExtraOption.restored mem' ∘ ExtraOption.restored mem) =
    ExtraOption.restored mem' := funext hoption
  have hoffers : (OffersAttachment.restored ∘ OffersAttachment.restored) =
    OffersAttachment.restored := funext hoffer
  have htransfer (td : TransferDetails) : (td.restored mem).restored mem' = td.restored mem' := by
    simp only [TransferDetails.restored, List.map_map, hoptions]
  have hinfo (wti : TransferInfo) : (wti.restored mem).restored mem' = wti.restored mem' := by
    simp only [TransferInfo.restored, StreamedInfo.restored, List.map_map, hoffers]
  simp only [WalletData.restored, Table.mapValues, List.map_map, Function.comp_def, htransfer, hinfo]

/-- The containers of a watch-only copy: the key images of the spent transfers are pending. -/
structure WatchOnlyData (d d' : WalletData) : Prop where
  streamed : d'.streamed = { d with pendingKeyImages := d'.pendingKeyImages }.streamed
  pendingKeyImages : d'.pendingKeyImages.entries =
    d.spentKeyImages.map fun item => (item.outKey, item.keyImage)

variable (prims) in
/-- `store_watch_only` succeeds, and `load` makes a new object the wallet without its spend key. -/
def RestoresWatchOnly (w : Wallet2) (files : Files) (path : Path) (password : ByteString)
    (iv : ChachaIv) (ts : Nat) : Prop :=
  ∀ mem genesis, ∃ files', storeWatchOnly prims w mem genesis files path password iv ts = .ok files' ∧
    ∀ mem' genesis', ∃ w' files'',
      load prims mem' (newWallet genesis') files' path password = .ok (w', files'') ∧
        w'.account = w.account.makeAccountWatchOnly ∧ w'.watchOnly = true ∧
        WatchOnlyData w.data w'.data

theorem opened_watchOnlyCopy {w : Wallet2} (hw : Opened prims w) (mem : Memory) (genesis : Hash)
    (path : Path) : Opened prims (watchOnlyCopy prims w mem genesis path) where
  proper := hw.proper.makeAccountWatchOnly
  watchOnly := by simp [watchOnlyCopy, prepareFileNames, AccountBase.makeAccountWatchOnly,
    AccountBase.isWatchOnly]

theorem copiedData_eq (mem : Memory) (genesis : Hash) (d : WalletData) :
    copiedData prims mem genesis d = d.restored mem := by
  rw [copiedData, unserializeObj_serializeObj, Option.getD_some]

@[simp] theorem OutKeyToKi.length_bytes (item : OutKeyToKi) : item.bytes.length = outKeyToKiSize := by
  simp [OutKeyToKi.bytes, outKeyToKiSize]

theorem length_items (items : List OutKeyToKi) :
    (items.flatMap OutKeyToKi.bytes).length = items.length * outKeyToKiSize := by
  induction items with
  | nil => rfl
  | cons item items ih =>
      rw [List.flatMap_cons, List.length_append, ih, OutKeyToKi.length_bytes, List.length_cons,
        Nat.succ_mul, Nat.add_comm]

/-- The copy opens its file, which is new, unless it needs none. -/
theorem openCopy {w : Wallet2} {files : Files} {auditable : Bool}
    (hfile : files w.pendingKiFile = none) (hpending : w.data.pendingKeyImages.entries = []) :
    ∃ container files', (if auditable then .ok (w, files, false) else loadKeys2ki w files true) =
        .ok ({ w with pendingKeyImagesFileContainer := container }, files', false) ∧
      (auditable = false → container = some w.pendingKiFile) ∧
      (files' w.pendingKiFile).getD [] = [] ∧ ∀ q, q ≠ w.pendingKiFile → files' q = files q := by
  have hsize : w.data.pendingKeyImages.size = 0 := by rw [Table.size, hpending, List.length_nil]
  cases auditable with
  | true =>
      exact ⟨w.pendingKeyImagesFileContainer, files, rfl, nofun, by rw [hfile]; rfl, fun _ _ => rfl⟩
  | false =>
      refine ⟨some w.pendingKiFile, files.write w.pendingKiFile [], ?_, fun _ => rfl, ?_, ?_⟩
      · rw [if_neg (by decide), loadKeys2ki, if_neg (by simp), hfile]
        simp [hsize]
      · rw [Files.write_self]
        rfl
      · exact fun q hq => Files.write_other hq

/-- A watch-only copy with the empty password loads back exactly when all is listed. -/
theorem restoresWatchOnly_iff {w : Wallet2} (hw : Opened prims w) {files : Files} {path : Path}
    (h : StoresWatchOnlyAt w files path) (iv : ChachaIv) (ts : Nat) :
    RestoresWatchOnly prims w files path [] iv ts ↔ w.data.Listed := by
  -- what the two loads leave of the containers
  have hback : ∀ mem genesis, ∃ files',
      storeWatchOnly prims w mem genesis files path [] iv ts = .ok files' ∧
      ∀ mem' genesis', ∃ w' files'',
        load prims mem' (newWallet genesis') files' path [] = .ok (w', files'') ∧
          w'.account = w.account.makeAccountWatchOnly ∧ w'.watchOnly = true ∧
          w'.data = { w.data.restored mem' with
            pendingKeyImages := w'.data.pendingKeyImages } ∧
          w'.data.pendingKeyImages.entries =
            w.data.spentKeyImages.map fun item => (item.outKey, item.keyImage) := by
    intro mem genesis
    have hcopy := opened_watchOnlyCopy hw mem genesis path
    have hdata : (watchOnlyCopy prims w mem genesis path).data = w.data.restored mem :=
      copiedData_eq mem genesis w.data
    obtain ⟨container, files₁, hopen, hcontainer, hempty, hothers⟩ :=
      @openCopy (watchOnlyCopy prims w mem genesis path) files w.isAuditable h.noKeyImagesFile
        (by rw [hdata]; exact h.noKeyImages)
    generalize hwo : watchOnlyCopy prims w mem genesis path = wo
      at hcopy hdata hopen hcontainer hempty hothers
    have hpath : wo.walletFile = path ∧ wo.pendingKiFile = pendingKiFileOf path ∧
        wo.watchOnly = true ∧ wo.password = [] ∧ wo.account = w.account.makeAccountWatchOnly ∧
        wo.isAuditable = w.isAuditable := by
      rw [← hwo]
      exact ⟨rfl, rfl, rfl, rfl, rfl, rfl⟩
    obtain ⟨hwalletFile, hkiFile, hwatchOnly, hpassword, haccount, hauditable⟩ := hpath
    have houtputs : ∀ td ∈ wo.data.transfers, td.isSpent = true →
        td.internalOutputIndex < td.ptxWalletInfo.tx.vout.length := by
      rw [hdata]
      intro td htd
      obtain ⟨td', htd', rfl⟩ := List.mem_map.mp htd
      exact h.outputs td' htd'
    have hspent : wo.data.transfers.filterMap TransferDetails.spentKeyImage? =
        w.data.spentKeyImages := by
      rw [hdata]
      exact w.data.spentKeyImages_restored mem
    have hpending : wo.data.pendingKeyImages.entries = [] := by
      rw [hdata]
      exact h.noKeyImages
    obtain ⟨table, files₂, hfold, htable, hpushed⟩ := @foldlM_addSpentKeyImage container
      wo.data.transfers wo.data.pendingKeyImages files₁ houtputs
        (by rw [hspent, hpending]; exact h.keys)
    rw [hspent] at htable hpushed
    rw [hpending, List.nil_append] at htable
    -- the copy is a wallet that may be stored here
    obtain ⟨stored, hstored⟩ : ∃ stored : Wallet2, stored = { wo with
        pendingKeyImagesFileContainer := container
        data := { wo.data with pendingKeyImages := table } } := ⟨_, rfl⟩
    have hmatches : StoresAt stored files₂ path [] := by
      refine ⟨by rw [hstored]; exact hpassword.symm, fun _ hnot => ⟨h.otherFile, ?_⟩⟩
      have hopened : container = some (pendingKiFileOf path) := by
        rw [← hkiFile]
        apply hcontainer
        rw [← hauditable]
        rw [hstored] at hnot
        exact hnot
      have hcontent := hpushed.opened _ hopened
      rw [hkiFile] at hempty
      rw [KeyImagesFileMatches, hcontent, hempty, List.nil_append, length_items,
        Nat.mul_div_cancel _ (by decide), Table.size, hstored]
      simp only
      rw [htable, List.length_map]
    have hopened : Opened prims stored := by
      rw [hstored]
      exact ⟨hcopy.proper, hcopy.watchOnly⟩
    obtain ⟨files', hstore, hload⟩ := exists_store_load hopened hmatches iv ts
    refine ⟨files', ?_, fun mem' genesis' => ?_⟩
    · rw [storeWatchOnly, if_neg (by rw [h.full]; simp [h.otherPath])]
      simp only [hwo]
      rw [if_neg (by rw [hwalletFile, hkiFile]; simp [Files.has, h.noFile, h.noKeyImagesFile]),
        if_neg (by rw [hpending]; simp), hopen]
      simp only
      rw [hfold]
      simp only
      rw [← hstored]
      exact hstore
    · obtain ⟨w', files'', hw', haccount', hwatchOnly', hdata'⟩ := hload mem' genesis'
      rw [hstored] at haccount' hwatchOnly' hdata'
      refine ⟨w', files'', hw', haccount'.trans haccount, hwatchOnly'.trans hwatchOnly, ?_, ?_⟩
      · rw [hdata', ← w.data.restored_restored mem mem', ← hdata]
        rfl
      · rw [hdata']
        exact htable
  rw [← WalletData.streamed_restored_iff]
  constructor
  · intro hrestores mem
    -- two loads that find the same in the memory
    obtain ⟨files', hstore, hload⟩ := hrestores mem 0
    obtain ⟨files₁, hstore₁, hload₁⟩ := hback mem 0
    cases hstore.symm.trans hstore₁
    obtain ⟨w', files'', hw', -, -, hsame⟩ := hload mem 0
    obtain ⟨w₁, files₂, hw₁, -, -, hdata, -⟩ := hload₁ mem 0
    cases hw'.symm.trans hw₁
    have hstreamed := hsame.streamed
    rw [hdata] at hstreamed
    exact congrArg (fun d => { d with pendingKeyImages := w.data.pendingKeyImages }) hstreamed
  · intro hlisted mem genesis
    obtain ⟨files', hstore, hload⟩ := hback mem genesis
    refine ⟨files', hstore, fun mem' genesis' => ?_⟩
    obtain ⟨w', files'', hw', haccount, hwatchOnly, hdata, hpending⟩ := hload mem' genesis'
    refine ⟨w', files'', hw', haccount, hwatchOnly, ?_, hpending⟩
    rw [hdata]
    exact congrArg (fun d => { d with pendingKeyImages := w'.data.pendingKeyImages })
      (hlisted mem')

/-! ## Runs -/

/-- What happens to a wallet after it was made. -/
inductive WalletEvent
  /-- Blocks, the pool and sends: the containers become any others. -/
  | work (data : WalletData)
  | resetPassword (password : ByteString)
  /-- `store`, and a new object that loads the file. -/
  | restart (mem : Memory) (genesis : Hash) (files : Files) (iv : ChachaIv) (ts : Nat)

variable (prims)

def walletStep (w : Wallet2) : WalletEvent → Except WalletFileError Wallet2
  | .work data => .ok { w with data }
  | .resetPassword password => .ok { w with password }
  | .restart mem genesis files iv ts =>
      match store prims w files w.walletFile w.password iv ts with
      | .error e => .error e
      | .ok files =>
          match load prims mem (newWallet genesis) files w.walletFile w.password with
          | .error e => .error e
          | .ok (w, _) => .ok w

def walletRun (w : Wallet2) (events : List WalletEvent) : Except WalletFileError Wallet2 :=
  events.foldlM (walletStep prims) w

variable {prims}

theorem loadKeys2ki_keeps {w w' : Wallet2} {files files' : Files} {create asks : Bool}
    (h : loadKeys2ki w files create = .ok (w', files', asks)) :
    w'.account = w.account ∧ w'.watchOnly = w.watchOnly := by
  rw [loadKeys2ki] at h
  split at h
  · cases h
  · simp only at h
    split at h
    · split at h
      · cases h
      · cases h
        exact ⟨rfl, rfl⟩
    · split at h
      · cases h
      · cases h
        exact ⟨rfl, rfl⟩

/-- The keys are settled before the body is read. -/
theorem loadRest_keeps {mem : Memory} {w w' : Wallet2} {files files' : Files} {ver : Nat}
    {password : ByteString} {iv : ChachaIv} {body : ByteString}
    (h : loadRest prims mem w files ver password iv body = .ok (w', files')) :
    w'.account = w.account ∧ w'.watchOnly = w.watchOnly := by
  rw [loadRest] at h
  simp only at h
  split at h
  · cases h
  · rename_i v files₁ asks hopened
    have hkeeps : v.account = w.account ∧ v.watchOnly = w.watchOnly := by
      split at hopened
      · have hkeeps := loadKeys2ki_keeps hopened
        exact hkeeps
      · cases hopened
        exact ⟨rfl, rfl⟩
    split at h
    · cases h
    · cases h
      exact hkeeps

theorem walletStep_opened {w w' : Wallet2} (hw : Opened prims w) {e : WalletEvent}
    (h : walletStep prims w e = .ok w') : Opened prims w' := by
  cases e with
  | work data =>
      cases h
      exact ⟨hw.proper, hw.watchOnly⟩
  | resetPassword password =>
      cases h
      exact ⟨hw.proper, hw.watchOnly⟩
  | restart mem genesis files iv ts =>
      obtain ⟨files', hstore, hreplaced⟩ :=
        @store_eq prims w files w.walletFile w.password iv ts
      simp only [walletStep, hstore] at h
      split at h
      · cases h
      · rename_i v files'' hload
        cases h
        rw [load_fileContent mem hw rfl hreplaced.content] at hload
        obtain ⟨haccount, hwatchOnly⟩ := loadRest_keeps hload
        exact ⟨haccount ▸ hw.proper, by rw [hwatchOnly, haccount]; exact hw.watchOnly⟩

theorem walletRun_opened {w w' : Wallet2} (hw : Opened prims w) {events : List WalletEvent}
    (h : walletRun prims w events = .ok w') : Opened prims w' := by
  induction events generalizing w with
  | nil =>
      cases h
      exact hw
  | cons e events ih =>
      rw [walletRun, List.foldlM_cons] at h
      cases hstep : walletStep prims w e with
      | error failure =>
          rw [hstep] at h
          cases h
      | ok w₁ =>
          rw [hstep] at h
          exact ih (walletStep_opened hw hstep) h

/-- In every state of a run a wallet that is stored with its own password, and a watch-only copy
with the empty one, load back exactly when all that the wallet holds is listed. -/
theorem stored_wallets_load_back {w₁ w : Wallet2} (hfirst : Opened prims w₁)
    {events : List WalletEvent} (hrun : walletRun prims w₁ events = .ok w) (files : Files)
    (path : Path) (iv : ChachaIv) (ts : Nat) :
    (∀ password, StoresAt w files path password →
      (Restores prims w files path password iv ts ↔ w.data.Listed)) ∧
    (StoresWatchOnlyAt w files path →
      (RestoresWatchOnly prims w files path [] iv ts ↔ w.data.Listed)) := by
  have hw := walletRun_opened hfirst hrun
  constructor
  · intro password h
    exact restores_iff hw h iv ts
  · intro h
    exact restoresWatchOnly_iff hw h iv ts

/-! ### A sample -/

/-- A small number after as many bytes of 255 as it has times 128. -/
def readSmall : ByteString → Option (Nat × ByteString)
  | [] => none
  | byte :: rest =>
      if byte = 255 then (readSmall rest).map fun found => (found.1 + 128, found.2)
      else some (byte.toNat, rest)

def writeSmall (n : Nat) : ByteString :=
  if n < 128 then [UInt8.ofNat n] else 255 :: writeSmall (n - 128)

theorem readSmall_writeSmall (n : Nat) (rest : ByteString) :
    readSmall (writeSmall n ++ rest) = some (n, rest) := by
  induction n using Nat.strongRecOn with
  | ind n ih =>
      rw [writeSmall]
      split
      · rename_i hlt
        have hbyte : (UInt8.ofNat n).toNat = n := UInt8.toNat_ofNat_of_lt' (by
          change n < 256
          omega)
        have hne : UInt8.ofNat n ≠ 255 := by
          intro heq
          rw [heq] at hbyte
          change 255 = n at hbyte
          omega
        rw [List.singleton_append, readSmall, if_neg hne, hbyte]
      · rename_i hge
        rw [List.cons_append, readSmall, if_pos rfl, ih (n - 128) (by omega), Option.map_some]
        simp only [Option.some.injEq, Prod.mk.injEq, and_true]
        omega

theorem length_writeSmall (n : Nat) : (writeSmall n).length ≤ n + 1 := by
  induction n using Nat.strongRecOn with
  | ind n ih =>
      rw [writeSmall]
      split
      · simp
      · have hrest := ih (n - 128) (by omega)
        rw [List.length_cons]
        omega

def byteCount (n : Nat) : Nat := (n.size + 7) / 8

theorem lt_pow_byteCount (n : Nat) : n < 256 ^ byteCount n := by
  have hle : n.size ≤ 8 * byteCount n := by
    rw [byteCount]
    omega
  calc n < 2 ^ n.size := Nat.lt_size_self n
    _ ≤ 2 ^ (8 * byteCount n) := Nat.pow_le_pow_right (by decide) hle
    _ = 256 ^ byteCount n := by norm_num [pow_mul]

theorem length_counted_le (n : Nat) :
    (writeSmall (byteCount n) ++ podBytes (byteCount n) n).length ≤ n.size + 64 := by
  have hsmall := length_writeSmall (byteCount n)
  have hcount : 8 * byteCount n ≤ n.size + 7 := by
    rw [byteCount]
    omega
  rw [List.length_append, length_podBytes]
  omega

/-- A number after how many bytes it takes is read back. -/
theorem read_counted (n : Nat) (rest : ByteString) :
    (readSmall ((writeSmall (byteCount n) ++ podBytes (byteCount n) n) ++ rest)).map
      (fun found => (podValue (found.2.take found.1), found.2.drop found.1)) = some (n, rest) := by
  rw [List.append_assoc, readSmall_writeSmall, Option.map_some, List.take_left' (length_podBytes ..),
    List.drop_left' (length_podBytes ..), podValue_podBytes (lt_pow_byteCount n)]

/-- A text after its length is read back. -/
theorem read_countedText (s rest : ByteString) :
    (readSmall (((writeSmall (byteCount s.length) ++ podBytes (byteCount s.length) s.length) ++ s)
        ++ rest)).map
      (fun found => ((found.2.drop found.1).take (podValue (found.2.take found.1)),
        (found.2.drop found.1).drop (podValue (found.2.take found.1)))) = some (s, rest) := by
  rw [List.append_assoc, List.append_assoc, readSmall_writeSmall, Option.map_some,
    List.take_left' (length_podBytes ..), List.drop_left' (length_podBytes ..),
    podValue_podBytes (lt_pow_byteCount s.length)]
  simp only [List.take_left, List.drop_left]

theorem length_countedText_le (s : ByteString) :
    ((writeSmall (byteCount s.length) ++ podBytes (byteCount s.length) s.length) ++ s).length ≤
      s.length + s.length.size + 64 := by
  have hcounted := length_counted_le s.length
  rw [List.length_append]
  omega

/-- The portable archive, whose first byte is 127: a number is its bytes after how many they
are, a text its bytes after its length. -/
def sampleFormat : Format where
  opening := [127]
  readOpening
    | [] => none
    | byte :: rest => if byte = 127 then some rest else none
  writeNumber n := writeSmall (byteCount n) ++ podBytes (byteCount n) n
  readNumber s := (readSmall s).map fun found =>
    (podValue (found.2.take found.1), found.2.drop found.1)
  writeText s := (writeSmall (byteCount s.length) ++ podBytes (byteCount s.length) s.length) ++ s
  readText s := (readSmall s).map fun found =>
    (((found.2.drop found.1).take (podValue (found.2.take found.1))),
      ((found.2.drop found.1).drop (podValue (found.2.take found.1))))
  opening_read _ := rfl
  number_read := read_counted
  text_read := read_countedText
  opening_size := by decide
  number_size := length_counted_le
  text_size := length_countedText_le

def samplePrimitives : Primitives where
  chacha8 password _ := fun _ => Vector.replicate 64 (password.headD 0)
  secretKeyToPublicKey sec := some (sec + 1)
  portable := sampleFormat
  binary := { sampleFormat with
    opening := [], readOpening := some, opening_read := fun _ => rfl, opening_size := by decide }
  storage := sampleFormat

def sampleAccount : AccountBase where
  keys := {
    accountAddress := { spendPublicKey := 6, viewPublicKey := 8, flags := 0 }
    spendSecretKey := 5
    viewSecretKey := 7 }
  creationTimestamp := 1
  keysSeedBinary := [1, 2, 3]

theorem sampleAccount_proper : ProperAccount samplePrimitives sampleAccount where
  verified := by decide
  seed := by decide
  timestamp := by decide
  noSeed := by decide

def samplePath : Path := "w".toList

/-- A new wallet with a password. -/
def sampleWallet : Wallet2 :=
  { prepareFileNames (newWallet 1) samplePath with account := sampleAccount, password := [1] }

theorem sampleWallet_opened : Opened samplePrimitives sampleWallet :=
  ⟨sampleAccount_proper, by decide⟩

/-- A transfer whose HTLC was redeemed. -/
def sampleRedeemed : TransferDetails :=
  { newTransferDetails with varianOptions := [.htlcInfo { origin := [1], redeemTxId := 9 }] }

def sampleRedeemedData : WalletData := { newWalletData 1 with transfers := [sampleRedeemed] }

/-- A spent transfer that tells its payer. -/
def sampleReceived : TransferDetails :=
  { newTransferDetails with
    ptxWalletInfo := {
      blockHeight := 3
      blockTimestamp := 40
      tx := { newTransaction with vout := [⟨10, .toKey { key := 9, mixAttr := 0 }⟩] } }
    flags := 1
    spentHeight := 5
    globalOutputIndex := 7
    keyImage := 8
    varianOptions := [.payer ⟨1, 2, 0⟩] }

def sampleWorkedData : WalletData :=
  { newWalletData 1 with
    minimumHeight := 3
    transfers := [sampleReceived, newTransferDetails]
    keyImages := ⟨[(8, 0)], by decide⟩ }

def sampleEvents : List WalletEvent := [.work sampleWorkedData, .resetPassword [2]]

def sampleWorked : Wallet2 := { sampleWallet with data := sampleWorkedData, password := [2] }

/-- The wallet works and gets another password; stored with that one it comes back. -/
theorem stored_wallets_load_back_sample :
    walletRun samplePrimitives sampleWallet sampleEvents = .ok sampleWorked ∧
    Restores samplePrimitives sampleWorked (fun _ => none) samplePath [2] 5 10 := by
  refine ⟨rfl, ((@stored_wallets_load_back samplePrimitives sampleWallet sampleWorked
    sampleWallet_opened sampleEvents rfl (fun _ => none) samplePath 5 10).1 [2]
    ⟨rfl, fun h => absurd h (by decide)⟩).mpr ⟨?_, ?_⟩⟩
  · change ∀ td ∈ [sampleReceived, newTransferDetails], _
    simp [sampleReceived, newTransferDetails]
  · intro wti hwti
    cases hwti

/-- Stored with another password the wallet does not load back, and with its own one it loses the
transaction that redeemed an HTLC. -/
theorem stored_wallets_do_not_load_back :
    ¬ Restores samplePrimitives sampleWallet (fun _ => none) samplePath [2] 5 10 ∧
    ¬ Restores samplePrimitives { sampleWallet with data := sampleRedeemedData } (fun _ => none)
      samplePath [1] 5 10 := by
  constructor
  · rintro ⟨files', hstore, hload⟩
    obtain ⟨files₁, hstore₁, hreplaced⟩ :=
      @store_eq samplePrimitives sampleWallet (fun _ => none) samplePath [2] 5 10
    cases hstore.symm.trans hstore₁
    obtain ⟨w', files'', hw', -⟩ := hload ⟨0, noDerivedInfo⟩ 1
    obtain ⟨e, he⟩ := @load_wrong_password samplePrimitives ⟨0, noDerivedInfo⟩ sampleWallet
      (newWallet 1) sampleWallet_opened rfl files' samplePath [2] 5 hreplaced.content rfl
    cases hw'.symm.trans he
  · intro hrestores
    have hopened : Opened samplePrimitives { sampleWallet with data := sampleRedeemedData } :=
      ⟨sampleAccount_proper, by decide⟩
    have hlisted := (restores_iff hopened ⟨rfl, fun h => absurd h (by decide)⟩ 5 10).mp hrestores
    exact hlisted.options sampleRedeemed (.head _) (.htlcInfo { origin := [1], redeemTxId := 9 })
      (.head _) { origin := [1], redeemTxId := 9 } rfl

end Chinet.WalletFile
