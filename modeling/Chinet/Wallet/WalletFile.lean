import Chinet.Lib.FixedDigits
import Chinet.Lib.Keystream
import Chinet.Wallet.WalletLayout

/-!
# Wallet files

`store`, `store_watch_only` and `load` of `wallet2`, over the files of a disk that does what it
is asked to.  A wallet file has a header, the keys and the body.  The keys and the body are
encrypted apart from each other: `store` takes its argument as the password of the keys and
`m_password` as that of the body.

The pending key images of a watch-only wallet are kept in a file of their own too, next to the
wallet file and named after it.
-/

namespace Chinet

def AccountBase.isWatchOnly (acc : AccountBase) : Bool := acc.keys.spendSecretKey = 0

/-- `make_account_watch_only` -/
def AccountBase.makeAccountWatchOnly (acc : AccountBase) : AccountBase where
  keys := { acc.keys with spendSecretKey := 0 }
  creationTimestamp := acc.creationTimestamp
  keysSeedBinary := []

end Chinet

namespace Chinet.WalletFile

open Archive Archive.Layout BoostArchive Keystream

/-! ## Files -/

abbrev Path := List Char

abbrev Files := Path → Option ByteString

namespace Files

def has (files : Files) (path : Path) : Bool := (files path).isSome

def write (files : Files) (path : Path) (content : ByteString) : Files :=
  Function.update files path (some content)

def remove (files : Files) (path : Path) : Files := Function.update files path none

def rename (files : Files) (old new : Path) : Files :=
  match files old with
  | some content => (files.remove old).write new content
  | none => files

end Files

/-- `cut_off_extension` -/
def cutOffExtension (path : Path) : Path :=
  match path.reverse.dropWhile (· ≠ '.') with
  | [] => path
  | _ :: rest => rest.reverse

/-- The name of `m_pending_ki_file`. -/
def pendingKiFileOf (path : Path) : Path := cutOffExtension path ++ ".outkey2ki".toList

/-- A number as the bytes of a pod, the least significant first. -/
def podBytes (width n : Nat) : ByteString :=
  ((FixedDigits.toDigits 256 width n).map UInt8.ofNat).reverse

def podValue (bytes : ByteString) : Nat := FixedDigits.ofDigits 256 (bytes.reverse.map UInt8.toNat)

/-- `out_key_to_ki` -/
structure OutKeyToKi where
  outKey : PublicKey
  keyImage : KeyImage
deriving DecidableEq

def outKeyToKiSize : Nat := 64

def OutKeyToKi.bytes (item : OutKeyToKi) : ByteString :=
  podBytes 32 item.outKey.toNat ++ podBytes 32 item.keyImage.toNat

def OutKeyToKi.ofBytes (bytes : ByteString) : OutKeyToKi where
  outKey := BitVec.ofNat 256 (podValue (bytes.take 32))
  keyImage := BitVec.ofNat 256 (podValue (bytes.drop 32))

/-- The items of a `pod_array_file_container`; what is left after the last is cut off. -/
def itemsOf (content : ByteString) : List OutKeyToKi :=
  (List.range (content.length / outKeyToKiSize)).map fun i =>
    OutKeyToKi.ofBytes ((content.drop (i * outKeyToKiSize)).take outKeyToKiSize)

/-! ## The wallet -/

structure Wallet2 where
  account : AccountBase
  watchOnly : Bool
  walletFile : Path
  pendingKiFile : Path
  password : ByteString
  data : WalletData
  /-- The file that `m_pending_key_images_file_container` has open. -/
  pendingKeyImagesFileContainer : Option Path

def newAccount : AccountBase where
  keys := { accountAddress := newAddress, spendSecretKey := 0, viewSecretKey := 0 }
  creationTimestamp := 0
  keysSeedBinary := []

def walletMinimumHeightUnset : Nat := 2 ^ 64 - 1

def newWalletData (genesis : Hash) : WalletData where
  chain := .init genesis
  minimumHeight := walletMinimumHeightUnset
  amountGindexToTransferId := .empty
  transfers := []
  multisigTransfers := .empty
  keyImages := .empty
  unconfirmedTxs := .empty
  unconfirmedMultisigTransfers := .empty
  payments := []
  transferHistory := []
  unconfirmedInTransfers := .empty
  contracts := .empty
  moneyExpirations := []
  pendingKeyImages := .empty
  txKeys := .empty
  lastPowBlockH := 0
  htlcs := []
  activeHtlcs := .empty
  activeHtlcsTxid := .empty

/-- The constructor of `wallet2`. -/
def newWallet (genesis : Hash) : Wallet2 where
  account := newAccount
  watchOnly := false
  walletFile := []
  pendingKiFile := []
  password := []
  data := newWalletData genesis
  pendingKeyImagesFileContainer := none

/-- `reset_all` -/
def resetAll (w : WalletData) : WalletData :=
  { w with
    chain := { WalletChainShortener.init w.chain.genesis with genesis := w.chain.genesis }
    transfers := []
    amountGindexToTransferId := .empty
    keyImages := .empty
    unconfirmedInTransfers := .empty
    unconfirmedTxs := .empty
    unconfirmedMultisigTransfers := .empty
    multisigTransfers := .empty
    payments := []
    transferHistory := []
    lastPowBlockH := 0 }

def Wallet2.isAuditable (w : Wallet2) : Bool := w.account.keys.isAuditable

/-! ## Keys -/

abbrev ChachaIv := BitVec 64

/-- What the wallet takes from `crypto/` and from the libraries of archives. -/
structure Primitives where
  /-- `generate_chacha8_key` and the stream of the key with an initialization vector. -/
  chacha8 : ByteString → ChachaIv → Blocks
  secretKeyToPublicKey : SecretKey → Option PublicKey
  /-- `eos::portable_oarchive` and `eos::portable_iarchive`. -/
  portable : Format
  /-- `dump_binary` and `parse_binary`. -/
  binary : Format
  /-- `store_t_to_binary` and `load_t_from_binary`. -/
  storage : Format

inductive WalletFileError
  | fileNotFound
  | fileReadError
  | fileExists
  | invalidPassword
  | walletInternalError
  | walletCommonError
  | walletLoadNoticeWalletRestored
deriving DecidableEq

def walletFileSignatureOld : Nat := 0x1111012101101011

def walletFileSignatureV2 : Nat := 0x1111011201101011

def walletFileBinaryHeaderVersionInitial : Nat := 1000

def walletFileBinaryHeaderVersion2 : Nat := 1001

def walletFileMaxKeysSize : Nat := 10000

structure KeysFileData where
  version : Nat
  iv : ChachaIv
  accountData : ByteString

def keysFileDataVersion : Nat := 1

variable (prims : Primitives)

def accountKeys : Layout AccountKeys :=
  nothing
    |>.field (·.accountAddress) (fun v x => { x with accountAddress := v })
      (nothing
        |>.field (·.spendPublicKey) (fun v x => { x with spendPublicKey := v }) (pod prims.storage)
        |>.field (·.viewPublicKey) (fun v x => { x with viewPublicKey := v }) (pod prims.storage)
        |>.field (·.flags) (fun v x => { x with flags := v }) (uint8 prims.storage))
    |>.field (·.spendSecretKey) (fun v x => { x with spendSecretKey := v }) (pod prims.storage)
    |>.field (·.viewSecretKey) (fun v x => { x with viewSecretKey := v }) (pod prims.storage)

/-- The map of `account_base`. -/
def accountBase : Layout AccountBase :=
  nothing
    |>.field (·.keys) (fun v x => { x with keys := v }) (accountKeys prims)
    |>.field (·.creationTimestamp) (fun v x => { x with creationTimestamp := v })
      (number prims.storage)
    |>.field (·.keysSeedBinary) (fun v x => { x with keysSeedBinary := v }) (text prims.storage)

def storeAccount (acc : AccountBase) : ByteString :=
  prims.storage.opening ++ (accountBase prims).save acc

def loadAccount (memory : AccountBase) (s : ByteString) : Option AccountBase :=
  (prims.storage.readOpening s).bind fun rest =>
    ((accountBase prims).load memory rest).map Prod.fst

/-- `keys_file_data_old`; it has no version. -/
def keysFileDataOld : Layout KeysFileData :=
  nothing
    |>.field (·.iv) (fun v x => { x with iv := v }) (pod prims.binary)
    |>.field (·.accountData) (fun v x => { x with accountData := v }) (text prims.binary)

def keysFileData : Layout KeysFileData :=
  nothing
    |>.field (·.version) (fun v x => { x with version := v }) (number prims.binary)
    |>.field (·.iv) (fun v x => { x with iv := v }) (pod prims.binary)
    |>.field (·.accountData) (fun v x => { x with accountData := v }) (text prims.binary)

/-- `store_keys`; `iv` is what it draws. -/
def storeKeys (acc : AccountBase) (password : ByteString) (iv : ChachaIv)
    (storeAsWatchOnly : Bool) : ByteString :=
  (prims.binary.opening ++ (keysFileData prims).save {
    version := keysFileDataVersion
    iv
    accountData := crypt (prims.chacha8 password iv) 0
      (storeAccount prims (if storeAsWatchOnly then acc.makeAccountWatchOnly else acc)) })

/-- `verify_keys` -/
def verifyKeys (sec : SecretKey) (expectedPub : PublicKey) : Bool :=
  prims.secretKeyToPublicKey sec = some expectedPub

/-- The reading of the keys, by the signature of the file. -/
def parseKeysFileData (signature : Nat) (buff : ByteString) : Option KeysFileData :=
  (prims.binary.readOpening buff).bind fun rest =>
    ((if signature = walletFileSignatureOld then keysFileDataOld prims else keysFileData prims).load
      ⟨0, 0, []⟩ rest).map Prod.fst

/-- The tests of `load_keys` on an account; one without a spend key makes the wallet
watch-only. -/
def accountVerified (acc : AccountBase) : Bool :=
  verifyKeys prims acc.keys.viewSecretKey acc.keys.accountAddress.viewPublicKey &&
    (acc.isWatchOnly ||
      verifyKeys prims acc.keys.spendSecretKey acc.keys.accountAddress.spendPublicKey)

/-- `load_keys`: the wallet with its account, and the initialization vector. -/
def loadKeys (w : Wallet2) (buff password : ByteString) (signature : Nat) :
    Except WalletFileError (Wallet2 × ChachaIv) :=
  match parseKeysFileData prims signature buff with
  | none => .error .walletInternalError
  | some keys =>
      match loadAccount prims w.account
          (crypt (prims.chacha8 password keys.iv) 0 keys.accountData) with
      | none => .error .invalidPassword
      | some account =>
          if accountVerified prims account then
            .ok ({ w with account, watchOnly := w.watchOnly || account.isWatchOnly }, keys.iv)
          else .error .invalidPassword

/-! ## The body -/

/-- `portble_serialize_obj_to_stream` -/
def serializeObj (data : WalletData) : ByteString :=
  -- what is saved depends neither on the memory nor on the wallet being watch-only
  prims.portable.opening ++ (serialize prims.portable
    ⟨0, ⟨false, false, false, 0, 0, false, 0, 0⟩⟩ false).save data

/-- `portable_unserialize_obj_from_stream`; nothing for the result false. -/
def unserializeObj (mem : Memory) (watchOnly : Bool) (memory : WalletData) (s : ByteString) :
    Option WalletData :=
  (prims.portable.readOpening s).bind fun rest =>
    ((serialize prims.portable mem watchOnly).load memory rest).map Prod.fst

structure WalletFileBinaryHeader where
  signature : Nat
  cbKeys : Nat
  ver : Nat
  reserved : Nat

def walletFileBinaryHeaderSize : Nat := 18

def WalletFileBinaryHeader.bytes (wbh : WalletFileBinaryHeader) : ByteString :=
  podBytes 8 wbh.signature ++ podBytes 2 wbh.cbKeys ++ podBytes 4 wbh.ver ++ podBytes 4 wbh.reserved

def WalletFileBinaryHeader.ofBytes (bytes : ByteString) : WalletFileBinaryHeader where
  signature := podValue (bytes.take 8)
  cbKeys := podValue ((bytes.drop 8).take 2)
  ver := podValue ((bytes.drop 10).take 4)
  reserved := podValue ((bytes.drop 14).take 4)

/-! ## The file of pending key images -/

/-- The pairs of the file, put into a cleared map; a key that comes twice throws. -/
def restoreKeyImages (items : List OutKeyToKi) :
    Except WalletFileError (Table PublicKey KeyImage) :=
  items.foldlM (fun table item =>
    if (table.lookup item.outKey).isSome then .error .walletInternalError
    else .ok (table.insert (item.outKey, item.keyImage))) .empty

/-- `load_keys2ki`: the wallet with the file opened, and whether it asks for a resync. -/
def loadKeys2ki (w : Wallet2) (files : Files) (createIfNotExist : Bool) :
    Except WalletFileError (Wallet2 × Files × Bool) :=
  if !createIfNotExist && !files.has w.pendingKiFile then .error .fileNotFound
  else
    let content := (files w.pendingKiFile).getD []
    let size := content.length / outKeyToKiSize
    let files := files.write w.pendingKiFile (content.take (size * outKeyToKiSize))
    let w := { w with pendingKeyImagesFileContainer := some w.pendingKiFile }
    if w.data.pendingKeyImages.size < size then
      match restoreKeyImages (itemsOf content) with
      | .error e => .error e
      | .ok table => .ok ({ w with data := { w.data with pendingKeyImages := table } }, files, true)
    else if w.data.pendingKeyImages.size > size then .error .walletInternalError
    else .ok (w, files, false)

/-- `push_back`; a container that is not open takes nothing. -/
def pushBack (files : Files) (container : Option Path) (item : OutKeyToKi) : Files :=
  match container with
  | none => files
  | some path => files.write path ((files path).getD [] ++ item.bytes)

/-! ## Storing -/

def prepareFileNames (w : Wallet2) (path : Path) : Wallet2 :=
  { w with walletFile := path, pendingKiFile := pendingKiFileOf path }

/-- The name of a temporary file. -/
def tmpPath (path : Path) (extension : String) (ts : Nat) : Path :=
  path ++ (extension.toList ++ Nat.toDigits 10 ts)

/-- The new file and the two renamings: the old file away, the new one in its place. -/
def replaceFile (files : Files) (path : Path) (content : ByteString) (ts : Nat) : Files :=
  let newTmp := tmpPath path ".newtmp_" ts
  let oldTmp := tmpPath path ".oldtmp_" ts
  let files := files.write newTmp content
  let files := if files.has path then files.rename path oldTmp else files
  (files.rename newTmp path).remove oldTmp

/-- The content of a wallet file. -/
def fileContent (w : Wallet2) (password : ByteString) (iv : ChachaIv) : ByteString :=
  let keysBuff := storeKeys prims w.account password iv w.watchOnly
  let wbh : WalletFileBinaryHeader := {
    signature := walletFileSignatureV2
    cbKeys := keysBuff.length
    ver := walletFileBinaryHeaderVersion2
    reserved := 0 }
  wbh.bytes ++ (keysBuff ++ crypt (prims.chacha8 w.password iv) 0 (serializeObj prims w.data))

/-- `store`; `ts` is the core time. -/
def store (w : Wallet2) (files : Files) (pathToSave : Path) (password : ByteString)
    (iv : ChachaIv) (ts : Nat) : Except WalletFileError Files :=
  let files := replaceFile files pathToSave (fileContent prims w password iv) ts
  if files.has pathToSave && !files.has (tmpPath pathToSave ".newtmp_" ts) &&
      !files.has (tmpPath pathToSave ".oldtmp_" ts) then .ok files
  else .error .walletCommonError

def TransferDetails.isSpent (td : TransferDetails) : Bool :=
  td.flags &&& walletTransferDetailFlagSpent != 0

/-- The key image of a transfer that is spent, for the watch-only wallet; only an output to a
key has one. -/
def addSpentKeyImage (container : Option Path)
    (state : Table PublicKey KeyImage × Files) (td : TransferDetails) :
    Except WalletFileError (Table PublicKey KeyImage × Files) :=
  if !td.isSpent then .ok state
  else
    match td.ptxWalletInfo.tx.vout[td.internalOutputIndex]? with
    | none => .error .walletInternalError
    | some out =>
        match out.target with
        | .toKey target => .ok (state.1.insert (target.key, td.keyImage),
            pushBack state.2 container ⟨target.key, td.keyImage⟩)
        | _ => .ok state

/-- The copy of the containers that `store_watch_only` makes by an archive in the memory. -/
def copiedData (mem : Memory) (genesis : Hash) (data : WalletData) : WalletData :=
  (unserializeObj prims mem false (newWalletData genesis) (serializeObj prims data)).getD
    (newWalletData genesis)

/-- The wallet that `store_watch_only` has made when it prepares the names. -/
def watchOnlyCopy (w : Wallet2) (mem : Memory) (genesis : Hash) (path : Path) : Wallet2 :=
  prepareFileNames { newWallet genesis with
    data := copiedData prims mem genesis w.data
    watchOnly := true
    account := w.account.makeAccountWatchOnly } path

/-- `store_watch_only` -/
def storeWatchOnly (w : Wallet2) (mem : Memory) (genesis : Hash) (files : Files)
    (pathToSave : Path) (password : ByteString) (iv : ChachaIv) (ts : Nat) :
    Except WalletFileError Files :=
  if pathToSave = w.walletFile ∨ w.watchOnly then .error .walletInternalError
  else
    let wo := watchOnlyCopy prims w mem genesis pathToSave
    if files.has wo.walletFile || files.has wo.pendingKiFile then .error .walletInternalError
    else if wo.data.pendingKeyImages.entries ≠ [] then .error .walletInternalError
    else
      match (if w.isAuditable then .ok (wo, files, false) else loadKeys2ki wo files true) with
      | .error e => .error e
      | .ok (wo, files, _) =>
          match wo.data.transfers.foldlM (addSpentKeyImage wo.pendingKeyImagesFileContainer)
              (wo.data.pendingKeyImages, files) with
          | .error e => .error e
          | .ok (pendingKeyImages, files) =>
              store prims { wo with data := { wo.data with pendingKeyImages } } files pathToSave
                password iv ts

/-! ## Loading -/

/-- The body by the version of the header, and whether a resync is needed.  Where the body is
not read the history is reset, and the containers do not matter. -/
def loadBody (mem : Memory) (w : Wallet2) (ver : Nat) (password : ByteString) (iv : ChachaIv)
    (body : ByteString) : WalletData × Bool :=
  let plain? :=
    if ver = walletFileBinaryHeaderVersionInitial then some body
    else if ver = walletFileBinaryHeaderVersion2 then some (crypt (prims.chacha8 password iv) 0 body)
    else none
  match plain?.bind (unserializeObj prims mem w.watchOnly w.data) with
  | some data => (data, false)
  | none => (w.data, true)

/-- What `load` does once the keys are loaded. -/
def loadRest (mem : Memory) (w : Wallet2) (files : Files) (ver : Nat) (password : ByteString)
    (iv : ChachaIv) (body : ByteString) : Except WalletFileError (Wallet2 × Files) :=
  let found := loadBody prims mem w ver password iv body
  let w := { w with data := found.1 }
  match (if w.watchOnly && !w.isAuditable then loadKeys2ki w files true
      else .ok (w, files, false)) with
  | .error e => .error e
  | .ok (w, files, asksForResync) =>
      if found.2 || asksForResync then .error .walletLoadNoticeWalletRestored else .ok (w, files)

/-- `load` -/
def load (mem : Memory) (w : Wallet2) (files : Files) (path : Path) (password : ByteString) :
    Except WalletFileError (Wallet2 × Files) :=
  let w := { prepareFileNames { w with data := resetAll w.data } path with password }
  match files path with
  | none => .error .fileNotFound
  | some content =>
      if content.length < walletFileBinaryHeaderSize then .error .fileReadError
      else
        let wbh := WalletFileBinaryHeader.ofBytes (content.take walletFileBinaryHeaderSize)
        let rest := content.drop walletFileBinaryHeaderSize
        if wbh.signature ≠ walletFileSignatureOld ∧ wbh.signature ≠ walletFileSignatureV2 then
          .error .fileReadError
        else if wbh.cbKeys > walletFileMaxKeysSize then .error .fileReadError
        else
          match loadKeys prims w (rest.take wbh.cbKeys) password wbh.signature with
          | .error e => .error e
          | .ok (w, iv) =>
              loadRest prims mem w files wbh.ver password iv (rest.drop wbh.cbKeys)

end Chinet.WalletFile
