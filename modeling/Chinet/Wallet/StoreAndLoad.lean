import Chinet.Wallet.WalletFile

/-!
# Stored wallets

What `load` makes of the file that `store` or `store_watch_only` has written.
-/

namespace Chinet.WalletFile

open Archive Archive.Layout BoostArchive Keystream

/-! ## Pods -/

@[simp] theorem length_podBytes (width n : Nat) : (podBytes width n).length = width := by
  rw [podBytes, List.length_reverse, List.length_map, FixedDigits.length_toDigits]

theorem podValue_podBytes {width n : Nat} (h : n < 256 ^ width) :
    podValue (podBytes width n) = n := by
  have hdigits : ((FixedDigits.toDigits 256 width n).map UInt8.ofNat).map UInt8.toNat =
      FixedDigits.toDigits 256 width n := by
    rw [List.map_map]
    calc (FixedDigits.toDigits 256 width n).map (UInt8.toNat ∘ UInt8.ofNat) =
        (FixedDigits.toDigits 256 width n).map id :=
          List.map_congr_left fun d hd =>
            UInt8.toNat_ofNat_of_lt' (FixedDigits.toDigits_lt (by decide) width n d hd)
      _ = FixedDigits.toDigits 256 width n := List.map_id _
  rw [podValue, podBytes, List.reverse_reverse, hdigits]
  exact FixedDigits.ofDigits_toDigits h

/-- A header fits if each field fits its place. -/
structure WalletFileBinaryHeader.Fits (wbh : WalletFileBinaryHeader) : Prop where
  signature : wbh.signature < 256 ^ 8
  cbKeys : wbh.cbKeys < 256 ^ 2
  ver : wbh.ver < 256 ^ 4
  reserved : wbh.reserved < 256 ^ 4

@[simp] theorem WalletFileBinaryHeader.length_bytes (wbh : WalletFileBinaryHeader) :
    wbh.bytes.length = walletFileBinaryHeaderSize := by
  simp [WalletFileBinaryHeader.bytes, walletFileBinaryHeaderSize]

theorem WalletFileBinaryHeader.ofBytes_bytes {wbh : WalletFileBinaryHeader} (h : wbh.Fits) :
    WalletFileBinaryHeader.ofBytes wbh.bytes = wbh := by
  have hsignature := podValue_podBytes h.signature
  have hcbKeys := podValue_podBytes h.cbKeys
  have hver := podValue_podBytes h.ver
  have hreserved := podValue_podBytes h.reserved
  simp [WalletFileBinaryHeader.ofBytes, WalletFileBinaryHeader.bytes, List.drop_append,
    List.take_of_length_le, List.drop_of_length_le, hsignature, hcbKeys, hver, hreserved]

/-! ## Keys -/

variable {prims : Primitives}

@[simp] theorem accountBase_loaded (memory x : AccountBase) :
    (accountBase prims).loaded memory x = x := by
  simp [accountBase, accountKeys]

@[simp] theorem keysFileData_loaded (memory x : KeysFileData) :
    (keysFileData prims).loaded memory x = x := by
  simp [keysFileData]

theorem loadAccount_storeAccount (memory acc : AccountBase) :
    loadAccount prims memory (storeAccount prims acc) = some acc := by
  have hload := (accountBase prims).load_save memory acc []
  rw [List.append_nil, accountBase_loaded] at hload
  rw [loadAccount, storeAccount, prims.storage.opening_read, Option.bind_some, hload]
  rfl

theorem parseKeysFileData_storeKeys (acc : AccountBase) (password : ByteString) (iv : ChachaIv)
    (storeAsWatchOnly : Bool) :
    parseKeysFileData prims walletFileSignatureV2 (storeKeys prims acc password iv
      storeAsWatchOnly) = some {
        version := keysFileDataVersion
        iv
        accountData := crypt (prims.chacha8 password iv) 0
          (storeAccount prims (if storeAsWatchOnly then acc.makeAccountWatchOnly else acc)) } := by
  have hload (keys : KeysFileData) : (keysFileData prims).load ⟨0, 0, []⟩
      ((keysFileData prims).save keys) = some (keys, []) := by
    have hloaded := (keysFileData prims).load_save ⟨0, 0, []⟩ keys []
    rwa [List.append_nil, keysFileData_loaded] at hloaded
  rw [parseKeysFileData, storeKeys, prims.binary.opening_read, Option.bind_some,
    if_neg (by decide), hload]
  rfl

/-! ### Their size -/

section Size

variable (a : Format)

theorem size_pod {n : Nat} (x : BitVec n) : ((pod a).save x).length ≤ n + 64 := by
  have hnumber := a.number_size x.toNat
  have hsize : x.toNat.size ≤ n := Nat.size_le.mpr x.isLt
  calc ((pod a).save x).length ≤ x.toNat.size + 64 := hnumber
    _ ≤ n + 64 := Nat.add_le_add_right hsize 64

theorem size_uint8 (x : UInt8) : ((uint8 a).save x).length ≤ 72 := by
  have hnumber := a.number_size x.toNat
  have hsize : x.toNat.size ≤ 8 := Nat.size_le.mpr x.toNat_lt
  calc ((uint8 a).save x).length ≤ x.toNat.size + 64 := hnumber
    _ ≤ 72 := by omega

end Size

/-- An account as `generate`, the ways to restore one and `load` make it. -/
structure ProperAccount (prims : Primitives) (acc : AccountBase) : Prop where
  verified : accountVerified prims acc = true
  seed : acc.keysSeedBinary.length ≤ brainwalletDefaultSeedSize
  timestamp : acc.creationTimestamp < 2 ^ 64
  noSeed : acc.isWatchOnly = true → acc.keysSeedBinary = []

theorem ProperAccount.makeAccountWatchOnly {acc : AccountBase} (h : ProperAccount prims acc) :
    ProperAccount prims acc.makeAccountWatchOnly where
  verified := by
    have hview := h.verified
    rw [accountVerified, Bool.and_eq_true] at hview
    simp [accountVerified, AccountBase.makeAccountWatchOnly, AccountBase.isWatchOnly, hview.1]
  seed := Nat.zero_le _
  timestamp := h.timestamp
  noSeed _ := rfl

theorem length_storeAccount {acc : AccountBase} (h : ProperAccount prims acc) :
    (storeAccount prims acc).length ≤ 2000 := by
  have hopening := prims.storage.opening_size
  have hspendPublic := size_pod prims.storage acc.keys.accountAddress.spendPublicKey
  have hviewPublic := size_pod prims.storage acc.keys.accountAddress.viewPublicKey
  have hflags := size_uint8 prims.storage acc.keys.accountAddress.flags
  have hspend := size_pod prims.storage acc.keys.spendSecretKey
  have hview := size_pod prims.storage acc.keys.viewSecretKey
  have htimestamp : ((number prims.storage).save acc.creationTimestamp).length ≤ 64 + 64 :=
    (prims.storage.number_size _).trans
      (Nat.add_le_add_right (Nat.size_le.mpr h.timestamp) 64)
  have hseed : ((text prims.storage).save acc.keysSeedBinary).length ≤ 32 + 6 + 64 :=
    (prims.storage.text_size _).trans (Nat.add_le_add_right (Nat.add_le_add h.seed
      (Nat.size_le.mpr (lt_of_le_of_lt h.seed (by decide)))) 64)
  simp only [storeAccount, accountBase, accountKeys, field, nothing, List.nil_append,
    List.length_append]
  omega

/-- The keys of a proper account pass the test of their size. -/
theorem length_storeKeys {acc : AccountBase} (h : ProperAccount prims acc) (password : ByteString)
    (iv : ChachaIv) (storeAsWatchOnly : Bool) :
    (storeKeys prims acc password iv storeAsWatchOnly).length ≤ walletFileMaxKeysSize := by
  have haccount : (storeAccount prims
      (if storeAsWatchOnly then acc.makeAccountWatchOnly else acc)).length ≤ 2000 := by
    cases storeAsWatchOnly with
    | false => exact length_storeAccount h
    | true => exact length_storeAccount h.makeAccountWatchOnly
  have hopening := prims.binary.opening_size
  have hversion : ((number prims.binary).save keysFileDataVersion).length ≤ 1 + 64 :=
    prims.binary.number_size _
  have hiv := size_pod prims.binary iv
  have hdata := prims.binary.text_size (crypt (prims.chacha8 password iv) 0
    (storeAccount prims (if storeAsWatchOnly then acc.makeAccountWatchOnly else acc)))
  have hsize : (storeAccount prims
      (if storeAsWatchOnly then acc.makeAccountWatchOnly else acc)).length.size ≤ 11 :=
    Nat.size_le.mpr (lt_of_le_of_lt haccount (by decide))
  rw [length_crypt] at hdata
  change ((text prims.binary).save _).length ≤ _ at hdata
  simp only [storeKeys, keysFileData, field, nothing, List.nil_append, List.length_append]
  rw [walletFileMaxKeysSize]
  omega

/-- The account that `store` puts into the keys. -/
def storedAccount (w : Wallet2) : AccountBase :=
  if w.watchOnly then w.account.makeAccountWatchOnly else w.account

theorem loadKeys_storeKeys {w : Wallet2} (h : ProperAccount prims w.account) (w₀ : Wallet2)
    (password : ByteString) (iv : ChachaIv) :
    loadKeys prims w₀ (storeKeys prims w.account password iv w.watchOnly) password
        walletFileSignatureV2 =
      .ok ({ w₀ with
        account := storedAccount w
        watchOnly := w₀.watchOnly || (storedAccount w).isWatchOnly }, iv) := by
  have hproper : ProperAccount prims (storedAccount w) := by
    rw [storedAccount]
    split
    · exact h.makeAccountWatchOnly
    · exact h
  rw [loadKeys, parseKeysFileData_storeKeys]
  simp only
  rw [crypt_crypt, loadAccount_storeAccount]
  simp only
  rw [show (if w.watchOnly then w.account.makeAccountWatchOnly else w.account) = storedAccount w
    from rfl, if_pos hproper.verified]

/-! ## The body -/

theorem unserializeObj_serializeObj (mem : Memory) (watchOnly : Bool) (memory data : WalletData) :
    unserializeObj prims mem watchOnly memory (serializeObj prims data) =
      some (data.restored mem) := by
  have hload := (serialize prims.portable mem watchOnly).load_save memory data []
  rw [List.append_nil, serialize_loaded] at hload
  rw [unserializeObj, serializeObj, prims.portable.opening_read, Option.bind_some]
  change (Option.map _ ((serialize prims.portable mem watchOnly).load memory
    ((serialize prims.portable mem watchOnly).save data))) = _
  rw [hload]
  rfl

/-! ## Files -/

namespace Files

variable {files : Files} {path q : Path} {content : ByteString}

@[simp] theorem write_self : files.write path content path = some content := by
  simp [write]

@[simp] theorem write_other (h : q ≠ path) : files.write path content q = files q := by
  simp [write, h]

@[simp] theorem remove_self : files.remove path path = none := by
  simp [remove]

@[simp] theorem remove_other (h : q ≠ path) : files.remove path q = files q := by
  simp [remove, h]

theorem rename_eq {old new : Path} (h : files old = some content) :
    files.rename old new = (files.remove old).write new content := by
  rw [rename, h]

end Files

theorem tmpPath_ne (path : Path) {extension : String} (h : extension.toList ≠ []) (ts : Nat) :
    tmpPath path extension ts ≠ path := by
  intro heq
  have hlength := congrArg List.length heq
  rw [tmpPath, List.length_append, List.length_append] at hlength
  have := List.length_pos_iff.mpr h
  omega

theorem newTmp_ne_oldTmp (path : Path) (ts : Nat) :
    tmpPath path ".newtmp_" ts ≠ tmpPath path ".oldtmp_" ts := by
  intro heq
  have hrest := List.append_cancel_left heq
  have hsame := congrArg (fun l : List Char => l[1]?) hrest
  simp at hsame

/-- What the two renamings leave. -/
structure Replaced (files files' : Files) (path : Path) (content : ByteString) (ts : Nat) :
    Prop where
  content : files' path = some content
  newTmp : files' (tmpPath path ".newtmp_" ts) = none
  oldTmp : files' (tmpPath path ".oldtmp_" ts) = none
  others : ∀ q, q ≠ path → q ≠ tmpPath path ".newtmp_" ts → q ≠ tmpPath path ".oldtmp_" ts →
    files' q = files q

theorem replaceFile_replaced (files : Files) (path : Path) (content : ByteString) (ts : Nat) :
    Replaced files (replaceFile files path content ts) path content ts := by
  have hnew : tmpPath path ".newtmp_" ts ≠ path := tmpPath_ne path (by decide) ts
  have hold : tmpPath path ".oldtmp_" ts ≠ path := tmpPath_ne path (by decide) ts
  have hboth := newTmp_ne_oldTmp path ts
  -- the old file, if there is one, is away when the new one comes
  obtain ⟨middle, hmiddle, hkept, hothers⟩ : ∃ middle : Files,
      (replaceFile files path content ts = (middle.rename (tmpPath path ".newtmp_" ts) path).remove
        (tmpPath path ".oldtmp_" ts)) ∧ middle (tmpPath path ".newtmp_" ts) = some content ∧
      ∀ q, q ≠ path → q ≠ tmpPath path ".newtmp_" ts → q ≠ tmpPath path ".oldtmp_" ts →
        middle q = files q := by
    refine ⟨_, rfl, ?_, ?_⟩
    · split
      · rename_i hhas
        obtain ⟨before, hbefore⟩ := Option.isSome_iff_exists.mp hhas
        rw [Files.rename_eq hbefore, Files.write_other hboth, Files.remove_other hnew,
          Files.write_self]
      · exact Files.write_self
    · intro q hq hqnew hqold
      split
      · rename_i hhas
        obtain ⟨before, hbefore⟩ := Option.isSome_iff_exists.mp hhas
        rw [Files.rename_eq hbefore, Files.write_other hqold, Files.remove_other hq,
          Files.write_other hqnew]
      · exact Files.write_other hqnew
  rw [hmiddle, Files.rename_eq hkept]
  constructor
  · rw [Files.remove_other hold.symm, Files.write_self]
  · rw [Files.remove_other hboth, Files.write_other hnew, Files.remove_self]
  · exact Files.remove_self
  · intro q hq hqnew hqold
    rw [Files.remove_other hqold, Files.write_other hq, Files.remove_other hqnew,
      hothers q hq hqnew hqold]

/-- A store succeeds, and its file is in its place. -/
theorem store_eq (w : Wallet2) (files : Files) (path : Path) (password : ByteString)
    (iv : ChachaIv) (ts : Nat) :
    ∃ files', store prims w files path password iv ts = .ok files' ∧
      Replaced files files' path (fileContent prims w password iv) ts := by
  have hreplaced := replaceFile_replaced files path (fileContent prims w password iv) ts
  refine ⟨_, ?_, hreplaced⟩
  rw [store, if_pos]
  simp [Files.has, hreplaced.content, hreplaced.newTmp, hreplaced.oldTmp]

/-! ## Loading what was stored -/

/-- A wallet whose account is proper and whose `m_watch_only` goes with it. -/
structure Opened (prims : Primitives) (w : Wallet2) : Prop where
  proper : ProperAccount prims w.account
  watchOnly : w.watchOnly = w.account.isWatchOnly

theorem Opened.storedAccount {w : Wallet2} (h : Opened prims w) : storedAccount w = w.account := by
  rw [WalletFile.storedAccount, h.watchOnly]
  split
  · rename_i hwatchOnly
    have hseed := h.proper.noSeed hwatchOnly
    have hspend : w.account.keys.spendSecretKey = 0 := of_decide_eq_true hwatchOnly
    rw [AccountBase.makeAccountWatchOnly, ← hspend, ← hseed]
  · rfl

/-- The file next to a wallet file holds as many pairs as there are pending key images. -/
def KeyImagesFileMatches (files : Files) (path : Path) (data : WalletData) : Prop :=
  ((files (pendingKiFileOf path)).getD []).length / outKeyToKiSize = data.pendingKeyImages.size

theorem loadKeys2ki_of_matches {w : Wallet2} {files : Files}
    (h : ((files w.pendingKiFile).getD []).length / outKeyToKiSize = w.data.pendingKeyImages.size) :
    ∃ files', loadKeys2ki w files true =
      .ok ({ w with pendingKeyImagesFileContainer := some w.pendingKiFile }, files', false) := by
  refine ⟨files.write w.pendingKiFile (((files w.pendingKiFile).getD []).take
    (w.data.pendingKeyImages.size * outKeyToKiSize)), ?_⟩
  rw [loadKeys2ki, if_neg (by simp)]
  simp only [h]
  rw [if_neg (lt_irrefl _), if_neg (lt_irrefl _)]

/-- The file is not opened, or its number is right. -/
theorem openKeyImages {w : Wallet2} {files : Files}
    (h : w.watchOnly = true → w.isAuditable = false →
      ((files w.pendingKiFile).getD []).length / outKeyToKiSize = w.data.pendingKeyImages.size) :
    ∃ container files', (if w.watchOnly && !w.isAuditable then loadKeys2ki w files true
      else .ok (w, files, false)) =
        .ok ({ w with pendingKeyImagesFileContainer := container }, files', false) := by
  by_cases hopens : (w.watchOnly && !w.isAuditable) = true
  · have hboth := hopens
    rw [Bool.and_eq_true, Bool.not_eq_true'] at hboth
    obtain ⟨files', hfiles'⟩ := loadKeys2ki_of_matches (h hboth.1 hboth.2)
    rw [if_pos hopens]
    exact ⟨_, files', hfiles'⟩
  · rw [if_neg hopens]
    exact ⟨w.pendingKeyImagesFileContainer, files, rfl⟩

theorem loadBody_version2 (mem : Memory) (w : Wallet2) (password : ByteString) (iv : ChachaIv)
    (body : ByteString) : loadBody prims mem w walletFileBinaryHeaderVersion2 password iv body =
      match unserializeObj prims mem w.watchOnly w.data (crypt (prims.chacha8 password iv) 0 body) with
      | some data => (data, false)
      | none => (w.data, true) := by
  have hplain : (if walletFileBinaryHeaderVersion2 = walletFileBinaryHeaderVersionInitial then some body
      else if walletFileBinaryHeaderVersion2 = walletFileBinaryHeaderVersion2 then
        some (crypt (prims.chacha8 password iv) 0 body)
      else none) = some (crypt (prims.chacha8 password iv) 0 body) :=
    (if_neg (by decide)).trans (if_pos rfl)
  exact congrArg (fun plain? : Option ByteString =>
    match plain?.bind (unserializeObj prims mem w.watchOnly w.data) with
    | some data => (data, false)
    | none => (w.data, true)) hplain

/-- The header of a stored wallet fits. -/
theorem header_fits {keysSize : Nat} (h : keysSize ≤ walletFileMaxKeysSize) :
    WalletFileBinaryHeader.Fits ⟨walletFileSignatureV2, keysSize, walletFileBinaryHeaderVersion2, 0⟩
    where
  signature := show walletFileSignatureV2 < 256 ^ 8 by decide
  cbKeys := lt_of_le_of_lt h (by decide)
  ver := show walletFileBinaryHeaderVersion2 < 256 ^ 4 by decide
  reserved := show 0 < 256 ^ 4 by decide

/-- The file is taken apart as it was put together. -/
theorem load_fileContent (mem : Memory) {w w₀ : Wallet2} (hw : Opened prims w)
    (h₀ : w₀.watchOnly = false) {files : Files} {path : Path} {password : ByteString} {iv : ChachaIv}
    (hfile : files path = some (fileContent prims w password iv)) :
    load prims mem w₀ files path password = loadRest prims mem
      { prepareFileNames { w₀ with data := resetAll w₀.data } path with
        password
        account := w.account
        watchOnly := w.watchOnly } files walletFileBinaryHeaderVersion2 password iv
      (crypt (prims.chacha8 w.password iv) 0 (serializeObj prims w.data)) := by
  have hsize := length_storeKeys hw.proper password iv w.watchOnly
  have hkeys := loadKeys_storeKeys hw.proper
    { prepareFileNames { w₀ with data := resetAll w₀.data } path with password } password iv
  rw [hw.storedAccount, ← hw.watchOnly] at hkeys
  generalize hbuff : storeKeys prims w.account password iv w.watchOnly = keysBuff at hsize hkeys
  have hheader := WalletFileBinaryHeader.ofBytes_bytes (header_fits hsize)
  have hlength := WalletFileBinaryHeader.length_bytes
    ⟨walletFileSignatureV2, keysBuff.length, walletFileBinaryHeaderVersion2, 0⟩
  generalize hbytes : WalletFileBinaryHeader.bytes
    ⟨walletFileSignatureV2, keysBuff.length, walletFileBinaryHeaderVersion2, 0⟩ = header
    at hheader hlength
  simp only [load, hfile, fileContent, hbuff, hbytes]
  rw [if_neg (by rw [List.length_append, hlength]; omega), ← hlength, List.take_left, List.drop_left,
    hheader]
  simp only
  rw [if_neg (by decide), if_neg (by omega), List.take_left, List.drop_left, hkeys]
  simp only [h₀, prepareFileNames, Bool.false_or]

/-- With the password of the wallet the body comes back. -/
theorem load_stored (mem : Memory) {w w₀ : Wallet2} (hw : Opened prims w)
    (h₀ : w₀.watchOnly = false) {files : Files} {path : Path} {iv : ChachaIv}
    (hfile : files path = some (fileContent prims w w.password iv))
    (hkeyImages : w.watchOnly = true → w.isAuditable = false →
      KeyImagesFileMatches files path w.data) :
    ∃ w' files', load prims mem w₀ files path w.password = .ok (w', files') ∧
      w'.account = w.account ∧ w'.watchOnly = w.watchOnly ∧ w'.data = w.data.restored mem := by
  rw [load_fileContent mem hw h₀ hfile, loadRest, loadBody_version2, crypt_crypt,
    unserializeObj_serializeObj]
  simp only
  obtain ⟨container, files', hopened⟩ := openKeyImages (w := { prepareFileNames
    { w₀ with data := resetAll w₀.data } path with
      password := w.password
      account := w.account
      watchOnly := w.watchOnly
      data := w.data.restored mem }) hkeyImages
  rw [hopened]
  exact ⟨_, _, rfl, rfl, rfl, rfl⟩

/-- With a password whose stream does not open the archive nothing is loaded. -/
theorem load_wrong_password (mem : Memory) {w w₀ : Wallet2} (hw : Opened prims w)
    (h₀ : w₀.watchOnly = false) {files : Files} {path : Path} {password : ByteString} {iv : ChachaIv}
    (hfile : files path = some (fileContent prims w password iv))
    (hclosed : prims.portable.readOpening (crypt (prims.chacha8 password iv) 0
      (crypt (prims.chacha8 w.password iv) 0 (serializeObj prims w.data))) = none) :
    ∃ e, load prims mem w₀ files path password = .error e := by
  have hunread (memory : WalletData) : unserializeObj prims mem w.watchOnly memory
      (crypt (prims.chacha8 password iv) 0
        (crypt (prims.chacha8 w.password iv) 0 (serializeObj prims w.data))) = none := by
    rw [unserializeObj, hclosed]
    rfl
  rw [load_fileContent mem hw h₀ hfile, loadRest, loadBody_version2, hunread]
  simp only
  split
  · exact ⟨_, rfl⟩
  · exact ⟨_, rfl⟩

end Chinet.WalletFile
