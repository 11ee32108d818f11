import Chinet.Common.Mnemonic

/-!
# Seed phrases

`account_base::get_seed_phrase` and `account_base::restore_from_seed_phrase`.  A phrase
has the seed in 24 words, a word for the week of the creation and for the use of a
password, and a word for a checksum and for the auditable flag.  A phrase of the older
form ends with the word for the week.
-/

namespace Chinet

abbrev SecretKey := BitVec 256

/-! ## Data -/

structure AccountKeys where
  accountAddress : AccountPublicAddress
  spendSecretKey : SecretKey
  viewSecretKey : SecretKey
deriving DecidableEq

/-- `account_base`; `m_keys_seed_binary` is empty in an account without a seed. -/
structure AccountBase where
  keys : AccountKeys
  creationTimestamp : Nat
  keysSeedBinary : ByteString
deriving DecidableEq

/-- What an account takes from `crypto/`. -/
structure AccountCrypto where
  cnFastHash : ByteString → Vector UInt8 32
  generateChacha8Key : ByteString → Vector UInt8 32
  /-- `chacha8` of data with a key and an initialization vector of eight bytes. -/
  chacha8 : ByteString → Vector UInt8 32 → ByteString → ByteString
  keysFromDefault : ByteString → PublicKey × SecretKey
  /-- Nothing for an exception. -/
  dependentKey : SecretKey → Option SecretKey
  secretKeyToPublicKey : SecretKey → Option PublicKey

def brainwalletDefaultSeedSize : Nat := 32

def seedPhraseV1WordsCount : Nat := 25

def seedPhraseV2WordsCount : Nat := 26

def walletBrainDateOffset : Nat := 1543622400

def walletBrainDateQuantum : Nat := 604800

def walletBrainDateMaxWeeksCount : Nat := 800

def accountPublicAddressFlagAuditable : UInt8 := 1

def AccountKeys.isAuditable (keys : AccountKeys) : Bool :=
  keys.accountAddress.flags &&& accountPublicAddressFlagAuditable != 0

/-! ## The week of the creation -/

variable (dict : MnemonicDictionary)

def weeksCount (timestamp : Nat) : Nat :=
  (if timestamp > walletBrainDateOffset then timestamp - walletBrainDateOffset else 0) /
    walletBrainDateQuantum

/-- Nothing for an exception. -/
def getWordFromTimstamp (timestamp : Nat) (usePassword : Bool) : Option ByteString :=
  if weeksCount timestamp < walletBrainDateMaxWeeksCount then
    some (Mnemonic.wordByNum dict
      (weeksCount timestamp + if usePassword then walletBrainDateMaxWeeksCount else 0))
  else none

/-- The timestamp and the use of a password. -/
def getTimstampFromWord (word : ByteString) : Option (Nat × Bool) :=
  (Mnemonic.numByWord dict word).map fun countOfWeeks =>
    let passwordUsed := decide (countOfWeeks ≥ walletBrainDateMaxWeeksCount)
    let weeks := if passwordUsed then countOfWeeks - walletBrainDateMaxWeeksCount else countOfWeeks
    (weeks * walletBrainDateQuantum + walletBrainDateOffset, passwordUsed)

/-! ## The checksum -/

/-- The greatest checksum. -/
def checksumMax : Nat := numWords / 2

/-- The eight bytes of a `uint64_t`. -/
def bytesOfUint64 (v : Nat) : ByteString :=
  (List.range 8).map fun i => UInt8.ofNat (v / 256 ^ i)

def uint64OfBytes (bytes : ByteString) : Nat :=
  bytes.foldr (fun byte v => byte.toNat + 256 * v) 0

variable (crypto : AccountCrypto)

def seedChecksum (keysSeedBinary password : ByteString) (timestamp : Nat) : Nat :=
  let h := (crypto.cnFastHash (keysSeedBinary ++ password)).toList
  let h' := (crypto.cnFastHash (bytesOfUint64 timestamp ++ h.drop 8)).toList
  uint64OfBytes (h'.take 8) % (checksumMax + 1)

/-! ## Phrases -/

def cryptWithPass (data password : ByteString) : ByteString :=
  crypto.chacha8 data (crypto.generateChacha8Key password)
    ((crypto.cnFastHash password).toList.take 8)

/-- Nothing for an exception. -/
def AccountBase.getSeedPhrase (acc : AccountBase) (password : ByteString) : Option ByteString :=
  if acc.keysSeedBinary = [] then some []
  else do
    let processedSeedBinary :=
      if password = [] then acc.keysSeedBinary
      else cryptWithPass crypto acc.keysSeedBinary password
    let keysSeedText ← Mnemonic.binary2text dict processedSeedBinary
    let timestampWord ← getWordFromTimstamp dict acc.creationTimestamp !password.isEmpty
    let (creationTimestampRounded, passwordUsed) ← getTimstampFromWord dict timestampWord
    if passwordUsed ≠ !password.isEmpty then none
    else
      let checksum := seedChecksum crypto acc.keysSeedBinary password creationTimestampRounded
      let auditableFlag := if acc.keys.isAuditable then 1 else 0
      some (keysSeedText ++ space :: timestampWord ++
        space :: Mnemonic.wordByNum dict (auditableFlag ||| (checksum <<< 1)))

/-- `restore_keys`, with the flags that the address already has. -/
def restoreKeys (keysSeedBinary : ByteString) (flags : UInt8) : Option AccountKeys :=
  if keysSeedBinary.length = brainwalletDefaultSeedSize then do
    let (spendPublicKey, spendSecretKey) := crypto.keysFromDefault keysSeedBinary
    let viewSecretKey ← crypto.dependentKey spendSecretKey
    let viewPublicKey ← crypto.secretKeyToPublicKey viewSecretKey
    some ⟨⟨spendPublicKey, viewPublicKey, flags⟩, spendSecretKey, viewSecretKey⟩
  else none

/-- `restore_from_seed_phrase` from the words on; the last one is empty for a phrase of
the older form. -/
def restoreFromWords (keysSeedText timestampWord auditableFlagAndChecksumWord password : ByteString) :
    Option AccountBase := do
  let auditableFlagAndChecksum ←
    if auditableFlagAndChecksumWord = [] then some none
    else (Mnemonic.numByWord dict auditableFlagAndChecksumWord).map some
  let keysSeedBinary := Mnemonic.text2binary dict keysSeedText
  let (creationTimestamp, hasPassword) ← getTimstampFromWord dict timestampWord
  if hasPassword = password.isEmpty then none
  else
    let processed :=
      if hasPassword then cryptWithPass crypto keysSeedBinary password else keysSeedBinary
    if processed = [] then none
    else
      match auditableFlagAndChecksum with
      | none =>
          (restoreKeys crypto processed 0).map fun keys => ⟨keys, creationTimestamp, processed⟩
      | some flagAndChecksum =>
          if flagAndChecksum >>> 1 = seedChecksum crypto processed password creationTimestamp then
            (restoreKeys crypto processed
              (if flagAndChecksum &&& 1 = 0 then 0 else accountPublicAddressFlagAuditable)).map
                fun keys => ⟨keys, creationTimestamp, processed⟩
          else none

/-- The restored account; nothing if the source returns false. -/
def restoreFromSeedPhrase (seedPhrase password : ByteString) : Option AccountBase :=
  let words := SplitJoin.split isSpace seedPhrase
  if words.length = seedPhraseV1WordsCount then
    restoreFromWords dict crypto (SplitJoin.join space words.dropLast) (words.getLastD []) [] password
  else if words.length = seedPhraseV2WordsCount then
    restoreFromWords dict crypto (SplitJoin.join space words.dropLast.dropLast)
      (words.dropLast.getLastD []) (words.getLastD []) password
  else none

/-- `generate` with the random bytes of the seed; nothing for an exception. -/
def AccountBase.generate (auditable : Bool) (keysSeedBinary : ByteString) (now : Nat) :
    Option AccountBase := do
  let flags := if auditable then accountPublicAddressFlagAuditable else 0
  let (spendPublicKey, spendSecretKey) := crypto.keysFromDefault keysSeedBinary
  let viewSecretKey ← crypto.dependentKey spendSecretKey
  let viewPublicKey ← crypto.secretKeyToPublicKey viewSecretKey
  some ⟨⟨⟨spendPublicKey, viewPublicKey, flags⟩, spendSecretKey, viewSecretKey⟩, now, keysSeedBinary⟩

/-! ## What is relied on -/

/-- The cipher keeps the length, and is undone by the same key. -/
structure AccountCrypto.StreamCipher (crypto : AccountCrypto) : Prop where
  length : ∀ data key iv, (crypto.chacha8 data key iv).length = data.length
  involutive : ∀ data key iv, crypto.chacha8 (crypto.chacha8 data key iv) key iv = data

/-- The keys are those of the seed. -/
structure AccountBase.Seeded (crypto : AccountCrypto) (acc : AccountBase) : Prop where
  size : acc.keysSeedBinary.length = brainwalletDefaultSeedSize
  keys : restoreKeys crypto acc.keysSeedBinary acc.keys.accountAddress.flags = some acc.keys

variable {dict crypto}

theorem seeded_generate {auditable : Bool} {keysSeedBinary : ByteString} {now : Nat}
    {acc : AccountBase} (hsize : keysSeedBinary.length = brainwalletDefaultSeedSize)
    (h : AccountBase.generate crypto auditable keysSeedBinary now = some acc) :
    acc.Seeded crypto := by
  unfold AccountBase.generate at h
  simp only [Option.bind_eq_bind, Option.bind_eq_some_iff] at h
  obtain ⟨viewSecretKey, hview, viewPublicKey, hpublic, h⟩ := h
  obtain rfl := Option.some.inj h
  exact ⟨hsize, by simp [restoreKeys, hsize, hview, hpublic]⟩

/-- Other flags change nothing but the flags. -/
theorem restoreKeys_flags {seed : ByteString} {flags : UInt8} {keys : AccountKeys}
    (h : restoreKeys crypto seed flags = some keys) (flags' : UInt8) :
    restoreKeys crypto seed flags' =
      some { keys with accountAddress := { keys.accountAddress with flags := flags' } } := by
  unfold restoreKeys at h ⊢
  by_cases hsize : seed.length = brainwalletDefaultSeedSize
  · rw [if_pos hsize] at h ⊢
    simp only [Option.bind_eq_bind, Option.bind_eq_some_iff] at h ⊢
    obtain ⟨viewSecretKey, hview, viewPublicKey, hpublic, h⟩ := h
    obtain rfl := Option.some.inj h
    exact ⟨viewSecretKey, hview, viewPublicKey, hpublic, rfl⟩
  · rw [if_neg hsize] at h
    cases h

/-! ## The two last words -/

def roundedTimestamp (timestamp : Nat) : Nat :=
  weeksCount timestamp * walletBrainDateQuantum + walletBrainDateOffset

theorem timestampWord_spec (dict : MnemonicDictionary) {timestamp : Nat}
    (h : weeksCount timestamp < walletBrainDateMaxWeeksCount) (usePassword : Bool) :
    ∃ word, getWordFromTimstamp dict timestamp usePassword = some word ∧
      (∀ c ∈ word, isSpace c = false) ∧
        getTimstampFromWord dict word = some (roundedTimestamp timestamp, usePassword) := by
  have hmax : walletBrainDateMaxWeeksCount = 800 := rfl
  have hlt : (weeksCount timestamp + if usePassword then walletBrainDateMaxWeeksCount else 0) <
      numWords := by
    have hwords : numWords = 1626 := rfl
    cases usePassword <;> simp <;> omega
  refine ⟨_, if_pos h, ?_, ?_⟩
  · rw [Mnemonic.wordByNum, if_neg (Nat.not_le.mpr hlt)]
    exact dict.array_not_space _ hlt
  · rw [getTimstampFromWord, Mnemonic.numByWord_wordByNum hlt, Option.map_some, roundedTimestamp]
    cases usePassword with
    | true => simp
    | false => simp [Nat.not_le.mpr h]

/-- The number that the last word stands for. -/
theorem flagAndChecksum_spec (auditable : Bool) (checksum : Nat) :
    let v := (if auditable then 1 else 0) ||| (checksum <<< 1)
    v >>> 1 = checksum ∧ (v &&& 1 = 0 ↔ auditable = false) ∧
      v = 2 * checksum + if auditable then 1 else 0 := by
  have hv : (if auditable then 1 else 0) ||| (checksum <<< 1) =
      2 * checksum + if auditable then 1 else 0 := by
    have hbit : (if auditable then 1 else 0) < 2 ^ 1 := by cases auditable <;> decide
    rw [Nat.or_comm, ← Nat.shiftLeft_add_eq_or_of_lt hbit, Nat.shiftLeft_eq]
    omega
  dsimp only
  rw [hv, Nat.shiftRight_eq_div_pow, Nat.and_one_is_mod]
  cases auditable with
  | true => exact ⟨by simp; omega, by simp, rfl⟩
  | false => exact ⟨by simp, by simp, rfl⟩

/-- The greatest checksum has no word in the dictionary. -/
theorem flagAndChecksumWord_spec (dict : MnemonicDictionary) (auditable : Bool) {checksum : Nat} (h : checksum ≤ checksumMax) :
    let v := (if auditable then 1 else 0) ||| (checksum <<< 1)
    (checksum = checksumMax → Mnemonic.wordByNum dict v = []) ∧
      (checksum ≠ checksumMax → Mnemonic.wordByNum dict v ≠ [] ∧
        Mnemonic.numByWord dict (Mnemonic.wordByNum dict v) = some v) ∧
          ∀ c ∈ Mnemonic.wordByNum dict v, isSpace c = false := by
  obtain ⟨-, -, hv⟩ := flagAndChecksum_spec auditable checksum
  have hmax : checksumMax = 813 := rfl
  have hwords : numWords = 1626 := rfl
  have hflag : (if auditable then 1 else 0) ≤ 1 := by cases auditable <;> decide
  dsimp only at hv ⊢
  generalize (if auditable then 1 else 0) ||| (checksum <<< 1) = v at hv
  refine ⟨fun heq => ?_, fun hne => ?_, ?_⟩
  · exact if_pos (by omega)
  · have hlt : v < numWords := by omega
    refine ⟨?_, Mnemonic.numByWord_wordByNum hlt⟩
    rw [Mnemonic.wordByNum, if_neg (Nat.not_le.mpr hlt)]
    exact dict.array_ne_nil v hlt
  · unfold Mnemonic.wordByNum
    by_cases hge : v ≥ numWords
    · rw [if_pos hge]
      intro c hc
      cases hc
    · rw [if_neg hge]
      exact dict.array_not_space v (Nat.not_le.mp hge)

theorem seedChecksum_le (crypto : AccountCrypto) (seed password : ByteString) (timestamp : Nat) :
    seedChecksum crypto seed password timestamp ≤ checksumMax :=
  Nat.le_of_lt_succ (Nat.mod_lt _ (Nat.succ_pos _))

/-! ## There and back -/

/-- The seed as the phrase has it: encrypted if there is a password. -/
theorem processedSeed_spec (hcipher : crypto.StreamCipher) (seed password : ByteString) :
    let processed := if password = [] then seed else cryptWithPass crypto seed password
    processed.length = seed.length ∧
      (if password = [] then processed else cryptWithPass crypto processed password) = seed := by
  cases password with
  | nil => exact ⟨rfl, rfl⟩
  | cons c password =>
      simp only [List.cons_ne_nil, if_false]
      exact ⟨hcipher.length _ _ _, hcipher.involutive _ _ _⟩

/-- The account that a phrase restores: the auditable flag is there unless the checksum
is the greatest one. -/
theorem restore_getSeedPhrase (dict : MnemonicDictionary) (hcipher : crypto.StreamCipher) {acc : AccountBase}
    (hacc : acc.Seeded crypto)
    (hdate : weeksCount acc.creationTimestamp < walletBrainDateMaxWeeksCount)
    (password : ByteString) :
    ∃ phrase, acc.getSeedPhrase dict crypto password = some phrase ∧
      restoreFromSeedPhrase dict crypto phrase password =
        some ⟨{ acc.keys with accountAddress := { acc.keys.accountAddress with
          flags := if acc.keys.isAuditable = true ∧ seedChecksum crypto acc.keysSeedBinary password
              (roundedTimestamp acc.creationTimestamp) ≠ checksumMax then
            accountPublicAddressFlagAuditable else 0 } },
          roundedTimestamp acc.creationTimestamp, acc.keysSeedBinary⟩ := by
  have hne : acc.keysSeedBinary ≠ [] := by
    intro hnil
    have hsize := hacc.size
    rw [hnil] at hsize
    cases hsize
  obtain ⟨hlength, hback⟩ := processedSeed_spec hcipher acc.keysSeedBinary password
  rw [hacc.size] at hlength
  obtain ⟨words, hwords, hcount, hdict, hbinary⟩ :=
    @Mnemonic.wordsOfBinary_spec dict 8 _ hlength
  obtain ⟨timestampWord, hword, hspace, htimestamp⟩ :=
    timestampWord_spec dict hdate (!password.isEmpty)
  have hchecksum := seedChecksum_le crypto acc.keysSeedBinary password
    (roundedTimestamp acc.creationTimestamp)
  obtain ⟨hgreatest, hlesser, hspace'⟩ :=
    flagAndChecksumWord_spec dict acc.keys.isAuditable hchecksum
  obtain ⟨hshift, hand, -⟩ := flagAndChecksum_spec acc.keys.isAuditable
    (seedChecksum crypto acc.keysSeedBinary password (roundedTimestamp acc.creationTimestamp))
  generalize hsum : seedChecksum crypto acc.keysSeedBinary password
    (roundedTimestamp acc.creationTimestamp) = checksum at *
  generalize hv : ((if acc.keys.isAuditable then 1 else 0) ||| (checksum <<< 1)) = v at *
  generalize hlast : Mnemonic.wordByNum dict v = lastWord at *
  generalize hprocessed : (if password = [] then acc.keysSeedBinary
    else cryptWithPass crypto acc.keysSeedBinary password) = processed at *
  have hwordsNe : words ≠ [] := by
    rintro rfl
    cases hcount
  have hphrase : acc.getSeedPhrase dict crypto password =
      some (SplitJoin.join space (words ++ [timestampWord, lastWord])) := by
    rw [SplitJoin.join_append hwordsNe (List.cons_ne_nil _ _)]
    simp [AccountBase.getSeedPhrase, hne, hprocessed, Mnemonic.binary2text, hwords, hword,
      htimestamp, hsum, hv, hlast, SplitJoin.join]
  refine ⟨_, hphrase, ?_⟩
  -- the phrase is split into the words it was made of
  have hsplit : SplitJoin.split isSpace (SplitJoin.join space (words ++ [timestampWord, lastWord])) =
      words ++ [timestampWord, lastWord] := by
    refine SplitJoin.split_join rfl (by simp) fun word hmem => ?_
    rcases List.mem_append.mp hmem with hmem | hmem
    · obtain ⟨k, hk, rfl⟩ := hdict word hmem
      exact dict.array_not_space k hk
    · rcases List.mem_cons.mp hmem with rfl | hmem
      · exact hspace
      · rw [List.mem_singleton.mp hmem]
        exact hspace'
  have hlist : words ++ [timestampWord, lastWord] = (words ++ [timestampWord]) ++ [lastWord] := by
    simp
  have hrestore : restoreFromSeedPhrase dict crypto
      (SplitJoin.join space (words ++ [timestampWord, lastWord])) password =
      restoreFromWords dict crypto (SplitJoin.join space words) timestampWord lastWord password := by
    rw [restoreFromSeedPhrase, hsplit, hlist]
    simp [hcount, seedPhraseV1WordsCount, seedPhraseV2WordsCount]
  have htext : Mnemonic.text2binary dict (SplitJoin.join space words) = processed :=
    Mnemonic.text2binary_join hwordsNe hdict hbinary
  have hkeys := fun flags => restoreKeys_flags hacc.keys flags
  have hpassword : ¬ (!password.isEmpty) = password.isEmpty := by
    cases password.isEmpty <;> decide
  rw [hrestore]
  by_cases hmax : checksum = checksumMax
  · -- the last word is empty, so that the phrase is read as one of the older form
    rw [hgreatest hmax]
    simp [restoreFromWords, htext, htimestamp, hback, hne, hmax, hkeys]
  · obtain ⟨hlastNe, hnumber⟩ := hlesser hmax
    have hflag : (if v &&& 1 = 0 then 0 else accountPublicAddressFlagAuditable) =
        if acc.keys.isAuditable = true ∧ checksum ≠ checksumMax then
          accountPublicAddressFlagAuditable else 0 := by
      cases hauditable : acc.keys.isAuditable with
      | true =>
          have hbit : ¬ v &&& 1 = 0 := fun h => by
            rw [hand.mp h] at hauditable
            cases hauditable
          rw [if_neg hbit, if_pos ⟨rfl, hmax⟩]
      | false => rw [if_pos (hand.mpr hauditable), if_neg (by simp)]
    rw [← hflag]
    simp [restoreFromWords, htext, htimestamp, hback, hne, hlastNe, hnumber, hshift, hsum, hkeys]

/-- The last whole week, counted from the launch, that is not behind a time. -/
structure RoundedDown (timestamp rounded : Nat) : Prop where
  notBehind : rounded ≤ timestamp
  last : timestamp < rounded + walletBrainDateQuantum
  whole : ∃ weeks, rounded = weeks * walletBrainDateQuantum + walletBrainDateOffset

/-- The restored account is the old one, created in the same week. -/
structure SameAccount (acc restored : AccountBase) : Prop where
  spendSecretKey : restored.keys.spendSecretKey = acc.keys.spendSecretKey
  viewSecretKey : restored.keys.viewSecretKey = acc.keys.viewSecretKey
  spendPublicKey : restored.keys.accountAddress.spendPublicKey =
    acc.keys.accountAddress.spendPublicKey
  viewPublicKey : restored.keys.accountAddress.viewPublicKey =
    acc.keys.accountAddress.viewPublicKey
  auditable : restored.keys.isAuditable = acc.keys.isAuditable
  created : RoundedDown acc.creationTimestamp restored.creationTimestamp

/-- A time before the launch is taken for the launch. -/
theorem roundedDown_iff (timestamp : Nat) :
    RoundedDown timestamp (roundedTimestamp timestamp) ↔ walletBrainDateOffset ≤ timestamp := by
  have hquantum : walletBrainDateQuantum = 604800 := rfl
  have hrounded : roundedTimestamp timestamp =
      (timestamp - walletBrainDateOffset) / walletBrainDateQuantum * walletBrainDateQuantum +
        walletBrainDateOffset := by
    unfold roundedTimestamp weeksCount
    by_cases h : timestamp > walletBrainDateOffset
    · rw [if_pos h]
    · rw [if_neg h, Nat.sub_eq_zero_of_le (Nat.not_lt.mp h)]
  constructor
  · intro h
    have hle := h.notBehind
    rw [hrounded] at hle
    omega
  · intro h
    rw [hrounded]
    refine ⟨?_, ?_, _, rfl⟩
    · have hdiv := Nat.div_mul_le_self (timestamp - walletBrainDateOffset) walletBrainDateQuantum
      omega
    · have hmod := Nat.div_add_mod' (timestamp - walletBrainDateOffset) walletBrainDateQuantum
      have hlt := Nat.mod_lt (timestamp - walletBrainDateOffset)
        (show 0 < walletBrainDateQuantum by decide)
      omega

/-- A seed phrase restores its account exactly if the account was not created before the
launch, and is not an auditable one whose checksum is the greatest. -/
theorem seed_phrase_restores_iff (dict : MnemonicDictionary) {crypto : AccountCrypto}
    (hcipher : crypto.StreamCipher) {acc : AccountBase} (hacc : acc.Seeded crypto)
    (hdate : weeksCount acc.creationTimestamp < walletBrainDateMaxWeeksCount)
    (password : ByteString) :
    (∃ phrase restored, acc.getSeedPhrase dict crypto password = some phrase ∧
        restoreFromSeedPhrase dict crypto phrase password = some restored ∧
          SameAccount acc restored) ↔
      walletBrainDateOffset ≤ acc.creationTimestamp ∧
        ¬ (acc.keys.isAuditable = true ∧ seedChecksum crypto acc.keysSeedBinary password
          (roundedTimestamp acc.creationTimestamp) = checksumMax) := by
  obtain ⟨phrase, hphrase, hrestored⟩ :=
    restore_getSeedPhrase dict hcipher hacc hdate password
  generalize seedChecksum crypto acc.keysSeedBinary password
    (roundedTimestamp acc.creationTimestamp) = checksum at hrestored ⊢
  have hflag : ({ acc.keys with accountAddress := { acc.keys.accountAddress with
      flags := if acc.keys.isAuditable = true ∧ checksum ≠ checksumMax then
        accountPublicAddressFlagAuditable else 0 } } : AccountKeys).isAuditable =
      acc.keys.isAuditable ↔ ¬ (acc.keys.isAuditable = true ∧ checksum = checksumMax) := by
    rw [AccountKeys.isAuditable]
    by_cases hmax : checksum = checksumMax <;> cases acc.keys.isAuditable <;>
      simp +decide [hmax]
  constructor
  · rintro ⟨phrase', restored, hphrase', hrestored', hsame⟩
    obtain rfl := Option.some.inj (hphrase.symm.trans hphrase')
    obtain rfl := Option.some.inj (hrestored.symm.trans hrestored')
    exact ⟨(roundedDown_iff _).mp hsame.created, hflag.mp hsame.auditable⟩
  · rintro ⟨hlaunch, hgreatest⟩
    refine ⟨phrase, _, hphrase, hrestored, ?_⟩
    exact
      { spendSecretKey := rfl
        viewSecretKey := rfl
        spendPublicKey := rfl
        viewPublicKey := rfl
        auditable := hflag.mpr hgreatest
        created := (roundedDown_iff _).mpr hlaunch }

/-! ### A flag that is lost -/

/-- Words of two letters. -/
def sampleWord (n : Nat) : ByteString := [UInt8.ofNat (64 + n / 64), UInt8.ofNat (64 + n % 64)]

def sampleIndex (word : ByteString) : Option Nat :=
  match word with
  | [a, b] =>
      let n := (a.toNat - 64) * 64 + (b.toNat - 64)
      if n < numWords then some n else none
  | _ => none

theorem sampleIndex_sampleWord : ∀ n < numWords, sampleIndex (sampleWord n) = some n := by
  intro n hn
  have hlt : n < 1626 := hn
  have hword : ((UInt8.ofNat (64 + n / 64)).toNat - 64) * 64 +
      ((UInt8.ofNat (64 + n % 64)).toNat - 64) = n := by
    rw [UInt8.toNat_ofNat', UInt8.toNat_ofNat']
    omega
  simp only [sampleWord, sampleIndex, hword, if_pos hn]

theorem sampleIndex_lt : ∀ word n, sampleIndex word = some n → n < numWords := by
  intro word n h
  match word, h with
  | [a, b], h =>
      simp only [sampleIndex] at h
      by_cases hn : (a.toNat - 64) * 64 + (b.toNat - 64) < numWords
      · rw [if_pos hn] at h
        rw [← Option.some.inj h]
        exact hn
      · rw [if_neg hn] at h
        cases h

theorem sampleWord_not_space : ∀ n < numWords, ∀ c ∈ sampleWord n, isSpace c = false := by
  intro n hn c hc
  have hlt : n < 1626 := hn
  have hletter : ∀ k < 64, isSpace (UInt8.ofNat (64 + k)) = false := by decide
  rcases List.mem_cons.mp hc with rfl | hc
  · exact hletter _ (by omega)
  · rw [List.mem_singleton.mp hc]
    exact hletter _ (Nat.mod_lt _ (by decide))

def sampleDictionary : MnemonicDictionary where
  wordsArray := sampleWord
  wordsMap := sampleIndex
  map_array := sampleIndex_sampleWord
  map_lt := sampleIndex_lt
  array_ne_nil _ _ := List.cons_ne_nil _ _
  array_not_space := sampleWord_not_space

/-- The hash begins with the bytes of 813, or with other ones for a password. -/
def sampleAccountCrypto : AccountCrypto where
  cnFastHash data :=
    if data.length = brainwalletDefaultSeedSize then
      Vector.ofFn fun i => if i = 0 then 45 else if i = 1 then 3 else 0
    else Vector.replicate 32 0
  generateChacha8Key _ := Vector.replicate 32 0
  chacha8 data _ _ := data.map (255 ^^^ ·)
  keysFromDefault _ := (1, 2)
  dependentKey _ := some 3
  secretKeyToPublicKey _ := some 4

def sampleAccount : AccountBase :=
  ⟨⟨⟨1, 4, accountPublicAddressFlagAuditable⟩, 2, 3⟩, walletBrainDateOffset,
    List.replicate 32 7⟩

/-- An auditable account with the greatest checksum comes back without its flag. -/
theorem auditable_flag_lost :
    ∃ phrase restored, sampleAccount.getSeedPhrase sampleDictionary sampleAccountCrypto [] =
        some phrase ∧
      restoreFromSeedPhrase sampleDictionary sampleAccountCrypto phrase [] = some restored ∧
        sampleAccount.Seeded sampleAccountCrypto ∧
          weeksCount sampleAccount.creationTimestamp < walletBrainDateMaxWeeksCount ∧
            sampleAccount.keys.isAuditable = true ∧ restored.keys.isAuditable = false := by
  refine ⟨_, _, (by decide : _ = some ((sampleAccount.getSeedPhrase sampleDictionary
    sampleAccountCrypto []).getD [])), (by decide : _ = some
      (⟨⟨⟨1, 4, 0⟩, 2, 3⟩, walletBrainDateOffset, List.replicate 32 7⟩ : AccountBase)),
    ⟨by decide, by decide⟩, by decide, by decide,
    by decide⟩

theorem seed_phrase_restores_iff_sample :
    sampleAccountCrypto.StreamCipher ∧ sampleAccount.Seeded sampleAccountCrypto ∧
      ((∃ phrase restored, sampleAccount.getSeedPhrase sampleDictionary sampleAccountCrypto [112] =
          some phrase ∧
        restoreFromSeedPhrase sampleDictionary sampleAccountCrypto phrase [112] = some restored ∧
          SameAccount sampleAccount restored) ↔
        walletBrainDateOffset ≤ sampleAccount.creationTimestamp ∧
          ¬ (sampleAccount.keys.isAuditable = true ∧
            seedChecksum sampleAccountCrypto sampleAccount.keysSeedBinary [112]
              (roundedTimestamp sampleAccount.creationTimestamp) = checksumMax)) := by
  have hcipher : sampleAccountCrypto.StreamCipher := by
    refine ⟨fun data _ _ => List.length_map _, fun data _ _ => ?_⟩
    show (data.map (255 ^^^ ·)).map (255 ^^^ ·) = data
    rw [List.map_map]
    refine List.map_id'' (fun byte => ?_) data
    show 255 ^^^ (255 ^^^ byte) = byte
    rw [← UInt8.xor_assoc, UInt8.xor_self, UInt8.zero_xor]
  have hacc : sampleAccount.Seeded sampleAccountCrypto := ⟨by decide, by decide⟩
  exact ⟨hcipher, hacc, seed_phrase_restores_iff _ hcipher hacc (by decide) _⟩

end Chinet
