import Chinet.Lib.FiniteStore

/-!
# Cached accessors

The transactions of `basic_db_accessor` with one writer thread and any readers, and an accessor
of one container that caches its values and its size beside the backend.
-/

namespace Chinet

variable {κ ν : Type}

/-- A transaction of the writer thread in the backend: a read-only one inside another only counts,
and a writing one holds the container as it sees it. -/
structure BackendTransaction (κ ν : Type) where
  readOnly : Bool
  count : Nat
  store : FiniteStore κ ν

/-- `cache_base`: the values, and the list of the keys by their last access, where a key that is
set again stands again. -/
structure CacheBase (κ ν : Type) where
  allowedElements : Nat
  mostRecentAccessed : List κ
  data : FiniteStore κ ν

namespace CacheBase

variable [DecidableEq κ]

/-- `trim`, with at most as many passes as the list has elements. -/
def trim (c : CacheBase κ ν) : Nat → CacheBase κ ν
  | 0 => c
  | passes + 1 =>
      if c.mostRecentAccessed.length > c.allowedElements then
        match c.mostRecentAccessed.getLast? with
        | none => c
        | some key =>
            trim { c with
              data := c.data.erase key
              mostRecentAccessed := c.mostRecentAccessed.dropLast } passes
      else c

/-- `get`: the key comes to the front of the list. -/
def get (c : CacheBase κ ν) (k : κ) : Option ν × CacheBase κ ν :=
  match c.data.lookup k with
  | none => (none, c)
  | some v => (some v, { c with mostRecentAccessed := k :: c.mostRecentAccessed.erase k })

def set (c : CacheBase κ ν) (k : κ) (v : ν) : CacheBase κ ν :=
  let c := { c with
    mostRecentAccessed := k :: c.mostRecentAccessed
    data := c.data.insert k v }
  c.trim c.mostRecentAccessed.length

def clear (c : CacheBase κ ν) : CacheBase κ ν := { c with mostRecentAccessed := [], data := ∅ }

def erase (c : CacheBase κ ν) (k : κ) : CacheBase κ ν :=
  match c.data.lookup k with
  | none => c
  | some _ => { c with
      mostRecentAccessed := c.mostRecentAccessed.erase k
      data := c.data.erase k }

/-! ### What a cache may answer -/

/-- The cache answers as a container does, or not at all. -/
def Agrees (c : CacheBase κ ν) (s : FiniteStore κ ν) : Prop :=
  ∀ k v, c.data.lookup k = some v → s.lookup k = some v

variable {c : CacheBase κ ν} {s : FiniteStore κ ν}

theorem Agrees.trim (h : c.Agrees s) (passes : Nat) : (c.trim passes).Agrees s := by
  induction passes generalizing c with
  | zero => exact h
  | succ passes ih =>
      rw [CacheBase.trim]
      by_cases hlong : c.mostRecentAccessed.length > c.allowedElements
      · rw [if_pos hlong]
        cases c.mostRecentAccessed.getLast? with
        | none => exact h
        | some key =>
            refine ih fun k v hk => ?_
            simp only [FiniteStore.lookup_erase_ite] at hk
            by_cases heq : k = key
            · rw [if_pos heq] at hk
              cases hk
            · rw [if_neg heq] at hk
              exact h k v hk
      · rw [if_neg hlong]
        exact h

theorem Agrees.get (h : c.Agrees s) (k : κ) : (c.get k).2.Agrees s := by
  rw [CacheBase.get]
  cases c.data.lookup k with
  | none => exact h
  | some v => exact h

theorem Agrees.get_eq (h : c.Agrees s) {k : κ} {v : ν} (hget : (c.get k).1 = some v) :
    s.lookup k = some v := by
  rw [CacheBase.get] at hget
  cases hlookup : c.data.lookup k with
  | none =>
      rw [hlookup] at hget
      cases hget
  | some w =>
      rw [hlookup] at hget
      exact h k v (hlookup.trans hget)

/-- A value that a container has may be put into the cache. -/
theorem Agrees.set (h : c.Agrees s) {k : κ} {v : ν} (hv : s.lookup k = some v) :
    (c.set k v).Agrees s := by
  refine Agrees.trim (fun k' v' hk' => ?_) _
  simp only [FiniteStore.lookup_insert_ite] at hk'
  by_cases heq : k' = k
  · rw [if_pos heq] at hk'
    rw [heq, hv, ← hk']
  · rw [if_neg heq] at hk'
    exact h k' v' hk'

/-- A value that is set in the container too. -/
theorem Agrees.set_insert (h : c.Agrees s) (k : κ) (v : ν) : (c.set k v).Agrees (s.insert k v) := by
  refine Agrees.trim (fun k' v' hk' => ?_) _
  simp only [FiniteStore.lookup_insert_ite] at hk' ⊢
  by_cases heq : k' = k
  · rw [if_pos heq] at hk' ⊢
    exact hk'
  · rw [if_neg heq] at hk' ⊢
    exact h k' v' hk'

theorem agrees_clear (c : CacheBase κ ν) (s : FiniteStore κ ν) : c.clear.Agrees s := by
  intro k v hk
  simp only [clear, Finmap.lookup_empty] at hk
  cases hk

/-- A cache with less in it. -/
theorem Agrees.erase_cached (h : c.Agrees s) (k : κ) : (c.erase k).Agrees s := by
  intro k' v' hk'
  rw [CacheBase.erase] at hk'
  cases hlookup : c.data.lookup k with
  | none =>
      rw [hlookup] at hk'
      exact h k' v' hk'
  | some w =>
      simp only [hlookup, FiniteStore.lookup_erase_ite] at hk'
      split at hk'
      · cases hk'
      · exact h k' v' hk'

theorem Agrees.erase (h : c.Agrees s) (k : κ) : (c.erase k).Agrees (s.erase k) := by
  intro k' v' hk'
  rw [FiniteStore.lookup_erase_ite]
  rw [CacheBase.erase] at hk'
  cases hlookup : c.data.lookup k with
  | none =>
      simp only [hlookup] at hk'
      by_cases heq : k' = k
      · rw [heq, hlookup] at hk'
        cases hk'
      · rw [if_neg heq]
        exact h k' v' hk'
  | some w =>
      simp only [hlookup, FiniteStore.lookup_erase_ite] at hk'
      by_cases heq : k' = k
      · rw [if_pos heq] at hk'
        cases hk'
      · rw [if_neg heq] at hk' ⊢
        exact h k' v' hk'

end CacheBase

/-! ## The accessor -/

/-- What the threads do: the writer thread, and the readers by their names. A read of a reader
takes the shared lock; when its key is not in the cache, `readerFill` ends it. -/
inductive AccessorCall (κ ν ρ : Type) where
  | beginTransaction (readOnly : Bool)
  | commitTransaction
  /-- Through the accessor, or through the database or another accessor. -/
  | abortTransaction (throughAccessor : Bool)
  | set (k : κ) (v : ν)
  | erase (k : κ)
  | clear
  | pushBack (v : ν)
  | popBack
  | get (k : κ)
  | size
  | readerBegin (r : ρ)
  | readerCommit (r : ρ)
  | readerGet (r : ρ) (k : κ)
  | readerFill (r : ρ)
  | readerSize (r : ρ)

/-- `basic_db_accessor` and one `cached_key_value_accessor`: the backend's container and the
transactions of the writer thread, the latest first, the thread's `m_transactions_stack` (true for
read-only), the transactions of the readers, their reads under the shared lock, whether the writer
thread has set the isolation mode, and the two caches.  In an `array_accessor` every index is a
key. -/
structure AccessorDb (κ ν ρ : Type) where
  index : Nat → κ
  committed : FiniteStore κ ν
  transactions : List (BackendTransaction κ ν)
  transactionsStack : List Bool
  snapshots : List (ρ × FiniteStore κ ν)
  reading : List (ρ × κ × Option ν)
  isolated : Bool
  cache : CacheBase κ ν
  sizeCache : Nat
  sizeCacheValid : Bool

namespace AccessorDb

variable {ρ : Type} [DecidableEq κ] [DecidableEq ρ]

/-- The container as the writer thread sees it. -/
def view (s : AccessorDb κ ν ρ) : FiniteStore κ ν :=
  match s.transactions with
  | [] => s.committed
  | top :: _ => top.store

/-- The container as a reader sees it. -/
def readerView (s : AccessorDb κ ν ρ) (r : ρ) : FiniteStore κ ν :=
  match s.snapshots.find? fun snapshot => snapshot.1 = r with
  | none => s.committed
  | some snapshot => snapshot.2

def hasWriterTxInStack (stack : List Bool) : Bool := stack.any fun readOnly => !readOnly

/-- `begin_transaction` of the backend. -/
def backendBegin (s : AccessorDb κ ν ρ) (readOnly : Bool) : List (BackendTransaction κ ν) :=
  match s.transactions with
  | [] => [⟨readOnly, if readOnly then 1 else 0, s.committed⟩]
  | top :: rest =>
      if readOnly then { top with count := top.count + 1 } :: rest
      else ⟨false, 0, if top.readOnly then s.committed else top.store⟩ :: top :: rest

/-- `commit_transaction` of the backend: the container and the transactions left. -/
def backendCommit (s : AccessorDb κ ν ρ) :
    FiniteStore κ ν × List (BackendTransaction κ ν) :=
  match s.transactions with
  | [] => (s.committed, [])
  | top :: rest =>
      if top.count > 0 then
        if top.readOnly ∧ top.count = 1 then (s.committed, rest)
        else (s.committed, { top with count := top.count - 1 } :: rest)
      else
        match rest with
        | [] => (top.store, [])
        | parent :: others =>
            if parent.readOnly then (top.store, parent :: others)
            else (s.committed, { parent with store := top.store } :: others)

/-- Whether the writer thread may write. -/
def canWrite (s : AccessorDb κ ν ρ) : Bool :=
  match s.transactions with
  | [] => false
  | top :: _ => !top.readOnly

/-- A change of the container in the transaction of the writer thread; without a writing one the
backend returns false. -/
def change (s : AccessorDb κ ν ρ) (f : FiniteStore κ ν → FiniteStore κ ν) :
    List (BackendTransaction κ ν) :=
  match s.transactions with
  | [] => []
  | top :: rest => if top.readOnly then top :: rest else { top with store := f top.store } :: rest

def beginTransaction (s : AccessorDb κ ν ρ) (readOnly : Bool) : AccessorDb κ ν ρ :=
  { s with
    transactions := s.backendBegin readOnly
    isolated := s.isolated || (!readOnly && !hasWriterTxInStack s.transactionsStack)
    transactionsStack := readOnly :: s.transactionsStack }

/-- `commit_transaction`; the one of a writing transaction waits for the readers. -/
def commitTransaction (s : AccessorDb κ ν ρ) : AccessorDb κ ν ρ :=
  match s.transactionsStack with
  | [] => s
  | readOnly :: stack =>
      if readOnly = false ∧ s.reading ≠ [] then s
      else
        { s with
          committed := s.backendCommit.1
          transactions := s.backendCommit.2
          transactionsStack := stack
          isolated := s.isolated && (readOnly || hasWriterTxInStack stack) }

/-- `abort_transaction`, of the accessor or of the database. -/
def abortTransaction (s : AccessorDb κ ν ρ) (throughAccessor : Bool) : AccessorDb κ ν ρ :=
  match s.transactionsStack with
  | [] => s
  | readOnly :: stack =>
      if readOnly ∨ s.reading ≠ [] then s
      else
        let s := { s with sizeCacheValid := s.sizeCacheValid && !throughAccessor }
        let s := { s with transactions := s.transactions.tail, transactionsStack := stack }
        if hasWriterTxInStack stack then s
        else { s with cache := s.cache.clear, isolated := false }

/-- `set`.  What the backend returns is dropped: a value that it refuses goes to the cache too. -/
def set (s : AccessorDb κ ν ρ) (k : κ) (v : ν) : AccessorDb κ ν ρ :=
  { s with
    transactions := s.change fun store => store.insert k v
    sizeCacheValid := false
    cache := s.cache.set k v }

def erase (s : AccessorDb κ ν ρ) (k : κ) : AccessorDb κ ν ρ :=
  { s with
    transactions := s.change fun store => store.erase k
    sizeCacheValid := false
    cache := s.cache.erase k }

def clear (s : AccessorDb κ ν ρ) : AccessorDb κ ν ρ :=
  { s with
    transactions := s.change fun _ => ∅
    sizeCacheValid := false
    cache := s.cache.clear }

/-- What `get` returns to a thread that may use the cache or not. -/
def getAnswer (s : AccessorDb κ ν ρ) (cacheAllowed : Bool) (container : FiniteStore κ ν) (k : κ) :
    Option ν :=
  if cacheAllowed then ((s.cache.get k).1).or (container.lookup k) else container.lookup k

/-- `get` of the writer thread, to which the cache is always allowed. -/
def get (s : AccessorDb κ ν ρ) (k : κ) : AccessorDb κ ν ρ :=
  match (s.cache.get k).1 with
  | some _ => { s with cache := (s.cache.get k).2 }
  | none =>
      match s.view.lookup k with
      | some v => { s with cache := s.cache.set k v }
      | none => s

/-- What `size` returns. -/
def sizeAnswer (s : AccessorDb κ ν ρ) (cacheAllowed : Bool) (container : FiniteStore κ ν) : Nat :=
  if cacheAllowed && s.sizeCacheValid then s.sizeCache else container.size

def size (s : AccessorDb κ ν ρ) (cacheAllowed : Bool) (container : FiniteStore κ ν) :
    AccessorDb κ ν ρ :=
  if cacheAllowed then
    { s with sizeCache := s.sizeAnswer cacheAllowed container, sizeCacheValid := true }
  else s

/-- `get` of a reader up to the read of the backend. -/
def readerGet (s : AccessorDb κ ν ρ) (r : ρ) (k : κ) : AccessorDb κ ν ρ :=
  if s.isolated = false ∧ (s.cache.get k).1 ≠ none then { s with cache := (s.cache.get k).2 }
  else { s with reading := (r, k, (s.readerView r).lookup k) :: s.reading }

/-- The end of a reader's `get`: the value goes to the cache, and the lock is left. -/
def readerFill (s : AccessorDb κ ν ρ) (r : ρ) : AccessorDb κ ν ρ :=
  match s.reading.find? fun read => read.1 = r with
  | none => s
  | some read =>
      let s := { s with reading := s.reading.eraseP fun read => read.1 = r }
      match read.2.2 with
      | none => s
      | some v => if s.isolated then s else { s with cache := s.cache.set read.2.1 v }

/-- `push_back` of an `array_accessor`. -/
def pushBack (s : AccessorDb κ ν ρ) (v : ν) : AccessorDb κ ν ρ :=
  (s.size true s.view).set (s.index (s.sizeAnswer true s.view)) v

/-- `pop_back`; the index of an empty container wraps around. -/
def popBack (s : AccessorDb κ ν ρ) : AccessorDb κ ν ρ :=
  (s.size true s.view).erase (s.index ((s.sizeAnswer true s.view + (2 ^ 64 - 1)) % 2 ^ 64))

def step (s : AccessorDb κ ν ρ) : AccessorCall κ ν ρ → AccessorDb κ ν ρ
  | .beginTransaction readOnly => s.beginTransaction readOnly
  | .commitTransaction => s.commitTransaction
  | .abortTransaction throughAccessor => s.abortTransaction throughAccessor
  | .set k v => s.set k v
  | .erase k => s.erase k
  | .clear => s.clear
  | .pushBack v => s.pushBack v
  | .popBack => s.popBack
  | .get k => s.get k
  | .size => s.size true s.view
  | .readerBegin r => { s with snapshots := (r, s.readerView r) :: s.snapshots }
  | .readerCommit r => { s with snapshots := s.snapshots.eraseP fun snapshot => snapshot.1 = r }
  | .readerGet r k => s.readerGet r k
  | .readerFill r => s.readerFill r
  | .readerSize r => s.size (!s.isolated) (s.readerView r)

def run (s : AccessorDb κ ν ρ) (calls : List (AccessorCall κ ν ρ)) : AccessorDb κ ν ρ :=
  calls.foldl step s

/-- An accessor on a container, without transactions and with empty caches. -/
def start (index : Nat → κ) (committed : FiniteStore κ ν) (allowedElements : Nat) :
    AccessorDb κ ν ρ :=
  ⟨index, committed, [], [], [], [], false, ⟨allowedElements, [], ∅⟩, 0, false⟩

/-- What a read returns is what the thread sees in the backend, and so does the size by which
`push_back` and `pop_back` find their key. -/
def Truthful (s : AccessorDb κ ν ρ) : AccessorCall κ ν ρ → Prop
  | .get k => s.getAnswer true s.view k = s.view.lookup k
  | .size | .pushBack _ | .popBack => s.sizeAnswer true s.view = s.view.size
  | .readerGet r k =>
      s.getAnswer (!s.isolated) (s.readerView r) k = (s.readerView r).lookup k
  | .readerSize r => s.sizeAnswer (!s.isolated) (s.readerView r) = (s.readerView r).size
  | _ => True

instance [DecidableEq ν] (s : AccessorDb κ ν ρ) :
    (call : AccessorCall κ ν ρ) → Decidable (s.Truthful call)
  | .get _ | .readerGet _ _ => inferInstanceAs (Decidable ((_ : Option ν) = _))
  | .size | .pushBack _ | .popBack | .readerSize _ => inferInstanceAs (Decidable ((_ : Nat) = _))
  | .beginTransaction _ | .commitTransaction | .abortTransaction _ | .set _ _ | .erase _ | .clear
  | .readerBegin _ | .readerCommit _ | .readerFill _ => .isTrue trivial

/-- The container that the writer thread sees without its latest transaction. -/
def viewBelow (s : AccessorDb κ ν ρ) : FiniteStore κ ν :=
  view { s with transactions := s.transactions.tail }

/-- A call with which the caches stay right: a value is set in a writing transaction, unless it is
there already; a writing transaction is not begun inside a read-only one; one that is aborted inside
another writing one has changed no key that is in the cache, and one that is aborted past the
accessor has not changed a size that is cached; and what a reader reads while the writer thread
does not write is what was committed last. -/
def Regular (s : AccessorDb κ ν ρ) : AccessorCall κ ν ρ → Prop
  | .beginTransaction readOnly =>
      readOnly = false → ∀ top ∈ s.transactions.head?, top.readOnly = false
  | .abortTransaction throughAccessor =>
      (hasWriterTxInStack s.transactionsStack.tail = true →
          ∀ k, s.cache.data.lookup k ≠ none → s.viewBelow.lookup k = s.view.lookup k) ∧
        (throughAccessor = true ∨ s.sizeCacheValid = false ∨ s.viewBelow.size = s.view.size)
  | .set k v => s.canWrite = true ∨ s.view.lookup k = some v
  | .pushBack v =>
      s.canWrite = true ∨ s.view.lookup (s.index (s.sizeAnswer true s.view)) = some v
  | .readerGet r k => s.isolated = false → (s.readerView r).lookup k = s.committed.lookup k
  | .readerSize r => s.isolated = false → (s.readerView r).size = s.committed.size
  | _ => True

/-- A run of regular calls. -/
def RegularRun : AccessorDb κ ν ρ → List (AccessorCall κ ν ρ) → Prop
  | _, [] => True
  | s, call :: calls => s.Regular call ∧ RegularRun (s.step call) calls

/-! ### Coherence -/

/-- The stack of the accessor, as the transactions of the backend have it. -/
def stackOf (transactions : List (BackendTransaction κ ν)) : List Bool :=
  transactions.flatMap fun t => List.replicate t.count true ++ if t.readOnly then [] else [false]

omit [DecidableEq κ] in
theorem hasWriterTxInStack_stackOf (transactions : List (BackendTransaction κ ν)) :
    hasWriterTxInStack (stackOf transactions) = transactions.any fun t => !t.readOnly := by
  induction transactions with
  | nil => rfl
  | cons top rest ih =>
      rw [stackOf, List.flatMap_cons, hasWriterTxInStack, List.any_append, List.any_append,
        List.any_cons]
      have htrue : (List.replicate top.count true).any (fun readOnly => !readOnly) = false := by
        rw [List.any_eq_false]
        intro b hb
        rw [(List.mem_replicate.mp hb).2]
        decide
      rw [htrue, Bool.false_or]
      refine congrArg₂ _ ?_ ih
      cases top.readOnly <;> rfl

/-- The transactions of the writer thread are writing, or one is read-only. -/
def Shape (s : AccessorDb κ ν ρ) : Prop :=
  (∀ t ∈ s.transactions, t.readOnly = false) ∨
    ∃ t, s.transactions = [t] ∧ t.readOnly = true ∧ 0 < t.count ∧ t.store = s.committed

/-- What every regular call keeps. -/
structure Inv (s : AccessorDb κ ν ρ) : Prop where
  stack : s.transactionsStack = stackOf s.transactions
  isolated : s.isolated = hasWriterTxInStack s.transactionsStack
  shape : s.Shape
  cache : s.cache.Agrees s.view
  size : s.sizeCacheValid = true → s.sizeCache = s.view.size
  reading : s.isolated = false → ∀ read ∈ s.reading, read.2.2 = s.committed.lookup read.2.1

variable {s : AccessorDb κ ν ρ}

omit [DecidableEq ρ] in
theorem inv_start (index : Nat → κ) (committed : FiniteStore κ ν) (allowedElements : Nat) :
    Inv (start index committed allowedElements : AccessorDb κ ν ρ) :=
  ⟨rfl, rfl, Or.inl fun _ h => absurd h List.not_mem_nil,
    CacheBase.agrees_clear ⟨allowedElements, [], ∅⟩ _, fun h => absurd h Bool.noConfusion,
    fun _ _ h => absurd h List.not_mem_nil⟩

omit [DecidableEq ρ] in
/-- Without a writing transaction the writer thread sees what is committed. -/
theorem Inv.view_eq (h : Inv s) (hi : s.isolated = false) : s.view = s.committed := by
  have hwriter := h.isolated.symm.trans hi
  rw [h.stack, hasWriterTxInStack_stackOf] at hwriter
  rcases h.shape with hall | ⟨t, ht, -, -, hstore⟩
  · rw [view]
    cases htx : s.transactions with
    | nil => rfl
    | cons top rest =>
        have htop := hall top (by rw [htx]; exact List.mem_cons_self)
        rw [htx, List.any_cons, htop] at hwriter
        cases hwriter
  · rw [view, ht]
    exact hstore

omit [DecidableEq ρ] in
/-- A thread that may use the cache gets what it sees, if it sees the writer's value of the key. -/
theorem Inv.getAnswer_eq (h : Inv s) {allowed : Bool} {container : FiniteStore κ ν} {k : κ}
    (hview : allowed = true → container.lookup k = s.view.lookup k) :
    s.getAnswer allowed container k = container.lookup k := by
  rw [getAnswer]
  cases allowed with
  | false => rfl
  | true =>
      rw [if_pos rfl, hview rfl]
      cases hget : (s.cache.get k).1 with
      | none => rfl
      | some v => exact (h.cache.get_eq hget).symm

omit [DecidableEq ρ] in
theorem Inv.sizeAnswer_eq (h : Inv s) {allowed : Bool} {container : FiniteStore κ ν}
    (hview : allowed = true → container.size = s.view.size) :
    s.sizeAnswer allowed container = container.size := by
  rw [sizeAnswer]
  cases allowed with
  | false => rfl
  | true =>
      rw [Bool.true_and, hview rfl]
      by_cases hvalid : s.sizeCacheValid = true
      · rw [if_pos hvalid]
        exact h.size hvalid
      · rw [if_neg hvalid]

/-- Where the cache is allowed, a regular read of a reader sees the writer's value. -/
theorem Inv.readerLookup_eq (h : Inv s) {r : ρ} {k : κ} (hregular : s.Regular (.readerGet r k)) :
    (!s.isolated) = true → (s.readerView r).lookup k = s.view.lookup k := by
  intro hallowed
  have hi : s.isolated = false := by simpa using hallowed
  rw [h.view_eq hi]
  exact hregular hi

theorem Inv.readerSize_eq (h : Inv s) {r : ρ} (hregular : s.Regular (.readerSize r)) :
    (!s.isolated) = true → (s.readerView r).size = s.view.size := by
  intro hallowed
  have hi : s.isolated = false := by simpa using hallowed
  rw [h.view_eq hi]
  exact hregular hi

/-- A read of a regular call is truthful. -/
theorem Inv.truthful (h : Inv s) {call : AccessorCall κ ν ρ} (hregular : s.Regular call) :
    s.Truthful call := by
  cases call with
  | get k => exact h.getAnswer_eq fun _ => rfl
  | size => exact h.sizeAnswer_eq fun _ => rfl
  | pushBack v => exact h.sizeAnswer_eq fun _ => rfl
  | popBack => exact h.sizeAnswer_eq fun _ => rfl
  | readerGet r k => exact h.getAnswer_eq (h.readerLookup_eq hregular)
  | readerSize r => exact h.sizeAnswer_eq (h.readerSize_eq hregular)
  | _ => trivial

omit [DecidableEq κ] in
theorem stackOf_cons (top : BackendTransaction κ ν) (rest : List (BackendTransaction κ ν)) :
    stackOf (top :: rest) =
      List.replicate top.count true ++ (if top.readOnly then [] else [false]) ++ stackOf rest :=
  List.flatMap_cons

omit [DecidableEq ρ] in
/-- A step that changes neither the caches nor what the writer thread sees. -/
theorem Inv.of_view_eq (h : Inv s) {s' : AccessorDb κ ν ρ}
    (hstack : s'.transactionsStack = stackOf s'.transactions)
    (hisolated : s'.isolated = hasWriterTxInStack s'.transactionsStack)
    (hshape : s'.Shape) (hview : s'.view = s.view)
    (hcaches : s'.cache = s.cache ∧ s'.sizeCache = s.sizeCache ∧
      s'.sizeCacheValid = s.sizeCacheValid)
    (hreading : s'.isolated = false →
      ∀ read ∈ s'.reading, read.2.2 = s'.committed.lookup read.2.1) : Inv s' := by
  refine ⟨hstack, hisolated, hshape, ?_, ?_, hreading⟩
  · rw [hcaches.1, hview]
    exact h.cache
  · rw [hcaches.2.1, hcaches.2.2, hview]
    exact h.size

omit [DecidableEq ρ] in
/-- The transactions from the writing one on top are all writing. -/
theorem Inv.writing (h : Inv s) {top : BackendTransaction κ ν}
    {rest : List (BackendTransaction κ ν)} (htx : s.transactions = top :: rest)
    (hzero : top.count = 0) : ∀ t ∈ top :: rest, t.readOnly = false := by
  rcases h.shape with hall | ⟨t, ht, -, hcount, -⟩
  · rwa [htx] at hall
  · rw [htx, List.cons.injEq] at ht
    rw [ht.1] at hzero
    omega

omit [DecidableEq ρ] in
theorem Inv.stack_of_zero (h : Inv s) {top : BackendTransaction κ ν}
    {rest : List (BackendTransaction κ ν)} (htx : s.transactions = top :: rest)
    (hzero : top.count = 0) : s.transactionsStack = false :: stackOf rest := by
  rw [h.stack, htx, stackOf_cons, hzero, h.writing htx hzero top List.mem_cons_self]
  rfl

omit [DecidableEq ρ] in
/-- A counted read-only transaction is on top of the stack; one less is below. -/
theorem Inv.stack_of_pos (h : Inv s) {top : BackendTransaction κ ν}
    {rest : List (BackendTransaction κ ν)} (htx : s.transactions = top :: rest)
    (hpos : 0 < top.count) :
    s.transactionsStack = true :: stackOf ({ top with count := top.count - 1 } :: rest) := by
  obtain ⟨m, hm⟩ : ∃ m, top.count = m + 1 := ⟨top.count - 1, by omega⟩
  rw [h.stack, htx, stackOf_cons, stackOf_cons, hm, List.replicate_succ]
  rfl

omit [DecidableEq κ] [DecidableEq ρ] in
theorem stackOf_backendBegin (s : AccessorDb κ ν ρ) (readOnly : Bool) :
    stackOf (s.backendBegin readOnly) = readOnly :: stackOf s.transactions := by
  rw [backendBegin]
  cases s.transactions with
  | nil => cases readOnly <;> rfl
  | cons top rest =>
      cases readOnly with
      | true =>
          change stackOf ({ top with count := top.count + 1 } :: rest) = _
          rw [stackOf_cons, stackOf_cons, List.replicate_succ]
          rfl
      | false => rfl

omit [DecidableEq κ] [DecidableEq ρ] in
theorem view_beginTransaction {readOnly : Bool}
    (hregular : readOnly = false → ∀ top ∈ s.transactions.head?, top.readOnly = false) :
    (s.beginTransaction readOnly).view = s.view := by
  rw [view, view, AccessorDb.beginTransaction]
  cases htx : s.transactions with
  | nil => simp only [backendBegin, htx]
  | cons top rest =>
      cases readOnly with
      | true => simp only [backendBegin, htx, if_true]
      | false =>
          have hrw : top.readOnly = false := hregular rfl top (by rw [htx]; rfl)
          simp [backendBegin, htx, hrw]

omit [DecidableEq κ] [DecidableEq ρ] in
theorem Shape.beginTransaction {readOnly : Bool} (h : s.Shape)
    (hregular : readOnly = false → ∀ top ∈ s.transactions.head?, top.readOnly = false) :
    (s.beginTransaction readOnly).Shape := by
  change (∀ t ∈ s.backendBegin readOnly, t.readOnly = false) ∨
    ∃ t, s.backendBegin readOnly = [t] ∧ t.readOnly = true ∧ 0 < t.count ∧ t.store = s.committed
  rw [backendBegin]
  cases htx : s.transactions with
  | nil =>
      cases readOnly with
      | true => exact Or.inr ⟨_, rfl, rfl, Nat.one_pos, rfl⟩
      | false => exact Or.inl (by simp)
  | cons top rest =>
      rw [Shape, htx] at h
      cases readOnly with
      | true =>
          simp only [if_true]
          rcases h with hall | ⟨t, ht, hro, hcount, hstore⟩
          · exact Or.inl (List.forall_mem_cons.mpr (List.forall_mem_cons.mp hall))
          · rw [List.cons.injEq] at ht
            obtain ⟨rfl, rfl⟩ := ht
            exact Or.inr ⟨_, rfl, hro, Nat.succ_pos _, hstore⟩
      | false =>
          have hrw : top.readOnly = false := hregular rfl top (by rw [htx]; rfl)
          rcases h with hall | ⟨t, ht, hro, -, -⟩
          · exact Or.inl (List.forall_mem_cons.mpr ⟨rfl, hall⟩)
          · rw [List.cons.injEq] at ht
            rw [ht.1, hro] at hrw
            cases hrw

omit [DecidableEq ρ] in
theorem Inv.beginTransaction (h : Inv s) {readOnly : Bool}
    (hregular : readOnly = false → ∀ top ∈ s.transactions.head?, top.readOnly = false) :
    Inv (s.beginTransaction readOnly) := by
  refine h.of_view_eq ?_ ?_ (h.shape.beginTransaction hregular) (view_beginTransaction hregular)
    ⟨rfl, rfl, rfl⟩ fun hi => h.reading (Bool.or_eq_false_iff.mp hi).1
  · change readOnly :: s.transactionsStack = stackOf (s.backendBegin readOnly)
    rw [stackOf_backendBegin, h.stack]
  · change (s.isolated || (!readOnly && !hasWriterTxInStack s.transactionsStack)) =
      (!readOnly || hasWriterTxInStack s.transactionsStack)
    rw [h.isolated]
    cases readOnly <;> cases hasWriterTxInStack s.transactionsStack <;> rfl

omit [DecidableEq ρ] in
/-- The commit of a writing transaction, after the readers. -/
theorem Inv.commitWriting (h : Inv s) {top : BackendTransaction κ ν}
    {rest : List (BackendTransaction κ ν)} (htx : s.transactions = top :: rest)
    (hzero : top.count = 0) (hidle : s.reading = []) :
    Inv { s with
      committed := s.backendCommit.1
      transactions := s.backendCommit.2
      transactionsStack := stackOf rest
      isolated := s.isolated && (false || hasWriterTxInStack (stackOf rest)) } := by
  have hall := h.writing htx hzero
  have hisolated : s.isolated = true := by
    rw [h.isolated, h.stack_of_zero htx hzero]
    rfl
  have hreading : ∀ read ∈ s.reading, read.2.2 = s.backendCommit.1.lookup read.2.1 := by
    rw [hidle]
    exact fun _ hr => absurd hr List.not_mem_nil
  cases rest with
  | nil =>
      have hcommit : s.backendCommit = (top.store, []) := by
        rw [backendCommit, htx]
        simp [hzero]
      refine h.of_view_eq ?_ ?_ (Or.inl ?_) ?_ ⟨rfl, rfl, rfl⟩ fun _ => hreading
      · simp only [hcommit]
      · simp [hisolated]
      · simp [hcommit]
      · simp only [view, hcommit, htx]
  | cons parent others =>
      have hparent : parent.readOnly = false := hall parent (by simp)
      have hcommit : s.backendCommit =
          (s.committed, { parent with store := top.store } :: others) := by
        rw [backendCommit, htx]
        simp [hzero, hparent]
      refine h.of_view_eq ?_ ?_ (Or.inl ?_) ?_ ⟨rfl, rfl, rfl⟩ fun _ => hreading
      · simp only [hcommit]
        rfl
      · simp [hisolated]
      · simp only [hcommit]
        exact List.forall_mem_cons.mpr ⟨hparent, fun t ht => hall t (by simp [ht])⟩
      · simp only [view, hcommit, htx]

omit [DecidableEq ρ] in
/-- The end of a read-only transaction. -/
theorem Inv.commitReading (h : Inv s) {top : BackendTransaction κ ν}
    {rest : List (BackendTransaction κ ν)} (htx : s.transactions = top :: rest)
    (hpos : 0 < top.count) :
    Inv { s with
      committed := s.backendCommit.1
      transactions := s.backendCommit.2
      transactionsStack := stackOf ({ top with count := top.count - 1 } :: rest)
      isolated := s.isolated && (true ||
        hasWriterTxInStack (stackOf ({ top with count := top.count - 1 } :: rest))) } := by
  have hisolated : s.isolated =
      hasWriterTxInStack (stackOf ({ top with count := top.count - 1 } :: rest)) := by
    rw [h.isolated, h.stack_of_pos htx hpos]
    rfl
  have hshape := h.shape
  rw [Shape, htx] at hshape
  by_cases hlast : top.readOnly = true ∧ top.count = 1
  · -- the snapshot of the last one is what is committed
    have hcommit : s.backendCommit = (s.committed, rest) := by
      rw [backendCommit, htx]
      simp [hlast.1, hlast.2]
    obtain ⟨rfl, hstore⟩ : rest = [] ∧ top.store = s.committed := by
      rcases hshape with hall | ⟨t, ht, -, -, hstore⟩
      · rw [hall top List.mem_cons_self] at hlast
        cases hlast.1
      · rw [List.cons.injEq] at ht
        exact ⟨ht.2, ht.1 ▸ hstore⟩
    refine h.of_view_eq ?_ ?_ (Or.inl ?_) ?_ ⟨rfl, rfl, rfl⟩ ?_
    · simp only [hcommit, stackOf_cons, hlast.1, hlast.2]
      rfl
    · simpa using hisolated
    · simp [hcommit]
    · simp only [view, hcommit, htx, hstore]
    · simp only [hcommit]
      exact fun hi => h.reading (by simpa using hi)
  · have hcommit : s.backendCommit =
        (s.committed, { top with count := top.count - 1 } :: rest) := by
      rw [backendCommit, htx]
      simp only [if_pos hpos, if_neg hlast]
    refine h.of_view_eq ?_ ?_ ?_ ?_ ⟨rfl, rfl, rfl⟩ ?_
    · simp only [hcommit]
    · simpa using hisolated
    · simp only [Shape, hcommit]
      rcases hshape with hall | ⟨t, ht, hro, hcount, hstore⟩
      · exact Or.inl (List.forall_mem_cons.mpr (List.forall_mem_cons.mp hall))
      · rw [List.cons.injEq] at ht
        obtain ⟨rfl, rfl⟩ := ht
        have hmore : top.count ≠ 1 := fun hone => hlast ⟨hro, hone⟩
        exact Or.inr ⟨_, rfl, hro, Nat.sub_pos_of_lt (by omega), hstore⟩
    · simp only [view, hcommit, htx]
    · simp only [hcommit]
      exact fun hi => h.reading (by simpa using hi)

omit [DecidableEq ρ] in
theorem Inv.commitTransaction (h : Inv s) : Inv s.commitTransaction := by
  rw [AccessorDb.commitTransaction.eq_def]
  cases htx : s.transactions with
  | nil =>
      rw [h.stack, htx]
      exact h
  | cons top rest =>
      rcases Nat.eq_zero_or_pos top.count with hzero | hpos
      · simp only [h.stack_of_zero htx hzero]
        by_cases hbusy : s.reading ≠ []
        · rw [if_pos ⟨trivial, hbusy⟩]
          exact h
        · rw [if_neg fun hboth => hbusy hboth.2]
          exact h.commitWriting htx hzero (not_not.mp hbusy)
      · simp only [h.stack_of_pos htx hpos]
        rw [if_neg fun hboth => absurd hboth.1 (by decide)]
        exact h.commitReading htx hpos

omit [DecidableEq ρ] in
/-- The abort of a writing transaction, after the readers. -/
theorem Inv.abortWriting (h : Inv s) {top : BackendTransaction κ ν}
    {rest : List (BackendTransaction κ ν)} (htx : s.transactions = top :: rest)
    (hzero : top.count = 0) (hidle : s.reading = []) {valid : Bool}
    (hinner : hasWriterTxInStack (stackOf rest) = true →
      ∀ k, s.cache.data.lookup k ≠ none → s.viewBelow.lookup k = s.view.lookup k)
    (hsize : valid = true → s.sizeCache = s.viewBelow.size) :
    Inv (if hasWriterTxInStack (stackOf rest) then
        { s with
          transactions := s.transactions.tail
          transactionsStack := stackOf rest
          sizeCacheValid := valid }
      else
        { s with
          transactions := s.transactions.tail
          transactionsStack := stackOf rest
          sizeCacheValid := valid
          cache := s.cache.clear
          isolated := false }) := by
  have hrest : s.transactions.tail = rest := by rw [htx, List.tail_cons]
  have hall : ∀ t ∈ s.transactions.tail, t.readOnly = false := fun t ht =>
    h.writing htx hzero t (List.mem_cons_of_mem _ (hrest ▸ ht))
  have hreading : ∀ read ∈ s.reading, read.2.2 = s.committed.lookup read.2.1 := by
    rw [hidle]
    exact fun _ hr => absurd hr List.not_mem_nil
  by_cases hwriter : hasWriterTxInStack (stackOf rest) = true
  · -- an inner transaction that changed no cached key
    rw [if_pos hwriter]
    have hcache : s.cache.Agrees s.viewBelow := by
      intro k v hk
      rw [hinner hwriter k (by rw [hk]; exact Option.some_ne_none v)]
      exact h.cache k v hk
    refine ⟨congrArg stackOf hrest.symm, ?_, Or.inl hall, hcache, hsize, fun _ => hreading⟩
    rw [h.isolated, h.stack_of_zero htx hzero]
    exact hwriter.symm
  · -- the outermost one clears the values
    rw [if_neg hwriter]
    refine ⟨congrArg stackOf hrest.symm, ?_, Or.inl hall, CacheBase.agrees_clear s.cache _, hsize,
      fun _ => hreading⟩
    simpa using hwriter

omit [DecidableEq ρ] in
theorem Inv.abortTransaction (h : Inv s) {throughAccessor : Bool}
    (hinner : hasWriterTxInStack s.transactionsStack.tail = true →
      ∀ k, s.cache.data.lookup k ≠ none → s.viewBelow.lookup k = s.view.lookup k)
    (hpast : throughAccessor = true ∨ s.sizeCacheValid = false ∨ s.viewBelow.size = s.view.size) :
    Inv (s.abortTransaction throughAccessor) := by
  have hsize : (s.sizeCacheValid && !throughAccessor) = true →
      s.sizeCache = s.viewBelow.size := by
    intro hvalid
    rw [Bool.and_eq_true] at hvalid
    rcases hpast with hthrough | hinvalid | heq
    · rw [hthrough] at hvalid
      cases hvalid.2
    · rw [hinvalid] at hvalid
      cases hvalid.1
    · rw [heq]
      exact h.size hvalid.1
  rw [AccessorDb.abortTransaction.eq_def]
  cases htx : s.transactions with
  | nil =>
      rw [h.stack, htx]
      exact h
  | cons top rest =>
      rcases Nat.eq_zero_or_pos top.count with hzero | hpos
      · rw [h.stack_of_zero htx hzero, List.tail_cons] at hinner
        simp only [h.stack_of_zero htx hzero]
        by_cases hbusy : s.reading ≠ []
        · rw [if_pos (Or.inr hbusy)]
          exact h
        · rw [if_neg fun hor => hor.elim (fun hro => absurd hro (by decide)) hbusy, ← htx]
          exact h.abortWriting htx hzero (not_not.mp hbusy) hinner hsize
      · simp only [h.stack_of_pos htx hpos]
        rw [if_pos (Or.inl trivial)]
        exact h

omit [DecidableEq ρ] in
/-- A write in the transaction of the writer thread, with the caches that go with it. -/
theorem Inv.write_allowed (h : Inv s) (hwrite : s.canWrite = true)
    (f : FiniteStore κ ν → FiniteStore κ ν) {cache : CacheBase κ ν}
    (hcache : cache.Agrees (f s.view)) :
    Inv { s with transactions := s.change f, sizeCacheValid := false, cache := cache } := by
  obtain ⟨hstack, hisolated, hshape, -, -, hreading⟩ := h
  cases htx : s.transactions with
  | nil =>
      rw [canWrite, htx] at hwrite
      cases hwrite
  | cons top rest =>
      have hrw : top.readOnly = false := by
        rw [canWrite, htx] at hwrite
        simpa using hwrite
      have hchange : s.change f = { top with store := f top.store } :: rest := by
        simp only [change, htx, hrw, Bool.false_eq_true, if_false]
      have hview : s.view = top.store := by rw [view, htx]
      rw [hview] at hcache
      refine ⟨?_, hisolated, Or.inl ?_, ?_, fun h => absurd h Bool.noConfusion, hreading⟩
      · simp only [hstack, hchange, htx]
        rfl
      · simp only [hchange]
        rcases hshape with hall | ⟨t, ht, hro, -, -⟩
        · rw [htx] at hall
          intro t ht
          rcases List.mem_cons.mp ht with rfl | ht
          · exact hrw
          · exact hall t (List.mem_cons_of_mem _ ht)
        · rw [htx, List.cons.injEq] at ht
          rw [ht.1, hro] at hrw
          cases hrw
      · simpa only [view, hchange] using hcache

omit [DecidableEq κ] [DecidableEq ρ] in
/-- Without a writing transaction the backend changes nothing. -/
theorem change_refused (hwrite : s.canWrite = false) (f : FiniteStore κ ν → FiniteStore κ ν) :
    s.change f = s.transactions := by
  rw [canWrite] at hwrite
  rw [change]
  cases htx : s.transactions with
  | nil => rfl
  | cons top rest =>
      rw [htx] at hwrite
      exact if_pos (by simpa using hwrite)

omit [DecidableEq ρ] in
/-- Caches that agree with the view may replace those that are there. -/
theorem Inv.recache (h : Inv s) {cache : CacheBase κ ν} (hcache : cache.Agrees s.view)
    {valid : Bool} {size : Nat} (hsize : valid = true → size = s.view.size) :
    Inv { s with cache := cache, sizeCacheValid := valid, sizeCache := size } :=
  ⟨h.stack, h.isolated, h.shape, hcache, hsize, h.reading⟩

omit [DecidableEq ρ] in
theorem Inv.size_call (h : Inv s) {allowed : Bool} {container : FiniteStore κ ν}
    (hview : allowed = true → container.size = s.view.size) : Inv (s.size allowed container) := by
  have hanswer := h.sizeAnswer_eq hview
  rw [AccessorDb.size]
  by_cases hallowed : allowed = true
  · rw [if_pos hallowed, hanswer]
    exact h.recache h.cache fun _ => hview hallowed
  · rw [if_neg hallowed]
    exact h

omit [DecidableEq ρ] in
/-- A write that the backend may refuse, with a value cache that fits either way. -/
theorem Inv.write (h : Inv s) (f : FiniteStore κ ν → FiniteStore κ ν) {cache : CacheBase κ ν}
    (hallowed : s.canWrite = true → cache.Agrees (f s.view))
    (hrefused : s.canWrite = false → cache.Agrees s.view) :
    Inv { s with transactions := s.change f, sizeCacheValid := false, cache := cache } := by
  cases hwrite : s.canWrite with
  | true => exact h.write_allowed hwrite f (hallowed hwrite)
  | false =>
      rw [change_refused hwrite]
      exact h.recache (hrefused hwrite) fun hvalid => absurd hvalid Bool.noConfusion

omit [DecidableEq ρ] in
theorem Inv.set (h : Inv s) {k : κ} {v : ν}
    (hset : s.canWrite = true ∨ s.view.lookup k = some v) : Inv (s.set k v) := by
  refine h.write _ (fun _ => h.cache.set_insert k v) fun hrefused => h.cache.set ?_
  exact hset.resolve_left fun hwrite => Bool.false_ne_true (hrefused.symm.trans hwrite)

omit [DecidableEq ρ] in
theorem Inv.erase (h : Inv s) (k : κ) : Inv (s.erase k) :=
  h.write _ (fun _ => h.cache.erase k) fun _ => h.cache.erase_cached k

omit [DecidableEq ρ] in
theorem Inv.clear (h : Inv s) : Inv s.clear :=
  h.write (fun _ => ∅) (fun _ => CacheBase.agrees_clear s.cache _) fun _ =>
    CacheBase.agrees_clear s.cache _

omit [DecidableEq ρ] in
theorem Inv.get (h : Inv s) (k : κ) : Inv (s.get k) := by
  rw [AccessorDb.get]
  cases (s.cache.get k).1 with
  | some v => exact h.recache (h.cache.get k) h.size
  | none =>
      cases hlookup : s.view.lookup k with
      | none => exact h
      | some v => exact h.recache (h.cache.set hlookup) h.size

theorem Inv.readerGet (h : Inv s) {r : ρ} {k : κ} (hregular : s.Regular (.readerGet r k)) :
    Inv (s.readerGet r k) := by
  rw [AccessorDb.readerGet]
  by_cases hhit : s.isolated = false ∧ (s.cache.get k).1 ≠ none
  · rw [if_pos hhit]
    exact h.recache (h.cache.get k) h.size
  · rw [if_neg hhit]
    refine ⟨h.stack, h.isolated, h.shape, h.cache, h.size, fun hi read hread => ?_⟩
    rcases List.mem_cons.mp hread with rfl | hread
    · exact hregular hi
    · exact h.reading hi read hread

/-- What a reader puts into the cache is still committed: a commit waits for the end of the read,
and a writing transaction that was begun meanwhile keeps the cache to itself. -/
theorem Inv.readerFill (h : Inv s) (r : ρ) : Inv (s.readerFill r) := by
  rw [AccessorDb.readerFill]
  cases hfind : s.reading.find? fun read => read.1 = r with
  | none => exact h
  | some read =>
      have hrest : Inv { s with reading := s.reading.eraseP fun read => read.1 = r } :=
        ⟨h.stack, h.isolated, h.shape, h.cache, h.size, fun hi other hother =>
          h.reading hi other (List.mem_of_mem_eraseP hother)⟩
      simp only
      cases hres : read.2.2 with
      | none => exact hrest
      | some v =>
          simp only
          by_cases hi : s.isolated = true
          · rw [if_pos hi]
            exact hrest
          · rw [if_neg hi]
            have hi' : s.isolated = false := by simpa using hi
            have hread := h.reading hi' read (List.mem_of_find?_eq_some hfind)
            have hv : s.view.lookup read.2.1 = some v := by
              rw [h.view_eq hi', ← hread, hres]
            exact hrest.recache (h.cache.set hv) h.size

/-- A regular call keeps the caches coherent. -/
theorem Inv.step (h : Inv s) {call : AccessorCall κ ν ρ} (hregular : s.Regular call) :
    Inv (s.step call) := by
  cases call with
  | beginTransaction readOnly => exact h.beginTransaction hregular
  | commitTransaction => exact h.commitTransaction
  | abortTransaction throughAccessor => exact h.abortTransaction hregular.1 hregular.2
  | set k v => exact h.set hregular
  | erase k => exact h.erase k
  | clear => exact h.clear
  | pushBack v => exact (h.size_call fun _ => rfl).set hregular
  | popBack => exact (h.size_call fun _ => rfl).erase _
  | get k => exact h.get k
  | size => exact h.size_call fun _ => rfl
  | readerBegin r => exact ⟨h.stack, h.isolated, h.shape, h.cache, h.size, h.reading⟩
  | readerCommit r => exact ⟨h.stack, h.isolated, h.shape, h.cache, h.size, h.reading⟩
  | readerGet r k => exact h.readerGet hregular
  | readerFill r => exact h.readerFill r
  | readerSize r => exact h.size_call (h.readerSize_eq hregular)

/-- In a run of regular calls every read returns what its thread sees. -/
theorem Inv.run_truthful (h : Inv s) (before : List (AccessorCall κ ν ρ))
    {call : AccessorCall κ ν ρ} {after : List (AccessorCall κ ν ρ)}
    (hregular : s.RegularRun (before ++ call :: after)) : (s.run before).Truthful call := by
  induction before generalizing s with
  | nil => exact h.truthful hregular.1
  | cons first before ih => exact ih (h.step hregular.1) hregular.2

/-- In every run of regular calls each read returns what its thread sees in the backend. -/
theorem cached_reads_truthful (index : Nat → κ) (committed : FiniteStore κ ν)
    (allowedElements : Nat) (before : List (AccessorCall κ ν ρ)) (call : AccessorCall κ ν ρ)
    (after : List (AccessorCall κ ν ρ))
    (hregular : (start index committed allowedElements : AccessorDb κ ν ρ).RegularRun
      (before ++ call :: after)) :
    ((start index committed allowedElements).run before).Truthful call :=
  (inv_start index committed allowedElements).run_truthful before hregular

/-- A run with nested transactions, an abort of the outermost one and a reader. -/
theorem cached_reads_truthful_sample :
    ((start id ∅ 10000 : AccessorDb Nat Nat Nat).run
      [.beginTransaction false, .set 1 5, .beginTransaction false, .pushBack 7, .commitTransaction,
        .commitTransaction, .beginTransaction false, .set 1 6, .abortTransaction true,
        .readerBegin 0, .readerGet 0 1, .readerFill 0]).Truthful (.get 1) :=
  cached_reads_truthful id ∅ 10000
    [.beginTransaction false, .set 1 5, .beginTransaction false, .pushBack 7, .commitTransaction,
      .commitTransaction, .beginTransaction false, .set 1 6, .abortTransaction true,
      .readerBegin 0, .readerGet 0 1, .readerFill 0] (.get 1) []
    ⟨fun _ => by decide, Or.inl rfl, fun _ => by decide, Or.inl rfl, trivial, trivial,
      fun _ => by decide, Or.inl rfl,
      ⟨fun h => absurd h (by decide), Or.inl rfl⟩, trivial, fun _ => by decide, trivial, trivial,
      trivial⟩

/-- An abort of an inner transaction leaves its value in the cache, an abort past the accessor
leaves the size, a reader that began before a commit gets what the cache has after it, and a value
that the backend has refused is read from the cache. -/
theorem cached_reads_lie :
    (¬ ((start id ∅ 10000 : AccessorDb Nat Nat Nat).run
      [.beginTransaction false, .beginTransaction false, .set 1 5, .abortTransaction true]).Truthful
        (.get 1)) ∧
    (¬ ((start id ∅ 10000 : AccessorDb Nat Nat Nat).run
      [.beginTransaction false, .set 1 5, .size, .abortTransaction false]).Truthful .size) ∧
    (¬ ((start id ∅ 10000 : AccessorDb Nat Nat Nat).run
      [.readerBegin 0, .beginTransaction false, .set 1 5, .commitTransaction]).Truthful
        (.readerGet 0 1)) ∧
    ¬ ((start id ∅ 10000 : AccessorDb Nat Nat Nat).run [.set 1 5]).Truthful (.get 1) := by
  decide

end AccessorDb
end Chinet
