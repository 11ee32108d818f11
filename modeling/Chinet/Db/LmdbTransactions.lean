import Chinet.Lib.RecursiveMutex
import Chinet.Lib.RunInvariant
import Mathlib.Logic.Function.Basic
import Mathlib.Data.List.Nodup

/-!
# The transactions of the LMDB backend

`lmdb_db_backend::begin_transaction`, `commit_transaction` and `abort_transaction`,
called by any number of threads.  What a call does under `m_cs`, and each call of the
library, is one step; taking and releasing `m_write_exclusive_lock` are steps of their
own, so that the calls of other threads may come in between.
-/

namespace Chinet

/-! ## Data -/

/-- `ptx` is the number of the native transaction, in the order of their begin. -/
structure TxEntry where
  ptx : Nat
  readOnly : Bool
  count : Nat
deriving DecidableEq

/-- Where a thread is in a call. -/
inductive LmdbCall where
  | outside
  /-- In a `begin_transaction(false)` that has taken the write lock. -/
  | locked
  /-- The entry is taken from `m_txs`, and its native transaction has to end. -/
  | popped (txe : TxEntry) (commit : Bool)
  /-- The native write transaction has ended. -/
  | unlocking
deriving DecidableEq

/-- `m_txs` has the newest entry of a thread first.  The last four fields are not in
the source: what each thread does, the native transactions of the calls that it has
begun and not ended, how often a native transaction was ended, and how often the write
lock was released by a thread that does not hold it. -/
structure LmdbState (θ : Type) where
  writeExclusiveLock : RecursiveMutex θ
  txs : θ → List TxEntry
  nextTx : Nat
  call : θ → LmdbCall
  uses : θ → List Nat
  ended : Nat → Nat
  wrongReleases : Nat

/-- One step of a thread.  `ok` is the result of `mdb_txn_begin` or `mdb_txn_commit`,
where the step calls it. -/
inductive LmdbStep (θ : Type) where
  | lockWrite (t : θ)
  | beginTransaction (t : θ) (readOnly ok : Bool)
  | popTxEntry (t : θ) (commit : Bool)
  | endNative (t : θ) (ok : Bool)
  | unlockWrite (t : θ)

/-- The part of `pop_tx_entry` that decides if the entry goes. -/
def TxEntry.removed (txe : TxEntry) : Bool :=
  (txe.readOnly && txe.count < 2) || (!txe.readOnly && txe.count < 1)

/-- The test of `commit_transaction` and `abort_transaction`. -/
def TxEntry.endsNative (txe : TxEntry) : Bool :=
  txe.count == 0 || (txe.readOnly && txe.count == 1)

/-- The calls that an entry stands for. -/
def TxEntry.uses (txe : TxEntry) : List Nat :=
  List.replicate (if txe.readOnly then txe.count else txe.count + 1) txe.ptx

theorem TxEntry.removed_eq_endsNative (txe : TxEntry) : txe.removed = txe.endsNative := by
  cases txe with
  | mk ptx readOnly count =>
      rcases count with _ | _ | count <;> cases readOnly <;> simp [removed, endsNative]

namespace LmdbState

variable {θ : Type} [DecidableEq θ]

def init : LmdbState θ where
  writeExclusiveLock := .free
  txs _ := []
  nextTx := 0
  call _ := .outside
  uses _ := []
  ended _ := 0
  wrongReleases := 0

/-! ## Steps -/

/-- `CRITICAL_SECTION_UNLOCK(m_write_exclusive_lock)` -/
def release (t : θ) (s : LmdbState θ) : LmdbState θ :=
  match s.writeExclusiveLock.unlock t with
  | some lock => { s with writeExclusiveLock := lock }
  | none => { s with wrongReleases := s.wrongReleases + 1 }

def setCall (t : θ) (c : LmdbCall) (s : LmdbState θ) : LmdbState θ :=
  { s with call := Function.update s.call t c }

def setTxs (t : θ) (l : List TxEntry) (s : LmdbState θ) : LmdbState θ :=
  { s with txs := Function.update s.txs t l }

def setUses (t : θ) (l : List Nat) (s : LmdbState θ) : LmdbState θ :=
  { s with uses := Function.update s.uses t l }

@[simp] theorem setCall_call (t : θ) (c : LmdbCall) (s : LmdbState θ) :
    (s.setCall t c).call t = c := Function.update_self ..

@[simp] theorem setCall_txs (t : θ) (c : LmdbCall) (s : LmdbState θ) :
    (s.setCall t c).txs = s.txs := rfl

@[simp] theorem setCall_uses (t : θ) (c : LmdbCall) (s : LmdbState θ) :
    (s.setCall t c).uses = s.uses := rfl

@[simp] theorem setTxs_txs (t : θ) (l : List TxEntry) (s : LmdbState θ) :
    (s.setTxs t l).txs t = l := Function.update_self ..

@[simp] theorem setUses_uses (t : θ) (l : List Nat) (s : LmdbState θ) :
    (s.setUses t l).uses t = l := Function.update_self ..

@[simp] theorem setUses_txs (t : θ) (l : List Nat) (s : LmdbState θ) :
    (s.setUses t l).txs = s.txs := rfl

/-- One more end of a native transaction. -/
def countEnd (n : Nat) (s : LmdbState θ) : LmdbState θ :=
  { s with ended := Function.update s.ended n (s.ended n + 1) }

/-- `++rtxlist.back().count` -/
def countReader (t : θ) (txe : TxEntry) (rest : List TxEntry) (s : LmdbState θ) : LmdbState θ :=
  (s.setTxs t ({ txe with count := txe.count + 1 } :: rest)).setUses t (txe.ptx :: s.uses t)

def pushEntry (t : θ) (readOnly : Bool) (s : LmdbState θ) : LmdbState θ :=
  { (s.setTxs t (⟨s.nextTx, readOnly, if readOnly then 1 else 0⟩ :: s.txs t)).setUses t
      (s.nextTx :: s.uses t) with nextTx := s.nextTx + 1 }

/-- The part of `begin_transaction` under `m_cs`.  If the library does not begin the
transaction, the write lock is released before the exception, also in a call that is
read-only and has not taken it. -/
def beginLocked (t : θ) (readOnly ok : Bool) (s : LmdbState θ) : LmdbState θ :=
  match s.txs t, readOnly with
  | txe :: rest, true => s.countReader t txe rest
  | _, _ => if ok then s.pushEntry t readOnly else s.release t

/-- `pop_tx_entry`, with what its callers make of the entry. -/
def pop (t : θ) (commit : Bool) (s : LmdbState θ) : LmdbState θ :=
  match s.txs t with
  | [] => s
  | txe :: rest =>
      let left := if txe.removed then rest else { txe with count := txe.count - 1 } :: rest
      let s' := (s.setTxs t left).setUses t (s.uses t).tail
      if txe.endsNative then s'.setCall t (.popped txe commit) else s'

/-- A thread that has to wait, or is elsewhere, does not move. -/
def step (s : LmdbState θ) : LmdbStep θ → LmdbState θ
  | .lockWrite t =>
      match s.call t, s.writeExclusiveLock.lock t with
      | .outside, some lock => { s with writeExclusiveLock := lock }.setCall t .locked
      | _, _ => s
  | .beginTransaction t readOnly ok =>
      match s.call t, readOnly with
      | .outside, true => s.beginLocked t true ok
      | .locked, false => (s.beginLocked t false ok).setCall t .outside
      | _, _ => s
  | .popTxEntry t commit =>
      match s.call t with
      | .outside => s.pop t commit
      | _ => s
  | .endNative t ok =>
      match s.call t with
      | .popped txe commit =>
          let s' := s.countEnd txe.ptx
          if commit && !ok then s'.setCall t .outside
          else if !txe.readOnly && txe.count == 0 then s'.setCall t .unlocking
          else s'.setCall t .outside
      | _ => s
  | .unlockWrite t =>
      match s.call t with
      | .unlocking => (s.release t).setCall t .outside
      | _ => s

def run (s : LmdbState θ) (steps : List (LmdbStep θ)) : LmdbState θ := steps.foldl step s

/-! ## What the steps keep -/

def openWrites (s : LmdbState θ) (t : θ) : Nat := (s.txs t).countP fun txe => !txe.readOnly

/-- The write lock is held for an entry that is not there yet, or is gone already. -/
def underWay (s : LmdbState θ) (t : θ) : Nat :=
  match s.call t with
  | .outside => 0
  | .locked => 1
  | .popped txe _ => if txe.readOnly then 0 else 1
  | .unlocking => 1

/-- The native transaction whose last use is over and that has to end now. -/
def pending (s : LmdbState θ) (t : θ) : List Nat :=
  match s.call t with
  | .popped txe _ => [txe.ptx]
  | _ => []

/-- The native transactions that a thread has to end. -/
def handles (s : LmdbState θ) (t : θ) : List Nat := s.pending t ++ (s.txs t).map TxEntry.ptx

/-- What holds of one thread. -/
structure ThreadAccounted (s : LmdbState θ) (t : θ) : Prop where
  counted : ∀ txe ∈ s.txs t, txe.readOnly = true → 0 < txe.count
  uses : s.uses t = (s.txs t).flatMap TxEntry.uses
  popped : ∀ txe commit, s.call t = .popped txe commit → txe.endsNative = true

/-- Every native transaction has one place where it will end, or has ended once. -/
structure HandlesAccounted (handles : θ → List Nat) (nextTx : Nat) (ended : Nat → Nat) : Prop where
  nodup : ∀ t, (handles t).Nodup
  apart : ∀ t u n, n ∈ handles t → n ∈ handles u → t = u
  fresh : ∀ t, ∀ n ∈ handles t, n < nextTx
  ended : ∀ n, ended n ≤ 1 ∧ (ended n = 1 ↔ n < nextTx ∧ ∀ t, n ∉ handles t)

structure Accounted (s : LmdbState θ) : Prop where
  thread : ∀ t, s.ThreadAccounted t
  native : HandlesAccounted s.handles s.nextTx s.ended

theorem HandlesAccounted.begin {handles : θ → List Nat} {nextTx : Nat} {ended : Nat → Nat}
    (h : HandlesAccounted handles nextTx ended) (t : θ) :
    HandlesAccounted (Function.update handles t (nextTx :: handles t)) (nextTx + 1) ended := by
  have hmem : ∀ u n, n ∈ Function.update handles t (nextTx :: handles t) u ↔
      n ∈ handles u ∨ u = t ∧ n = nextTx := by
    intro u n
    by_cases hu : u = t
    · subst hu
      simp [or_comm]
    · simp [hu]
  have hnew : ∀ u, nextTx ∉ handles u := fun u hu => Nat.lt_irrefl _ (h.fresh u _ hu)
  refine ⟨fun u => ?_, fun u v n hu hv => ?_, fun u n hu => ?_, fun n => ⟨(h.ended n).1, ?_⟩⟩
  · by_cases hut : u = t
    · subst hut
      rw [Function.update_self]
      exact List.nodup_cons.mpr ⟨hnew u, h.nodup u⟩
    · rw [Function.update_of_ne hut]
      exact h.nodup u
  · rcases (hmem u n).mp hu with hold | ⟨hut, hn⟩
    · rcases (hmem v n).mp hv with hold' | ⟨-, hn⟩
      · exact h.apart u v n hold hold'
      · exact absurd (hn ▸ hold) (hnew u)
    · rcases (hmem v n).mp hv with hold | ⟨hvt, -⟩
      · exact absurd (hn ▸ hold) (hnew v)
      · rw [hut, hvt]
  · rcases (hmem u n).mp hu with hu | ⟨rfl, rfl⟩
    · exact Nat.lt_succ_of_lt (h.fresh u n hu)
    · exact Nat.lt_succ_self _
  · rw [(h.ended n).2]
    constructor
    · rintro ⟨hlt, hfree⟩
      refine ⟨Nat.lt_succ_of_lt hlt, fun u hu => ?_⟩
      rcases (hmem u n).mp hu with hu | ⟨rfl, rfl⟩
      · exact hfree u hu
      · exact Nat.lt_irrefl _ hlt
    · rintro ⟨hlt, hfree⟩
      have hne : n ≠ nextTx := fun hn => hfree t ((hmem t n).mpr (Or.inr ⟨rfl, hn⟩))
      exact ⟨by omega, fun u hu => hfree u ((hmem u n).mpr (Or.inl hu))⟩

theorem HandlesAccounted.finish {handles : θ → List Nat} {nextTx n : Nat} {ended : Nat → Nat}
    {t : θ} {rest : List Nat} (h : HandlesAccounted handles nextTx ended)
    (ht : handles t = n :: rest) :
    HandlesAccounted (Function.update handles t rest) nextTx
      (Function.update ended n (ended n + 1)) := by
  have hnodup := ht ▸ h.nodup t
  have hout : n ∉ rest := (List.nodup_cons.mp hnodup).1
  have hmem : ∀ u m, m ∈ Function.update handles t rest u ↔ m ∈ handles u ∧ m ≠ n := by
    intro u m
    by_cases hu : u = t
    · subst hu
      rw [Function.update_self, ht, List.mem_cons]
      constructor
      · intro hm
        exact ⟨Or.inr hm, fun hmn => hout (hmn ▸ hm)⟩
      · rintro ⟨hm | hm, hne⟩
        · exact absurd hm hne
        · exact hm
    · rw [Function.update_of_ne hu]
      refine (and_iff_left_of_imp fun hm hmn => hu ?_).symm
      exact h.apart u t n (hmn ▸ hm) (ht ▸ List.mem_cons_self)
  refine ⟨fun u => ?_, fun u v m hu hv => h.apart u v m ((hmem u m).mp hu).1 ((hmem v m).mp hv).1,
    fun u m hu => h.fresh u m ((hmem u m).mp hu).1, fun m => ?_⟩
  · by_cases hut : u = t
    · subst hut
      rw [Function.update_self]
      exact (List.nodup_cons.mp hnodup).2
    · rw [Function.update_of_ne hut]
      exact h.nodup u
  · by_cases hmn : m = n
    · subst hmn
      have hopen : ended m = 0 := by
        have hle := (h.ended m).1
        have hone : ended m ≠ 1 := fun hone =>
          ((h.ended m).2.mp hone).2 t (ht ▸ List.mem_cons_self)
        omega
      rw [Function.update_self, hopen]
      refine ⟨Nat.le_refl 1, fun _ => ⟨h.fresh t m (ht ▸ List.mem_cons_self), fun u hu => ?_⟩, fun _ => rfl⟩
      exact ((hmem u m).mp hu).2 rfl
    · rw [Function.update_of_ne hmn]
      refine ⟨(h.ended m).1, (h.ended m).2.trans (and_congr_right fun _ => forall_congr' fun u => ?_)⟩
      rw [hmem, not_and_not_right]
      exact ⟨fun hm hm' => absurd hm' hm, fun hm hm' => absurd (hm hm') hmn⟩

/-! ## One thread moves -/

/-- The other threads are where they were. -/
def SameElsewhere (t : θ) (s s' : LmdbState θ) : Prop :=
  ∀ u, u ≠ t → s'.txs u = s.txs u ∧ s'.call u = s.call u ∧ s'.uses u = s.uses u

theorem SameElsewhere.handles_eq {t : θ} {s s' : LmdbState θ} (h : SameElsewhere t s s') :
    s'.handles = Function.update s.handles t (s'.handles t) := by
  funext u
  by_cases hu : u = t
  · subst hu
    rw [Function.update_self]
  · obtain ⟨htxs, hcall, -⟩ := h u hu
    rw [Function.update_of_ne hu, handles, handles, pending, pending, htxs, hcall]

/-- The native transactions of the moving thread decide how the account goes on. -/
theorem Accounted.move {t : θ} {s s' : LmdbState θ} (hs : s.Accounted)
    (h : SameElsewhere t s s') (ht : s'.ThreadAccounted t)
    (hnative : HandlesAccounted (Function.update s.handles t (s'.handles t)) s'.nextTx s'.ended) :
    s'.Accounted where
  thread u := by
    by_cases hu : u = t
    · exact hu ▸ ht
    · obtain ⟨htxs, hcall, huses⟩ := h u hu
      have hold := hs.thread u
      exact ⟨htxs ▸ hold.counted, by rw [huses, htxs, hold.uses], hcall ▸ hold.popped⟩
  native := h.handles_eq ▸ hnative

theorem Accounted.stay {t : θ} {s s' : LmdbState θ} (hs : s.Accounted)
    (h : SameElsewhere t s s') (ht : s'.ThreadAccounted t) (hhandles : s'.handles t = s.handles t)
    (hnext : s'.nextTx = s.nextTx) (hended : s'.ended = s.ended) : s'.Accounted := by
  refine hs.move h ht ?_
  rw [hhandles, Function.update_eq_self, hnext, hended]
  exact hs.native

theorem release_spec (t : θ) (s : LmdbState θ) :
    (s.release t).txs = s.txs ∧ (s.release t).call = s.call ∧ (s.release t).uses = s.uses ∧
      (s.release t).nextTx = s.nextTx ∧ (s.release t).ended = s.ended := by
  unfold release
  cases s.writeExclusiveLock.unlock t <;> exact ⟨rfl, rfl, rfl, rfl, rfl⟩

omit [DecidableEq θ] in
/-- A step of the lock alone. -/
theorem Accounted.congr {s s' : LmdbState θ} (hs : s.Accounted) (htxs : s'.txs = s.txs)
    (hcall : s'.call = s.call) (huses : s'.uses = s.uses) (hnext : s'.nextTx = s.nextTx)
    (hended : s'.ended = s.ended) : s'.Accounted := by
  refine ⟨fun t => ?_, ?_⟩
  · have hold := hs.thread t
    exact ⟨htxs ▸ hold.counted, by rw [huses, htxs, hold.uses], hcall ▸ hold.popped⟩
  · have hhandles : s'.handles = s.handles := by
      funext t
      rw [handles, handles, pending, pending, htxs, hcall]
    rw [hhandles, hnext, hended]
    exact hs.native

theorem Accounted.release {s : LmdbState θ} (hs : s.Accounted) (t : θ) :
    (s.release t).Accounted := by
  obtain ⟨htxs, hcall, huses, hnext, hended⟩ := release_spec t s
  exact hs.congr htxs hcall huses hnext hended

theorem Accounted.setCall {s : LmdbState θ} (hs : s.Accounted) {t : θ} {c : LmdbCall}
    (hold : s.pending t = []) (hc : ∀ txe commit, c ≠ .popped txe commit) :
    (s.setCall t c).Accounted := by
  have hpending : (s.setCall t c).pending t = [] := by
    rw [pending, setCall_call]
    cases c with
    | popped txe commit => exact absurd rfl (hc txe commit)
    | outside | locked | unlocking => rfl
  refine hs.stay (t := t) (fun u hu => ⟨rfl, Function.update_of_ne hu _ _, rfl⟩)
    ⟨(hs.thread t).counted, (hs.thread t).uses, fun txe commit h => ?_⟩ ?_ rfl rfl
  · rw [setCall_call] at h
    exact absurd h (hc txe commit)
  · rw [handles, hpending, handles, hold]
    rfl

omit [DecidableEq θ] in
theorem pending_of_call {s : LmdbState θ} {t : θ} (h : ∀ txe commit, s.call t ≠ .popped txe commit) :
    s.pending t = [] := by
  unfold pending
  cases hc : s.call t with
  | popped txe commit => exact absurd hc (h txe commit)
  | outside | locked | unlocking => rfl

/-! ## Begin -/

theorem beginLocked_cases (t : θ) (readOnly ok : Bool) (s : LmdbState θ) :
    (∃ txe rest, s.txs t = txe :: rest ∧ readOnly = true ∧
        s.beginLocked t readOnly ok = s.countReader t txe rest) ∨
      (s.txs t = [] ∨ readOnly = false) ∧
        s.beginLocked t readOnly ok = if ok then s.pushEntry t readOnly else s.release t := by
  unfold beginLocked
  cases htxs : s.txs t with
  | nil => exact Or.inr ⟨Or.inl rfl, rfl⟩
  | cons txe rest =>
      cases readOnly with
      | true => exact Or.inl ⟨txe, rest, rfl, rfl, rfl⟩
      | false => exact Or.inr ⟨Or.inr rfl, rfl⟩

/-- One more reader is counted in the newest entry. -/
theorem Accounted.countReader {s : LmdbState θ} (hs : s.Accounted) {t : θ} {txe : TxEntry}
    {rest : List TxEntry} (htxs : s.txs t = txe :: rest) : (s.countReader t txe rest).Accounted := by
  have hold := hs.thread t
  have hnew : (s.countReader t txe rest).txs t = { txe with count := txe.count + 1 } :: rest :=
    Function.update_self ..
  refine hs.stay (t := t)
    (fun u hu => ⟨Function.update_of_ne hu _ _, rfl, Function.update_of_ne hu _ _⟩)
    ⟨fun e he hro => ?_, ?_, hold.popped⟩ ?_ rfl rfl
  · rw [hnew] at he
    rcases List.mem_cons.mp he with rfl | he
    · exact Nat.succ_pos _
    · exact hold.counted e (htxs ▸ List.mem_cons_of_mem _ he) hro
  · have huses : (s.countReader t txe rest).uses t = txe.ptx :: s.uses t :=
      Function.update_self ..
    rw [huses, hnew, hold.uses, htxs, List.flatMap_cons, List.flatMap_cons, ← List.cons_append]
    congr 1
    cases hro : txe.readOnly <;> simp [TxEntry.uses, hro, List.replicate_succ]
  · rw [handles, hnew, handles, htxs]
    rfl

theorem Accounted.pushEntry {s : LmdbState θ} (hs : s.Accounted) {t : θ} (readOnly : Bool)
    (hpending : s.pending t = []) : (s.pushEntry t readOnly).Accounted := by
  have hold := hs.thread t
  have hnew : (s.pushEntry t readOnly).txs t =
      ⟨s.nextTx, readOnly, if readOnly then 1 else 0⟩ :: s.txs t := Function.update_self ..
  refine hs.move (t := t)
    (fun u hu => ⟨Function.update_of_ne hu _ _, rfl, Function.update_of_ne hu _ _⟩)
    ⟨fun e he hro => ?_, ?_, hold.popped⟩ ?_
  · rw [hnew] at he
    rcases List.mem_cons.mp he with rfl | he
    · simp only at hro
      simp [hro]
    · exact hold.counted e he hro
  · have huses : (s.pushEntry t readOnly).uses t = s.nextTx :: s.uses t := Function.update_self ..
    rw [huses, hnew, hold.uses, List.flatMap_cons]
    cases readOnly <;> rfl
  · have hhandles : (s.pushEntry t readOnly).handles t = s.nextTx :: s.handles t := by
      have hpending' : (s.pushEntry t readOnly).pending t = [] := hpending
      rw [handles, hpending', hnew, handles, hpending]
      rfl
    rw [hhandles]
    exact hs.native.begin t

theorem Accounted.beginLocked {s : LmdbState θ} (hs : s.Accounted) {t : θ} (readOnly ok : Bool)
    (hpending : s.pending t = []) : (s.beginLocked t readOnly ok).Accounted := by
  rcases beginLocked_cases t readOnly ok s with ⟨txe, rest, htxs, -, heq⟩ | ⟨-, heq⟩
  · rw [heq]
    exact hs.countReader htxs
  · rw [heq]
    cases ok with
    | true => exact hs.pushEntry readOnly hpending
    | false => exact hs.release t

theorem beginLocked_call (t : θ) (readOnly ok : Bool) (s : LmdbState θ) :
    (s.beginLocked t readOnly ok).call = s.call := by
  rcases beginLocked_cases t readOnly ok s with ⟨txe, rest, -, -, heq⟩ | ⟨-, heq⟩
  · rw [heq]
    rfl
  · rw [heq]
    cases ok with
    | true => rfl
    | false => exact (release_spec t s).2.1

/-! ## Commit and abort -/

/-- The entry goes exactly if its native transaction ends. -/
theorem pop_cases (t : θ) (commit : Bool) (s : LmdbState θ) :
    s.txs t = [] ∧ s.pop t commit = s ∨
      ∃ txe rest, s.txs t = txe :: rest ∧
        (txe.endsNative = true ∧ s.pop t commit =
            ((s.setTxs t rest).setUses t (s.uses t).tail).setCall t (.popped txe commit) ∨
          txe.endsNative = false ∧ s.pop t commit =
            (s.setTxs t ({ txe with count := txe.count - 1 } :: rest)).setUses t
              (s.uses t).tail) := by
  unfold pop
  cases htxs : s.txs t with
  | nil => exact Or.inl ⟨rfl, rfl⟩
  | cons txe rest =>
      refine Or.inr ⟨txe, rest, rfl, ?_⟩
      dsimp only
      rw [txe.removed_eq_endsNative]
      cases txe.endsNative with
      | true => exact Or.inl ⟨rfl, rfl⟩
      | false => exact Or.inr ⟨rfl, rfl⟩

theorem TxEntry_uses_of_endsNative {txe : TxEntry} (h : txe.endsNative = true)
    (hcount : txe.readOnly = true → 0 < txe.count) : txe.uses = [txe.ptx] := by
  cases hro : txe.readOnly with
  | true =>
      have hone : txe.count = 1 := by
        have hpos := hcount hro
        simp [TxEntry.endsNative, hro] at h
        omega
      simp [TxEntry.uses, hro, hone]
  | false =>
      have hzero : txe.count = 0 := by simpa [TxEntry.endsNative, hro] using h
      simp [TxEntry.uses, hro, hzero]

theorem Accounted.pop {s : LmdbState θ} (hs : s.Accounted) {t : θ} (commit : Bool)
    (hcall : s.call t = .outside) : (s.pop t commit).Accounted := by
  have hold := hs.thread t
  have hpending : s.pending t = [] := by
    rw [pending, hcall]
  rcases pop_cases t commit s with ⟨-, heq⟩ | ⟨txe, rest, htxs, ⟨hends, heq⟩ | ⟨hends, heq⟩⟩
  · rw [heq]
    exact hs
  · have hcount := hold.counted txe (htxs ▸ List.mem_cons_self)
    have huses := TxEntry_uses_of_endsNative hends hcount
    rw [heq]
    refine hs.stay (t := t) (fun u hu => ⟨Function.update_of_ne hu _ _,
      Function.update_of_ne hu _ _, Function.update_of_ne hu _ _⟩) ⟨?_, ?_, ?_⟩ ?_ rfl rfl
    · intro e he hro
      have he' : e ∈ rest := by simpa using he
      exact hold.counted e (htxs ▸ List.mem_cons_of_mem _ he') hro
    · simp [hold.uses, htxs, huses]
    · intro e c h
      have h' : LmdbCall.popped txe commit = .popped e c := by
        simpa using h
      cases h'
      exact hends
    · rw [handles, handles, hpending, htxs, pending]
      simp
  · rw [heq]
    refine hs.stay (t := t) (fun u hu => ⟨Function.update_of_ne hu _ _, rfl,
      Function.update_of_ne hu _ _⟩) ⟨?_, ?_, ?_⟩ ?_ rfl rfl
    · intro e he hro
      have he' : e = { txe with count := txe.count - 1 } ∨ e ∈ rest := by
        simpa using he
      rcases he' with rfl | he'
      · have hmore : txe.count ≠ 0 ∧ txe.count ≠ 1 := by
          have hro' : txe.readOnly = true := hro
          simpa [TxEntry.endsNative, hro'] using hends
        show 0 < txe.count - 1
        omega
      · exact hold.counted e (htxs ▸ List.mem_cons_of_mem _ he') hro
    · have hpos : txe.count ≠ 0 := by
        intro hzero
        simp [TxEntry.endsNative, hzero] at hends
      obtain ⟨n, hn⟩ := Nat.exists_eq_succ_of_ne_zero hpos
      have huses : txe.uses = txe.ptx :: TxEntry.uses { txe with count := txe.count - 1 } := by
        cases hro : txe.readOnly <;> simp [TxEntry.uses, hro, hn, List.replicate_succ]
      simp [hold.uses, htxs, huses]
    · intro e c h
      exact hold.popped e c h
    · have hsame : s.pending t =
          ((s.setTxs t ({ txe with count := txe.count - 1 } :: rest)).setUses t
            (s.uses t).tail).pending t := rfl
      rw [handles, handles, ← hsame, htxs]
      simp

/-- The native transaction of an entry that is gone ends. -/
theorem Accounted.endNative {s : LmdbState θ} (hs : s.Accounted) {t : θ} {txe : TxEntry}
    {commit : Bool} (hcall : s.call t = .popped txe commit) {c : LmdbCall}
    (hc : ∀ txe commit, c ≠ .popped txe commit) :
    ((s.countEnd txe.ptx).setCall t c).Accounted := by
  have hold := hs.thread t
  refine hs.move (t := t) (fun u hu => ⟨rfl, Function.update_of_ne hu _ _, rfl⟩)
    ⟨hold.counted, hold.uses, fun e commit' h => ?_⟩ ?_
  · rw [setCall_call] at h
    exact absurd h (hc e commit')
  · have hbefore : s.handles t = txe.ptx :: (s.txs t).map TxEntry.ptx := by
      rw [handles, pending, hcall]
      rfl
    have hafter : ((s.countEnd txe.ptx).setCall t c).handles t =
        (s.txs t).map TxEntry.ptx := by
      rw [handles, pending_of_call]
      · rfl
      · intro e commit'
        rw [setCall_call]
        exact hc e commit'
    rw [hafter]
    exact hs.native.finish hbefore

/-- The native transactions are accounted for in every run. -/
theorem Accounted.step {s : LmdbState θ} (hs : s.Accounted) (e : LmdbStep θ) :
    (s.step e).Accounted := by
  cases e with
  | lockWrite t =>
      simp only [LmdbState.step]
      cases hcall : s.call t with
      | outside =>
          cases hlock : s.writeExclusiveLock.lock t with
          | none => exact hs
          | some lock =>
              have hs' : ({ s with writeExclusiveLock := lock } : LmdbState θ).Accounted :=
                hs.congr rfl rfl rfl rfl rfl
              refine hs'.setCall (pending_of_call ?_) (by simp)
              simp [hcall]
      | locked | popped | unlocking => exact hs
  | beginTransaction t readOnly ok =>
      simp only [LmdbState.step]
      cases hcall : s.call t with
      | outside =>
          cases readOnly with
          | true => exact hs.beginLocked true ok (pending_of_call (by simp [hcall]))
          | false => exact hs
      | locked =>
          cases readOnly with
          | true => exact hs
          | false =>
              have hfree : ∀ txe commit, s.call t ≠ .popped txe commit := by simp [hcall]
              refine (hs.beginLocked false ok (pending_of_call hfree)).setCall
                (pending_of_call ?_) (by simp)
              rw [beginLocked_call]
              exact hfree
      | popped | unlocking => exact hs
  | popTxEntry t commit =>
      simp only [LmdbState.step]
      cases hcall : s.call t with
      | outside => exact hs.pop commit hcall
      | locked | popped | unlocking => exact hs
  | endNative t ok =>
      simp only [LmdbState.step]
      cases hcall : s.call t with
      | popped txe commit =>
          dsimp only
          by_cases hfail : (commit && !ok) = true
          · rw [if_pos hfail]
            exact hs.endNative hcall (by simp)
          · rw [if_neg hfail]
            by_cases hwrite : (!txe.readOnly && txe.count == 0) = true
            · rw [if_pos hwrite]
              exact hs.endNative hcall (by simp)
            · rw [if_neg hwrite]
              exact hs.endNative hcall (by simp)
      | outside | locked | unlocking => exact hs
  | unlockWrite t =>
      simp only [LmdbState.step]
      cases hcall : s.call t with
      | unlocking =>
          refine (hs.release t).setCall (pending_of_call ?_) (by simp)
          rw [(release_spec t s).2.1]
          simp [hcall]
      | outside | locked | popped => exact hs

theorem Accounted.run {s : LmdbState θ} (hs : s.Accounted) (steps : List (LmdbStep θ)) :
    (s.run steps).Accounted := by
  induction steps generalizing s with
  | nil => exact hs
  | cons e steps ih => exact ih (hs.step e)

/-! ## The write lock -/

/-- A thread holds the write lock once for each write transaction that it has open, and
has never released it without holding it. -/
structure LockSound (s : LmdbState θ) : Prop where
  held : ∀ t, s.writeExclusiveLock.held t = s.openWrites t + s.underWay t
  released : s.wrongReleases = 0

/-- The failures that the backend does not make up for: the begin of a read-only
transaction, and the commit of a write transaction. -/
def Fails (s : LmdbState θ) : LmdbStep θ → Prop
  | .beginTransaction t readOnly ok =>
      readOnly = true ∧ ok = false ∧ s.call t = .outside ∧ s.txs t = []
  | .endNative t ok => ok = false ∧ ∃ txe, s.call t = .popped txe true ∧ txe.readOnly = false
  | _ => False

theorem LockSound.move {t : θ} {s s' : LmdbState θ} (hs : s.LockSound) (h : SameElsewhere t s s')
    (hother : ∀ u, u ≠ t → s'.writeExclusiveLock.held u = s.writeExclusiveLock.held u)
    (ht : s'.writeExclusiveLock.held t = s'.openWrites t + s'.underWay t)
    (hreleases : s'.wrongReleases = s.wrongReleases) : s'.LockSound where
  held u := by
    by_cases hu : u = t
    · exact hu ▸ ht
    · obtain ⟨htxs, hcall, -⟩ := h u hu
      rw [hother u hu, hs.held u, openWrites, openWrites, underWay, underWay, htxs, hcall]
  released := hreleases.trans hs.released

/-- The lock is not touched, and the moving thread owes as much of it as before. -/
theorem LockSound.stay {t : θ} {s s' : LmdbState θ} (hs : s.LockSound) (h : SameElsewhere t s s')
    (hlock : s'.writeExclusiveLock = s.writeExclusiveLock)
    (ht : s'.openWrites t + s'.underWay t = s.openWrites t + s.underWay t)
    (hreleases : s'.wrongReleases = s.wrongReleases) : s'.LockSound :=
  hs.move h (fun u _ => by rw [hlock]) (by rw [hlock, hs.held t, ht]) hreleases

theorem release_of_held {s : LmdbState θ} {t : θ} (h : 0 < s.writeExclusiveLock.held t) :
    ∃ lock, s.release t = { s with writeExclusiveLock := lock } ∧
      ∀ u, s.writeExclusiveLock.held u = lock.held u + if u = t then 1 else 0 := by
  obtain ⟨lock, hlock⟩ := RecursiveMutex.exists_unlock h
  exact ⟨lock, by rw [release, hlock], RecursiveMutex.held_of_unlock hlock⟩

/-- A rightful release goes with one entry or call less. -/
theorem LockSound.releaseCall {s : LmdbState θ} (hs : s.LockSound) {t : θ}
    (hunder : s.underWay t = 1) : ((s.release t).setCall t .outside).LockSound := by
  have hheld := hs.held t
  obtain ⟨lock, hrelease, hlock⟩ := release_of_held (s := s) (t := t) (by omega)
  rw [hrelease]
  refine hs.move (t := t) (fun u hu => ⟨rfl, Function.update_of_ne hu _ _, rfl⟩)
    (fun u hu => ?_) ?_ rfl
  · have hu' := hlock u
    rw [if_neg hu] at hu'
    exact hu'.symm
  · have ht := hlock t
    have hunder' : ({ s with writeExclusiveLock := lock }.setCall t .outside).underWay t = 0 := by
      simp [underWay]
    rw [if_pos rfl] at ht
    rw [hunder']
    show lock.held t = s.openWrites t + 0
    omega

theorem not_lockSound_release {s : LmdbState θ} {t : θ} (h : s.writeExclusiveLock.held t = 0) :
    ¬ (s.release t).LockSound := by
  intro hsound
  have hreleased := hsound.released
  rw [release, RecursiveMutex.unlock_eq_none h] at hreleased
  exact absurd hreleased (Nat.succ_ne_zero _)

theorem LockSound.countReader {s : LmdbState θ} (hs : s.LockSound) {t : θ} {txe : TxEntry}
    {rest : List TxEntry} (htxs : s.txs t = txe :: rest) :
    (s.countReader t txe rest).LockSound := by
  refine hs.stay (t := t)
    (fun u hu => ⟨Function.update_of_ne hu _ _, rfl, Function.update_of_ne hu _ _⟩) rfl ?_ rfl
  have hnew : (s.countReader t txe rest).txs t = { txe with count := txe.count + 1 } :: rest :=
    Function.update_self ..
  rw [openWrites, hnew, openWrites, htxs, List.countP_cons, List.countP_cons]
  rfl

theorem openWrites_pushEntry (s : LmdbState θ) (t : θ) (readOnly : Bool) :
    (s.pushEntry t readOnly).openWrites t = s.openWrites t + if readOnly then 0 else 1 := by
  have hnew : (s.pushEntry t readOnly).txs t =
      ⟨s.nextTx, readOnly, if readOnly then 1 else 0⟩ :: s.txs t := Function.update_self ..
  rw [openWrites, hnew, List.countP_cons]
  cases readOnly <;> rfl

theorem LockSound.pop {s : LmdbState θ} (hs : s.LockSound) {t : θ} (commit : Bool)
    (hcall : s.call t = .outside) : (s.pop t commit).LockSound := by
  have hunder : s.underWay t = 0 := by rw [underWay, hcall]
  rcases pop_cases t commit s with ⟨-, heq⟩ | ⟨txe, rest, htxs, ⟨-, heq⟩ | ⟨-, heq⟩⟩
  · rw [heq]
    exact hs
  · rw [heq]
    refine hs.stay (t := t) (fun u hu => ⟨Function.update_of_ne hu _ _,
      Function.update_of_ne hu _ _, Function.update_of_ne hu _ _⟩) rfl ?_ rfl
    rw [hunder, openWrites, openWrites, htxs, underWay]
    cases hro : txe.readOnly <;> simp [hro]
  · rw [heq]
    refine hs.stay (t := t) (fun u hu => ⟨Function.update_of_ne hu _ _, rfl,
      Function.update_of_ne hu _ _⟩) rfl ?_ rfl
    have hunder' : ((s.setTxs t ({ txe with count := txe.count - 1 } :: rest)).setUses t
        (s.uses t).tail).underWay t = s.underWay t := rfl
    rw [hunder', openWrites, openWrites, htxs, setUses_txs, setTxs_txs, List.countP_cons,
      List.countP_cons]

/-- A begin under `m_cs`, from a call that has taken the lock if it is for writing. -/
theorem lockSound_beginRead_iff {s : LmdbState θ} (hs : s.LockSound) {t : θ} (ok : Bool)
    (hcall : s.call t = .outside) :
    (s.beginLocked t true ok).LockSound ↔ ¬ (ok = false ∧ s.txs t = []) := by
  rcases beginLocked_cases t true ok s with ⟨txe, rest, htxs, -, heq⟩ | ⟨hnil, heq⟩
  · rw [heq, htxs]
    simp [hs.countReader htxs]
  · have htxs : s.txs t = [] := by simpa using hnil
    rw [heq, htxs]
    cases ok with
    | true =>
        have hstay : (s.pushEntry t true).LockSound := by
          refine hs.stay (t := t)
            (fun u hu => ⟨Function.update_of_ne hu _ _, rfl, Function.update_of_ne hu _ _⟩) rfl
            ?_ rfl
          rw [openWrites_pushEntry]
          rfl
        simp [hstay]
    | false =>
        have hheld := hs.held t
        have hzero : s.writeExclusiveLock.held t = 0 := by
          simpa [openWrites, underWay, htxs, hcall] using hheld
        simpa using not_lockSound_release hzero

theorem LockSound.beginWrite {s : LmdbState θ} (hs : s.LockSound) {t : θ} (ok : Bool)
    (hcall : s.call t = .locked) :
    ((s.beginLocked t false ok).setCall t .outside).LockSound := by
  have hunder : s.underWay t = 1 := by rw [underWay, hcall]
  have heq : s.beginLocked t false ok = if ok then s.pushEntry t false else s.release t := by
    unfold beginLocked
    cases s.txs t <;> rfl
  rw [heq]
  cases ok with
  | true =>
      refine hs.stay (t := t) (fun u hu => ⟨Function.update_of_ne hu _ _,
        Function.update_of_ne hu _ _, Function.update_of_ne hu _ _⟩) rfl ?_ rfl
      have hopen : (LmdbState.setCall t .outside (s.pushEntry t false)).openWrites t =
          s.openWrites t + 1 := openWrites_pushEntry s t false
      have hunder' : (LmdbState.setCall t .outside (s.pushEntry t false)).underWay t = 0 := by
        simp [underWay]
      rw [if_pos rfl, hopen, hunder, hunder']
  | false => exact hs.releaseCall hunder

/-- After a failed commit of a write transaction the lock stays held. -/
theorem lockSound_endNative_iff {s : LmdbState θ} (hs : s.LockSound) (ha : s.Accounted) {t : θ}
    {txe : TxEntry} {commit : Bool} (ok : Bool) (hcall : s.call t = .popped txe commit) :
    (s.step (.endNative t ok)).LockSound ↔
      ¬ (ok = false ∧ commit = true ∧ txe.readOnly = false) := by
  have hends := (ha.thread t).popped txe commit hcall
  have hheld := hs.held t
  have hunder : s.underWay t = if txe.readOnly then 0 else 1 := by rw [underWay, hcall]
  -- the thread goes on to the state `c` of its call
  have hgoes : ∀ c, (∀ txe commit, c ≠ .popped txe commit) →
      (((s.countEnd txe.ptx).setCall t c).LockSound ↔
        s.underWay t = ((s.countEnd txe.ptx).setCall t c).underWay t) := by
    intro c _
    constructor
    · intro h
      have ht := h.held t
      have hopen : ((s.countEnd txe.ptx).setCall t c).openWrites t = s.openWrites t := rfl
      have hlock : ((s.countEnd txe.ptx).setCall t c).writeExclusiveLock =
          s.writeExclusiveLock := rfl
      rw [hlock, hopen] at ht
      omega
    · intro h
      refine hs.stay (t := t) (fun u hu => ⟨rfl, Function.update_of_ne hu _ _, rfl⟩) rfl ?_ rfl
      rw [h]
      rfl
  have hout : ((s.countEnd txe.ptx).setCall t .outside).underWay t = 0 := by simp [underWay]
  have hunlock : ((s.countEnd txe.ptx).setCall t .unlocking).underWay t = 1 := by simp [underWay]
  simp only [LmdbState.step, hcall]
  by_cases hfail : (commit && !ok) = true
  · obtain ⟨hcommit, hok⟩ : commit = true ∧ ok = false := by simpa using hfail
    rw [if_pos hfail, hgoes _ (by simp), hout, hunder]
    cases txe.readOnly <;> simp [hcommit, hok]
  · rw [if_neg hfail]
    have hnot : ¬ (ok = false ∧ commit = true ∧ txe.readOnly = false) := by
      rintro ⟨hok, hcommit, -⟩
      exact hfail (by simp [hok, hcommit])
    cases hro : txe.readOnly with
    | true =>
        simp only [Bool.not_true, Bool.false_and, Bool.false_eq_true, if_false]
        rw [hgoes _ (by simp), hout, hunder, hro]
        simp
    | false =>
        have hzero : txe.count = 0 := by simpa [TxEntry.endsNative, hro] using hends
        simp only [Bool.not_false, hzero, beq_self_eq_true, Bool.and_self, if_true]
        rw [hgoes _ (by simp), hunlock, hunder, hro]
        rw [hro] at hnot
        simpa using hnot

/-- One step keeps the lock right exactly if it is none of the two failures. -/
theorem lockSound_step_iff {s : LmdbState θ} (hs : s.LockSound) (ha : s.Accounted)
    (e : LmdbStep θ) : (s.step e).LockSound ↔ ¬ s.Fails e := by
  cases e with
  | lockWrite t =>
      refine iff_of_true ?_ id
      simp only [LmdbState.step]
      cases hcall : s.call t with
      | outside =>
          cases hlock : s.writeExclusiveLock.lock t with
          | none => exact hs
          | some lock =>
              have hheld := RecursiveMutex.held_of_lock hlock
              refine hs.move (t := t) (fun u hu => ⟨rfl, Function.update_of_ne hu _ _, rfl⟩)
                (fun u hu => (hheld u).trans (by rw [if_neg hu]; rfl)) ?_ rfl
              have hunder : s.underWay t = 0 := by rw [underWay, hcall]
              have hunder' : ({ s with writeExclusiveLock := lock }.setCall t .locked).underWay t =
                  1 := by simp [underWay]
              rw [hunder']
              show lock.held t = s.openWrites t + 1
              rw [hheld t, hs.held t, hunder, if_pos rfl]
      | locked | popped | unlocking => exact hs
  | beginTransaction t readOnly ok =>
      simp only [LmdbState.step, Fails]
      cases hcall : s.call t with
      | outside =>
          cases readOnly with
          | true => simpa using lockSound_beginRead_iff hs ok hcall
          | false => simpa using hs
      | locked =>
          cases readOnly with
          | true => simpa using hs
          | false => simpa using hs.beginWrite ok hcall
      | popped | unlocking => simpa using hs
  | popTxEntry t commit =>
      refine iff_of_true ?_ id
      simp only [LmdbState.step]
      cases hcall : s.call t with
      | outside => exact hs.pop commit hcall
      | locked | popped | unlocking => exact hs
  | endNative t ok =>
      cases hcall : s.call t with
      | popped txe commit =>
          rw [lockSound_endNative_iff hs ha ok hcall, Fails, hcall]
          refine not_congr (and_congr_right fun _ => ⟨?_, ?_⟩)
          · rintro ⟨rfl, hro⟩
            exact ⟨txe, rfl, hro⟩
          · rintro ⟨txe', heq, hro⟩
            cases heq
            exact ⟨rfl, hro⟩
      | outside | locked | unlocking => simpa [LmdbState.step, Fails, hcall] using hs
  | unlockWrite t =>
      refine iff_of_true ?_ id
      simp only [LmdbState.step]
      cases hcall : s.call t with
      | unlocking => exact hs.releaseCall (by rw [underWay, hcall])
      | outside | locked | popped => exact hs

/-! ## Runs -/

/-- The lock is right, and every native transaction is ended once, when the last call
that uses it ends. -/
structure Sound (s : LmdbState θ) : Prop where
  lock : s.LockSound
  native : ∀ n, s.ended n ≤ 1 ∧
    (s.ended n = 1 ↔ n < s.nextTx ∧ ∀ t, n ∉ s.uses t ∧ n ∉ s.pending t)

omit [DecidableEq θ] in
theorem mem_uses_iff {s : LmdbState θ} {t : θ} (h : s.ThreadAccounted t) (n : Nat) :
    n ∈ s.uses t ↔ n ∈ (s.txs t).map TxEntry.ptx := by
  rw [h.uses, List.mem_flatMap, List.mem_map]
  refine exists_congr fun txe => and_congr_right fun htxe => ?_
  have hpos : (if txe.readOnly then txe.count else txe.count + 1) ≠ 0 := by
    cases hro : txe.readOnly with
    | true => exact Nat.pos_iff_ne_zero.mp (h.counted txe htxe hro)
    | false => exact Nat.succ_ne_zero _
  rw [TxEntry.uses, List.mem_replicate, and_iff_right hpos, eq_comm]

theorem Accounted.sound_iff {s : LmdbState θ} (hs : s.Accounted) : s.Sound ↔ s.LockSound := by
  refine ⟨Sound.lock, fun hlock => ⟨hlock, fun n => ⟨(hs.native.ended n).1, ?_⟩⟩⟩
  rw [(hs.native.ended n).2]
  refine and_congr_right fun _ => forall_congr' fun t => ?_
  rw [handles, List.mem_append, not_or, mem_uses_iff (hs.thread t), and_comm]

omit [DecidableEq θ] in
theorem accounted_init : (init : LmdbState θ).Accounted where
  thread _ := ⟨fun _ h => absurd h List.not_mem_nil, rfl, fun _ _ h => absurd h (by simp [init])⟩
  native :=
    { nodup := fun _ => List.nodup_nil
      apart := fun _ _ _ h => absurd h List.not_mem_nil
      fresh := fun _ _ h => absurd h List.not_mem_nil
      ended := fun _ => ⟨Nat.zero_le _, by simp [init]⟩ }

theorem lockSound_init : (init : LmdbState θ).LockSound := ⟨fun _ => rfl, rfl⟩

/-- The bookkeeping is sound in every state of a run exactly if no step of it is one of
the two failures. -/
theorem lmdb_transactions_sound_iff (steps : List (LmdbStep θ)) :
    (∀ done rest, steps = done ++ rest → (init.run done).Sound) ↔
      ∀ done e rest, steps = done ++ e :: rest → ¬ (init.run done).Fails e := by
  have hinit : (init : LmdbState θ).Sound := accounted_init.sound_iff.mpr lockSound_init
  refine RunInvariant.forall_states_iff (Q := fun s e => ¬ s.Fails e) hinit
    (fun done e hbefore => ?_) steps
  have haccounted : (done.foldl step init).Accounted := accounted_init.run done
  rw [(haccounted.step e).sound_iff]
  exact lockSound_step_iff hbefore.lock haccounted e

/-- A read-only begin that fails releases a lock that nobody holds, and a failed commit
of a write transaction leaves it held. -/
theorem failed_calls_not_sound :
    ¬ ((init : LmdbState Nat).run [.beginTransaction 0 true false]).Sound ∧
      ¬ ((init : LmdbState Nat).run [.lockWrite 0, .beginTransaction 0 false true,
        .popTxEntry 0 true, .endNative 0 false]).Sound := by
  refine ⟨fun h => ?_, fun h => ?_⟩
  · exact absurd h.lock.released (by decide)
  · exact absurd (h.lock.held 0) (by decide)

end LmdbState

end Chinet
