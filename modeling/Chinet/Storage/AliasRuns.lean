import Chinet.Storage.History

/-!
# The two alias maps in every run

A block that is connected puts alias entries, one that is disconnected pops them
in the reverse order.  So the entries that are in force form a stack, and a run
puts on it or takes off its top.  Through every run the two maps agree, and the
top of the stack can be popped, which leads back to the maps below it.
-/

namespace Chinet

open Procedure FiniteStore

variable {env : Env}

/-- The runs of `put_alias_info` and `pop_alias_info`, with the stack of entries
that are in force.  Between two calls the other containers may change. -/
inductive AliasRun (env : Env) : List ExtraAliasEntry → Db → Prop
  | start {db : Db} (haliases : db.aliases = ∅) (haddrs : db.addrToAlias = ∅) : AliasRun env [] db
  | put {stack : List ExtraAliasEntry} {ai : ExtraAliasEntry} {db db' : Db}
      (hrun : AliasRun env stack db) (hput : putAliasInfo env ai db = (.ok (), db')) :
      AliasRun env (ai :: stack) db'
  | putRefused {stack : List ExtraAliasEntry} {ai : ExtraAliasEntry} {db db' : Db} {failure : Failure}
      (hrun : AliasRun env stack db) (hput : putAliasInfo env ai db = (.error failure, db')) :
      AliasRun env stack db'
  | pop {stack : List ExtraAliasEntry} {ai : ExtraAliasEntry} {db db' : Db}
      (hrun : AliasRun env (ai :: stack) db) (hpop : popAliasInfo ai db = (.ok (), db')) :
      AliasRun env stack db'
  | elsewhere {stack : List ExtraAliasEntry} {db db' : Db} (hrun : AliasRun env stack db)
      (haliases : db'.aliases = db.aliases) (haddrs : db'.addrToAlias = db.addrToAlias) :
      AliasRun env stack db'

/-- A refused entry changes nothing. -/
theorem putAliasInfo_error {ai : ExtraAliasEntry} {db db' : Db} {failure : Failure}
    (h : putAliasInfo env ai db = (.error failure, db')) : db' = db := by
  unfold putAliasInfo at h
  split at h
  · cases h
    rfl
  · split at h
    · cases h
    · split at h
      · split at h
        · cases h
        · cases h
          rfl
      · cases h
        rfl

/-- Consistent maps, each entry of the stack put on top of the maps below it. -/
inductive AliasStack (env : Env) : List ExtraAliasEntry → Db → Prop
  | bottom {db : Db} (haliases : db.aliases = ∅) (haddrs : db.addrToAlias = ∅) :
      AliasStack env [] db
  | entry {stack : List ExtraAliasEntry} {ai : ExtraAliasEntry} {below above db : Db}
      (hbelow : AliasStack env stack below) (hname : ai.mAlias ≠ []) (hput : PutAlias ai below above)
      (haliases : db.aliases = above.aliases) (haddrs : db.addrToAlias = above.addrToAlias) :
      AliasStack env (ai :: stack) db

namespace AliasStack

variable {stack : List ExtraAliasEntry} {db db' : Db}

theorem congr (h : AliasStack env stack db) (haliases : db'.aliases = db.aliases)
    (haddrs : db'.addrToAlias = db.addrToAlias) : AliasStack env stack db' := by
  cases h with
  | bottom hempty hempty' => exact bottom (haliases.trans hempty) (haddrs.trans hempty')
  | entry hbelow hname hput habove habove' =>
      exact entry hbelow hname hput (haliases.trans habove) (haddrs.trans habove')

theorem consistent (h : AliasStack env stack db) : AliasConsistent db := by
  induction h with
  | bottom haliases haddrs =>
      exact LedgerWellFormed.empty.aliases.congr haliases haddrs
  | entry hbelow hname hput haliases haddrs ih =>
      exact (hput.consistent ih).congr haliases haddrs

/-- The top entry can be popped, and the maps below it come back. -/
theorem pop {ai : ExtraAliasEntry} (h : AliasStack env (ai :: stack) db) :
    ∃ below, AliasStack env stack below ∧ popAliasInfo ai db = (.ok (), { db with
      aliases := below.aliases
      addrToAlias := below.addrToAlias }) := by
  cases h with
  | @entry _ _ below above _ hbelow hname hput haliases haddrs =>
      exact ⟨below, hbelow, hput.pop hbelow.consistent hname haliases haddrs⟩

end AliasStack

theorem AliasRun.stack {stack : List ExtraAliasEntry} {db : Db} (h : AliasRun env stack db) :
    AliasStack env stack db := by
  induction h with
  | start haliases haddrs => exact .bottom haliases haddrs
  | put hrun hput ih =>
      obtain ⟨hname, hentry⟩ := putAliasInfo_ok hput
      exact .entry ih hname hentry rfl rfl
  | putRefused hrun hput ih =>
      rw [putAliasInfo_error hput]
      exact ih
  | pop hrun hpop ih =>
      obtain ⟨below, hbelow, happly⟩ := ih.pop
      rw [happly] at hpop
      cases hpop
      exact hbelow.congr rfl rfl
  | elsewhere hrun haliases haddrs ih => exact ih.congr haliases haddrs

/-- The set of every address holds the names whose last entry points at it. -/
structure AliasMapsAgree (db : Db) : Prop where
  sets : ∀ addr name, name ∈ namesOf db.addrToAlias addr ↔
    ∃ last, (db.aliasHistory name).getLast? = some last ∧ last.mAddress = addr
  histories : ∀ name history, db.aliases.lookup name = some history → history ≠ []

theorem AliasConsistent.mapsAgree {db : Db} (h : AliasConsistent db) : AliasMapsAgree db := by
  refine ⟨fun addr name => ?_, h.histories⟩
  rw [h.index, Db.aliasAddress, Option.map_eq_some_iff]

/-- The two alias maps agree in every run and on every reachable main chain; an
entry that was put can be popped, which restores both maps. -/
theorem alias_maps_agree :
    (∀ stack db, AliasRun env stack db → AliasMapsAgree db ∧
      (∀ ai db', putAliasInfo env ai db = (.ok (), db') → popAliasInfo ai db' = (.ok (), db)) ∧
      ∀ ai rest, stack = ai :: rest → ∃ below, AliasMapsAgree below ∧
        popAliasInfo ai db = (.ok (), { db with
          aliases := below.aliases
          addrToAlias := below.addrToAlias })) ∧
    ∀ db, Reachable env db → AliasMapsAgree db := by
  refine ⟨fun stack db h => ⟨h.stack.consistent.mapsAgree, ?_, ?_⟩, fun db h => ?_⟩
  · intro ai db' hput
    obtain ⟨hname, hentry⟩ := putAliasInfo_ok hput
    rw [hentry.pop h.stack.consistent hname rfl rfl]
    cases hentry <;> rfl
  · rintro ai rest rfl
    obtain ⟨below, hbelow, hpop⟩ := h.stack.pop
    exact ⟨below, hbelow.consistent.mapsAgree, hpop⟩
  · obtain ⟨records, hist⟩ := h.history
    exact hist.wellFormed.aliases.mapsAgree

def sampleAlias : ExtraAliasEntry where
  mAlias := [97, 108, 105, 99, 101, 49]
  mAddress := { spendPublicKey := 5, viewPublicKey := 6, flags := 0 }
  mTextComment := []
  mViewKey := []
  mSign := []

/-- Another name for the same address. -/
def sampleAlias' : ExtraAliasEntry := { sampleAlias with mAlias := [97, 108, 105, 99, 101, 50] }

/-- The first name goes over to a second address. -/
def sampleAliasUpdate : ExtraAliasEntry :=
  { sampleAlias with
    mAddress := { spendPublicKey := 7, viewPublicKey := 8, flags := 0 }
    mSign := [1] }

def putAliases (entries : List ExtraAliasEntry) : Db :=
  entries.foldl (fun db ai => (putAliasInfo sampleEnv ai db).2) Db.empty

/-- Two names of one address, one of which is updated and then undone. -/
theorem alias_maps_agree_on_sampleAlias :
    ∃ updated undone, AliasMapsAgree updated ∧ AliasMapsAgree undone ∧
      namesOf updated.addrToAlias sampleAlias.mAddress = {sampleAlias'.mAlias} ∧
      namesOf updated.addrToAlias sampleAliasUpdate.mAddress = {sampleAlias.mAlias} ∧
      namesOf undone.addrToAlias sampleAlias.mAddress = {sampleAlias.mAlias, sampleAlias'.mAlias} ∧
      namesOf undone.addrToAlias sampleAliasUpdate.mAddress = ∅ := by
  have hempty : AliasRun sampleEnv [] Db.empty := .start rfl rfl
  have hname : AliasRun sampleEnv [sampleAlias] (putAliases [sampleAlias]) := hempty.put rfl
  have hnames : AliasRun sampleEnv [sampleAlias', sampleAlias]
      (putAliases [sampleAlias, sampleAlias']) := hname.put rfl
  have hupdate : AliasRun sampleEnv [sampleAliasUpdate, sampleAlias', sampleAlias]
      (putAliases [sampleAlias, sampleAlias', sampleAliasUpdate]) := hnames.put rfl
  have hundo : AliasRun sampleEnv [sampleAlias', sampleAlias]
      (popAliasInfo sampleAliasUpdate (putAliases [sampleAlias, sampleAlias', sampleAliasUpdate])).2 :=
    hupdate.pop rfl
  refine ⟨_, _, (alias_maps_agree.1 _ _ hupdate).1, (alias_maps_agree.1 _ _ hundo).1, ?_⟩
  decide

end Chinet
