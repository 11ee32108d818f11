import Chinet.Lib.RunInvariant
import Chinet.Lib.TwoIndexed
import Mathlib.Data.Finset.Card

/-!
# The peer lists

`peerlist_manager`: the peers that this node has talked to (white) and those that it
has only heard of (gray), each found by its address and ordered by the time at which
it was last seen.
-/

namespace Chinet

/-! ## Data -/

structure NetAddress where
  ip : BitVec 32
  port : BitVec 32
deriving DecidableEq

structure PeerlistEntry where
  adr : NetAddress
  id : BitVec 64
  lastSeen : Int
deriving DecidableEq

/-- `peers_indexed` -/
abbrev PeersIndexed := TwoIndexed PeerlistEntry.adr PeerlistEntry.lastSeen

structure PeerlistManager where
  allowLocalIp : Bool
  peersWhite : PeersIndexed
  peersGray : PeersIndexed

def p2pLocalWhitePeerlistLimit : Nat := 1000

def p2pLocalGrayPeerlistLimit : Nat := 5000

def isIpLoopback (ip : BitVec 32) : Bool := ip ||| 0xffffff00 == 0xffffff7f

/-- The second number of an address stands in the highest byte when it is compared
with 16 and 31, so that no address of the third kind is local. -/
def isIpLocal (ip : BitVec 32) : Bool :=
  if ip ||| 0xffffff00 == 0xffffff0a then true
  else if ip ||| 0xffff0000 == 0xffffa8c0 then true
  else if ip ||| 0xffffff00 == 0xffffffac then
    let secondNum := (ip <<< 8) &&& 0xff000000
    16 ≤ secondNum.toNat && secondNum.toNat ≤ 31
  else false

/-! ## Operations -/

namespace PeerlistManager

/-- `init` without stored lists. -/
def empty (allowLocalIp : Bool) : PeerlistManager := ⟨allowLocalIp, .empty, .empty⟩

def isIpAllowed (m : PeerlistManager) (ip : BitVec 32) : Bool :=
  if isIpLoopback ip then false
  else if !m.allowLocalIp && isIpLocal ip then false
  else true

/-- The source takes the entries from the gray list here. -/
def trimWhitePeerlist (m : PeerlistManager) : PeerlistManager :=
  { m with peersGray := m.peersGray.trim p2pLocalGrayPeerlistLimit }

/-- And from the white list here. -/
def trimGrayPeerlist (m : PeerlistManager) : PeerlistManager :=
  { m with peersWhite := m.peersWhite.trim p2pLocalWhitePeerlistLimit }

def appendWithPeerWhite (m : PeerlistManager) (ple : PeerlistEntry) : PeerlistManager :=
  if m.isIpAllowed ple.adr.ip then
    let m' :=
      if m.peersWhite.contains ple.adr then
        { m with peersWhite := m.peersWhite.replace ple }
      else
        trimWhitePeerlist { m with peersWhite := m.peersWhite.insert ple }
    if m'.peersGray.contains ple.adr then
      { m' with peersGray := m'.peersGray.erase ple.adr }
    else m'
  else m

def appendWithPeerGray (m : PeerlistManager) (ple : PeerlistEntry) : PeerlistManager :=
  if m.isIpAllowed ple.adr.ip then
    if m.peersWhite.contains ple.adr then m
    else if m.peersGray.contains ple.adr then
      { m with peersGray := m.peersGray.replace ple }
    else
      trimGrayPeerlist { m with peersGray := m.peersGray.insert ple }
  else m

def setPeerJustSeen (m : PeerlistManager) (peer : BitVec 64) (addr : NetAddress) (now : Int) :
    PeerlistManager :=
  m.appendWithPeerWhite ⟨addr, peer, now⟩

def mergePeerlist (m : PeerlistManager) (outerBs : List PeerlistEntry) : PeerlistManager :=
  trimGrayPeerlist (outerBs.foldl appendWithPeerGray m)

def removePeersByIpFromAll (m : PeerlistManager) (ip : BitVec 32) : PeerlistManager :=
  { m with
    peersWhite := m.peersWhite.filter fun ple => ple.adr.ip != ip
    peersGray := m.peersGray.filter fun ple => ple.adr.ip != ip }

end PeerlistManager

/-- A call of the peer list manager; `now` is the time at which it is made. -/
inductive PeerlistCall where
  | mergePeerlist (outerBs : List PeerlistEntry)
  | appendWithPeerWhite (ple : PeerlistEntry)
  | appendWithPeerGray (ple : PeerlistEntry)
  | setPeerJustSeen (peer : BitVec 64) (addr : NetAddress) (now : Int)
  | removePeersByIpFromAll (ip : BitVec 32)

def PeerlistCall.run (m : PeerlistManager) : PeerlistCall → PeerlistManager
  | .mergePeerlist outerBs => m.mergePeerlist outerBs
  | .appendWithPeerWhite ple => m.appendWithPeerWhite ple
  | .appendWithPeerGray ple => m.appendWithPeerGray ple
  | .setPeerJustSeen peer addr now => m.setPeerJustSeen peer addr now
  | .removePeersByIpFromAll ip => m.removePeersByIpFromAll ip

namespace PeerlistManager

def runs (m : PeerlistManager) (calls : List PeerlistCall) : PeerlistManager :=
  calls.foldl PeerlistCall.run m

/-! ## What the lists keep -/

def Bounded (m : PeerlistManager) : Prop :=
  m.peersWhite.size ≤ p2pLocalWhitePeerlistLimit ∧ m.peersGray.size ≤ p2pLocalGrayPeerlistLimit

/-- No address is in both lists.  None is twice in one, as the lists are keyed by it. -/
structure Separate (m : PeerlistManager) : Prop where
  apart : ∀ white ∈ m.peersWhite, ∀ gray ∈ m.peersGray, white.adr ≠ gray.adr
  whiteAllowed : ∀ ple ∈ m.peersWhite, m.isIpAllowed ple.adr.ip = true
  grayAllowed : ∀ ple ∈ m.peersGray, m.isIpAllowed ple.adr.ip = true

theorem isIpAllowed_congr {m m' : PeerlistManager} (h : m'.allowLocalIp = m.allowLocalIp) :
    m'.isIpAllowed = m.isIpAllowed := by
  funext ip
  simp [isIpAllowed, h]

/-- Lists that come from separate ones, apart from one new address, are separate. -/
theorem Separate.subset {m m' : PeerlistManager} (hm : m.Separate)
    (hallow : m'.allowLocalIp = m.allowLocalIp) (hwhite : ∀ ple ∈ m'.peersWhite, ple ∈ m.peersWhite)
    (hgray : ∀ ple ∈ m'.peersGray, ple ∈ m.peersGray) : m'.Separate where
  apart white hw gray hg := hm.apart white (hwhite white hw) gray (hgray gray hg)
  whiteAllowed ple h := by
    rw [isIpAllowed_congr hallow]
    exact hm.whiteAllowed ple (hwhite ple h)
  grayAllowed ple h := by
    rw [isIpAllowed_congr hallow]
    exact hm.grayAllowed ple (hgray ple h)

/-- One address becomes white and is no longer gray. -/
theorem Separate.white {m m' : PeerlistManager} {ple : PeerlistEntry} (hm : m.Separate)
    (hallow : m'.allowLocalIp = m.allowLocalIp) (hip : m.isIpAllowed ple.adr.ip = true)
    (hwhite : ∀ p ∈ m'.peersWhite, p = ple ∨ p ∈ m.peersWhite)
    (hgray : ∀ p ∈ m'.peersGray, p ∈ m.peersGray ∧ p.adr ≠ ple.adr) : m'.Separate where
  apart white hw gray hg := by
    obtain ⟨hold, hne⟩ := hgray gray hg
    rcases hwhite white hw with rfl | hw
    · exact hne.symm
    · exact hm.apart white hw gray hold
  whiteAllowed p h := by
    rw [isIpAllowed_congr hallow]
    rcases hwhite p h with rfl | h
    · exact hip
    · exact hm.whiteAllowed p h
  grayAllowed p h := by
    rw [isIpAllowed_congr hallow]
    exact hm.grayAllowed p (hgray p h).1

/-- One address that is not white becomes gray. -/
theorem Separate.gray {m m' : PeerlistManager} {ple : PeerlistEntry} (hm : m.Separate)
    (hallow : m'.allowLocalIp = m.allowLocalIp) (hip : m.isIpAllowed ple.adr.ip = true)
    (hnew : m.peersWhite.contains ple.adr = false)
    (hwhite : ∀ p ∈ m'.peersWhite, p ∈ m.peersWhite)
    (hgray : ∀ p ∈ m'.peersGray, p = ple ∨ p ∈ m.peersGray) : m'.Separate where
  apart white hw gray hg := by
    rcases hgray gray hg with rfl | hg
    · intro hsame
      have hmem := TwoIndexed.contains_iff.mpr ⟨white, hwhite white hw, hsame⟩
      rw [hnew] at hmem
      cases hmem
    · exact hm.apart white (hwhite white hw) gray hg
  whiteAllowed p h := by
    rw [isIpAllowed_congr hallow]
    exact hm.whiteAllowed p (hwhite p h)
  grayAllowed p h := by
    rw [isIpAllowed_congr hallow]
    rcases hgray p h with rfl | h
    · exact hip
    · exact hm.grayAllowed p h

/-! ## Room -/

/-- The addresses of a list that the gray list takes up. -/
def newGrayAddresses (m : PeerlistManager) (outerBs : List PeerlistEntry) : Finset NetAddress :=
  (outerBs.map PeerlistEntry.adr).toFinset.filter fun adr =>
    m.isIpAllowed adr.ip && !m.peersWhite.contains adr && !m.peersGray.contains adr

/-- There is a place for every address that the call adds to a list. -/
def HasRoom (m : PeerlistManager) : PeerlistCall → Prop
  | .mergePeerlist outerBs =>
      m.peersGray.size + (m.newGrayAddresses outerBs).card ≤ p2pLocalGrayPeerlistLimit
  | .appendWithPeerGray ple =>
      m.peersGray.size + (m.newGrayAddresses [ple]).card ≤ p2pLocalGrayPeerlistLimit
  | .appendWithPeerWhite ple =>
      m.isIpAllowed ple.adr.ip = true → m.peersWhite.contains ple.adr = false →
        m.peersWhite.size < p2pLocalWhitePeerlistLimit
  | .setPeerJustSeen _ addr _ =>
      m.isIpAllowed addr.ip = true → m.peersWhite.contains addr = false →
        m.peersWhite.size < p2pLocalWhitePeerlistLimit
  | .removePeersByIpFromAll _ => True

theorem mem_newGrayAddresses {m : PeerlistManager} (outerBs : List PeerlistEntry)
    {adr : NetAddress} :
    adr ∈ m.newGrayAddresses outerBs ↔ (∃ ple ∈ outerBs, ple.adr = adr) ∧
      m.isIpAllowed adr.ip = true ∧ m.peersWhite.contains adr = false ∧
        m.peersGray.contains adr = false := by
  simp [newGrayAddresses, and_assoc]

/-! ## The white list -/

theorem appendWithPeerWhite_refused {m : PeerlistManager} {ple : PeerlistEntry}
    (h : m.isIpAllowed ple.adr.ip = false) : m.appendWithPeerWhite ple = m := by
  simp [appendWithPeerWhite, h]

/-- While the gray list keeps its bound, the trim does nothing. -/
theorem trimWhitePeerlist_eq_self {m : PeerlistManager}
    (h : m.peersGray.size ≤ p2pLocalGrayPeerlistLimit) : m.trimWhitePeerlist = m := by
  rw [trimWhitePeerlist, TwoIndexed.trim_eq_self h]

theorem trimGrayPeerlist_eq_self {m : PeerlistManager}
    (h : m.peersWhite.size ≤ p2pLocalWhitePeerlistLimit) : m.trimGrayPeerlist = m := by
  rw [trimGrayPeerlist, TwoIndexed.trim_eq_self h]

theorem erase_eq_self {l : PeersIndexed} {adr : NetAddress} (h : l.contains adr = false) :
    l.erase adr = l := by
  apply TwoIndexed.ext_entries
  refine List.filter_eq_self.mpr fun ple hple => ?_
  have hne : ple.adr ≠ adr := fun hadr => by
    have hmem := TwoIndexed.contains_iff.mpr ⟨ple, hple, hadr⟩
    rw [h] at hmem
    cases hmem
  exact decide_eq_true hne

/-- What an allowed peer changes, while the gray list keeps its bound. -/
theorem appendWithPeerWhite_eq {m : PeerlistManager} {ple : PeerlistEntry}
    (hgray : m.peersGray.size ≤ p2pLocalGrayPeerlistLimit)
    (hip : m.isIpAllowed ple.adr.ip = true) :
    m.appendWithPeerWhite ple = { m with
      peersWhite := if m.peersWhite.contains ple.adr then m.peersWhite.replace ple
        else m.peersWhite.insert ple
      peersGray := m.peersGray.erase ple.adr } := by
  unfold appendWithPeerWhite
  rw [if_pos hip]
  cases hwhite : m.peersWhite.contains ple.adr with
  | true =>
      cases hold : m.peersGray.contains ple.adr with
      | true => simp [hold]
      | false => simp [hold, erase_eq_self hold]
  | false =>
      have htrim := trimWhitePeerlist_eq_self
        (m := { m with peersWhite := m.peersWhite.insert ple }) hgray
      cases hold : m.peersGray.contains ple.adr with
      | true => simp [htrim, hold]
      | false => simp [htrim, hold, erase_eq_self hold]

theorem find?_eq_none_of_contains {l : PeersIndexed} {adr : NetAddress}
    (h : l.contains adr = false) : l.find? adr = none := by
  simpa [TwoIndexed.contains] using h

theorem Separate.appendWithPeerWhite {m : PeerlistManager} {ple : PeerlistEntry}
    (hm : m.Separate) (hb : m.Bounded) : (m.appendWithPeerWhite ple).Separate := by
  cases hip : m.isIpAllowed ple.adr.ip with
  | false =>
      rw [appendWithPeerWhite_refused hip]
      exact hm
  | true =>
      rw [appendWithPeerWhite_eq hb.2 hip]
      refine hm.white rfl hip ?_ fun p hp => TwoIndexed.mem_erase.mp hp
      intro p hp
      cases hwhite : m.peersWhite.contains ple.adr with
      | true =>
          simp only [hwhite, if_true] at hp
          exact ((TwoIndexed.mem_replace hwhite).mp hp).imp_right And.left
      | false =>
          simp only [hwhite, Bool.false_eq_true, if_false] at hp
          exact (TwoIndexed.mem_insert (find?_eq_none_of_contains hwhite)).mp hp

/-- The white list is never trimmed when a peer is added to it. -/
theorem bounded_appendWithPeerWhite_iff {m : PeerlistManager} (ple : PeerlistEntry)
    (hb : m.Bounded) :
    (m.appendWithPeerWhite ple).Bounded ↔ m.HasRoom (.appendWithPeerWhite ple) := by
  cases hip : m.isIpAllowed ple.adr.ip with
  | false =>
      rw [appendWithPeerWhite_refused hip]
      simp [hb, HasRoom, hip]
  | true =>
      have hgray : (m.peersGray.erase ple.adr).size ≤ p2pLocalGrayPeerlistLimit :=
        le_trans (TwoIndexed.size_filter_le _ _) hb.2
      have hsmall := hb.1
      rw [appendWithPeerWhite_eq hb.2 hip]
      cases hwhite : m.peersWhite.contains ple.adr with
      | true => simp [Bounded, HasRoom, hip, hwhite, TwoIndexed.size_replace hwhite, hgray, hsmall]
      | false =>
          have hsize := TwoIndexed.size_insert (find?_eq_none_of_contains hwhite)
          simp only [Bounded, HasRoom, hip, hwhite, Bool.false_eq_true, if_false, hsize, hgray,
            and_true, forall_const]
          omega

/-! ## The gray list -/

/-- What a peer changes in the gray list, while the white list keeps its bound. -/
theorem appendWithPeerGray_eq {m : PeerlistManager} {ple : PeerlistEntry}
    (hwhite : m.peersWhite.size ≤ p2pLocalWhitePeerlistLimit) :
    m.appendWithPeerGray ple = { m with
      peersGray :=
        if m.isIpAllowed ple.adr.ip && !m.peersWhite.contains ple.adr then
          if m.peersGray.contains ple.adr then m.peersGray.replace ple
          else m.peersGray.insert ple
        else m.peersGray } := by
  unfold appendWithPeerGray
  cases hip : m.isIpAllowed ple.adr.ip with
  | false => simp
  | true =>
      cases hold : m.peersWhite.contains ple.adr with
      | true => simp
      | false =>
          cases hgray : m.peersGray.contains ple.adr with
          | true => simp
          | false =>
              have htrim := trimGrayPeerlist_eq_self
                (m := { m with peersGray := m.peersGray.insert ple }) hwhite
              simp [htrim]

theorem Separate.appendWithPeerGray {m : PeerlistManager} (hm : m.Separate) (ple : PeerlistEntry)
    (hwhite : m.peersWhite.size ≤ p2pLocalWhitePeerlistLimit) :
    (m.appendWithPeerGray ple).Separate := by
  rw [appendWithPeerGray_eq hwhite]
  cases hnew : m.isIpAllowed ple.adr.ip && !m.peersWhite.contains ple.adr with
  | false => simpa using hm
  | true =>
      obtain ⟨hip, hold⟩ : m.isIpAllowed ple.adr.ip = true ∧
          m.peersWhite.contains ple.adr = false := by simpa using hnew
      refine hm.gray rfl hip hold (fun p hp => hp) fun p hp => ?_
      cases hgray : m.peersGray.contains ple.adr with
      | true =>
          simp only [hgray, if_true] at hp
          exact ((TwoIndexed.mem_replace hgray).mp hp).imp_right And.left
      | false =>
          simp only [hgray, Bool.false_eq_true, if_false, if_true] at hp
          exact (TwoIndexed.mem_insert (find?_eq_none_of_contains hgray)).mp hp

theorem appendWithPeerGray_peersWhite {m : PeerlistManager} (ple : PeerlistEntry)
    (hwhite : m.peersWhite.size ≤ p2pLocalWhitePeerlistLimit) :
    (m.appendWithPeerGray ple).peersWhite = m.peersWhite := by
  rw [appendWithPeerGray_eq hwhite]

theorem isIpAllowed_appendWithPeerGray {m : PeerlistManager} {ple : PeerlistEntry}
    (hwhite : m.peersWhite.size ≤ p2pLocalWhitePeerlistLimit) :
    (m.appendWithPeerGray ple).isIpAllowed = m.isIpAllowed := by
  rw [appendWithPeerGray_eq hwhite]
  exact isIpAllowed_congr rfl

theorem contains_appendWithPeerGray {m : PeerlistManager} {ple : PeerlistEntry} {adr : NetAddress}
    (hwhite : m.peersWhite.size ≤ p2pLocalWhitePeerlistLimit) :
    (m.appendWithPeerGray ple).peersGray.contains adr = true ↔
      m.peersGray.contains adr = true ∨ adr ∈ m.newGrayAddresses [ple] := by
  rw [appendWithPeerGray_eq hwhite, mem_newGrayAddresses]
  cases hnew : m.isIpAllowed ple.adr.ip && !m.peersWhite.contains ple.adr with
  | false =>
      rw [if_neg Bool.false_ne_true]
      refine (or_iff_left fun h => ?_).symm
      obtain ⟨⟨p, hp, rfl⟩, hip, hold, -⟩ := h
      rw [List.mem_singleton.mp hp] at hip hold
      rw [hip, hold] at hnew
      cases hnew
  | true =>
      obtain ⟨hip, hold⟩ : m.isIpAllowed ple.adr.ip = true ∧
          m.peersWhite.contains ple.adr = false := by simpa using hnew
      rw [if_pos rfl]
      cases hgray : m.peersGray.contains ple.adr with
      | true =>
          rw [if_pos rfl, TwoIndexed.contains_replace hgray]
          refine (or_iff_left fun h => ?_).symm
          obtain ⟨⟨p, hp, rfl⟩, -, -, hfree⟩ := h
          rw [List.mem_singleton.mp hp, hgray] at hfree
          cases hfree
      | false =>
          rw [if_neg Bool.false_ne_true,
            TwoIndexed.contains_insert (find?_eq_none_of_contains hgray), or_comm]
          refine or_congr_right ⟨?_, ?_⟩
          · rintro rfl
            exact ⟨⟨ple, List.mem_singleton_self ple, rfl⟩, hip, hold, hgray⟩
          · rintro ⟨⟨p, hp, rfl⟩, -⟩
            rw [List.mem_singleton.mp hp]

theorem newGrayAddresses_singleton_card {m : PeerlistManager} {ple : PeerlistEntry}
    (hwhite : m.peersWhite.size ≤ p2pLocalWhitePeerlistLimit) :
    (m.appendWithPeerGray ple).peersGray.size =
      m.peersGray.size + (m.newGrayAddresses [ple]).card := by
  rw [appendWithPeerGray_eq hwhite]
  have hset : m.newGrayAddresses [ple] = if m.isIpAllowed ple.adr.ip &&
      !m.peersWhite.contains ple.adr && !m.peersGray.contains ple.adr then {ple.adr} else ∅ := by
    simp [newGrayAddresses, Finset.filter_singleton]
  rw [hset]
  cases hnew : m.isIpAllowed ple.adr.ip && !m.peersWhite.contains ple.adr with
  | false => rfl
  | true =>
      cases hgray : m.peersGray.contains ple.adr with
      | true => exact TwoIndexed.size_replace hgray
      | false => exact TwoIndexed.size_insert (find?_eq_none_of_contains hgray)

/-- The first entry of a list takes its own address and leaves the others. -/
theorem newGrayAddresses_cons {m : PeerlistManager} (ple : PeerlistEntry)
    (outerBs : List PeerlistEntry)
    (hwhite : m.peersWhite.size ≤ p2pLocalWhitePeerlistLimit) :
    (m.newGrayAddresses (ple :: outerBs)).card = (m.newGrayAddresses [ple]).card +
      ((m.appendWithPeerGray ple).newGrayAddresses outerBs).card := by
  have hmem : ∀ adr, adr ∈ (m.appendWithPeerGray ple).newGrayAddresses outerBs ↔
      adr ∈ m.newGrayAddresses outerBs ∧ adr ∉ m.newGrayAddresses [ple] := by
    intro adr
    rw [mem_newGrayAddresses, mem_newGrayAddresses outerBs,
      isIpAllowed_appendWithPeerGray hwhite, appendWithPeerGray_peersWhite ple hwhite,
      ← Bool.not_eq_true ((m.appendWithPeerGray ple).peersGray.contains adr),
      contains_appendWithPeerGray hwhite, not_or, Bool.not_eq_true]
    tauto
  have hdisjoint : Disjoint (m.newGrayAddresses [ple])
      ((m.appendWithPeerGray ple).newGrayAddresses outerBs) :=
    Finset.disjoint_left.mpr fun adr h h' => ((hmem adr).mp h').2 h
  rw [← Finset.card_union_of_disjoint hdisjoint]
  refine congrArg Finset.card (Finset.ext fun adr => ?_)
  rw [Finset.mem_union, hmem]
  have hcons : adr ∈ m.newGrayAddresses (ple :: outerBs) ↔
      adr ∈ m.newGrayAddresses [ple] ∨ adr ∈ m.newGrayAddresses outerBs := by
    simp only [mem_newGrayAddresses, List.mem_cons, List.not_mem_nil, or_false, exists_eq_left,
      or_and_right, exists_or]
  rw [hcons]
  tauto

/-- Nothing is taken from the gray list while a list of peers is merged into it. -/
theorem foldl_appendWithPeerGray (outerBs : List PeerlistEntry) :
    ∀ {m : PeerlistManager}, m.peersWhite.size ≤ p2pLocalWhitePeerlistLimit → m.Separate →
      let m' := outerBs.foldl PeerlistManager.appendWithPeerGray m
      m'.Separate ∧ m'.peersWhite = m.peersWhite ∧
        m'.peersGray.size = m.peersGray.size + (m.newGrayAddresses outerBs).card := by
  induction outerBs with
  | nil =>
      intro m _ hm
      exact ⟨hm, rfl, by simp [newGrayAddresses]⟩
  | cons ple outerBs ih =>
      intro m hwhite hm
      have hsame := appendWithPeerGray_peersWhite ple hwhite
      obtain ⟨hsep, hrest, hsize⟩ := ih (hsame ▸ hwhite) (hm.appendWithPeerGray ple hwhite)
      refine ⟨hsep, hrest.trans hsame, ?_⟩
      rw [List.foldl_cons, hsize, newGrayAddresses_singleton_card hwhite,
        newGrayAddresses_cons ple outerBs hwhite, Nat.add_assoc]

theorem mergePeerlist_spec {m : PeerlistManager} (outerBs : List PeerlistEntry)
    (hwhite : m.peersWhite.size ≤ p2pLocalWhitePeerlistLimit) (hm : m.Separate) :
    (m.mergePeerlist outerBs).Separate ∧ (m.mergePeerlist outerBs).peersWhite = m.peersWhite ∧
      (m.mergePeerlist outerBs).peersGray.size =
        m.peersGray.size + (m.newGrayAddresses outerBs).card := by
  obtain ⟨hsep, hsame, hsize⟩ := foldl_appendWithPeerGray outerBs hwhite hm
  rw [mergePeerlist, trimGrayPeerlist_eq_self (hsame ▸ hwhite)]
  exact ⟨hsep, hsame, hsize⟩

/-! ## Runs -/

/-- Bounded lists of allowed peers with no address in common. -/
structure Sound (m : PeerlistManager) : Prop where
  bounded : m.Bounded
  separate : m.Separate

theorem bounded_iff_of_gray {m m' : PeerlistManager} {n : Nat} (hb : m.Bounded)
    (hwhite : m'.peersWhite = m.peersWhite) (hgray : m'.peersGray.size = n) :
    m'.Bounded ↔ n ≤ p2pLocalGrayPeerlistLimit := by
  rw [Bounded, hwhite, hgray]
  exact and_iff_right hb.1

/-- One call keeps the lists sound exactly if there is room for what it adds. -/
theorem Sound.run_iff {m : PeerlistManager} (hm : m.Sound) (call : PeerlistCall) :
    (call.run m).Sound ↔ m.HasRoom call := by
  have hwhite := hm.bounded.1
  have hiff : ∀ {m' : PeerlistManager}, m'.Separate → (m'.Sound ↔ m'.Bounded) :=
    fun hsep => ⟨Sound.bounded, fun hb => ⟨hb, hsep⟩⟩
  cases call with
  | mergePeerlist outerBs =>
      obtain ⟨hsep, hsame, hsize⟩ := mergePeerlist_spec outerBs hwhite hm.separate
      exact (hiff hsep).trans (bounded_iff_of_gray hm.bounded hsame hsize)
  | appendWithPeerGray ple =>
      exact (hiff (hm.separate.appendWithPeerGray ple hwhite)).trans
        (bounded_iff_of_gray hm.bounded (appendWithPeerGray_peersWhite ple hwhite)
          (newGrayAddresses_singleton_card hwhite))
  | appendWithPeerWhite ple =>
      exact (hiff (hm.separate.appendWithPeerWhite hm.bounded)).trans
        (bounded_appendWithPeerWhite_iff ple hm.bounded)
  | setPeerJustSeen peer addr now =>
      exact (hiff (hm.separate.appendWithPeerWhite hm.bounded)).trans
        (bounded_appendWithPeerWhite_iff ⟨addr, peer, now⟩ hm.bounded)
  | removePeersByIpFromAll ip =>
      have hsep : (m.removePeersByIpFromAll ip).Separate :=
        hm.separate.subset rfl (fun ple h => (TwoIndexed.mem_filter.mp h).1)
          fun ple h => (TwoIndexed.mem_filter.mp h).1
      have hb : (m.removePeersByIpFromAll ip).Bounded :=
        ⟨le_trans (TwoIndexed.size_filter_le _ _) hwhite,
          le_trans (TwoIndexed.size_filter_le _ _) hm.bounded.2⟩
      exact ⟨fun _ => trivial, fun _ => ⟨hb, hsep⟩⟩

theorem sound_empty (allowLocalIp : Bool) : (empty allowLocalIp).Sound where
  bounded := ⟨Nat.zero_le _, Nat.zero_le _⟩
  separate :=
    { apart := fun _ h => absurd h TwoIndexed.not_mem_empty
      whiteAllowed := fun _ h => absurd h TwoIndexed.not_mem_empty
      grayAllowed := fun _ h => absurd h TwoIndexed.not_mem_empty }

/-- The lists are bounded and disjoint in every state of a run exactly if every call of
it finds room for the addresses that it adds. -/
theorem peer_lists_sound_iff (allowLocalIp : Bool) (calls : List PeerlistCall) :
    (∀ done rest, calls = done ++ rest → ((empty allowLocalIp).runs done).Sound) ↔
      ∀ done call rest, calls = done ++ call :: rest →
        ((empty allowLocalIp).runs done).HasRoom call := by
  exact RunInvariant.forall_states_iff (sound_empty allowLocalIp)
    (fun _ call hbefore => hbefore.run_iff call) calls

/-- A peer sends more addresses than the gray list may hold. -/
theorem long_peerlist_not_bounded :
    ¬ ((empty false).runs [.mergePeerlist ((List.range 5001).map fun i =>
      ⟨⟨8, BitVec.ofNat 32 i⟩, 0, 0⟩)]).Bounded := by
  intro hb
  have hsound := sound_empty false
  obtain ⟨-, -, hsize⟩ := mergePeerlist_spec ((List.range 5001).map fun i =>
    (⟨⟨8, BitVec.ofNat 32 i⟩, 0, 0⟩ : PeerlistEntry)) hsound.bounded.1 hsound.separate
  have hall : (empty false).newGrayAddresses ((List.range 5001).map fun i =>
      ⟨⟨8, BitVec.ofNat 32 i⟩, 0, 0⟩) =
      ((List.range 5001).map fun i => (⟨8, BitVec.ofNat 32 i⟩ : NetAddress)).toFinset := by
    rw [newGrayAddresses, List.map_map]
    refine Finset.filter_true_of_mem fun adr hadr => ?_
    obtain ⟨i, -, rfl⟩ := List.mem_map.mp (List.mem_toFinset.mp hadr)
    have hip : (empty false).isIpAllowed 8 = true := by decide
    simp only [Function.comp_apply, hip, Bool.true_and]
    rfl
  have hnodup : ((List.range 5001).map fun i =>
      (⟨8, BitVec.ofNat 32 i⟩ : NetAddress)).Nodup := by
    refine List.nodup_range.map_on fun i hi j hj hij => ?_
    have hport := congrArg (fun adr : NetAddress => adr.port.toNat) hij
    simp only [BitVec.toNat_ofNat, List.mem_range] at hport hi hj
    omega
  have hcard : ((empty false).newGrayAddresses ((List.range 5001).map fun i =>
      ⟨⟨8, BitVec.ofNat 32 i⟩, 0, 0⟩)).card = 5001 := by
    rw [hall, List.toFinset_card_of_nodup hnodup, List.length_map, List.length_range]
  have hgray := hb.2
  rw [hcard] at hsize
  exact absurd (hsize ▸ hgray : 0 + 5001 ≤ p2pLocalGrayPeerlistLimit) (by decide)

end PeerlistManager

end Chinet
