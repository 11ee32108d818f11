import Chinet.Lib.RunInvariant
import Chinet.P2p.NodeServer

/-!
# Blocked peers

An address is taken from the peer lists once, when it is blocked.  The lists stay free of
it as long as nothing puts it back: a remote list, a peer that was just seen, a ping that
was sent before, or the command line of a later start.
-/

namespace Chinet

/-! ## Lists without some addresses -/

namespace PeerlistManager

/-- No entry of the lists has one of the addresses. -/
structure Without (bad : BitVec 32 → Bool) (m : PeerlistManager) : Prop where
  white : ∀ ple ∈ m.peersWhite, bad ple.adr.ip = false
  gray : ∀ ple ∈ m.peersGray, bad ple.adr.ip = false

variable {bad : BitVec 32 → Bool} {m : PeerlistManager}

theorem Without.mono {bad' : BitVec 32 → Bool} (hm : m.Without bad)
    (h : ∀ ip, bad ip = false → bad' ip = false) : m.Without bad' where
  white ple hple := h _ (hm.white ple hple)
  gray ple hple := h _ (hm.gray ple hple)

@[simp] theorem allowLocalIp_appendWithPeerGray (ple : PeerlistEntry) :
    (m.appendWithPeerGray ple).allowLocalIp = m.allowLocalIp := by
  simp only [appendWithPeerGray, trimGrayPeerlist]
  split_ifs <;> rfl

@[simp] theorem allowLocalIp_appendWithPeerWhite (ple : PeerlistEntry) :
    (m.appendWithPeerWhite ple).allowLocalIp = m.allowLocalIp := by
  simp only [appendWithPeerWhite, trimWhitePeerlist]
  split_ifs <;> rfl

theorem allowLocalIp_foldl_appendWithPeerGray (outerBs : List PeerlistEntry) :
    ∀ m : PeerlistManager,
      (outerBs.foldl appendWithPeerGray m).allowLocalIp = m.allowLocalIp := by
  induction outerBs with
  | nil =>
      intro m
      rfl
  | cons ple outerBs ih =>
      intro m
      rw [List.foldl_cons, ih, allowLocalIp_appendWithPeerGray]

theorem allowLocalIp_trimGrayPeerlist (m : PeerlistManager) :
    m.trimGrayPeerlist.allowLocalIp = m.allowLocalIp := by
  have hwith : ∀ l, ({ m with peersWhite := l } : PeerlistManager).allowLocalIp =
      m.allowLocalIp := fun _ => rfl
  exact hwith (m.peersWhite.trim p2pLocalWhitePeerlistLimit)

@[simp] theorem allowLocalIp_mergePeerlist (outerBs : List PeerlistEntry) :
    (m.mergePeerlist outerBs).allowLocalIp = m.allowLocalIp := by
  rw [mergePeerlist, allowLocalIp_trimGrayPeerlist, allowLocalIp_foldl_appendWithPeerGray]

theorem Without.fewerWhite {l : PeersIndexed} (hm : m.Without bad)
    (h : ∀ ple ∈ l, ple ∈ m.peersWhite) : { m with peersWhite := l }.Without bad :=
  ⟨fun ple hple => hm.white ple (h ple hple), hm.gray⟩

theorem Without.fewerGray {l : PeersIndexed} (hm : m.Without bad)
    (h : ∀ ple ∈ l, ple ∈ m.peersGray) : { m with peersGray := l }.Without bad :=
  ⟨hm.white, fun ple hple => hm.gray ple (h ple hple)⟩

theorem Without.trimWhitePeerlist (hm : m.Without bad) : m.trimWhitePeerlist.Without bad :=
  hm.fewerGray fun _ => TwoIndexed.mem_of_mem_trim

theorem Without.trimGrayPeerlist (hm : m.Without bad) : m.trimGrayPeerlist.Without bad :=
  hm.fewerWhite fun _ => TwoIndexed.mem_of_mem_trim

/-- What a list holds after an entry was inserted or took the place of another one. -/
theorem mem_put {l : PeersIndexed} {ple p : PeerlistEntry}
    (h : p ∈ if l.contains ple.adr then l.replace ple else l.insert ple) : p = ple ∨ p ∈ l := by
  cases hthere : l.contains ple.adr with
  | true =>
      rw [if_pos hthere] at h
      exact ((TwoIndexed.mem_replace hthere).mp h).imp_right And.left
  | false =>
      rw [hthere, if_neg Bool.false_ne_true] at h
      exact (TwoIndexed.mem_insert (find?_eq_none_of_contains hthere)).mp h

theorem Without.appendWithPeerWhite {ple : PeerlistEntry} (hm : m.Without bad)
    (hple : m.isIpAllowed ple.adr.ip = true → bad ple.adr.ip = false) :
    (m.appendWithPeerWhite ple).Without bad := by
  unfold PeerlistManager.appendWithPeerWhite
  split
  · rename_i hip
    have hput : { m with
        peersWhite := if m.peersWhite.contains ple.adr then m.peersWhite.replace ple
          else m.peersWhite.insert ple }.Without bad :=
      { white := fun p hp => by
          rcases mem_put hp with rfl | hp
          · exact hple hip
          · exact hm.white p hp
        gray := hm.gray }
    -- the rest of the function only takes entries out of the gray list
    have herase : ∀ m' : PeerlistManager, m'.Without bad →
        (if m'.peersGray.contains ple.adr then
          { m' with peersGray := m'.peersGray.erase ple.adr } else m').Without bad := by
      intro m' hm'
      split
      · exact hm'.fewerGray fun p hp => (TwoIndexed.mem_erase.mp hp).1
      · exact hm'
    apply herase
    cases hthere : m.peersWhite.contains ple.adr with
    | true => simpa [hthere] using hput
    | false =>
        simp only [hthere, Bool.false_eq_true, if_false] at hput
        exact hput.trimWhitePeerlist
  · exact hm

theorem Without.appendWithPeerGray {ple : PeerlistEntry} (hm : m.Without bad)
    (hple : m.isIpAllowed ple.adr.ip = true → bad ple.adr.ip = false) :
    (m.appendWithPeerGray ple).Without bad := by
  unfold PeerlistManager.appendWithPeerGray
  split
  · rename_i hip
    have hput : { m with
        peersGray := if m.peersGray.contains ple.adr then m.peersGray.replace ple
          else m.peersGray.insert ple }.Without bad :=
      { white := hm.white
        gray := fun p hp => by
          rcases mem_put hp with rfl | hp
          · exact hple hip
          · exact hm.gray p hp }
    split
    · exact hm
    · cases hthere : m.peersGray.contains ple.adr with
      | true => simpa [hthere] using hput
      | false =>
          simp only [hthere, Bool.false_eq_true, if_false] at hput ⊢
          exact hput.trimGrayPeerlist
  · exact hm

theorem Without.foldl_appendWithPeerGray (outerBs : List PeerlistEntry) :
    ∀ {m : PeerlistManager}, m.Without bad →
      (∀ ple ∈ outerBs, m.isIpAllowed ple.adr.ip = true → bad ple.adr.ip = false) →
      (outerBs.foldl PeerlistManager.appendWithPeerGray m).Without bad := by
  induction outerBs with
  | nil =>
      intro m hm _
      exact hm
  | cons ple outerBs ih =>
      intro m hm hgood
      rw [List.foldl_cons]
      apply ih (hm.appendWithPeerGray (hgood ple List.mem_cons_self))
      intro p hp
      rw [isIpAllowed_congr (allowLocalIp_appendWithPeerGray ple)]
      exact hgood p (List.mem_cons_of_mem ple hp)

theorem Without.mergePeerlist {outerBs : List PeerlistEntry} (hm : m.Without bad)
    (hgood : ∀ ple ∈ outerBs, m.isIpAllowed ple.adr.ip = true → bad ple.adr.ip = false) :
    (m.mergePeerlist outerBs).Without bad :=
  (Without.foldl_appendWithPeerGray outerBs hm hgood).trimGrayPeerlist

theorem Without.empty (allowLocalIp : Bool) : (empty allowLocalIp).Without bad :=
  ⟨nofun, nofun⟩

theorem mem_clearFuture {now : Int} {l : PeersIndexed} {ple : PeerlistEntry}
    (h : ple ∈ clearFuture now l) : ple ∈ l := by
  unfold clearFuture at h
  split at h
  · cases h
  · exact h

theorem Without.init (allowLocalIp : Bool) (now : Int) (hm : m.Without bad) :
    (m.init allowLocalIp now).Without bad :=
  ⟨fun ple hple => hm.white ple (mem_clearFuture hple),
    fun ple hple => hm.gray ple (mem_clearFuture hple)⟩

/-- The removed address is then missing too. -/
theorem Without.removePeersByIpFromAll (ip : BitVec 32) (hm : m.Without bad) :
    (m.removePeersByIpFromAll ip).Without fun a => a == ip || bad a where
  white ple hple := by
    obtain ⟨hold, hne⟩ := TwoIndexed.mem_filter.mp hple
    simp only [bne_iff_ne] at hne
    simp [hne, hm.white ple hold]
  gray ple hple := by
    obtain ⟨hold, hne⟩ := TwoIndexed.mem_filter.mp hple
    simp only [bne_iff_ne] at hne
    simp [hne, hm.gray ple hold]

theorem mem_peerlistHeadFrom {depth : BitVec 32} {ple : PeerlistEntry} (l : List PeerlistEntry) :
    ∀ {cnt : BitVec 32}, ple ∈ peerlistHeadFrom depth cnt l → ple ∈ l := by
  induction l with
  | nil =>
      intro cnt h
      exact h
  | cons vl l ih =>
      intro cnt h
      rw [peerlistHeadFrom] at h
      split_ifs at h with hseen hfull
      · exact List.mem_cons_of_mem vl (ih h)
      · rw [List.mem_singleton.mp h]
        exact List.mem_cons_self
      · rcases List.mem_cons.mp h with rfl | h
        · exact List.mem_cons_self
        · exact List.mem_cons_of_mem vl (ih h)

/-- What is shared comes from the white list. -/
theorem mem_getPeerlistHead {depth : BitVec 32} {ple : PeerlistEntry}
    (h : ple ∈ m.getPeerlistHead depth) : ple ∈ m.peersWhite :=
  List.mem_reverse.mp (mem_peerlistHeadFrom _ h)

end PeerlistManager

namespace NodeServer

variable {s : NodeServer}

/-! ## What is blocked -/

theorem blocked_eq (s : NodeServer) (ip : BitVec 32) : s.blocked ip =
    match s.blockedIps ip with
    | none => false
    | some blockedAt => !decide (s.now - blockedAt > p2pIpBlocktime) := by
  unfold blocked isIpInBlacklist
  cases s.blockedIps ip with
  | none => rfl
  | some blockedAt =>
      dsimp only
      split_ifs with h <;> simp [h]

theorem blocked_congr {s' : NodeServer} (hips : s'.blockedIps = s.blockedIps)
    (hnow : s'.now = s.now) : s'.blocked = s.blocked := by
  funext ip
  rw [blocked_eq, blocked_eq, hips, hnow]

/-- The lookup drops an entry only after the address is free again. -/
theorem isIpInBlacklist_state (s : NodeServer) (addr : BitVec 32) :
    ∃ ips, (s.isIpInBlacklist addr).2 = { s with blockedIps := ips } ∧
      { s with blockedIps := ips }.blocked = s.blocked := by
  unfold isIpInBlacklist
  cases hat : s.blockedIps addr with
  | none => exact ⟨s.blockedIps, rfl, rfl⟩
  | some blockedAt =>
      dsimp only
      split_ifs with hover
      · refine ⟨_, rfl, ?_⟩
        funext ip
        rw [blocked_eq, blocked_eq]
        by_cases hip : ip = addr
        · subst hip
          simp [hat, hover]
        · simp [hip]
      · exact ⟨s.blockedIps, rfl, rfl⟩

theorem isRemoteIpAllowed_state (s : NodeServer) (addr : BitVec 32) :
    ∃ ips, (s.isRemoteIpAllowed addr).2 = { s with blockedIps := ips } ∧
      { s with blockedIps := ips }.blocked = s.blocked := by
  unfold isRemoteIpAllowed
  split_ifs
  · exact ⟨s.blockedIps, rfl, rfl⟩
  · exact ⟨s.blockedIps, rfl, rfl⟩
  · exact isIpInBlacklist_state s addr

theorem isIpGoodForAddingToPeerlist_state (s : NodeServer) (addr : BitVec 32) :
    ∃ ips, (s.isIpGoodForAddingToPeerlist addr).2 = { s with blockedIps := ips } ∧
      { s with blockedIps := ips }.blocked = s.blocked := by
  unfold isIpGoodForAddingToPeerlist
  split_ifs
  · exact ⟨s.blockedIps, rfl, rfl⟩
  · exact isIpInBlacklist_state s addr

theorem not_blocked_of_good {addr : BitVec 32}
    (h : (s.isIpGoodForAddingToPeerlist addr).1 = true) : s.blocked addr = false := by
  unfold isIpGoodForAddingToPeerlist at h
  split_ifs at h
  simpa [blocked] using h

/-- Time only frees addresses. -/
theorem blocked_elapse {ip : BitVec 32} (seconds : Nat) (h : s.blocked ip = false) :
    { s with now := s.now + seconds }.blocked ip = false := by
  rw [blocked_eq] at h ⊢
  cases hat : s.blockedIps ip with
  | none => rfl
  | some blockedAt =>
      simp only [hat, Bool.not_eq_false', decide_eq_true_eq] at h ⊢
      omega

/-- The last failure before the block is the one that blocks. -/
theorem blocked_addIpFail_self {address : BitVec 32}
    (hscore : s.ipFailsScore address < p2pIpFailsBeforBlock) :
    (s.addIpFail address).blocked = s.blocked := by
  have hfew : ¬ s.ipFailsScore address + 1 > p2pIpFailsBeforBlock := by omega
  unfold addIpFail
  rw [if_neg hfew]
  exact blocked_congr rfl rfl

/-! ## The lists and the blocked addresses -/

/-- No entry of the lists, and none that is shared, has a blocked address. -/
structure BlockedOut (s : NodeServer) : Prop where
  white : ∀ ple ∈ s.peerlist.peersWhite, s.blocked ple.adr.ip = false
  gray : ∀ ple ∈ s.peerlist.peersGray, s.blocked ple.adr.ip = false
  head : ∀ depth, ∀ ple ∈ s.peerlist.getPeerlistHead depth, s.blocked ple.adr.ip = false

theorem blockedOut_iff : s.BlockedOut ↔ s.peerlist.Without s.blocked := by
  constructor
  · intro h
    exact ⟨h.white, h.gray⟩
  · intro h
    exact ⟨h.white, h.gray, fun depth ple hple =>
      h.white ple (PeerlistManager.mem_getPeerlistHead hple)⟩

/-- What every step keeps, unless it puts a blocked address into the lists: they hold none, and
those of the state file none that is blocked there. -/
structure KeptOut (s : NodeServer) : Prop where
  lists : s.peerlist.Without s.blocked
  file : ∀ file, s.stateFile = some file →
    file.peerlist.Without { s with blockedIps := file.blockedIps }.blocked

theorem KeptOut.blockedOut (hs : s.KeptOut) : s.BlockedOut := blockedOut_iff.mpr hs.lists

theorem KeptOut.sameFile {s' : NodeServer} (hs : s.KeptOut) (hnow : s'.now = s.now)
    (hfile : s'.stateFile = s.stateFile) : ∀ file, s'.stateFile = some file →
      file.peerlist.Without { s' with blockedIps := file.blockedIps }.blocked := by
  intro file hstored
  rw [hfile] at hstored
  have hsame : { s' with blockedIps := file.blockedIps }.blocked =
      { s with blockedIps := file.blockedIps }.blocked := blocked_congr rfl hnow
  rw [hsame]
  exact hs.file file hstored

/-- The lists may change, the blocked addresses, the time and the file do not. -/
theorem KeptOut.of_without {s' : NodeServer} (hs : s.KeptOut) (hips : s'.blockedIps = s.blockedIps)
    (hnow : s'.now = s.now) (hfile : s'.stateFile = s.stateFile)
    (h : s'.peerlist.Without s.blocked) : s'.KeptOut where
  lists := by
    rw [blocked_congr hips hnow]
    exact h
  file := hs.sameFile hnow hfile

theorem KeptOut.congr {s' : NodeServer} (hs : s.KeptOut) (hlists : s'.peerlist = s.peerlist)
    (hips : s'.blockedIps = s.blockedIps) (hnow : s'.now = s.now)
    (hfile : s'.stateFile = s.stateFile) : s'.KeptOut := by
  apply hs.of_without hips hnow hfile
  rw [hlists]
  exact hs.lists

/-- A lookup forgets addresses that are free again. -/
theorem KeptOut.lookup {ips : BitVec 32 → Option Int} (hs : s.KeptOut)
    (hsame : { s with blockedIps := ips }.blocked = s.blocked) :
    { s with blockedIps := ips }.KeptOut where
  lists := by
    rw [hsame]
    exact hs.lists
  file := hs.file

theorem KeptOut.ite {p : Prop} [Decidable p] {s' : NodeServer} (hs : p → s.KeptOut)
    (hs' : ¬ p → s'.KeptOut) : (if p then s else s').KeptOut := by
  split
  · exact hs ‹_›
  · exact hs' ‹_›

theorem KeptOut.blockIp (addr : BitVec 32) (hs : s.KeptOut) : (s.blockIp addr).KeptOut := by
  refine ⟨(hs.lists.removePeersByIpFromAll addr).mono fun ip hip => ?_, hs.sameFile rfl rfl⟩
  obtain ⟨hne, hold⟩ : ip ≠ addr ∧ s.blocked ip = false := by simpa using hip
  rw [blocked_eq] at hold ⊢
  simpa [NodeServer.blockIp, hne] using hold

theorem KeptOut.addIpFail (address : BitVec 32) (hs : s.KeptOut) :
    (s.addIpFail address).KeptOut := by
  unfold NodeServer.addIpFail
  dsimp only
  split
  · apply KeptOut.blockIp
    exact hs.congr rfl rfl rfl rfl
  · exact hs.congr rfl rfl rfl rfl

theorem allowLocalIp_addIpFail (s : NodeServer) (address : BitVec 32) :
    (s.addIpFail address).peerlist.allowLocalIp = s.peerlist.allowLocalIp := by
  unfold NodeServer.addIpFail
  dsimp only
  split <;> rfl

theorem KeptOut.close (id : Nat) (hs : s.KeptOut) : (s.close id).KeptOut :=
  hs.congr rfl rfl rfl rfl

/-- The address of an entry is free, if the lists take it at all. -/
def Free (s : NodeServer) (ip : BitVec 32) : Prop :=
  s.peerlist.isIpAllowed ip = true → s.blocked ip = false

theorem Free.congr {s' : NodeServer} {ip : BitVec 32} (h : s.Free ip)
    (hallow : s'.peerlist.allowLocalIp = s.peerlist.allowLocalIp)
    (hips : s'.blockedIps = s.blockedIps) (hnow : s'.now = s.now) : s'.Free ip := by
  intro hip
  rw [PeerlistManager.isIpAllowed_congr hallow] at hip
  rw [blocked_congr hips hnow]
  exact h hip

theorem KeptOut.appendWithPeerWhite {ple : PeerlistEntry} (hs : s.KeptOut)
    (hple : s.Free ple.adr.ip) : (s.appendWithPeerWhite ple).KeptOut := by
  exact hs.of_without rfl rfl rfl (hs.lists.appendWithPeerWhite hple)

theorem KeptOut.setPeerJustSeen (peerId : BitVec 64) (addr : NetAddress) (hs : s.KeptOut)
    (haddr : s.Free addr.ip) : (s.setPeerJustSeen peerId addr).KeptOut := by
  exact hs.of_without rfl rfl rfl (PeerlistManager.Without.appendWithPeerWhite hs.lists haddr)

/-! ## Remote lists -/

def FromFuture (localTime : Int) (peerlist : List PeerlistEntry) : Prop :=
  ∃ be ∈ peerlist, localTime < be.lastSeen

theorem fixTimeDelta_eq_none {now localTime : Int} {l : List PeerlistEntry} :
    fixTimeDelta now localTime l = none ↔ FromFuture localTime l := by
  simp [fixTimeDelta, FromFuture]

/-- The times change, the addresses do not. -/
theorem mem_fixTimeDelta {now localTime : Int} {l l' : List PeerlistEntry} {ple : PeerlistEntry}
    (h : fixTimeDelta now localTime l = some l') (hple : ple ∈ l') :
    ∃ be ∈ l, be.adr = ple.adr := by
  unfold fixTimeDelta at h
  split at h
  · cases h
  · cases h
    obtain ⟨be, hbe, rfl⟩ := List.mem_map.mp hple
    exact ⟨be, hbe, rfl⟩

/-- What a remote list changes: nothing if it has entries from the future, else the lists
of peers alone. -/
theorem handleRemotePeerlist_cases (s : NodeServer) (l : List PeerlistEntry) (localTime : Int) :
    FromFuture localTime l ∧ s.handleRemotePeerlist l localTime = (false, s) ∨
      ¬ FromFuture localTime l ∧ ∃ l', fixTimeDelta s.now localTime l = some l' ∧
        s.handleRemotePeerlist l localTime =
          (true, { s with peerlist := s.peerlist.mergePeerlist l' }) := by
  unfold handleRemotePeerlist
  cases hfix : fixTimeDelta s.now localTime l with
  | none => exact Or.inl ⟨fixTimeDelta_eq_none.mp hfix, rfl⟩
  | some l' =>
      refine Or.inr ⟨fun hfuture => ?_, l', rfl, rfl⟩
      rw [fixTimeDelta_eq_none.mpr hfuture] at hfix
      cases hfix

theorem KeptOut.mergePeerlist {l l' : List PeerlistEntry} {localTime : Int} (hs : s.KeptOut)
    (hfix : fixTimeDelta s.now localTime l = some l') (hfree : ∀ be ∈ l, s.Free be.adr.ip) :
    { s with peerlist := s.peerlist.mergePeerlist l' }.KeptOut := by
  refine hs.of_without rfl rfl rfl (hs.lists.mergePeerlist fun ple hple hip => ?_)
  obtain ⟨be, hbe, hadr⟩ := mem_fixTimeDelta hfix hple
  rw [← hadr] at hip ⊢
  exact hfree be hbe hip

/-! ## Steps -/

/-- The step puts no blocked address into the lists. -/
def LetsNoneIn (s : NodeServer) : Event → Prop
  | .handshakeResponded id justTakePeerlist rsp =>
      ∀ context, s.findConnection id = some context → context.isIncome = false →
        rsp.checks.networkId = true → rsp.checks.clientVersion = true →
        rsp.checks.maintrsEntry = true → ¬ FromFuture rsp.localTime rsp.localPeerlist →
        (∀ be ∈ rsp.localPeerlist, s.Free be.adr.ip) ∧
          (justTakePeerlist = false → rsp.checks.payloadData = true →
            s.isPeerIdUsed rsp.peerId = false → s.Free context.remoteIp)
  | .timedSyncResponded id code rsp =>
      ∀ context, s.findConnection id = some context → context.peerId ≠ 0 → 0 ≤ code →
        rsp.checks.maintrsEntry = true →
        (¬ FromFuture rsp.localTime rsp.localPeerlist → ∀ be ∈ rsp.localPeerlist, s.Free be.adr.ip) ∧
          (context.isIncome = false → s.peerlist.isIpAllowed context.remoteIp = true →
            s.blocked context.remoteIp = false ∧
              (FromFuture rsp.localTime rsp.localPeerlist →
                s.ipFailsScore context.remoteIp < p2pIpFailsBeforBlock))
  | .restart line peerId =>
      ∀ peer ∈ line.addPeer, (initConfig line peerId s.stateFile s.now).Free peer.1.ip
  | .pingResponded index code statusOk peerId =>
      ∀ ping, s.pings[index]? = some ping → 0 < code → statusOk = true → ping.peerId = peerId →
        s.Free ping.ip
  | _ => True

theorem KeptOut.handshakeResponded {id : Nat} {justTakePeerlist : Bool} {rsp : HandshakeResponse}
    (hs : s.KeptOut) (h : s.LetsNoneIn (.handshakeResponded id justTakePeerlist rsp)) :
    (s.handshakeResponded id justTakePeerlist rsp).KeptOut := by
  unfold NodeServer.handshakeResponded
  split
  · exact hs
  · rename_i context hcontext
    refine KeptOut.ite (fun _ => hs) fun hincome => ?_
    refine KeptOut.ite (fun _ => hs.close id) fun hnetwork => ?_
    refine KeptOut.ite (fun _ => hs.close id) fun hversion => ?_
    refine KeptOut.ite (fun _ => hs.close id) fun hmaintrs => ?_
    rcases handleRemotePeerlist_cases s rsp.localPeerlist rsp.localTime with
      ⟨-, hsame⟩ | ⟨hpast, l', hfix, hmerged⟩
    · rw [hsame]
      exact (hs.addIpFail context.remoteIp).close id
    · obtain ⟨hlist, hseen⟩ := h context hcontext (by simpa using hincome)
        (by simpa using hnetwork) (by simpa using hversion) (by simpa using hmaintrs) hpast
      have hmerge := hs.mergePeerlist hfix hlist
      rw [hmerged]
      dsimp only
      refine KeptOut.ite (fun hrefused => by simp at hrefused) fun _ => ?_
      refine KeptOut.ite (fun _ => hmerge.close id) fun htake => ?_
      refine KeptOut.ite (fun _ => hmerge.close id) fun hpayload => ?_
      refine KeptOut.ite (fun _ => hmerge.close id) fun hused => ?_
      have hnamed : (setPeerId { s with peerlist := s.peerlist.mergePeerlist l' } id
          rsp.peerId).KeptOut := hmerge.congr rfl rfl rfl rfl
      have hfree : (setPeerId { s with peerlist := s.peerlist.mergePeerlist l' } id
          rsp.peerId).Free context.remoteIp := by
        have hbefore := hseen (by simpa using htake) (by simpa using hpayload)
          (by simpa [isPeerIdUsed] using hused)
        exact hbefore.congr (PeerlistManager.allowLocalIp_mergePeerlist l') rfl rfl
      have hjust := hnamed.setPeerJustSeen rsp.peerId ⟨context.remoteIp, context.remotePort⟩ hfree
      refine KeptOut.ite (fun _ => hjust.close id) fun _ => ?_
      exact hjust.congr rfl rfl rfl rfl

theorem KeptOut.lookGood (addr : BitVec 32) (hs : s.KeptOut) :
    (s.isIpGoodForAddingToPeerlist addr).2.KeptOut := by
  obtain ⟨ips, hstate, hsame⟩ := isIpGoodForAddingToPeerlist_state s addr
  rw [hstate]
  exact hs.lookup hsame

/-- The handler looks the address up again before it adds it. -/
theorem KeptOut.connectionHandshaked (index : Nat) (hs : s.KeptOut) :
    (s.connectionHandshaked index).KeptOut := by
  unfold NodeServer.connectionHandshaked
  split
  · exact hs
  · rename_i made _
    have htaken : { s with handshaked := s.handshaked.eraseIdx index }.KeptOut :=
      hs.congr rfl rfl rfl rfl
    have hlook := htaken.lookGood made.na.ip
    refine KeptOut.ite (fun hgood => ?_) fun _ => hlook
    apply hlook.appendWithPeerWhite
    intro _
    obtain ⟨ips, hstate, hsame⟩ := isIpGoodForAddingToPeerlist_state
      { s with handshaked := s.handshaked.eraseIdx index } made.na.ip
    rw [hstate, hsame]
    exact not_blocked_of_good hgood

theorem KeptOut.timedSyncResponded {id : Nat} {code : Int} {rsp : TimedSyncResponse}
    (hs : s.KeptOut) (h : s.LetsNoneIn (.timedSyncResponded id code rsp)) :
    (s.timedSyncResponded id code rsp).KeptOut := by
  unfold NodeServer.timedSyncResponded
  split
  · exact hs
  · rename_i context hcontext
    refine KeptOut.ite (fun _ => hs) fun hpeer => ?_
    refine KeptOut.ite (fun _ => hs) fun hcode => ?_
    refine KeptOut.ite (fun _ => hs) fun hmaintrs => ?_
    obtain ⟨hlist, hseen⟩ := h context hcontext hpeer (by omega) (by simpa using hmaintrs)
    rcases handleRemotePeerlist_cases s rsp.localPeerlist rsp.localTime with
      ⟨hfuture, hsame⟩ | ⟨hpast, l', hfix, hmerged⟩
    · rw [hsame]
      have hfail := (hs.close id).addIpFail context.remoteIp
      refine KeptOut.ite (fun hincome => ?_) fun _ => hfail
      -- the failure was recorded, but did not block the peer that is entered now
      apply hfail.setPeerJustSeen context.peerId
      intro hip
      obtain ⟨hfree, hscore⟩ := hseen (by simpa using hincome) (by
        rwa [PeerlistManager.isIpAllowed_congr (allowLocalIp_addIpFail _ _)] at hip)
      have hscore' : (s.close id).ipFailsScore context.remoteIp < p2pIpFailsBeforBlock :=
        hscore hfuture
      show ((s.close id).addIpFail context.remoteIp).blocked context.remoteIp = false
      have hclose : (s.close id).blocked = s.blocked := blocked_congr rfl rfl
      rw [blocked_addIpFail_self hscore', hclose]
      exact hfree
    · rw [hmerged]
      have hmerge := hs.mergePeerlist hfix (hlist hpast)
      refine KeptOut.ite (fun hincome => ?_) fun _ => hmerge
      apply hmerge.setPeerJustSeen context.peerId
      have hbefore : s.Free context.remoteIp := by
        intro hip
        exact (hseen (by simpa using hincome) hip).1
      exact hbefore.congr (PeerlistManager.allowLocalIp_mergePeerlist l') rfl rfl

theorem KeptOut.tryPing (context : P2pConnectionContext) (myPort : BitVec 32)
    (peerId : BitVec 64) (hs : s.KeptOut) : (s.tryPing context myPort peerId).KeptOut := by
  unfold NodeServer.tryPing
  refine KeptOut.ite (fun _ => hs) fun _ => ?_
  refine KeptOut.ite (fun _ => hs) fun _ => ?_
  exact hs.congr rfl rfl rfl rfl

/-- The ping waits for its answer, so that the lists do not change. -/
theorem KeptOut.handleHandshake (id : Nat) (arg : HandshakeRequest) (hs : s.KeptOut) :
    (s.handleHandshake id arg).2.KeptOut := by
  unfold NodeServer.handleHandshake
  have hfail : ∀ context : P2pConnectionContext,
      ((s.close id).addIpFail context.remoteIp).KeptOut :=
    fun context => (hs.close id).addIpFail context.remoteIp
  split
  · exact hs
  · rename_i context _
    have hnamed : (s.setPeerId id arg.peerId).KeptOut := hs.congr rfl rfl rfl rfl
    have hlook := hnamed.lookGood context.remoteIp
    dsimp only
    split_ifs
    · exact hfail context
    · exact hfail context
    · exact hs.close id
    · exact hs.close id
    · exact hfail context
    · exact hs
    · exact hs.close id
    · exact hlook.tryPing context arg.myPort arg.peerId
    · exact hlook
    · exact hnamed

theorem KeptOut.handleTimedSync (id : Nat) (checks : SyncChecks) (hs : s.KeptOut) :
    (s.handleTimedSync id checks).2.KeptOut := by
  unfold NodeServer.handleTimedSync
  split
  · exact hs
  · split_ifs
    · exact hs
    · exact hs.close id
    · exact hs

theorem KeptOut.pingResponded {index : Nat} {code : Int} {statusOk : Bool} {peerId : BitVec 64}
    (hs : s.KeptOut) (h : s.LetsNoneIn (.pingResponded index code statusOk peerId)) :
    (s.pingResponded index code statusOk peerId).KeptOut := by
  unfold NodeServer.pingResponded
  split
  · exact hs
  · rename_i ping hping
    have htaken : { s with pings := s.pings.eraseIdx index }.KeptOut := hs.congr rfl rfl rfl rfl
    refine KeptOut.ite (fun _ => htaken) fun hcode => ?_
    refine KeptOut.ite (fun _ => htaken) fun hanswer => ?_
    obtain ⟨hstatus, hpeer⟩ : statusOk = true ∧ ping.peerId = peerId := by simpa using hanswer
    apply htaken.appendWithPeerWhite
    exact (h ping hping (by omega) hstatus hpeer).congr rfl rfl rfl

theorem KeptOut.accept (id : Nat) (remote : NetAddress) (hs : s.KeptOut) :
    (s.accept id remote).KeptOut := by
  obtain ⟨ips, hstate, hsame⟩ := isRemoteIpAllowed_state s remote.ip
  have hlook : (s.isRemoteIpAllowed remote.ip).2.KeptOut := by
    rw [hstate]
    exact hs.lookup hsame
  exact KeptOut.ite (fun _ => hlook.congr rfl rfl rfl rfl) fun _ => hlook

theorem KeptOut.storeConfig (hs : s.KeptOut) : s.storeConfig.KeptOut where
  lists := by
    have hsame : s.storeConfig.blocked = s.blocked := blocked_congr rfl rfl
    rw [hsame]
    exact hs.lists
  file file hstored := by
    cases hstored
    have hsame : { s.storeConfig with blockedIps := s.blockedIps }.blocked = s.blocked :=
      blocked_congr rfl rfl
    rw [hsame]
    exact hs.lists

/-- The lists that are loaded were stored with the blocked addresses. -/
theorem KeptOut.initConfig (line : CommandLine) (peerId : BitVec 64) (hs : s.KeptOut) :
    (initConfig line peerId s.stateFile s.now).KeptOut where
  lists := by
    apply PeerlistManager.Without.init
    unfold NodeServer.initConfig loadState
    cases hstored : s.stateFile with
    | none => exact PeerlistManager.Without.empty line.allowLocalIp
    | some file =>
        have hfile := hs.file file hstored
        dsimp only
        split
        · rename_i hfresh
          refine hfile.mono fun ip hip => ?_
          rw [blocked_eq] at hip ⊢
          simpa [hfresh] using hip
        · exact PeerlistManager.Without.empty line.allowLocalIp
  file := hs.sameFile rfl rfl

theorem KeptOut.foldl_appendWithPeerWhite (peers : List (NetAddress × BitVec 64)) :
    ∀ {s : NodeServer}, s.KeptOut → (∀ peer ∈ peers, s.Free peer.1.ip) →
      (peers.foldl (fun s peer => s.appendWithPeerWhite ⟨peer.1, peer.2, 0⟩) s).KeptOut := by
  induction peers with
  | nil =>
      intro s hs _
      exact hs
  | cons peer peers ih =>
      intro s hs hfree
      rw [List.foldl_cons]
      apply ih (hs.appendWithPeerWhite (hfree peer List.mem_cons_self))
      intro other hother
      exact (hfree other (List.mem_cons_of_mem peer hother)).congr
        (PeerlistManager.allowLocalIp_appendWithPeerWhite _) rfl rfl

theorem KeptOut.restart {line : CommandLine} {peerId : BitVec 64} (hs : s.KeptOut)
    (h : s.LetsNoneIn (.restart line peerId)) : (init line peerId s.stateFile s.now).KeptOut :=
  KeptOut.foldl_appendWithPeerWhite line.addPeer (hs.initConfig line peerId) h

theorem KeptOut.step {e : Event} (hs : s.KeptOut) (h : s.LetsNoneIn e) :
    (s.step e).KeptOut := by
  cases e with
  | elapse seconds =>
      exact ⟨hs.lists.mono fun ip => blocked_elapse seconds, fun file hstored =>
        (hs.file file hstored).mono fun ip => blocked_elapse seconds⟩
  | storeConfig => exact hs.storeConfig
  | restart line peerId => exact hs.restart h
  | accept id remote => exact hs.accept id remote
  | connect id na => exact hs.congr rfl rfl rfl rfl
  | close id => exact hs.close id
  | addIpFail id =>
      unfold NodeServer.step
      dsimp only
      split
      · exact hs
      · exact hs.addIpFail _
  | handshakeResponded id justTakePeerlist rsp => exact hs.handshakeResponded h
  | connectionHandshaked index => exact hs.connectionHandshaked index
  | timedSyncResponded id code rsp => exact hs.timedSyncResponded h
  | handleHandshake id arg => exact hs.handleHandshake id arg
  | handleTimedSync id checks => exact hs.handleTimedSync id checks
  | pingResponded index code statusOk peerId => exact hs.pingResponded h

/-! ## Runs -/

/-- No address is blocked when a node starts for the first time. -/
theorem keptOut_init (line : CommandLine) (peerId : BitVec 64) (now : Int) :
    (init line peerId none now).KeptOut := by
  have hconfig : (initConfig line peerId none now).KeptOut :=
    ⟨⟨fun _ _ => rfl, fun _ _ => rfl⟩, nofun⟩
  exact hconfig.foldl_appendWithPeerWhite line.addPeer fun _ _ _ => rfl

/-- As long as no step puts a blocked address into the lists, neither they nor what is shared
of them hold one, from the first start of the node on. -/
theorem blocked_peers_kept_out (line : CommandLine) (peerId : BitVec 64) (now : Int)
    (events : List Event)
    (h : ∀ done e rest, events = done ++ e :: rest →
      ((init line peerId none now).run done).LetsNoneIn e) :
    ∀ done rest, events = done ++ rest → ((init line peerId none now).run done).BlockedOut :=
  fun done rest hevents =>
    (RunInvariant.forall_states (keptOut_init line peerId now)
      (fun _ _ hs hstep => KeptOut.step hs hstep) h done rest hevents).blockedOut

section Sample

/-- A node with connections to two peers, of which the first one handshaked and then failed. -/
def sampleFails (fails : Nat) : List Event :=
  [.connect 1 ⟨8, 1⟩, .connect 2 ⟨9, 1⟩,
    .handshakeResponded 1 false ⟨⟨true, true, true, true⟩, 5, 100, []⟩] ++
    List.replicate fails (.addIpFail 1)

/-- The second peer sends a list, and is asked for another one later. -/
def sampleList (localPeerlist : List PeerlistEntry) : List Event :=
  [.handshakeResponded 2 false ⟨⟨true, true, true, true⟩, 6, 100, localPeerlist⟩]

def sampleLine (addPeer : List (NetAddress × BitVec 64)) : CommandLine :=
  ⟨false, false, true, addPeer⟩

def sampleRun (events : List Event) : NodeServer :=
  (init (sampleLine []) 1 none 1000).run events

/-- The first peer is blocked, the list of the second one does not name it, and it is blocked
still after the node stored its state and started again. -/
theorem blocked_peers_kept_out_sample :
    (sampleRun (sampleFails 11 ++ (sampleList [⟨⟨7, 1⟩, 6, 50⟩] ++
        [.storeConfig, .elapse 60, .restart (sampleLine [(⟨6, 1⟩, 3)]) 2]))).BlockedOut ∧
      (sampleRun (sampleFails 11 ++ (sampleList [⟨⟨7, 1⟩, 6, 50⟩] ++
        [.storeConfig, .elapse 60, .restart (sampleLine [(⟨6, 1⟩, 3)]) 2]))).blocked 8 = true := by
  -- the failures put nothing into the lists
  have hfails : ∀ e ∈ List.replicate 11 (Event.addIpFail 1), ∀ s : NodeServer, s.LetsNoneIn e := by
    intro e he _
    rw [List.eq_of_mem_replicate he]
    trivial
  have hthere : (sampleRun (sampleFails 11)).findConnection 2 = some ⟨2, 9, 1, false, 0⟩ := by
    decide +kernel
  refine ⟨blocked_peers_kept_out (sampleLine []) 1 1000 (sampleFails 11 ++
    (sampleList [⟨⟨7, 1⟩, 6, 50⟩] ++
      [.storeConfig, .elapse 60, .restart (sampleLine [(⟨6, 1⟩, 3)]) 2])) ?_ _ []
        (List.append_nil _).symm, by decide +kernel⟩
  simp only [sampleFails, sampleList, List.cons_append, List.nil_append]
  refine RunInvariant.forall_steps_cons trivial ?_
  refine RunInvariant.forall_steps_cons trivial ?_
  refine RunInvariant.forall_steps_cons ?_ ?_
  · intro context _ _ _ _ _ _
    exact ⟨fun _ _ _ => rfl, fun _ _ _ _ => rfl⟩
  refine RunInvariant.forall_steps_append hfails ?_
  refine RunInvariant.forall_steps_cons ?_ ?_
  · intro context hcontext _ _ _ _ _
    constructor
    · intro be hbe _
      rw [List.mem_singleton.mp hbe]
      decide +kernel
    · intro _ _ _ _
      cases hthere.symm.trans hcontext
      decide +kernel
  refine RunInvariant.forall_steps_cons trivial ?_
  refine RunInvariant.forall_steps_cons trivial ?_
  refine RunInvariant.forall_steps_cons ?_ RunInvariant.forall_steps_nil
  intro peer hpeer _
  rw [List.mem_singleton.mp hpeer]
  decide +kernel

/-- A list of a peer names an address that was blocked before; the last failure before the
block is recorded by the handler that enters the peer afterwards; and a node that starts again
has a blocked address on its command line. -/
theorem blocked_peers_not_kept_out :
    ¬ (sampleRun (sampleFails 11 ++ sampleList [⟨⟨8, 1⟩, 6, 50⟩])).BlockedOut ∧
      ¬ (sampleRun (sampleFails 10 ++
        [.timedSyncResponded 1 1 ⟨⟨true, true, true, true⟩, 100, [⟨⟨7, 1⟩, 6, 150⟩]⟩])).BlockedOut ∧
        ¬ (sampleRun (sampleFails 11 ++
          [.storeConfig, .restart (sampleLine [(⟨8, 1⟩, 3)]) 2])).BlockedOut := by
  refine ⟨fun h => ?_, fun h => ?_, fun h => ?_⟩
  · have hgray : (⟨⟨8, 1⟩, 6, 950⟩ : PeerlistEntry) ∈ (sampleRun (sampleFails 11 ++
        sampleList [⟨⟨8, 1⟩, 6, 50⟩])).peerlist.peersGray.entries := by decide +kernel
    have hblocked : (sampleRun (sampleFails 11 ++
        sampleList [⟨⟨8, 1⟩, 6, 50⟩])).blocked 8 = true := by decide +kernel
    have hfree := h.gray _ hgray
    rw [hblocked] at hfree
    cases hfree
  · have hhead : (⟨⟨8, 1⟩, 5, 1000⟩ : PeerlistEntry) ∈ (sampleRun (sampleFails 10 ++
        [.timedSyncResponded 1 1 ⟨⟨true, true, true, true⟩, 100,
          [⟨⟨7, 1⟩, 6, 150⟩]⟩])).peerlist.getPeerlistHead 250 := by decide +kernel
    have hblocked : (sampleRun (sampleFails 10 ++
        [.timedSyncResponded 1 1 ⟨⟨true, true, true, true⟩, 100,
          [⟨⟨7, 1⟩, 6, 150⟩]⟩])).blocked 8 = true := by decide +kernel
    have hfree := h.head 250 _ hhead
    rw [hblocked] at hfree
    cases hfree
  · have hwhite : (⟨⟨8, 1⟩, 3, 0⟩ : PeerlistEntry) ∈ (sampleRun (sampleFails 11 ++
        [.storeConfig, .restart (sampleLine [(⟨8, 1⟩, 3)]) 2])).peerlist.peersWhite.entries := by
      decide +kernel
    have hblocked : (sampleRun (sampleFails 11 ++
        [.storeConfig, .restart (sampleLine [(⟨8, 1⟩, 3)]) 2])).blocked 8 = true := by
      decide +kernel
    have hfree := h.white _ hwhite
    rw [hblocked] at hfree
    cases hfree

end Sample

end NodeServer

end Chinet
