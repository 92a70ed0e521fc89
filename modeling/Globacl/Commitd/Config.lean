import Globacl.Commitd.Election
import Globacl.Core.Patterns
import Globacl.Core.Words

/-!
# The settings of a node (`globacl-commitd/src/app/config.rs`)

A node reads its settings from the environment. What is said of clusters elsewhere is of nodes with one
list of peers and a majority of it as the quorum; here it is shown that nodes which were given one list of
peers and one quorum, and which start, are such a cluster.

* `exists_parsePeers_iff`: the lists of peers that can be given.
* `replicationConfig_ok`: what a node that starts has in its settings.
* `deployed_starts`: the nodes of a deployment form a cluster.
-/

namespace Globacl

open Lib

/-- The variables of a process that are set to a text. -/
abbrev Environment := String → Option String

/-- `commitd_env`. -/
def commitdEnv (env : Environment) (suffix : String) : Option String :=
  (env ("GLOBACL_COMMITD_" ++ suffix)).or (env ("GLOBACL_CONTROL_" ++ suffix))

/-- `parse_env_u64`, and `parse_env_usize` on a machine of 64 bits. -/
def parseEnvU64 (value field : String) : Result Nat :=
  match parseUnsigned (2 ^ 64 - 1) value with
  | .ok n => .ok n
  | .error err => .error (.parse s!"invalid {field}: {err}")

/-- A number with a default. -/
def envNumber (value : Option String) (field : String) (default : Nat) : Result Nat :=
  match value with
  | some value => parseEnvU64 value field
  | none => .ok default

/-- `env_bool_value`. -/
def envBoolValue (value : String) : Bool :=
  ["1", "true", "yes", "on"].contains (toAsciiLowercase (trim value))

/-! ## Peers -/

structure ControlPeer where
  nodeId : String
  addr : String
  deriving DecidableEq, Repr

/-- The body of the loop of `parse_peers`. -/
def insertPeer (peers : List ControlPeer) (part : String) : Result (List ControlPeer) :=
  match splitOnce '=' part with
  | none => .error (.parse s!"invalid peer {debugStr part}; expected node_id=host:port")
  | some (nodeId, addr) =>
    if trim nodeId = "" ∨ trim addr = "" then
      .error (.parse s!"invalid peer {debugStr part}; node_id and address are required")
    else if peers.any fun peer => peer.nodeId = trim nodeId then
      .error (.parse s!"duplicate peer node id {debugStr (trim nodeId)}")
    else if peers.any fun peer => peer.addr = trim addr then
      .error (.parse s!"duplicate peer address {debugStr (trim addr)}")
    else .ok (peers ++ [⟨trim nodeId, trim addr⟩])

/-- `value.split(',').map(str::trim).filter(|part| !part.is_empty())`. -/
def peerParts (value : String) : List String :=
  ((value.toList.splitOn ',').map fun part => trim (String.ofList part)).filter fun part => part ≠ ""

/-- `parse_peers`. -/
def parsePeers (value : String) : Result (List ControlPeer) := (peerParts value).foldlM insertPeer []

/-- The text of a list of peers, as the variable is written. -/
def formatPeers (peers : List ControlPeer) : String :=
  ",".intercalate (peers.map fun peer => peer.nodeId ++ String.singleton '=' ++ peer.addr)

/-! ## Replication -/

/-- `ReplicationConfig` with what only the transport and the threads use. -/
structure ReplicationSettings where
  clusterId : String
  nodeId : String
  initialLeaderId : Option String
  peers : List ControlPeer
  quorum : Nat
  heartbeatIntervalMs : Nat
  electionTimeoutMs : Nat
  syncIntervalMs : Nat
  deriving DecidableEq

/-- What the handlers and the consensus use of the settings. -/
def ReplicationSettings.shared (settings : ReplicationSettings) : ReplicationConfig where
  clusterId := settings.clusterId
  nodeId := settings.nodeId
  initialLeaderId := settings.initialLeaderId
  peers := settings.peers.map ControlPeer.nodeId
  quorum := settings.quorum

/-- The peers with the node itself, which may be missing in the variable. -/
def withSelf (self : ControlPeer) (peers : List ControlPeer) : List ControlPeer :=
  let peers := if peers.isEmpty then [self] else peers
  if peers.any fun peer => peer.nodeId = self.nodeId then peers else peers ++ [self]

def checkInitialLeader (initialLeaderId : Option String) (peers : List ControlPeer) : Result Unit :=
  match initialLeaderId with
  | some leaderId =>
    if peers.any fun peer => peer.nodeId = leaderId then .ok ()
    else .error
      (.invalidData s!"initial leader {leaderId} is not present in GLOBACL_COMMITD_PEERS")
  | none => .ok ()

def checkQuorum (quorum peers : Nat) : Result Unit :=
  if quorum = 0 ∨ quorum > peers then
    .error (.invalidData s!"invalid quorum {quorum} for {peers} peers")
  else if peers > 1 ∧ quorum ≤ peers / 2 then
    .error (.invalidData
      s!"clustered commitd quorum must be a majority: quorum={quorum} peers={peers}")
  else .ok ()

def checkIntervals (heartbeat election sync : Nat) : Result Unit :=
  if heartbeat = 0 then
    .error (.invalidData "GLOBACL_COMMITD_HEARTBEAT_MS must be greater than zero")
  else if election < min (heartbeat * 3) (2 ^ 64 - 1) then
    .error (.invalidData
      s!"GLOBACL_COMMITD_ELECTION_MS must be at least 3x heartbeat: election={election} heartbeat={heartbeat}")
  else if sync = 0 then
    .error (.invalidData "GLOBACL_COMMITD_SYNC_MS must be greater than zero")
  else .ok ()

/-- The name of a node. -/
def envNodeId (env : Environment) : String :=
  ((commitdEnv env "NODE_ID").or (env "HOSTNAME")).getD "commitd-local"

/-- `replication_config`. -/
def replicationConfig (env : Environment) (bindAddr : String) : Result ReplicationSettings := do
  let nodeId := envNodeId env
  let clusterId := (commitdEnv env "CLUSTER_ID").getD "local"
  let initialLeaderId := ((commitdEnv env "INITIAL_LEADER_ID").or (commitdEnv env "LEADER_ID")).filter
    fun value => trim value ≠ ""
  let peers ← parsePeers ((commitdEnv env "PEERS").getD "")
  let peers := withSelf ⟨nodeId, bindAddr⟩ peers
  checkInitialLeader initialLeaderId peers
  let quorum ← envNumber (commitdEnv env "QUORUM") "GLOBACL_COMMITD_QUORUM" (peers.length / 2 + 1)
  checkQuorum quorum peers.length
  let heartbeatIntervalMs ←
    envNumber (commitdEnv env "HEARTBEAT_MS") "GLOBACL_COMMITD_HEARTBEAT_MS" 250
  let electionTimeoutMs ←
    envNumber (commitdEnv env "ELECTION_MS") "GLOBACL_COMMITD_ELECTION_MS" 1200
  let syncIntervalMs ← envNumber (commitdEnv env "SYNC_MS") "GLOBACL_COMMITD_SYNC_MS" 1000
  checkIntervals heartbeatIntervalMs electionTimeoutMs syncIntervalMs
  pure { clusterId, nodeId, initialLeaderId, peers, quorum, heartbeatIntervalMs, electionTimeoutMs,
         syncIntervalMs }

/-- `peer_token_config`. -/
def peerTokenConfig (env : Environment) (replication : ReplicationSettings) :
    Result (Option String) :=
  let token := (((commitdEnv env "PEER_TOKEN").or (env "GLOBACL_PEER_TOKEN")).map trim).filter
    fun value => value ≠ ""
  if replication.shared.isClustered ∧ token.isNone then
    .error (.invalidData "GLOBACL_COMMITD_PEER_TOKEN is required when commitd is clustered")
  else .ok token

/-! ## The other settings of a start -/

structure CompactionConfig where
  minLogEntries : Nat
  compactOnStartup : Bool
  deriving DecidableEq

/-- `compaction_config`. -/
def compactionConfig (env : Environment) : Result CompactionConfig := do
  let minLogEntries ← envNumber (commitdEnv env "COMPACTION_MIN_LOG_ENTRIES")
    "GLOBACL_COMMITD_COMPACTION_MIN_LOG_ENTRIES" 10000
  pure ⟨minLogEntries, ((commitdEnv env "COMPACT_ON_STARTUP").map envBoolValue).getD true⟩

structure PublisherConfig where
  natsAddr : String
  stream : String
  subjectPrefix : String
  publishIntervalMs : Nat
  autocreateStream : Bool
  deriving DecidableEq

/-- `publisher_config`. -/
def publisherConfig (env : Environment) : Result (Option PublisherConfig) :=
  let natsAddr := (env "GLOBACL_NATS_ADDR").or (env "GLOBACL_NATS_URL")
  let mode := ((env "GLOBACL_COMMITD_PUBLISHER").or (env "GLOBACL_PUBLISHER")).getD
    (if natsAddr.isSome then "jetstream" else "none")
  let name := toAsciiLowercase (trim mode)
  if ["", "none", "off", "disabled"].contains name then .ok none
  else if ["jetstream", "nats", "nats_jetstream"].contains name then do
    let publishIntervalMs ←
      envNumber (env "GLOBACL_NATS_PUBLISH_MS") "GLOBACL_NATS_PUBLISH_MS" 250
    pure (some
      { natsAddr := natsAddr.getD "127.0.0.1:4222"
        stream := (env "GLOBACL_NATS_STREAM").getD "GLOBACL"
        subjectPrefix := (env "GLOBACL_NATS_SUBJECT_PREFIX").getD "globacl"
        publishIntervalMs
        autocreateStream := ((env "GLOBACL_NATS_AUTOCREATE").map envBoolValue).getD true })
  else .error (.parse s!"unknown GLOBACL_COMMITD_PUBLISHER mode {debugStr name}")

/-- What `run` takes from the environment before it loads its files. -/
structure Settings where
  replication : ReplicationSettings
  peerToken : Option String
  compaction : CompactionConfig
  publisher : Option PublisherConfig
  deriving DecidableEq

/-- The settings in the order of `run`. -/
def settings (env : Environment) (bindAddr : String) : Result Settings := do
  let replication ← replicationConfig env bindAddr
  let peerToken ← peerTokenConfig env replication
  let compaction ← compactionConfig env
  let publisher ← publisherConfig env
  pure ⟨replication, peerToken, compaction, publisher⟩

def Settings.config (settings : Settings) (shardCount : Nat) : Config where
  shardCount := shardCount
  replication := settings.replication.shared
  minLogEntries := settings.compaction.minLogEntries
  compactOnStartup := settings.compaction.compactOnStartup
  publisher := settings.publisher.isSome

/-! ## The peers that are read -/

/-- A peer whose name and address are not blank, without white space or separators around them. -/
structure ControlPeer.Named (peer : ControlPeer) : Prop where
  nodeId : peer.nodeId ≠ "" ∧ trim peer.nodeId = peer.nodeId
  addr : peer.addr ≠ "" ∧ trim peer.addr = peer.addr
  equals : '=' ∉ peer.nodeId.toList
  commas : ',' ∉ peer.nodeId.toList ∧ ',' ∉ peer.addr.toList

/-- Peers with distinct names and addresses. -/
structure ValidPeers (peers : List ControlPeer) : Prop where
  named : ∀ peer ∈ peers, peer.Named
  nodeIds : (peers.map ControlPeer.nodeId).Nodup
  addrs : (peers.map ControlPeer.addr).Nodup

theorem ValidPeers.nil : ValidPeers [] :=
  ⟨fun _ hpeer => (by cases hpeer), List.nodup_nil, List.nodup_nil⟩

theorem splitOnce_eq_some {sep : Char} {value before after : String}
    (h : splitOnce sep value = some (before, after)) :
    value.toList = before.toList ++ sep :: after.toList ∧ sep ∉ before.toList := by
  unfold splitOnce at h
  rw [List.span_eq_takeWhile_dropWhile] at h
  split at h
  · rename_i cs c rest hspan
    cases h
    obtain ⟨hbefore, hafter⟩ := Prod.mk.inj hspan
    have hc : c = sep := by
      have hnot := List.head?_dropWhile_not (· != sep) value.toList
      rw [hafter] at hnot
      simpa using hnot
    rw [String.toList_ofList, String.toList_ofList, ← hc, ← hafter, ← hbefore]
    refine ⟨List.takeWhile_append_dropWhile.symm, fun hmem => ?_⟩
    have hne := List.mem_takeWhile_imp hmem
    rw [hc] at hne
    simp at hne
  · cases h

theorem insertPeer_ok {peers peers' : List ControlPeer} {part : String}
    (h : insertPeer peers part = .ok peers') :
    ∃ nodeId addr, splitOnce '=' part = some (nodeId, addr) ∧ trim nodeId ≠ "" ∧ trim addr ≠ "" ∧
      trim nodeId ∉ peers.map ControlPeer.nodeId ∧ trim addr ∉ peers.map ControlPeer.addr ∧
      peers' = peers ++ [⟨trim nodeId, trim addr⟩] := by
  unfold insertPeer at h
  split at h
  · cases h
  · rename_i nodeId addr hsplit
    split at h
    · cases h
    · rename_i hblank
      split at h
      · cases h
      · rename_i hid
        split at h
        · cases h
        · rename_i haddr
          cases h
          obtain ⟨hnodeId, haddr'⟩ := not_or.mp hblank
          refine ⟨nodeId, addr, hsplit, hnodeId, haddr', fun hmem => hid ?_, fun hmem => haddr ?_, rfl⟩
          · obtain ⟨peer, hpeer, heq⟩ := List.mem_map.mp hmem
            exact List.any_eq_true.mpr ⟨peer, hpeer, decide_eq_true heq⟩
          · obtain ⟨peer, hpeer, heq⟩ := List.mem_map.mp hmem
            exact List.any_eq_true.mpr ⟨peer, hpeer, decide_eq_true heq⟩

/-- A peer that is read keeps the list valid. -/
theorem ValidPeers.insertPeer {peers peers' : List ControlPeer} {part : String}
    (h : ValidPeers peers) (hpart : ',' ∉ part.toList) (hinsert : insertPeer peers part = .ok peers') :
    ValidPeers peers' := by
  obtain ⟨nodeId, addr, hsplit, hid, haddr, hnewId, hnewAddr, rfl⟩ := insertPeer_ok hinsert
  obtain ⟨hlist, hequals⟩ := splitOnce_eq_some hsplit
  rw [hlist] at hpart
  have htrimmed : ∀ {value : String} {c : Char}, c ∉ value.toList → c ∉ (trim value).toList :=
    fun hc hmem => hc ((trim_sublist _).subset hmem)
  refine ⟨fun peer hpeer => ?_, ?_, ?_⟩
  · rcases List.mem_append.mp hpeer with hold | hnew
    · exact h.named peer hold
    · rw [List.mem_singleton.mp hnew]
      refine ⟨⟨hid, trim_trim nodeId⟩, ⟨haddr, trim_trim addr⟩, htrimmed hequals, htrimmed ?_, htrimmed ?_⟩
      · exact fun hmem => hpart (List.mem_append_left _ hmem)
      · exact fun hmem => hpart (List.mem_append_right _ (List.mem_cons_of_mem _ hmem))
  · rw [List.map_append, List.nodup_append_comm]
    exact List.nodup_cons.mpr ⟨hnewId, h.nodeIds⟩
  · rw [List.map_append, List.nodup_append_comm]
    exact List.nodup_cons.mpr ⟨hnewAddr, h.addrs⟩

theorem not_mem_of_mem_peerParts {value part : String} (h : part ∈ peerParts value) :
    ',' ∉ part.toList := by
  obtain ⟨hmem, -⟩ := List.mem_filter.mp h
  obtain ⟨cs, hcs, rfl⟩ := List.mem_map.mp hmem
  intro hcomma
  have hin := (trim_sublist _).subset hcomma
  rw [String.toList_ofList] at hin
  exact absurd (forall_mem_of_mem_splitOnP hcs ',' hin) (by decide)

/-- The peers that are read have distinct names and addresses. -/
theorem parsePeers_valid {value : String} {peers : List ControlPeer}
    (h : parsePeers value = .ok peers) : ValidPeers peers := by
  refine foldlM_invariant (p := ValidPeers) (fun peers peers' part hpart hpeers hinsert => ?_)
    .nil h
  exact hpeers.insertPeer (not_mem_of_mem_peerParts hpart) hinsert

/-! ### The text of peers -/

theorem trim_peer {peer : ControlPeer} (h : peer.Named) :
    trim (peer.nodeId ++ String.singleton '=' ++ peer.addr) =
      peer.nodeId ++ String.singleton '=' ++ peer.addr := by
  have hnodeId := trim_eq_self_iff.mp h.nodeId.2
  have haddr := trim_eq_self_iff.mp h.addr.2
  have hids : peer.nodeId.toList ≠ [] := fun hnil => h.nodeId.1 (String.toList_inj.mp hnil)
  have haddrs : peer.addr.toList ≠ [] := fun hnil => h.addr.1 (String.toList_inj.mp hnil)
  refine trim_eq_self (fun c hc => hnodeId.1 c ?_) fun c hc => haddr.2 c ?_
  · rw [String.toList_append, String.toList_append, List.append_assoc,
      List.head?_append_of_ne_nil _ hids] at hc
    exact hc
  · rw [String.toList_append, List.getLast?_append_of_ne_nil _ haddrs] at hc
    exact hc

/-- The text of peers has a part for each of them. -/
theorem peerParts_formatPeers {peers : List ControlPeer} (h : ∀ peer ∈ peers, peer.Named) :
    peerParts (formatPeers peers) =
      peers.map fun peer => peer.nodeId ++ String.singleton '=' ++ peer.addr := by
  by_cases hnil : peers = []
  · subst hnil
    decide
  · have hplain : ∀ cs ∈ (peers.map fun peer =>
        peer.nodeId ++ String.singleton '=' ++ peer.addr).map String.toList, ',' ∉ cs := by
      intro cs hcs hcomma
      obtain ⟨_, hmem, rfl⟩ := List.mem_map.mp hcs
      obtain ⟨peer, hpeer, rfl⟩ := List.mem_map.mp hmem
      rw [String.toList_append, String.toList_append, String.toList_singleton, List.mem_append,
        List.mem_append, List.mem_singleton] at hcomma
      rcases hcomma with (hid | heq) | haddr
      · exact (h peer hpeer).commas.1 hid
      · cases heq
      · exact (h peer hpeer).commas.2 haddr
    have hsplit : (formatPeers peers).toList.splitOn ',' =
        (peers.map fun peer => peer.nodeId ++ String.singleton '=' ++ peer.addr).map String.toList := by
      unfold formatPeers
      rw [String.toList_intercalate]
      exact List.splitOn_intercalate ',' hplain (by simpa using hnil)
    unfold peerParts
    rw [hsplit, List.map_map, List.map_map, List.filter_map, List.filter_eq_self.mpr]
    · refine List.map_congr_left fun peer hpeer => ?_
      simp only [Function.comp_apply, String.ofList_toList]
      exact trim_peer (h peer hpeer)
    · intro peer hpeer
      simp only [Function.comp_apply, String.ofList_toList, decide_eq_true_eq]
      rw [trim_peer (h peer hpeer)]
      intro hempty
      have hlist := congrArg String.toList hempty
      simp at hlist

theorem insertPeer_format {peers : List ControlPeer} {peer : ControlPeer}
    (h : ValidPeers (peers ++ [peer])) :
    insertPeer peers (peer.nodeId ++ String.singleton '=' ++ peer.addr) = .ok (peers ++ [peer]) := by
  have hnamed := h.named peer (List.mem_append_right _ List.mem_cons_self)
  have hids := h.nodeIds
  have haddrs := h.addrs
  rw [List.map_append, List.nodup_append_comm] at hids haddrs
  unfold insertPeer
  rw [splitOnce_append _ hnamed.equals]
  dsimp only
  rw [hnamed.nodeId.2, hnamed.addr.2, if_neg (not_or.mpr ⟨hnamed.nodeId.1, hnamed.addr.1⟩), if_neg,
    if_neg]
  · intro hany
    obtain ⟨other, hother, heq⟩ := List.any_eq_true.mp hany
    exact (List.nodup_cons.mp haddrs).1 (List.mem_map.mpr ⟨other, hother, of_decide_eq_true heq⟩)
  · intro hany
    obtain ⟨other, hother, heq⟩ := List.any_eq_true.mp hany
    exact (List.nodup_cons.mp hids).1 (List.mem_map.mpr ⟨other, hother, of_decide_eq_true heq⟩)

theorem ValidPeers.sublist {peers peers' : List ControlPeer} (h : ValidPeers peers)
    (hsub : peers'.Sublist peers) : ValidPeers peers' :=
  ⟨fun peer hpeer => h.named peer (hsub.subset hpeer), h.nodeIds.sublist (hsub.map _),
    h.addrs.sublist (hsub.map _)⟩

/-- Valid peers are read from their text as they are. -/
theorem parsePeers_formatPeers {peers : List ControlPeer} (h : ValidPeers peers) :
    parsePeers (formatPeers peers) = .ok peers := by
  -- the loop, after it has read some of them
  have hloop : ∀ (rest done : List ControlPeer), ValidPeers (done ++ rest) →
      (rest.map fun peer => peer.nodeId ++ String.singleton '=' ++ peer.addr).foldlM insertPeer done =
        .ok (done ++ rest) := by
    intro rest
    induction rest with
    | nil =>
      intro done _
      rw [List.append_nil]
      rfl
    | cons peer rest ih =>
      intro done hvalid
      have hnext : done ++ peer :: rest = (done ++ [peer]) ++ rest := List.append_cons done peer rest
      rw [hnext] at hvalid ⊢
      have hone : ValidPeers (done ++ [peer]) := hvalid.sublist (List.sublist_append_left _ _)
      rw [List.map_cons, List.foldlM_cons, insertPeer_format hone]
      exact ih _ hvalid
  unfold parsePeers
  rw [peerParts_formatPeers h.named]
  exact hloop peers [] h

/-- A node can be given exactly the peers with distinct names and addresses, without separators or white
space around them. -/
theorem exists_parsePeers_iff (peers : List ControlPeer) :
    (∃ value, parsePeers value = .ok peers) ↔ ValidPeers peers :=
  ⟨fun ⟨_, h⟩ => parsePeers_valid h, fun h => ⟨formatPeers peers, parsePeers_formatPeers h⟩⟩

/-! ## The settings of a node that starts -/

theorem withSelf_of_mem {self : ControlPeer} {peers : List ControlPeer}
    (h : self.nodeId ∈ peers.map ControlPeer.nodeId) : withSelf self peers = peers := by
  obtain ⟨peer, hpeer, heq⟩ := List.mem_map.mp h
  have hany : (peers.any fun peer => peer.nodeId = self.nodeId) = true :=
    List.any_eq_true.mpr ⟨peer, hpeer, decide_eq_true heq⟩
  have hempty : peers.isEmpty = false := by
    cases peers with
    | nil => cases hpeer
    | cons _ _ => rfl
  unfold withSelf
  simp only [hempty, Bool.false_eq_true, if_false, hany, if_true]

theorem checkQuorum_ok {quorum peers : Nat} (h : checkQuorum quorum peers = .ok ()) :
    0 < quorum ∧ quorum ≤ peers ∧ peers < 2 * quorum := by
  unfold checkQuorum at h
  split at h
  · cases h
  · split at h
    · cases h
    · omega

/-- What a node that starts has read. -/
theorem replicationConfig_ok {env : Environment} {bindAddr : String} {s : ReplicationSettings}
    (h : replicationConfig env bindAddr = .ok s) :
    s.nodeId = envNodeId env ∧ s.clusterId = (commitdEnv env "CLUSTER_ID").getD "local" ∧
      (∃ peers, parsePeers ((commitdEnv env "PEERS").getD "") = .ok peers ∧
        s.peers = withSelf ⟨envNodeId env, bindAddr⟩ peers) ∧
      envNumber (commitdEnv env "QUORUM") "GLOBACL_COMMITD_QUORUM" (s.peers.length / 2 + 1) =
        .ok s.quorum ∧
      checkQuorum s.quorum s.peers.length = .ok () := by
  unfold replicationConfig at h
  dsimp only at h
  obtain ⟨peers, hpeers, h⟩ := bind_eq_ok.mp h
  obtain ⟨_, -, h⟩ := bind_eq_ok.mp h
  obtain ⟨quorum, hquorum, h⟩ := bind_eq_ok.mp h
  obtain ⟨_, hcheck, h⟩ := bind_eq_ok.mp h
  obtain ⟨_, -, h⟩ := bind_eq_ok.mp h
  obtain ⟨_, -, h⟩ := bind_eq_ok.mp h
  obtain ⟨_, -, h⟩ := bind_eq_ok.mp h
  obtain ⟨_, -, h⟩ := bind_eq_ok.mp h
  cases h
  exact ⟨rfl, rfl, ⟨peers, hpeers, rfl⟩, hquorum, hcheck⟩

theorem settings_ok {env : Environment} {bindAddr : String} {s : Settings}
    (h : settings env bindAddr = .ok s) :
    replicationConfig env bindAddr = .ok s.replication ∧
      peerTokenConfig env s.replication = .ok s.peerToken := by
  unfold settings at h
  obtain ⟨replication, hreplication, h⟩ := bind_eq_ok.mp h
  obtain ⟨peerToken, htoken, h⟩ := bind_eq_ok.mp h
  obtain ⟨_, -, h⟩ := bind_eq_ok.mp h
  obtain ⟨_, -, h⟩ := bind_eq_ok.mp h
  cases h
  exact ⟨hreplication, htoken⟩

/-! ## Deployments -/

/-- The environments of the nodes with these names, which were set up as one cluster: each has its own
name, and all list these peers and have one quorum and one cluster id. -/
structure OneCluster (env : String → Environment) (names : List String)
    (quorum clusterId : Option String) : Prop where
  nodeId : ∀ n ∈ names, envNodeId (env n) = n
  peers : ∀ n ∈ names, ∃ listed, parsePeers ((commitdEnv (env n) "PEERS").getD "") = .ok listed ∧
    listed.map ControlPeer.nodeId = names
  quorum : ∀ n ∈ names, commitdEnv (env n) "QUORUM" = quorum
  clusterId : ∀ n ∈ names, commitdEnv (env n) "CLUSTER_ID" = clusterId

/-- The nodes as they have just started, before any message. -/
def Cluster.deployed (names : List String) (apps : String → App) : Cluster where
  nodes n := ⟨apps n, [], none, .idle⟩
  requests := []
  votes := []
  heartbeats := []
  replications := []
  prepared := []
  fetched := []
  snapshots := []
  streams := []
  leaders := []
  assumed := names.flatMap fun n => ((apps n).consensus.leaderId.map fun leaderId =>
    ((apps n).consensus.currentTerm, leaderId)).toList

/-- A node of such a cluster has exactly the listed peers, and a quorum that all of them have. -/
theorem OneCluster.replication {env : String → Environment} {names : List String}
    {quorum clusterId : Option String} (h : OneCluster env names quorum clusterId)
    {n bindAddr : String} (hn : n ∈ names) {s : ReplicationSettings}
    (hs : replicationConfig (env n) bindAddr = .ok s) :
    s.nodeId = n ∧ s.clusterId = clusterId.getD "local" ∧
      s.peers.map ControlPeer.nodeId = names ∧
      envNumber quorum "GLOBACL_COMMITD_QUORUM" (names.length / 2 + 1) = .ok s.quorum ∧
      names.length < 2 * s.quorum := by
  obtain ⟨listed, hlisted, rfl⟩ := h.peers n hn
  obtain ⟨hnode, hcluster, ⟨read, hread, hpeers⟩, hquorum, hcheck⟩ := replicationConfig_ok hs
  rw [hlisted] at hread
  cases hread
  rw [h.nodeId n hn, withSelf_of_mem hn] at hpeers
  rw [hpeers] at hquorum hcheck
  rw [h.nodeId n hn] at hnode
  rw [h.clusterId n hn] at hcluster
  rw [h.quorum n hn] at hquorum
  rw [List.length_map]
  exact ⟨hnode, hcluster, by rw [hpeers], hquorum, (checkQuorum_ok hcheck).2.2⟩

/-- Nodes that were given one list of peers and one quorum, and that start, are a cluster of the nodes
that are listed. -/
theorem deployed_starts {env : String → Environment} {names : List String}
    {quorum clusterId : Option String} (h : OneCluster env names quorum clusterId)
    (hsome : names ≠ []) {bindAddr : String → String} {shardCount : String → Nat}
    {disk : String → Disk} {apps : String → App}
    (hboot : ∀ n ∈ names, ∃ s, settings (env n) (bindAddr n) = .ok s ∧
      boot (s.config (shardCount n)) (disk n) = .ok (apps n)) :
    ∃ mem : Membership, mem.peers = names ∧ (Cluster.deployed mem.peers apps).Starts mem := by
  obtain ⟨first, hfirst⟩ := List.exists_mem_of_ne_nil names hsome
  obtain ⟨listed, hlisted, hnames⟩ := h.peers first hfirst
  have hvalid := parsePeers_valid hlisted
  obtain ⟨s₀, hs₀, -⟩ := hboot first hfirst
  obtain ⟨-, -, -, hquorum₀, hmajority⟩ := h.replication hfirst (settings_ok hs₀).1
  refine ⟨{
      clusterId := clusterId.getD "local"
      peers := names
      quorum := s₀.replication.quorum
      nodup := hnames ▸ hvalid.nodeIds
      named := fun _ n hn => ?_
      majority := hmajority }, rfl, ?_⟩
  · obtain ⟨peer, hpeer, rfl⟩ := List.mem_map.mp (hnames ▸ hn)
    exact (hvalid.named peer hpeer).nodeId
  · refine ⟨fun n hn => ?_, rfl, rfl, rfl, rfl, rfl, rfl, rfl, rfl, rfl, fun n hn leaderId hleader => ?_⟩
    · obtain ⟨s, hs, hb⟩ := hboot n hn
      obtain ⟨hnode, hcluster, hpeers, hquorum, -⟩ := h.replication hn (settings_ok hs).1
      rw [hquorum₀] at hquorum
      have hconfig := (Cluster.boot_ok hb).1
      have hreplication : (apps n).config.replication = s.replication.shared := by rw [hconfig]; rfl
      refine ⟨?_, ?_, ?_, ?_, ⟨disk n, ?_⟩, rfl, rfl, rfl⟩
      · show (apps n).config.replication.clusterId = _
        rw [hreplication]
        exact hcluster
      · show (apps n).config.replication.nodeId = n
        rw [hreplication]
        exact hnode
      · show (apps n).config.replication.peers = _
        rw [hreplication]
        exact hpeers
      · show (apps n).config.replication.quorum = _
        rw [hreplication]
        exact (Except.ok.inj hquorum).symm
      · show boot (apps n).config (disk n) = .ok (apps n)
        rw [hconfig]
        exact hb
    · refine List.mem_flatMap.mpr ⟨n, hn, ?_⟩
      replace hleader : (apps n).consensus.leaderId = some leaderId := hleader
      rw [hleader]
      exact List.mem_singleton_self _

/-! Three nodes with one list of peers, which one of them has on two lines. -/

namespace ThreePeers

def peers (n : String) : String :=
  if n = "node-2" then "node-1=10.0.0.1:7003, node-2=0.0.0.0:7003,\n node-3=10.0.0.3:7003"
  else "node-1=10.0.0.1:7003,node-2=10.0.0.2:7003,node-3=10.0.0.3:7003"

def listed (n : String) : List ControlPeer :=
  [⟨"node-1", "10.0.0.1:7003"⟩, ⟨"node-2", if n = "node-2" then "0.0.0.0:7003" else "10.0.0.2:7003"⟩,
    ⟨"node-3", "10.0.0.3:7003"⟩]

def names : List String := ["node-1", "node-2", "node-3"]

def env (n : String) : Environment
  | "GLOBACL_COMMITD_NODE_ID" => some n
  | "GLOBACL_COMMITD_CLUSTER_ID" => some "cluster"
  | "GLOBACL_COMMITD_PEERS" => some (peers n)
  | "GLOBACL_CONTROL_PEER_TOKEN" => some " secret "
  | _ => none

def replication (n : String) : ReplicationSettings where
  clusterId := "cluster"
  nodeId := n
  initialLeaderId := none
  peers := listed n
  quorum := 2
  heartbeatIntervalMs := 250
  electionTimeoutMs := 1200
  syncIntervalMs := 1000

theorem listed_eq : ∀ n ∈ names, parsePeers (peers n) = .ok (listed n) := by
  decide +kernel

theorem settings_eq : ∀ n ∈ names, settings (env n) "0.0.0.0:7003" =
    .ok ⟨replication n, some "secret", ⟨10000, true⟩, none⟩ := by
  decide +kernel

end ThreePeers

open ThreePeers in
theorem deployed_starts_threePeers : ∃ mem : Membership, mem.peers = ["node-1", "node-2", "node-3"] ∧
    (Cluster.deployed mem.peers fun n => (Cluster.ThreeNodes.node none n).app).Starts mem :=
  @deployed_starts env names none (some "cluster")
    ⟨by decide +kernel, fun n hn => ⟨listed n, listed_eq n hn, rfl⟩, fun _ _ => rfl, fun _ _ => rfl⟩
    (by decide) (fun _ => "0.0.0.0:7003") (fun _ => 2) (fun _ => Disk.empty) _
    fun n hn => ⟨_, settings_eq n hn, rfl⟩

end Globacl
