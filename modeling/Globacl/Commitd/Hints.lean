import Globacl.Commitd.Election

/-!
# Who a node takes for its leader

A node that is in the term of a leader must hear it. It refuses the leader only if it takes another
node for the leader of the term. What it hears in messages names only winners of elections; but at a
start it takes the configured leader, whatever term it has read from `consensus.state`, and a
mutation that it has fetched makes the node that served it the leader of the mutation's term.

* `Hints`: the invariant. Each leader that a node names has won the term or was assumed.
* `follows_winner`: a node follows the winner of its term if no other leader was assumed in it.
-/

namespace Globacl

open Lib Prog

/-- A node accepts the heartbeats of a leader of its term, and its mutations. -/
structure Process.Follows (p : Process) (leaderId : String) : Prop where
  check : checkHeartbeat p.app.config.replication
    ⟨p.app.config.replication.clusterId, p.app.consensus.currentTerm, leaderId⟩ = .ok ()
  heartbeat : (handleHeartbeat p.app.consensus
    ⟨p.app.config.replication.clusterId, p.app.consensus.currentTerm, leaderId⟩).2 = true
  mutation : ∀ m, m.epoch = p.app.consensus.currentTerm →
    (ensureReplicationLeader p.app.config.replication p.app.consensus m leaderId).isOk

/-- A node follows any other node of its cluster that it could know as the leader. -/
theorem Process.follows_of {p : Process} {leaderId : String}
    (hpeer : leaderId ∈ p.app.config.replication.peers)
    (hself : leaderId ≠ p.app.config.replication.nodeId) (hnamed : leaderId ≠ "")
    (htrim : trim leaderId = leaderId) (hcluster : p.app.config.replication.clusterId ≠ "")
    (hhint : ∀ known, p.app.consensus.leaderId = some known → known = leaderId) :
    p.Follows leaderId where
  check := by
    unfold checkHeartbeat ensurePeerCluster ensureRemotePeerId
    rw [if_neg hcluster, if_pos rfl, if_neg hnamed, if_neg hself, if_pos hpeer]
    rfl
  heartbeat := by
    unfold handleHeartbeat
    cases hknown : p.app.consensus.leaderId with
    | none => simp
    | some known => simp [hhint known hknown]
  mutation m hepoch := by
    unfold ensureReplicationLeader
    dsimp only
    rw [htrim, if_neg hnamed, if_neg hself, if_neg (not_not.mpr hpeer), if_neg (by omega),
      if_neg]
    · rfl
    · rintro ⟨-, hany⟩
      cases hknown : p.app.consensus.leaderId with
      | none =>
        rw [hknown] at hany
        cases hany
      | some known =>
        rw [hknown] at hany
        simp [hhint known hknown] at hany

namespace Cluster

variable {mem : Membership} {c : Cluster} {n : String} {e : Section}

/-- What nodes say of the leaders of terms. -/
structure Hints (mem : Membership) (c : Cluster) : Prop where
  clusterId : ∀ n ∈ mem.peers, (c.nodes n).app.config.replication.clusterId = mem.clusterId
  rounds : ∀ n ∈ mem.peers, ∀ round, (c.nodes n).round = some round →
    c.Won mem n round.outcome.mutation.epoch
  heartbeats : ∀ hb ∈ c.heartbeats, c.Won mem hb.leaderId hb.term
  replications : ∀ message m n, (message, m, n) ∈ c.replications →
    n ∈ mem.peers ∧ c.Won mem n m.epoch
  leaderId : ∀ n ∈ mem.peers, ∀ leaderId, (c.nodes n).app.consensus.leaderId = some leaderId →
    ((c.nodes n).app.consensus.currentTerm, leaderId) ∈ c.assumed ∨
      c.Won mem leaderId (c.nodes n).app.consensus.currentTerm

/-- The round that a node has after a section is of a term that it has won. -/
theorem rounds_runSection (h : Hints mem c) (hel : Elections mem c) (hn : n ∈ mem.peers)
    {x : String} (hx : x ∈ mem.peers) {round : Round}
    (hround : ((c.runSection n e).nodes x).round = some round) :
    c.Won mem x round.outcome.mutation.epoch := by
  by_cases hxn : x = n
  · subst hxn
    rw [runSection_self] at hround
    rcases Process.act_round hround with hold | ⟨hrole, hepoch⟩
    · exact h.rounds x hx round hold
    · rw [hepoch]
      exact hel.leader x hn hrole
  · rw [runSection_of_ne hxn] at hround
    exact h.rounds x hx round hround

/-- All that a node sends about mutations is about those of its rounds. -/
theorem round_of_sends {p : Process} {message : Replication} {m : Mutation}
    (h : (message, m) ∈ p.sends e) :
    (∃ round, p.round = some round ∧ m = round.outcome.mutation) ∨
      ∃ round, (p.act e).round = some round ∧ m = round.outcome.mutation := by
  rcases List.mem_append.mp h with h | h
  · left
    unfold Process.concludes at h
    split at h
    · split at h
      · cases h
      · rename_i round _ hround _
        rw [List.mem_singleton] at h
        cases h
        exact ⟨round, hround, rfl⟩
      · rename_i round hround _
        dsimp only at h
        split at h
        · cases h
        · split at h
          · rw [List.mem_singleton] at h
            cases h
            exact ⟨round, hround, rfl⟩
          · split at h
            · rw [List.mem_singleton] at h
              cases h
              exact ⟨round, hround, rfl⟩
            · cases h
    · cases h
  · right
    split at h
    · rename_i round hround
      rw [List.mem_singleton] at h
      cases h
      exact ⟨round, hround, rfl⟩
    · cases h

/-- The leader that a node names after a section. -/
theorem leaderId_runSection (h : Hints mem c) (hel : Elections mem c) (hn : n ∈ mem.peers)
    (ho : c.offers mem n e) {leaderId : String}
    (hhint : ((c.nodes n).act e).app.consensus.leaderId = some leaderId) :
    (((c.nodes n).act e).app.consensus.currentTerm, leaderId) ∈ (c.runSection n e).assumed ∨
      c.Won mem leaderId ((c.nodes n).act e).app.consensus.currentTerm := by
  have hassumed : ∀ a ∈ c.assumed, a ∈ (c.runSection n e).assumed := fun a ha =>
    List.mem_append_right _ ha
  have hadopts := (Process.settles_act (c.nodes n) e).adopts
  generalize ((c.nodes n).act e).app.consensus = cs at hhint hadopts ⊢
  cases hadopts with
  | keep => exact (h.leaderId n hn leaderId hhint).imp (hassumed _) id
  | stepDown term => cases hhint
  | newTerm term _ => cases hhint
  | votes req status _ => cases hhint
  | candidate ord quorum _ _ => cases hhint
  | leader ord term cs he helecting hleader =>
    unfold becomeLeader at hleader
    split at hleader
    · rename_i hterm
      cases hleader
      cases hhint
      subst he
      unfold offers at ho
      dsimp only at ho
      rw [helecting] at ho
      right
      rw [hel.nodeId n hn]
      exact hterm.1 ▸ ho
    · cases hleader
  | hears term leaderId' hhears _ _ =>
    cases hhint
    unfold Process.Hears at hhears
    split at hhears
    · obtain ⟨-, rfl, rfl⟩ := hhears
      exact Or.inr (h.heartbeats _ ho)
    · rename_i message m leader
      obtain ⟨hok, rfl, rfl⟩ := hhears
      by_cases hfetched : message = .commit false
      · subst hfetched
        refine Or.inl (List.mem_append_left _ ?_)
        dsimp only [fetchedLeader]
        rw [if_pos hok]
        exact List.mem_singleton_self _
      · have hsent : (message, m, leader) ∈ c.replications := by
          unfold offers at ho
          split at ho
          · cases ‹Section.receiveReplication _ _ _ = _›
            exact absurd rfl hfetched
          · cases ‹Section.receiveReplication _ _ _ = _›
            exact ho
          all_goals cases ‹Section.receiveReplication _ _ _ = _›
        obtain ⟨hpeer, hwon⟩ := h.replications message m leader hsent
        rw [((mem.named hel.many leader hpeer).2)]
        exact Or.inr hwon
    · exact hhears.elim

theorem Hints.runSection (h : Hints mem c) (hel : Elections mem c) (hn : n ∈ mem.peers)
    (ho : c.offers mem n e) : Hints mem (c.runSection n e) where
  clusterId x hx := by
    by_cases hxn : x = n
    · subst hxn
      rw [runSection_self, (Process.settles_act _ e).config]
      exact h.clusterId x hx
    · rw [runSection_of_ne hxn]
      exact h.clusterId x hx
  rounds x hx round hround := (rounds_runSection h hel hn hx hround).mono votes_runSection
  heartbeats hb hhb := (h.heartbeats hb hhb).mono votes_runSection
  replications message m x hsent := by
    rcases List.mem_append.mp hsent with hnew | hold
    · obtain ⟨⟨message', m'⟩, hsends, heq⟩ := List.mem_map.mp hnew
      cases heq
      refine ⟨hn, ?_⟩
      obtain ⟨round, hround, rfl⟩ | ⟨round, hround, rfl⟩ := round_of_sends hsends
      · exact (h.rounds n hn round hround).mono votes_runSection
      · rw [← runSection_self] at hround
        exact (rounds_runSection h hel hn hn hround).mono votes_runSection
    · obtain ⟨hx, hwon⟩ := h.replications message m x hold
      exact ⟨hx, hwon.mono votes_runSection⟩
  leaderId x hx leaderId hhint := by
    by_cases hxn : x = n
    · subst hxn
      rw [runSection_self] at hhint ⊢
      exact (leaderId_runSection h hel hn ho hhint).imp id fun hwon => hwon.mono votes_runSection
    · rw [runSection_of_ne hxn] at hhint ⊢
      exact (h.leaderId x hx leaderId hhint).imp (fun hold => List.mem_append_right _ hold)
        fun hwon => hwon.mono votes_runSection

theorem Hints.started (h : Hints mem c) {disk : Disk} {app : App}
    (hboot : boot (c.nodes n).app.config disk = .ok app) : Hints mem (c.started n app) where
  clusterId x hx := by
    by_cases hxn : x = n
    · subst hxn
      rw [started_self, (boot_ok hboot).1]
      exact h.clusterId x hx
    · rw [started_of_ne hxn]
      exact h.clusterId x hx
  rounds x hx round hround := by
    by_cases hxn : x = n
    · rw [hxn, started_self] at hround
      cases hround
    · rw [started_of_ne hxn] at hround
      exact h.rounds x hx round hround
  heartbeats := h.heartbeats
  replications := h.replications
  leaderId x hx leaderId hhint := by
    by_cases hxn : x = n
    · subst hxn
      rw [started_self] at hhint ⊢
      refine Or.inl (List.mem_append_left _ ?_)
      rw [hhint]
      exact List.mem_singleton_self _
    · rw [started_of_ne hxn] at hhint ⊢
      exact (h.leaderId x hx leaderId hhint).imp (fun hold => List.mem_append_right _ hold) id

/-- Each event keeps the invariant. -/
theorem Hints.act (h : Hints mem c) (hel : Elections mem c) (event : Event) :
    Hints mem (c.act mem event) := by
  cases event with
  | run n e =>
    unfold Cluster.act
    dsimp only
    split
    · rename_i hrun
      exact h.runSection hel hrun.1 hrun.2
    · exact h
  | requestVotes n status =>
    unfold Cluster.act
    dsimp only
    split
    · exact { h with }
    · exact h
  | sendHeartbeats n =>
    unfold Cluster.act
    dsimp only
    split
    · rename_i hleads
      refine { h with heartbeats := fun hb hhb => ?_ }
      rcases List.mem_cons.mp hhb with rfl | hold
      · exact hel.leader n hleads.1 hleads.2
      · exact h.heartbeats hb hold
    · exact h
  | fetch n m =>
    unfold Cluster.act
    dsimp only
    split
    · split
      · exact { h with }
      · exact h
    · exact h
  | serve n ord => exact { h with }
  | restart n disk =>
    unfold Cluster.act
    dsimp only
    split
    · split
      · rename_i app hboot
        exact h.started hboot
      · exact h
    · exact h

theorem hints_acts (h : c.Starts mem) (hmany : mem.peers.length ≠ 1) (events : List Event) :
    Hints mem (c.acts mem events) := by
  refine (@foldl_invariant _ _ (Cluster.act mem) (fun c => Elections mem c ∧ Hints mem c)
    (fun c event hc => ⟨hc.1.act event, hc.2.act hc.1 event⟩) _
    ⟨h.elections hmany, ?_⟩ events).2
  refine ⟨fun n hn => (h.nodes n hn).clusterId, fun n hn round hround => ?_, fun hb hhb => ?_,
    fun message m n hsent => ?_, fun n hn leaderId hhint => Or.inl (h.assumed n hn leaderId hhint)⟩
  · rw [(h.nodes n hn).round] at hround
    cases hround
  · rw [h.heartbeats] at hhb
    cases hhb
  · rw [h.replications] at hsent
    cases hsent

/-- No node has assumed another leader of a term than the one that has won it. -/
def Undeceived (mem : Membership) (c : Cluster) : Prop :=
  ∀ a ∈ c.assumed, ∀ x ∈ mem.peers, c.Won mem x a.1 → x = a.2

instance (c : Cluster) : Decidable (c.Undeceived mem) :=
  inferInstanceAs (Decidable (∀ a ∈ c.assumed, ∀ x ∈ mem.peers, _))

/-- In a run in which no other leader was assumed, each node follows the winner of its term. -/
theorem follows_winner (h : c.Starts mem) (hcluster : mem.clusterId ≠ "") (events : List Event)
    (hclear : (c.acts mem events).Undeceived mem) {x y : String} (hx : x ∈ mem.peers)
    (hy : y ∈ mem.peers) (hne : x ≠ y)
    (hwon : (c.acts mem events).Won mem x ((c.acts mem events).nodes y).app.consensus.currentTerm) :
    ((c.acts mem events).nodes y).Follows x := by
  have hmany : mem.peers.length ≠ 1 := by
    intro hone
    obtain ⟨n, hn⟩ := List.length_eq_one_iff.mp hone
    rw [hn, List.mem_singleton] at hx hy
    exact hne (hx.trans hy.symm)
  have hel := elections_acts h hmany events
  have hhints := hints_acts h hmany events
  obtain ⟨hnamed, htrim⟩ := mem.named hmany x hx
  refine Process.follows_of ?_ ?_ hnamed htrim ?_ fun known hknown => ?_
  · rw [hel.peers y hy]
    exact hx
  · rw [hel.nodeId y hy]
    exact hne
  · rw [hhints.clusterId y hy]
    exact hcluster
  · rcases hhints.leaderId y hy known hknown with hassumed | hother
    · exact (hclear _ hassumed x hx hwon).symm
    · exact hel.won_unique hother hwon

/-! The first of three nodes is elected in term 2 with the vote of the second. -/

namespace ThreeNodes

def elected : List Event := elect "node-1" 2 "node-2" ⟨0, 0, [0, 0]⟩

/-- The voter starts again, with the term in its file. -/
def electedThenRestarted : List Event :=
  elected ++ [.restart "node-2" { Disk.empty with consensus := some (2, "node-1") }]

end ThreeNodes

theorem follows_winner_elected :
    (((ThreeNodes.cluster none).acts ThreeNodes.shared ThreeNodes.elected).nodes
      "node-2").Follows "node-1" :=
  follows_winner (ThreeNodes.starts none) (by decide) ThreeNodes.elected (by decide +kernel)
    (by decide) (by decide) (by decide) (by decide +kernel)

/-- The third node is the configured leader. -/
theorem not_follows_winner :
    ¬∀ (mem : Membership) (c : Cluster) (events : List Event) (x y : String), c.Starts mem →
      mem.clusterId ≠ "" → x ∈ mem.peers → y ∈ mem.peers → x ≠ y →
      (c.acts mem events).Won mem x ((c.acts mem events).nodes y).app.consensus.currentTerm →
      ((c.acts mem events).nodes y).Follows x := by
  intro h
  have hfollows := (h ThreeNodes.shared (ThreeNodes.cluster (some "node-3"))
    ThreeNodes.electedThenRestarted "node-1" "node-2" (ThreeNodes.starts _) (by decide) (by decide)
    (by decide) (by decide) (by decide +kernel)).heartbeat
  have hcs : (((ThreeNodes.cluster (some "node-3")).acts ThreeNodes.shared
      ThreeNodes.electedThenRestarted).nodes "node-2").app.consensus =
      ⟨2, some "node-1", .follower, some "node-3"⟩ := by decide +kernel
  have hcluster : (((ThreeNodes.cluster (some "node-3")).acts ThreeNodes.shared
      ThreeNodes.electedThenRestarted).nodes "node-2").app.config.replication.clusterId =
      "cluster" := by decide +kernel
  rw [hcs, hcluster] at hfollows
  exact absurd hfollows (by decide)

end Cluster

end Globacl
