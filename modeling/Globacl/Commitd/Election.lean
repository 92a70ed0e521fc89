import Globacl.Lib.Quorum
import Globacl.Commitd.Cluster

/-!
# One leader for each term

A node never votes for two candidates in one term: a vote binds it, in memory and in
`consensus.state`, until its term is a higher one. So no two candidates have a quorum in one term,
whatever messages are lost, doubled or late, and whenever nodes crash.

* `Binds`: what a vote means for the state of the voter. `Process.Adopts.binds`: every change of the
  consensus state respects it.
* `Elections`: the invariant, and `Elections.act`: each event keeps it.
* `one_leader`: at most one node ever held the role of leader in a term.
-/

namespace Globacl

open Lib Prog

/-- A voter has moved on to a higher term, or still has its vote. -/
def Binds (vote : Vote) (term : Nat) (votedFor : Option String) : Prop :=
  vote.term < term ∨ vote.term = term ∧ votedFor = some vote.candidate

/-! ## The file -/

/-- The term that a start reads from `consensus.state`. -/
def fileTerm : Option (Nat × String) → Nat
  | none => 0
  | some (currentTerm, _) => currentTerm

/-- The vote that a start reads from `consensus.state`. -/
def fileVote : Option (Nat × String) → Option String
  | none => none
  | some (_, votedFor) => if votedFor = "" then none else some votedFor

theorem loadConsensusState_eq (disk : Disk) (cfg : ReplicationConfig) :
    (loadConsensusState disk cfg).currentTerm = max (fileTerm disk.consensus) 1 ∧
      (loadConsensusState disk cfg).votedFor = fileVote disk.consensus ∧
      ((loadConsensusState disk cfg).role = .leader → cfg.peers.length = 1) := by
  unfold loadConsensusState
  cases disk.consensus with
  | none => exact ⟨rfl, rfl, fun h => by simpa using h⟩
  | some file => exact ⟨rfl, rfl, fun h => by simpa using h⟩

/-- A vote that is in memory is in the file that is written then. -/
theorem Binds.file {vote : Vote} {cs : ConsensusState}
    (h : Binds vote cs.currentTerm cs.votedFor) (hnamed : vote.candidate ≠ "") :
    Binds vote (fileTerm (some cs.file)) (fileVote (some cs.file)) := by
  rcases h with hlt | ⟨hterm, hvoted⟩
  · exact Or.inl hlt
  · refine Or.inr ⟨hterm, ?_⟩
    unfold fileVote ConsensusState.file
    rw [hvoted]
    exact if_neg hnamed

/-- A vote that is in the file is in memory after a start. -/
theorem Binds.load {vote : Vote} {disk : Disk} {cfg : ReplicationConfig}
    (h : Binds vote (fileTerm disk.consensus) (fileVote disk.consensus)) :
    Binds vote (loadConsensusState disk cfg).currentTerm
      (loadConsensusState disk cfg).votedFor := by
  obtain ⟨hterm, hvoted, -⟩ := loadConsensusState_eq disk cfg
  unfold Binds
  rw [hterm, hvoted]
  rcases h with hlt | ⟨heq, hfile⟩
  · exact Or.inl (hlt.trans_le (le_max_left _ _))
  · by_cases hpos : 1 ≤ fileTerm disk.consensus
    · exact Or.inr ⟨by omega, hfile⟩
    · exact Or.inl (by omega)

theorem binds_stepDown {vote : Vote} {cs : ConsensusState}
    (h : Binds vote cs.currentTerm cs.votedFor) (term : Nat) (leaderId : Option String) :
    Binds vote (stepDownToTerm cs term leaderId).currentTerm
      (stepDownToTerm cs term leaderId).votedFor := by
  unfold stepDownToTerm
  by_cases hterm : term > cs.currentTerm
  · rcases h with hlt | ⟨heq, -⟩
    · exact Or.inl (hlt.trans_le (le_max_left _ _))
    · exact Or.inl (by dsimp only; omega)
  · rcases h with hlt | ⟨heq, hvoted⟩
    · exact Or.inl (hlt.trans_le (le_max_left _ _))
    · exact Or.inr ⟨by dsimp only; omega, (if_neg hterm).trans hvoted⟩

/-- The request that a vote handler has before it decides. -/
def Thread.request : Thread → Option VoteRequest
  | .voting req _ | .judging req _ => some req
  | _ => none

namespace Process

variable {p : Process} {e : Section} {cs : ConsensusState} {vote : Vote}

/-- No change of the consensus state frees a voter from its vote within the term. -/
theorem Adopts.binds (h : Adopts p e cs)
    (hvote : Binds vote p.app.consensus.currentTerm p.app.consensus.votedFor) :
    Binds vote cs.currentTerm cs.votedFor := by
  cases h with
  | keep => exact hvote
  | stepDown term => exact binds_stepDown hvote term none
  | newTerm term hterm =>
    left
    unfold Binds at hvote
    dsimp only
    omega
  | hears term leaderId _ hterm _ =>
    rcases hvote with hlt | ⟨heq, hvoted⟩
    · exact Or.inl (hlt.trans_le hterm)
    · by_cases hlt : term > p.app.consensus.currentTerm
      · exact Or.inl (by dsimp only; omega)
      · exact Or.inr ⟨by dsimp only; omega, (if_neg hlt).trans hvoted⟩
  | votes req status hgrants =>
    obtain ⟨-, hreq, hfree⟩ := act_of_grants hgrants
    unfold Binds at *
    unfold adoptTerm at *
    dsimp only
    split at hreq
    · rename_i hlt
      rw [if_pos hlt]
      left
      omega
    · rename_i hlt
      rw [if_neg hlt] at hfree ⊢
      rcases hvote with hvote | ⟨hterm, hvoted⟩
      · exact Or.inl hvote
      · exact Or.inr ⟨hterm, congrArg some (hfree _ hvoted).symm⟩
  | candidate ord quorum _ _ =>
    left
    unfold Binds at hvote
    show vote.term < p.app.consensus.currentTerm + 1
    omega
  | leader ord term cs _ _ hleader =>
    unfold becomeLeader at hleader
    split at hleader
    · cases hleader
      exact hvote
    · cases hleader

/-- Only the end of an election makes a node leader. -/
theorem Adopts.leads (h : Adopts p e cs) (hrole : cs.role = .leader) :
    cs = p.app.consensus ∨
      ∃ ord, e = .election ord true ∧ p.election = .electing cs.currentTerm := by
  cases h with
  | keep => exact Or.inl rfl
  | leader ord term cs he helecting hleader =>
    unfold becomeLeader at hleader
    split at hleader
    · rename_i hterm
      cases hleader
      exact Or.inr ⟨ord, he, hterm.1 ▸ helecting⟩
    · cases hleader
  | _ => cases hrole

/-- The start of an election, which is a vote of the node for itself. -/
theorem stands_eq_some {term : Nat} (h : p.stands e = some term) :
    term = p.app.consensus.currentTerm + 1 ∧
      (p.act e).app =
        p.app.withConsensus (becomeCandidate p.app.config.replication p.app.consensus) := by
  unfold stands at h
  split at h
  · rename_i hidle helecting
    cases h
    rcases act_electing helecting with h | ⟨-, -, h⟩
    · rw [hidle] at h
      cases h
    · exact h
  · cases h

/-- The candidate of a request that a handler has is named. -/
theorem named_of_spawns {c : Program Thread} {t : Thread} {req : VoteRequest}
    (hc : p.spawns e = some c) (ht : (c p.app).result = .ok t) (hreq : t.request = some req) :
    req.candidateId ≠ "" ∨ ∃ t ∈ p.threads, t.request = some req := by
  cases e with
  | receiveReplication message m leaderId =>
    cases hc
    obtain ⟨rfl, -⟩ := receiveReplication_ok ht
    cases hreq
  | requestVote req' =>
    unfold spawns at hc
    dsimp only at hc
    split at hc
    · cases hc
    · cases hc
      obtain ⟨_, ⟨⟩, h, -⟩ := bind_ok ht
      obtain ⟨_, hcheck, h, -⟩ := bind_ok h
      cases h
      cases hreq
      left
      rintro hempty
      obtain ⟨_, -, hcheck⟩ := bind_eq_ok.mp hcheck
      unfold ensureRemotePeerId at hcheck
      rw [if_pos hempty] at hcheck
      cases hcheck
  | client request =>
    cases hc
    obtain ⟨_, rfl, -⟩ := receiveClient_ok ht
    cases hreq
  | install ord snapshot ids =>
    cases hc
    obtain ⟨_, rfl, -⟩ := rebuildFromLeader_ok ht
    cases hreq
  | thread ord i =>
    unfold spawns at hc
    dsimp only at hc
    split at hc
    · cases hc
    · cases hc
      obtain ⟨rfl, -⟩ := checkMutationTerm_ok ht
      cases hreq
    · rename_i req' st hi
      cases hc
      obtain rfl := readPending_ok ht
      cases hreq
      exact Or.inr ⟨_, List.mem_of_getElem? hi, rfl⟩
    · cases hc
  | _ => cases hc

end Process

namespace Cluster

variable {mem : Membership} {c : Cluster}

/-- A candidate that has won stays the winner when more votes come. -/
theorem Won.mono {c' : Cluster} {candidate : String} {term : Nat} (h : c.Won mem candidate term)
    (hsub : ∀ vote ∈ c.votes, vote ∈ c'.votes) : c'.Won mem candidate term := by
  refine le_trans h (List.countP_mono_left fun n _ hn => ?_)
  rw [decide_eq_true_eq] at hn ⊢
  exact hsub _ hn

/-- What holds between two events, in a cluster of several nodes. -/
structure Elections (mem : Membership) (c : Cluster) : Prop where
  many : mem.peers.length ≠ 1
  nodeId : ∀ n ∈ mem.peers, (c.nodes n).app.config.replication.nodeId = n
  peers : ∀ n ∈ mem.peers, (c.nodes n).app.config.replication.peers = mem.peers
  threads : ∀ n ∈ mem.peers, ∀ t ∈ (c.nodes n).threads, ∀ req, t.request = some req →
    req.candidateId ≠ ""
  named : ∀ vote ∈ c.votes, vote.candidate ≠ ""
  memory : ∀ vote ∈ c.votes, Binds vote (c.nodes vote.voter).app.consensus.currentTerm
    (c.nodes vote.voter).app.consensus.votedFor
  file : ∀ vote ∈ c.votes, Binds vote (fileTerm (c.nodes vote.voter).app.disk.consensus)
    (fileVote (c.nodes vote.voter).app.disk.consensus)
  unique : ∀ vote ∈ c.votes, ∀ vote' ∈ c.votes, vote.voter = vote'.voter →
    vote.term = vote'.term → vote.candidate = vote'.candidate
  electing : ∀ n ∈ mem.peers, ∀ term, (c.nodes n).election = .electing term →
    ⟨n, n, term⟩ ∈ c.votes
  leader : ∀ n ∈ mem.peers, (c.nodes n).app.consensus.role = .leader →
    c.Won mem n (c.nodes n).app.consensus.currentTerm
  leaders : ∀ term n, (term, n) ∈ c.leaders → c.Won mem n term

/-- The votes of a section: those before it, the one that it grants, and one for itself. -/
theorem mem_votes_runSection {n : String} {e : Section} {vote : Vote}
    (h : vote ∈ (c.runSection n e).votes) :
    vote ∈ c.votes ∨ vote.voter = n ∧
      ((∃ req status, (c.nodes n).grants e = some (req, status) ∧
          vote = ⟨n, req.candidateId, req.term⟩) ∨
        ∃ term, (c.nodes n).stands e = some term ∧ vote = ⟨n, n, term⟩) := by
  replace h : vote ∈
      (((c.nodes n).grants e).map fun vote => ⟨n, vote.1.candidateId, vote.1.term⟩).toList ++
        (((c.nodes n).stands e).map fun term => ⟨n, n, term⟩).toList ++ c.votes := h
  rw [List.append_assoc, List.mem_append, List.mem_append, Option.mem_toList,
    Option.mem_toList, Option.map_eq_some_iff, Option.map_eq_some_iff] at h
  rcases h with ⟨⟨req, status⟩, hgrants, rfl⟩ | ⟨term, hstands, rfl⟩ | hold
  · exact Or.inr ⟨rfl, Or.inl ⟨req, status, hgrants, rfl⟩⟩
  · exact Or.inr ⟨rfl, Or.inr ⟨term, hstands, rfl⟩⟩
  · exact Or.inl hold

theorem mem_leaders_noteLeader {n : String} {term : Nat} {x : String}
    (h : (term, x) ∈ (c.noteLeader n).leaders) :
    (term, x) ∈ c.leaders ∨ x = n ∧ term = (c.nodes n).app.consensus.currentTerm ∧
      (c.nodes n).app.consensus.role = .leader := by
  unfold noteLeader at h
  dsimp only at h
  split at h
  · rename_i hrole
    rcases List.mem_cons.mp h with h | h
    · cases h
      exact Or.inr ⟨rfl, rfl, hrole⟩
    · exact Or.inl h
  · exact Or.inl h

section Section

variable {n : String} {e : Section}

/-- A vote of this section is what the state of the voter then says, in memory and in its file. -/
theorem new_vote (h : Elections mem c) (hn : n ∈ mem.peers) {vote : Vote}
    (hvote : ((∃ req status, (c.nodes n).grants e = some (req, status) ∧
        vote = ⟨n, req.candidateId, req.term⟩) ∨
      ∃ term, (c.nodes n).stands e = some term ∧ vote = ⟨n, n, term⟩)) :
    vote.candidate ≠ "" ∧ vote.term = ((c.nodes n).act e).app.consensus.currentTerm ∧
      ((c.nodes n).act e).app.consensus.votedFor = some vote.candidate ∧
      ((c.nodes n).act e).app.disk.consensus = some ((c.nodes n).act e).app.consensus.file := by
  rcases hvote with ⟨req, status, hgrants, rfl⟩ | ⟨term, hstands, rfl⟩
  · obtain ⟨happ, hterm, -⟩ := Process.act_of_grants hgrants
    obtain ⟨ord, i, -, hi, -⟩ := Process.grants_eq_some hgrants
    rw [happ]
    exact ⟨h.threads n hn _ (List.mem_of_getElem? hi) req rfl, hterm, rfl, rfl⟩
  · obtain ⟨hterm, happ⟩ := Process.stands_eq_some hstands
    rw [happ]
    exact ⟨(mem.named h.many n hn).1, hterm, congrArg some (h.nodeId n hn), rfl⟩

theorem runSection_self : (c.runSection n e).nodes n = (c.nodes n).act e := Function.update_self ..

theorem runSection_of_ne {x : String} (hx : x ≠ n) : (c.runSection n e).nodes x = c.nodes x :=
  Function.update_of_ne hx ..

theorem votes_runSection (vote : Vote) (h : vote ∈ c.votes) : vote ∈ (c.runSection n e).votes :=
  List.mem_append_right _ h

section Elections

variable (h : Elections mem c) (hn : n ∈ mem.peers)

include h hn

theorem memory_runSection : ∀ vote ∈ (c.runSection n e).votes,
    Binds vote ((c.runSection n e).nodes vote.voter).app.consensus.currentTerm
      ((c.runSection n e).nodes vote.voter).app.consensus.votedFor := by
  intro vote hvote
  rcases mem_votes_runSection hvote with hold | ⟨hvoter, hnew⟩
  · by_cases hvoter : vote.voter = n
    · rw [hvoter, runSection_self]
      exact (Process.settles_act _ e).adopts.binds (hvoter ▸ h.memory vote hold)
    · rw [runSection_of_ne hvoter]
      exact h.memory vote hold
  · obtain ⟨-, hterm, hvoted, -⟩ := new_vote h hn hnew
    rw [hvoter, runSection_self]
    exact Or.inr ⟨hterm, hvoted⟩

theorem named_runSection : ∀ vote ∈ (c.runSection n e).votes, vote.candidate ≠ "" := by
  intro vote hvote
  rcases mem_votes_runSection hvote with hold | ⟨-, hnew⟩
  · exact h.named vote hold
  · exact (new_vote h hn hnew).1

theorem file_runSection : ∀ vote ∈ (c.runSection n e).votes,
    Binds vote (fileTerm ((c.runSection n e).nodes vote.voter).app.disk.consensus)
      (fileVote ((c.runSection n e).nodes vote.voter).app.disk.consensus) := by
  intro vote hvote
  have hwritten : vote.voter = n →
      ((c.nodes n).act e).app.disk.consensus = some ((c.nodes n).act e).app.consensus.file →
      Binds vote (fileTerm ((c.runSection n e).nodes vote.voter).app.disk.consensus)
        (fileVote ((c.runSection n e).nodes vote.voter).app.disk.consensus) := by
    intro hvoter hfile
    have hmemory := memory_runSection h hn vote hvote
    rw [hvoter, runSection_self] at hmemory ⊢
    rw [hfile]
    exact hmemory.file (named_runSection h hn vote hvote)
  rcases mem_votes_runSection hvote with hold | ⟨hvoter, hnew⟩
  · by_cases hvoter : vote.voter = n
    · rcases (Process.settles_act (c.nodes n) e).file with ⟨-, hsame⟩ | hfile
      · rw [hvoter, runSection_self, hsame]
        exact hvoter ▸ h.file vote hold
      · exact hwritten hvoter hfile
    · rw [runSection_of_ne hvoter]
      exact h.file vote hold
  · exact hwritten hvoter (new_vote h hn hnew).2.2.2

theorem unique_runSection : ∀ vote ∈ (c.runSection n e).votes, ∀ vote' ∈ (c.runSection n e).votes,
    vote.voter = vote'.voter → vote.term = vote'.term → vote.candidate = vote'.candidate := by
  -- a vote of this section is what the memory says, and the memory binds the other vote too
  have hnew : ∀ vote vote' : Vote, vote ∈ (c.runSection n e).votes →
      vote' ∈ (c.runSection n e).votes → vote' ∉ c.votes → vote.voter = vote'.voter →
      vote.term = vote'.term → vote.candidate = vote'.candidate := by
    intro vote vote' hvote hvote' hfresh hvoter hterm
    obtain ⟨hvoter', hnew⟩ := (mem_votes_runSection hvote').resolve_left hfresh
    obtain ⟨-, hterm', hvoted', -⟩ := new_vote h hn hnew
    have hbinds := memory_runSection h hn vote hvote
    rw [hvoter, hvoter', runSection_self, hvoted'] at hbinds
    rcases hbinds with hlt | ⟨-, heq⟩
    · omega
    · exact (Option.some.inj heq).symm
  intro vote hvote vote' hvote' hvoter hterm
  by_cases hold' : vote' ∈ c.votes
  · by_cases hold : vote ∈ c.votes
    · exact h.unique vote hold vote' hold' hvoter hterm
    · exact (hnew vote' vote hvote' hvote hold hvoter.symm hterm.symm).symm
  · exact hnew vote vote' hvote hvote' hold' hvoter hterm

theorem electing_runSection {x : String} (hx : x ∈ mem.peers) {term : Nat}
    (helecting : ((c.runSection n e).nodes x).election = .electing term) :
    ⟨x, x, term⟩ ∈ (c.runSection n e).votes := by
  by_cases hxn : x = n
  · subst hxn
    rw [runSection_self] at helecting
    rcases Process.act_electing helecting with hold | ⟨hidle, -⟩
    · exact votes_runSection _ (h.electing x hx term hold)
    · have hstands : (c.nodes x).stands e = some term := by
        unfold Process.stands
        rw [hidle, helecting]
      refine List.mem_append_left _ (List.mem_append_right _ ?_)
      rw [Option.mem_toList, hstands]
      rfl
  · rw [runSection_of_ne hxn] at helecting
    exact votes_runSection _ (h.electing x hx term helecting)

theorem leader_runSection (ho : c.offers mem n e) {x : String} (hx : x ∈ mem.peers)
    (hrole : ((c.runSection n e).nodes x).app.consensus.role = .leader) :
    (c.runSection n e).Won mem x ((c.runSection n e).nodes x).app.consensus.currentTerm := by
  by_cases hxn : x = n
  · subst hxn
    rw [runSection_self] at hrole ⊢
    rcases (Process.settles_act (c.nodes x) e).adopts.leads hrole with heq | ⟨ord, rfl, helecting⟩
    · rw [heq] at hrole ⊢
      exact (h.leader x hx hrole).mono votes_runSection
    · unfold offers at ho
      dsimp only at ho
      rw [helecting] at ho
      exact ho.mono votes_runSection
  · rw [runSection_of_ne hxn] at hrole ⊢
    exact (h.leader x hx hrole).mono votes_runSection

theorem threads_runSection {x : String} (hx : x ∈ mem.peers) {t : Thread}
    (ht : t ∈ ((c.runSection n e).nodes x).threads) {req : VoteRequest}
    (hreq : t.request = some req) : req.candidateId ≠ "" := by
  by_cases hxn : x = n
  · subst hxn
    rw [runSection_self] at ht
    rcases Process.mem_threads_act ht with hold | ⟨program, hprogram, ht⟩
    · exact h.threads x hx t hold req hreq
    · rcases Process.named_of_spawns hprogram ht hreq with hnamed | ⟨t', ht', hreq'⟩
      · exact hnamed
      · exact h.threads x hx t' ht' req hreq'
  · rw [runSection_of_ne hxn] at ht
    exact h.threads x hx t ht req hreq

end Elections

/-- A node runs a section. -/
theorem Elections.runSection (h : Elections mem c) (hn : n ∈ mem.peers) (ho : c.offers mem n e) :
    Elections mem (c.runSection n e) where
  many := h.many
  nodeId x hx := by
    by_cases hxn : x = n
    · subst hxn
      rw [runSection_self, (Process.settles_act _ e).config]
      exact h.nodeId x hx
    · rw [runSection_of_ne hxn]
      exact h.nodeId x hx
  peers x hx := by
    by_cases hxn : x = n
    · subst hxn
      rw [runSection_self, (Process.settles_act _ e).config]
      exact h.peers x hx
    · rw [runSection_of_ne hxn]
      exact h.peers x hx
  threads x hx t ht req hreq := threads_runSection h hn hx ht hreq
  named := named_runSection h hn
  memory := memory_runSection h hn
  file := file_runSection h hn
  unique := unique_runSection h hn
  electing x hx term helecting := electing_runSection h hn hx helecting
  leader x hx hrole := leader_runSection h hn ho hx hrole
  leaders term x hleader := by
    rcases mem_leaders_noteLeader hleader with hold | ⟨rfl, rfl, hrole⟩
    · exact (h.leaders term x hold).mono votes_runSection
    · exact leader_runSection h hn ho hn hrole

end Section

/-- A node starts again from its files. -/
theorem boot_ok {config : Config} {disk : Disk} {app : App} (h : boot config disk = .ok app) :
    app.config = config ∧ app.disk = disk ∧
      app.consensus = loadConsensusState disk config.replication := by
  unfold boot at h
  dsimp only at h
  split at h
  · cases h
  · cases h
    exact ⟨rfl, rfl, rfl⟩

theorem started_self {n : String} {app : App} :
    (c.started n app).nodes n = ⟨app, [], none, .idle⟩ := Function.update_self ..

theorem started_of_ne {n x : String} {app : App} (hx : x ≠ n) :
    (c.started n app).nodes x = c.nodes x := Function.update_of_ne hx ..

theorem Elections.started (h : Elections mem c) {n : String} (hn : n ∈ mem.peers) {disk : Disk}
    (hdisk : disk.consensus = (c.nodes n).app.disk.consensus) {app : App}
    (hboot : boot (c.nodes n).app.config disk = .ok app) : Elections mem (c.started n app) := by
  obtain ⟨hconfig, happ, hcs⟩ := boot_ok hboot
  have hleader : app.consensus.role ≠ .leader := by
    intro hrole
    rw [hcs] at hrole
    refine h.many ?_
    rw [← h.peers n hn]
    exact (loadConsensusState_eq disk _).2.2 hrole
  refine ⟨h.many, fun x hx => ?_, fun x hx => ?_, fun x hx t ht req hreq => ?_, h.named,
    fun vote hvote => ?_, fun vote hvote => ?_, h.unique, fun x hx term helecting => ?_,
    fun x hx hrole => ?_, fun term x hmem => ?_⟩
  · by_cases hxn : x = n
    · rw [hxn, started_self, hconfig]
      exact h.nodeId n hn
    · rw [started_of_ne hxn]
      exact h.nodeId x hx
  · by_cases hxn : x = n
    · rw [hxn, started_self, hconfig]
      exact h.peers n hn
    · rw [started_of_ne hxn]
      exact h.peers x hx
  · by_cases hxn : x = n
    · rw [hxn, started_self] at ht
      cases ht
    · rw [started_of_ne hxn] at ht
      exact h.threads x hx t ht req hreq
  · by_cases hvoter : vote.voter = n
    · have hfile := h.file vote hvote
      rw [hvoter, ← hdisk] at hfile
      rw [hvoter, started_self, hcs]
      exact hfile.load
    · rw [started_of_ne hvoter]
      exact h.memory vote hvote
  · by_cases hvoter : vote.voter = n
    · have hfile := h.file vote hvote
      rw [hvoter, ← hdisk] at hfile
      rw [hvoter, started_self, happ]
      exact hfile
    · rw [started_of_ne hvoter]
      exact h.file vote hvote
  · by_cases hxn : x = n
    · rw [hxn, started_self] at helecting
      cases helecting
    · rw [started_of_ne hxn] at helecting
      exact h.electing x hx term helecting
  · by_cases hxn : x = n
    · rw [hxn, started_self] at hrole
      exact absurd hrole hleader
    · rw [started_of_ne hxn] at hrole ⊢
      exact h.leader x hx hrole
  · rcases mem_leaders_noteLeader hmem with hold | ⟨rfl, -, hrole⟩
    · exact h.leaders term x hold
    · replace hrole : ((c.started x app).nodes x).app.consensus.role = .leader := hrole
      rw [started_self] at hrole
      exact absurd hrole hleader

/-- Each event keeps the invariant. -/
theorem Elections.act (h : Elections mem c) (event : Event) : Elections mem (c.act mem event) := by
  cases event with
  | run n e =>
    unfold Cluster.act
    dsimp only
    split
    · rename_i hrun
      exact h.runSection hrun.1 hrun.2
    · exact h
  | requestVotes n status =>
    unfold Cluster.act
    dsimp only
    split
    · exact { h with }
    · exact h
  | sendHeartbeats n =>
    unfold Cluster.act
    dsimp only
    split
    · exact { h with }
    · exact h
  | fetch n m =>
    unfold Cluster.act
    dsimp only
    split
    · split
      · exact { h with }
      · exact h
    · exact h
  | serve n ord => exact { h with }
  | restart n disk =>
    unfold Cluster.act
    dsimp only
    split
    · rename_i hcrash
      split
      · rename_i app hboot
        exact h.started hcrash.1 hcrash.2 hboot
      · exact h
    · exact h

theorem Starts.elections (h : c.Starts mem) (hmany : mem.peers.length ≠ 1) :
    Elections mem c := by
  have hnone : ∀ {vote : Vote}, vote ∉ c.votes := fun {vote} hvote => by
    rw [h.votes] at hvote
    cases hvote
  refine ⟨hmany, fun n hn => (h.nodes n hn).nodeId, fun n hn => (h.nodes n hn).peers,
    fun n hn t ht => ?_, fun _ hvote => absurd hvote hnone, fun _ hvote => absurd hvote hnone,
    fun _ hvote => absurd hvote hnone, fun _ hvote => absurd hvote hnone,
    fun n hn term helecting => ?_, fun n hn hrole => absurd ?_ hmany, fun term n hmem => ?_⟩
  · rw [(h.nodes n hn).threads] at ht
    cases ht
  · rw [(h.nodes n hn).election] at helecting
    cases helecting
  · obtain ⟨disk, hboot⟩ := (h.nodes n hn).boot
    rw [(boot_ok hboot).2.2] at hrole
    rw [← (h.nodes n hn).peers]
    exact (loadConsensusState_eq disk _).2.2 hrole
  · rw [h.leaders] at hmem
    cases hmem

theorem elections_acts (h : c.Starts mem) (hmany : mem.peers.length ≠ 1) (events : List Event) :
    Elections mem (c.acts mem events) :=
  foldl_invariant (fun _ event h => h.act event) (h.elections hmany) events

/-- Only nodes of the cluster become leader. -/
theorem peers_of_leaders (h : c.Starts mem) (events : List Event) :
    ∀ term n, (term, n) ∈ (c.acts mem events).leaders → n ∈ mem.peers := by
  refine @foldl_invariant _ _ (Cluster.act mem)
    (fun c => ∀ term n, (term, n) ∈ c.leaders → n ∈ mem.peers) (fun c event hc => ?_) _
    (fun term n hmem => ?_) events
  · have hnote : ∀ {c' : Cluster} {x : String}, c'.leaders = c.leaders → x ∈ mem.peers →
        ∀ term n, (term, n) ∈ (c'.noteLeader x).leaders → n ∈ mem.peers := by
      intro c' x hsame hx term n hmem
      rcases mem_leaders_noteLeader hmem with hold | ⟨rfl, -⟩
      · exact hc term n (hsame ▸ hold)
      · exact hx
    unfold Cluster.act
    split
    · split
      · exact hnote rfl (‹_ ∧ _›).1
      · exact hc
    · split <;> exact hc
    · split <;> exact hc
    · split
      · split <;> exact hc
      · exact hc
    · exact hc
    · split
      · split
        · exact hnote rfl (‹_ ∧ _›).1
        · exact hc
      · exact hc
  · rw [h.leaders] at hmem
    cases hmem

/-- Two candidates with a quorum of votes in one term are one. -/
theorem Elections.won_unique (h : Elections mem c) {x y : String} {term : Nat}
    (hx : c.Won mem x term) (hy : c.Won mem y term) : x = y := by
  have hmeet : mem.peers.length <
      (mem.peers.countP fun n => (⟨n, x, term⟩ : Vote) ∈ c.votes) +
        mem.peers.countP fun n => (⟨n, y, term⟩ : Vote) ∈ c.votes := by
    have := mem.majority
    unfold Won at hx hy
    omega
  obtain ⟨n, -, hnx, hny⟩ := quorums_meet hmeet
  exact h.unique _ hnx _ hny rfl rfl

/-- In every run of a cluster, at most one node has ever been leader in a term. -/
theorem one_leader (h : c.Starts mem) (events : List Event) (term : Nat) (x y : String)
    (hx : (term, x) ∈ (c.acts mem events).leaders) (hy : (term, y) ∈ (c.acts mem events).leaders) :
    x = y := by
  by_cases hone : mem.peers.length = 1
  · obtain ⟨n, hn⟩ := List.length_eq_one_iff.mp hone
    have hpx := peers_of_leaders h events term x hx
    have hpy := peers_of_leaders h events term y hy
    rw [hn, List.mem_singleton] at hpx hpy
    rw [hpx, hpy]
  · have helections := elections_acts h hone events
    exact helections.won_unique (helections.leaders term x hx) (helections.leaders term y hy)

/-! Three nodes, of which the first is elected. -/

namespace ThreeNodes

def shared : Membership where
  clusterId := "cluster"
  peers := ["node-1", "node-2", "node-3"]
  quorum := 2
  nodup := by decide
  named _ := by decide +kernel
  majority := by decide

def node (initialLeaderId : Option String) (n : String) : Process where
  app :=
    { config :=
        { shardCount := 2
          replication := ⟨shared.clusterId, n, initialLeaderId, shared.peers, shared.quorum⟩
          minLogEntries := 10000
          compactOnStartup := true
          publisher := false }
      state := SourceOfTruth.new 2 "cluster"
      consensus := ⟨1, none, .follower, initialLeaderId⟩
      lastPublished := [0, 0]
      disk := Disk.empty }
  threads := []
  round := none
  election := .idle

def cluster (initialLeaderId : Option String) : Cluster where
  nodes := node initialLeaderId
  requests := []
  votes := []
  heartbeats := []
  replications := []
  prepared := []
  fetched := []
  snapshots := []
  streams := []
  leaders := []
  assumed := (initialLeaderId.map fun leaderId => (1, leaderId)).toList

theorem starts (initialLeaderId : Option String) : (cluster initialLeaderId).Starts shared where
  nodes _ _ := ⟨rfl, rfl, rfl, rfl, ⟨Disk.empty, rfl⟩, rfl, rfl, rfl⟩
  requests := rfl
  votes := rfl
  heartbeats := rfl
  replications := rfl
  prepared := rfl
  fetched := rfl
  snapshots := rfl
  streams := rfl
  leaders := rfl
  assumed n _ leaderId h := by
    replace h : initialLeaderId = some leaderId := h
    show (1, leaderId) ∈ (initialLeaderId.map fun leaderId => (1, leaderId)).toList
    rw [h]
    exact List.mem_singleton_self _

/-- A candidate asks a voter for its vote, and gets it if the voter grants it. -/
def ask (candidate : String) (term : Nat) (voter : String) (status : LogStatus) : List Event :=
  [.requestVotes candidate status,
    .run voter (.requestVote ⟨shared.clusterId, term, candidate, status.lastSeq, status.logLen,
      some status.watermarks⟩),
    .run voter (.thread .given 0), .run voter (.thread .given 0)]

/-- A candidate is elected with the vote of one other node. -/
def elect (candidate : String) (term : Nat) (voter : String) (status : LogStatus) : List Event :=
  .run candidate (.election .given false) :: ask candidate term voter status ++
    [.run candidate (.election .given true)]

end ThreeNodes

theorem one_leader_elected :
    (2, "node-1") ∈ ((ThreeNodes.cluster none).acts ThreeNodes.shared
      (ThreeNodes.elect "node-1" 2 "node-2" ⟨0, 0, [0, 0]⟩)).leaders ∧ "node-1" = "node-1" :=
  have hleader : (2, "node-1") ∈ ((ThreeNodes.cluster none).acts ThreeNodes.shared
      (ThreeNodes.elect "node-1" 2 "node-2" ⟨0, 0, [0, 0]⟩)).leaders := by decide +kernel
  ⟨hleader, one_leader (ThreeNodes.starts none) _ 2 "node-1" "node-1" hleader hleader⟩

end Cluster

end Globacl
