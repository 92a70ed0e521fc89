import Globacl.Commitd.Hints
import Globacl.Commitd.Slots

/-!
# What a commit message stands for

A leader sends a commit only after a quorum has answered the prepare of the mutation, and a node wins a
later term only with the votes of a quorum. The two quorums have a node in common. It has answered
before it voted, if no prepare is answered late, in a term above that of the mutation.

* `Commits`: the invariant. Each commit message is of the winner of its term, after its quorum.
* `later_leader_meets`: the winner of a later term has the vote of a node that knew of the mutation.
-/

namespace Globacl

open Lib Prog

/-- A node sends a commit at the end of the prepare round of the mutation, as the leader in its term,
and after it has applied it. -/
theorem Process.commit_of_sends {p : Process} {e : Section} {m : Mutation}
    (h : (.commit true, m) ∈ p.sends e) :
    ∃ ord round, e = .endRound ord (.ok ()) ∧ p.round = some round ∧ round.outcome.mutation = m ∧
      p.app.consensus.role = .leader ∧ m.epoch = p.app.consensus.currentTerm ∧
      ∃ status, (applyPreparedMutation ord m p.app).result = .ok status := by
  rcases List.mem_append.mp h with h | h
  · unfold concludes at h
    split at h
    · split at h
      · cases h
      · cases List.mem_singleton.mp h
      · rename_i round hround _
        dsimp only at h
        split at h
        · cases h
        · rename_i term hauthority
          split at h
          · cases List.mem_singleton.mp h
          · rename_i hepoch
            split at h
            · rename_i status happly
              cases List.mem_singleton.mp h
              have hleads : ensureLeaderTerm p.app round.outcome.mutation = .ok () := by
                unfold ensureLeaderTerm
                rw [hauthority]
                exact if_neg hepoch
              obtain ⟨hrole, hterm⟩ := ensureLeaderTerm_ok hleads
              exact ⟨_, round, rfl, hround, rfl, hrole, hterm, status, happly⟩
            · cases h
    · cases h
  · split at h
    · cases List.mem_singleton.mp h
    · cases h

namespace Cluster

variable {mem : Membership} {c : Cluster} {event : Event}

/-! ## What an event adds -/

theorem commits_act {m : Mutation} {x : String}
    (h : (.commit true, m, x) ∈ (c.act mem event).replications) :
    (.commit true, m, x) ∈ c.replications ∨
      ∃ e, x ∈ mem.peers ∧ c.offers mem x e ∧ (.commit true, m) ∈ (c.nodes x).sends e := by
  unfold act at h
  split at h
  · rename_i n e
    split at h
    · rename_i hrun
      rcases List.mem_append.mp h with hnew | hold
      · obtain ⟨⟨message, m'⟩, hsends, heq⟩ := List.mem_map.mp hnew
        cases heq
        exact Or.inr ⟨e, hrun.1, hrun.2, hsends⟩
      · exact Or.inl hold
    · exact Or.inl h
  · split at h <;> exact Or.inl h
  · split at h <;> exact Or.inl h
  · split at h
    · split at h <;> exact Or.inl h
    · exact Or.inl h
  · exact Or.inl h
  · split at h
    · split at h <;> exact Or.inl h
    · exact Or.inl h

theorem prepared_act {m : Mutation} {n : String} (h : (n, m) ∈ (c.act mem event).prepared) :
    (n, m) ∈ c.prepared ∨ ∃ e, event = .run n e ∧ (c.nodes n).answers e = some m := by
  unfold act at h
  split at h
  · rename_i n' e
    split at h
    · rcases List.mem_append.mp h with hnew | hold
      · rw [Option.mem_toList, Option.map_eq_some_iff] at hnew
        obtain ⟨m', hanswers, heq⟩ := hnew
        cases heq
        exact Or.inr ⟨e, rfl, hanswers⟩
      · exact Or.inl hold
    · exact Or.inl h
  · split at h <;> exact Or.inl h
  · split at h <;> exact Or.inl h
  · split at h
    · split at h <;> exact Or.inl h
    · exact Or.inl h
  · exact Or.inl h
  · split at h
    · split at h <;> exact Or.inl h
    · exact Or.inl h

/-- Nothing that was sent, answered or granted is taken back. -/
structure Grows (c c' : Cluster) : Prop where
  votes : ∀ vote ∈ c.votes, vote ∈ c'.votes
  replications : ∀ sent ∈ c.replications, sent ∈ c'.replications
  prepared : ∀ answer ∈ c.prepared, answer ∈ c'.prepared

theorem Grows.refl (c : Cluster) : c.Grows c := ⟨fun _ h => h, fun _ h => h, fun _ h => h⟩

theorem Grows.trans {c c' c'' : Cluster} (h : c.Grows c') (h' : c'.Grows c'') : c.Grows c'' where
  votes vote hvote := h'.votes vote (h.votes vote hvote)
  replications sent hsent := h'.replications sent (h.replications sent hsent)
  prepared answer hanswer := h'.prepared answer (h.prepared answer hanswer)

theorem grows_act : c.Grows (c.act mem event) := by
  unfold act
  split
  · split
    · exact ⟨fun _ h => List.mem_append_right _ h, fun _ h => List.mem_append_right _ h,
        fun _ h => List.mem_append_right _ h⟩
    · exact .refl c
  · split
    · exact ⟨fun _ h => h, fun _ h => h, fun _ h => h⟩
    · exact .refl c
  · split
    · exact ⟨fun _ h => h, fun _ h => h, fun _ h => h⟩
    · exact .refl c
  · split
    · split
      · exact ⟨fun _ h => h, fun _ h => h, fun _ h => h⟩
      · exact .refl c
    · exact .refl c
  · exact ⟨fun _ h => h, fun _ h => h, fun _ h => h⟩
  · split
    · split
      · exact ⟨fun _ h => h, fun _ h => h, fun _ h => h⟩
      · exact .refl c
    · exact .refl c

theorem Prepared.mono {c' : Cluster} {x : String} {m : Mutation} (h : c.Prepared mem x m)
    (hgrows : c.Grows c') : c'.Prepared mem x m := by
  refine le_trans h (Nat.add_le_add_left (List.countP_mono_left fun n _ hn => ?_) 1)
  rw [decide_eq_true_eq] at hn ⊢
  exact ⟨hn.1, hgrows.prepared _ hn.2⟩

/-! ## The quorum behind a commit -/

/-- Each commit was sent after the answers of a quorum. -/
def Commits (mem : Membership) (c : Cluster) : Prop :=
  ∀ m x, (.commit true, m, x) ∈ c.replications → c.Prepared mem x m

theorem Commits.act (h : Commits mem c) (event : Event) : Commits mem (c.act mem event) := by
  intro m x hsent
  rcases commits_act hsent with hold | ⟨e, -, ho, hsends⟩
  · exact (h m x hold).mono grows_act
  · obtain ⟨ord, round, rfl, hround, rfl, -⟩ := Process.commit_of_sends hsends
    unfold offers at ho
    dsimp only at ho
    rw [hround] at ho
    exact Prepared.mono ho grows_act

theorem commits_acts (h : c.Starts mem) (events : List Event) :
    Commits mem (c.acts mem events) := by
  refine foldl_invariant (fun _ event h => h.act event) (fun m x hsent => ?_) events
  rw [h.replications] at hsent
  cases hsent

/-- A node that commits has a quorum with those that have answered. -/
theorem Prepared.quorum {x : String} {m : Mutation} (hx : x ∈ mem.peers)
    (h : c.Prepared mem x m) :
    mem.quorum ≤ mem.peers.countP fun n => n = x ∨ (n, m) ∈ c.prepared := by
  have hnodup : (x :: mem.peers.filter fun n => n ≠ x ∧ (n, m) ∈ c.prepared).Nodup :=
    List.nodup_cons.mpr ⟨fun hmem => (of_decide_eq_true (List.mem_filter.mp hmem).2).1 rfl,
      mem.nodup.filter _⟩
  have hcount : (x :: mem.peers.filter fun n => n ≠ x ∧ (n, m) ∈ c.prepared).length ≤
      mem.peers.countP fun n => n = x ∨ (n, m) ∈ c.prepared := by
    refine length_le_countP hnodup fun n hn => ?_
    rcases List.mem_cons.mp hn with rfl | hn
    · exact ⟨hx, Or.inl rfl⟩
    · obtain ⟨hpeer, hanswer⟩ := List.mem_filter.mp hn
      exact ⟨hpeer, Or.inr (of_decide_eq_true hanswer).2⟩
  unfold Prepared at h
  rw [List.countP_eq_length_filter] at h
  rw [List.length_cons] at hcount
  omega

/-! ## What came before a vote -/

/-- No prepare is answered late: the node is still in the term of the mutation. -/
def AnswersInTerm (c : Cluster) : Event → Prop
  | .run n e => ∀ m ∈ (c.nodes n).answers e, m.epoch = (c.nodes n).app.consensus.currentTerm
  | _ => True

instance decidableAnswersInTerm (c : Cluster) (event : Event) : Decidable (c.AnswersInTerm event) := by
  unfold AnswersInTerm
  split <;> infer_instance

/-- A vote of a later term that was granted before the prepare was answered: then it is not answered. -/
theorem not_prepared_of_vote (h : Elections mem c) {events : List Event} {m : Mutation} {n y : String}
    {t : Nat} (hterm : Along (Cluster.act mem) AnswersInTerm c events) (hlt : m.epoch < t)
    (hvote : ⟨n, y, t⟩ ∈ c.votes) (hnot : (n, m) ∉ c.prepared) :
    (n, m) ∉ (c.acts mem events).prepared := by
  induction events generalizing c with
  | nil => exact hnot
  | cons event events ih =>
    refine ih (h.act event) hterm.2 (grows_act.votes _ hvote) fun hprepared => ?_
    rcases prepared_act hprepared with hold | ⟨e, rfl, hanswers⟩
    · exact hnot hold
    · have hepoch := hterm.1 m hanswers
      have hbinds := h.memory _ hvote
      unfold Binds at hbinds
      dsimp only at hbinds
      omega

/-- The same for the leader itself: it does not commit after it has voted in a later term. -/
theorem not_committed_of_vote (h : Elections mem c) (events : List Event) {m : Mutation} {x y : String}
    {t : Nat} (hlt : m.epoch < t) (hvote : ⟨x, y, t⟩ ∈ c.votes)
    (hnot : (.commit true, m, x) ∉ c.replications) :
    (.commit true, m, x) ∉ (c.acts mem events).replications := by
  induction events generalizing c with
  | nil => exact hnot
  | cons event events ih =>
    refine ih (h.act event) (grows_act.votes _ hvote) fun hsent => ?_
    rcases commits_act hsent with hold | ⟨e, -, -, hsends⟩
    · exact hnot hold
    · obtain ⟨-, -, -, -, -, -, hepoch, -⟩ := Process.commit_of_sends hsends
      have hbinds := h.memory _ hvote
      unfold Binds at hbinds
      dsimp only at hbinds
      omega

/-- In every run in which no prepare is answered late: a commit is of the winner of its term, and the
winner of any later term has the vote of a node that had sent this commit, or had answered its prepare,
when it voted. -/
theorem later_leader_meets (h : c.Starts mem) (hmany : mem.peers.length ≠ 1) (events : List Event)
    (hterm : Along (Cluster.act mem) AnswersInTerm c events) {m : Mutation} {x y : String} {t : Nat}
    (hsent : (.commit true, m, x) ∈ (c.acts mem events).replications) (hlt : m.epoch < t)
    (hwon : (c.acts mem events).Won mem y t) :
    (c.acts mem events).Won mem x m.epoch ∧
      ∃ n ∈ mem.peers, ⟨n, y, t⟩ ∈ (c.acts mem events).votes ∧
        ∀ before, before <+: events → ⟨n, y, t⟩ ∈ (c.acts mem before).votes →
          n = x ∧ (.commit true, m, x) ∈ (c.acts mem before).replications ∨
            (n, m) ∈ (c.acts mem before).prepared := by
  obtain ⟨hx, hleads⟩ := (hints_acts h hmany events).replications _ m x hsent
  have hprepared := (commits_acts h events m x hsent).quorum hx
  have hmeet : mem.peers.length <
      (mem.peers.countP fun n => (⟨n, y, t⟩ : Vote) ∈ (c.acts mem events).votes) +
        mem.peers.countP fun n => n = x ∨ (n, m) ∈ (c.acts mem events).prepared := by
    have := mem.majority
    unfold Won at hwon
    omega
  obtain ⟨n, hn, hvote, hknows⟩ := quorums_meet hmeet
  refine ⟨hleads, n, hn, hvote, ?_⟩
  rintro before ⟨after, rfl⟩ hbefore
  have hsplit : c.acts mem (before ++ after) = (c.acts mem before).acts mem after :=
    List.foldl_append
  rw [hsplit] at hsent hknows
  have hel := elections_acts h hmany before
  rcases hknows with rfl | hprepared
  · left
    by_contra hnot
    exact not_committed_of_vote hel after hlt hbefore (fun hold => hnot ⟨rfl, hold⟩) hsent
  · right
    by_contra hnot
    exact not_prepared_of_vote hel (along_append.mp hterm).2 hlt hbefore hnot hprepared

/-! The first of three nodes commits a mutation that the second has prepared. Then the second is elected
with the vote of the third, which knows of neither. -/

namespace ThreeNodes

open Process.EarlyClient in
def committedThenElected : List Event :=
  elected ++
    [.run "node-1" (.election .given false), .run "node-1" (.election .given false),
      .run "node-1" (.client (.deny 100 request)), .run "node-1" (.thread .given 0),
      .run "node-2" (.receiveReplication .prepare reused "node-1"), .run "node-2" (.thread .given 0),
      .run "node-2" (.thread .given 0), .run "node-1" (.endRound .given (.ok ()))] ++
    elect "node-2" 3 "node-3" ⟨0, 0, [0, 0]⟩

end ThreeNodes

open ThreeNodes Process.EarlyClient in
theorem later_leader_meets_elected :
    ∃ n ∈ shared.peers, ⟨n, "node-2", 3⟩ ∈ ((cluster none).acts shared committedThenElected).votes ∧
      ∀ before, before <+: committedThenElected →
        ⟨n, "node-2", 3⟩ ∈ ((cluster none).acts shared before).votes →
          n = "node-1" ∧ (.commit true, reused, "node-1") ∈
            ((cluster none).acts shared before).replications ∨
          (n, reused) ∈ ((cluster none).acts shared before).prepared :=
  (later_leader_meets (starts none) (by decide) committedThenElected (by decide +kernel)
    (by decide +kernel) (by decide) (by decide +kernel)).2

end Cluster

end Globacl
