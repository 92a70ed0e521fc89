import Globacl.Commitd.Requests

/-!
# A single node that crashes and starts again

A node without a publisher starts, serves one request or compaction after the other, and may crash
at any point between two writes and start again from its files.

* `Running`: the runs of a node.
* `Running.holds`: what memory and files hold along a run.
* `crash_recovers_iff`: a start after a crash finds the memory of the crash, or this memory and the
  mutation whose log append was done, provided that there is a shard.
-/

namespace Globacl

open Lib Prog

/-- Whether a node has finished its start. -/
inductive Phase where
  | starting
  | ready
  deriving DecidableEq, Repr

/-- What a node may run: the rest of its start, a request, or a compaction. -/
inductive Work : Phase → Program Unit → Prop
  | finishStartup (ord : IterOrder) : Work .starting (finishStartup ord)
  | deny (ord : IterOrder) (peers : Peers) (now : Nat) (request : DenyRequest) :
      Work .ready (do let _ ← commitRequest ord peers now request; pure ())
  | rule (ord : IterOrder) (peers : Peers) (now : Nat) (request : RuleRequest) :
      Work .ready (do let _ ← commitRuleRequest ord peers now request; pure ())
  | rollback (ord : IterOrder) (peers : Peers) (clock : Nat → Nat) (snapshot : Snapshot)
      (rollbackId : String) : Work .ready (rollbackRequest ord peers clock snapshot rollbackId)
  | compact (ord : IterOrder) (force : Bool) : Work .ready (compactMutationLogs ord force)

/-- The states of a node without a publisher between two programs, in a run that may crash at any
point of a program. The shard count stays the same over the starts; the other settings may change. -/
inductive Running (n : Nat) : App → Phase → Prop
  | first {config : Config} {app : App} (hn : config.shardCount = n)
      (hp : config.publisher = false) (h : boot config Disk.empty = .ok app) :
      Running n app .starting
  | done {app : App} {phase : Phase} {c : Program Unit} (h : Running n app phase)
      (hw : Work phase c) : Running n (c app).final .ready
  | restart {app crashed app' : App} {phase : Phase} {c : Program Unit} {config : Config}
      (h : Running n app phase) (hw : Work phase c) (hc : crashed ∈ app :: (c app).points)
      (hn : config.shardCount = n) (hp : config.publisher = false)
      (hb : boot config crashed.disk = .ok app') : Running n app' .starting

/-- A start finds the source of the crashed node, or this source after the one mutation whose log
append was done. -/
def CrashRecovers (n : Nat) (crashed : App) : Prop :=
  ∃ st, loadSourceOfTruth crashed.disk n crashed.config.replication.clusterId none = .ok st ∧
    (st.Agrees crashed.state ∨
      ∃ m st', m ∈ crashed.disk.logs m.shard ∧
        crashed.state.applyReplicatedMutation m = .ok (.applied, st') ∧ st.Agrees st')

theorem CrashPoint.recovers {n : Nat} {app : App} (h : CrashPoint n app) (hn : 0 < n) :
    CrashRecovers n app := by
  obtain ⟨history, stored, ⟨hmem, first, hd⟩, hgood, hstored⟩ := h
  obtain ⟨st, hst, hr⟩ := hd.load hn hgood.valid hgood.distinctOps app.config.replication.clusterId
  refine ⟨st, hst, ?_⟩
  rcases hstored with rfl | ⟨m, rfl, hm⟩
  · exact Or.inl (hr.toRepresents.agrees hmem.toRepresents)
  · have hnext := hmem.toRepresents.next hgood.valid hgood.nodup
    exact Or.inr ⟨m, _, hm, hnext.applyReplicatedMutation,
      hr.toRepresents.agrees (hmem.toRepresents.record hnext)⟩

/-- What memory and files hold between two programs. -/
def PhaseHolds (n : Nat) : Phase → App → Prop
  | .starting, app => ∃ history, Holding n history history app
  | .ready, app => Settled n app

theorem PhaseHolds.crashPoint {n : Nat} {phase : Phase} {app : App} (h : PhaseHolds n phase app) :
    CrashPoint n app := by
  cases phase with
  | starting => exact let ⟨_, h⟩ := h; h.crashPoint
  | ready => exact let ⟨_, h⟩ := h; h.crashPoint

theorem Work.triple {phase : Phase} {c : Program Unit} (h : Work phase c) (n : Nat) :
    Triple (PhaseHolds n phase) c (fun _ => Settled n) (Settled n) (CrashPoint n) := by
  cases h with
  | finishStartup ord => exact settled_finishStartup ord
  | deny ord peers now request =>
    exact (settled_commitRequest ord peers now request).bind fun _ => Triple.pure fun _ h => h
  | rule ord peers now request =>
    exact (settled_commitRuleRequest ord peers now request).bind fun _ => Triple.pure fun _ h => h
  | rollback ord peers clock snapshot rollbackId =>
    exact settled_rollbackRequest ord peers clock snapshot rollbackId
  | compact ord force => exact settled_compactMutationLogs ord force

/-- A start from files that hold a history. -/
theorem holding_boot {n : Nat} {history : List Mutation} {first : Nat → Nat} {disk : Disk}
    {config : Config} {app : App} (hd : DiskHolds n history first disk)
    (hgood : GoodHistory n history) (hpos : 0 < n) (hn : config.shardCount = n)
    (hp : config.publisher = false) (h : boot config disk = .ok app) :
    Holding n history history app := by
  obtain ⟨st, hst, hr⟩ := hd.load hpos hgood.valid hgood.distinctOps config.replication.clusterId
  simp only [boot, hn, hp, Bool.false_eq_true, if_false, hst] at h
  cases h
  exact ⟨hr, first, hd⟩

theorem diskHolds_empty (n : Nat) : DiskHolds n [] (fun _ => 0) Disk.empty where
  logs _ := rfl
  snapshot _ h := by cases h
  noSnapshot _ _ := rfl
  stream _ h := by cases h
  noStream _ _ := rfl

/-- Along a run, memory and files hold the same between two programs, and a crash leaves them at
most one mutation apart. -/
theorem Running.holds {n : Nat} (hpos : 0 < n) {app : App} {phase : Phase}
    (h : Running n app phase) : PhaseHolds n phase app := by
  induction h with
  | first hn hp hb =>
    exact ⟨[], holding_boot (diskHolds_empty n) ⟨⟨by simp, by simp⟩, List.nodup_nil⟩ hpos hn hp hb⟩
  | done _ hw ih =>
    rename_i app _ c _
    cases hc : (c app).result with
    | ok _ => exact (hw.triple n).ok app () ih hc
    | error err => exact (hw.triple n).error app err ih hc
  | restart _ hw hc hn hp hb ih =>
    rename_i app crashed _ _ _ _ _
    have hcrash : CrashPoint n crashed := by
      rcases List.mem_cons.mp hc with rfl | hc
      · exact ih.crashPoint
      · exact (hw.triple n).crash _ ih _ hc
    obtain ⟨_, stored, ⟨_, first, hd⟩, hgood, -⟩ := hcrash
    exact ⟨stored, holding_boot hd hgood hpos hn hp hb⟩

theorem Running.crash_recovers {n : Nat} (hpos : 0 < n) {app crashed : App} {phase : Phase}
    {c : Program Unit} (h : Running n app phase) (hw : Work phase c)
    (hc : crashed ∈ app :: (c app).points) : CrashRecovers n crashed := by
  rcases List.mem_cons.mp hc with rfl | hc
  · exact (h.holds hpos).crashPoint.recovers hpos
  · exact ((hw.triple n).crash app (h.holds hpos) crashed hc).recovers hpos

/-! ## No shard

The code takes a shard count of `0`: `SourceOfTruth::new` then makes one shard, so the snapshot of
the first start says `1`, and no later start accepts it. -/

namespace NoShard

def config : Config where
  shardCount := 0
  replication := ⟨"cluster", "node-1", none, ["node-1"], 1⟩
  minLogEntries := 10000
  compactOnStartup := true
  publisher := false

/-- The node after its first start with no shard. -/
def started : App where
  config := config
  state := SourceOfTruth.new 0 "cluster"
  consensus := ⟨1, none, .leader, some "node-1"⟩
  lastPublished := []
  disk := Disk.empty

theorem boot_started : boot config Disk.empty = .ok started := rfl

/-- The node after the first write of its first start. -/
def crashed : App :=
  { started with disk := { Disk.empty with snapshot := some (started.state.snapshot .given) } }

theorem crashed_mem : crashed ∈ started :: (finishStartup .given started).points :=
  List.mem_cons_of_mem _ List.mem_cons_self

theorem load_crashed : loadSourceOfTruth crashed.disk 0 "cluster" none =
    .error (.invalidData "snapshot shard_count 1 does not match configured 0") := rfl

theorem running : Running 0 started .starting := .first rfl rfl boot_started

theorem not_crashRecovers : ¬CrashRecovers 0 crashed := by
  rintro ⟨st, hst, -⟩
  cases load_crashed.symm.trans hst

end NoShard

/-- With no shard, a crash right after the first write cannot be recovered from. -/
theorem crash_unrecovered_noShard :
    ∃ app crashed phase c, Running 0 app phase ∧ Work phase c ∧
      crashed ∈ app :: (c app).points ∧ ¬CrashRecovers 0 crashed :=
  ⟨_, _, _, _, NoShard.running, .finishStartup .given, NoShard.crashed_mem,
    NoShard.not_crashRecovers⟩

/-- Every crash of every run with this shard count can be recovered from exactly if there is a
shard. -/
theorem crash_recovers_iff (n : Nat) :
    (∀ app crashed phase c, Running n app phase → Work phase c →
      crashed ∈ app :: (c app).points → CrashRecovers n crashed) ↔ 0 < n := by
  constructor
  · intro h
    rcases Nat.eq_zero_or_pos n with rfl | hpos
    · exact absurd (h _ _ _ _ NoShard.running (.finishStartup .given) NoShard.crashed_mem)
        NoShard.not_crashRecovers
    · exact hpos
  · exact fun hpos app crashed phase c h hw hc => h.crash_recovers hpos hw hc

end Globacl
