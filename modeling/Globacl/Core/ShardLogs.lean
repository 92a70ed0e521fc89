import Globacl.Core.Codec
import Mathlib.Logic.Function.Basic

/-!
# Shard logs in bytes (`globacl-core/src/lib/snapshots.rs`)

A shard log is a file of frames: a length of four bytes, then the encoded mutation. An append writes
one frame at the end of the file, a compaction rewrites the file, and a read decodes frames until the
file ends. The files of a directory are named by their shards, so a directory is a function.

* `readFrames_cut`: a part of the frames is read at a frame's end and nowhere else.
* `Holds`: the files are the frames of lists. `holds_append`, `holds_compact`: the two writers.
* `holds_run`: after any run of appends and compactions, the files hold what the lists do.
* `shardLog_exact`: the main result.
-/

namespace Globacl

open Lib Lib.Parser

/-- The files of a log directory: the bytes of each file that exists, by its shard. -/
abbrev LogDir := Nat → Option (List UInt8)

/-- The bytes that are written for a mutation. -/
def frame (m : Mutation) : List UInt8 := writeU32 (encodeMutation m).length ++ encodeMutation m

theorem consumes_decodeFrame : Consumes 4 decodeFrame := by
  refine (consumes_natLe unexpectedEof 4).bind fun len => ?_
  refine (consumes_take unexpectedEof len).bind fun bytes => ?_
  rw [Nat.sub_self, Nat.zero_sub]
  exact .lift _

/-- The loop of `read_shard_log` over the bytes of the file. -/
def readFrames (bytes : List UInt8) : Result (List Mutation) :=
  if bytes = [] then .ok []
  else
    match h : decodeFrame bytes with
    | .error err => .error err
    | .ok (m, rest) =>
      have : rest.length < bytes.length := by
        have := consumes_decodeFrame bytes m rest h
        omega
      (readFrames rest).map (m :: ·)
termination_by bytes.length

namespace LogDir

/-- What a file has, and nothing if there is no file. -/
def contents (dir : LogDir) (shardId : Nat) : List UInt8 := (dir shardId).getD []

/-- A file gets new contents. -/
def withFile (dir : LogDir) (shardId : Nat) (bytes : List UInt8) : LogDir :=
  Function.update dir shardId (some bytes)

/-- `append_mutation_to_log`. -/
def appendMutationToLog (dir : LogDir) (m : Mutation) : LogDir :=
  dir.withFile m.shard (dir.contents m.shard ++ frame m)

/-- `read_shard_log`. -/
def readShardLog (dir : LogDir) (shardId : Nat) : Result (List Mutation) :=
  match dir shardId with
  | none => .ok []
  | some bytes => readFrames bytes

/-- `write_shard_log`. -/
def writeShardLog (dir : LogDir) (shardId : Nat) (mutations : List Mutation) : LogDir :=
  dir.withFile shardId (mutations.flatMap frame)

/-- The mutations of a log above the shard's watermark. -/
def logTail (watermarks : List Nat) (shardId : Nat) (log : List Mutation) : List Mutation :=
  log.filter fun m => decide (m.seq > watermarks.getD shardId 0)

/-- The loop of `compact_logs_to_watermarks`. A log that cannot be read ends it, and the logs before
it stay compacted. -/
def compactShards (watermarks : List Nat) : List Nat → LogDir → LogDir × Result Unit
  | [], dir => (dir, .ok ())
  | shardId :: shardIds, dir =>
    match dir.readShardLog shardId with
    | .error err => (dir, .error err)
    | .ok log =>
      compactShards watermarks shardIds (dir.writeShardLog shardId (logTail watermarks shardId log))

/-- `compact_logs_to_watermarks`. -/
def compactLogsToWatermarks (dir : LogDir) (shardCount : Nat) (watermarks : List Nat) :
    LogDir × Result Unit :=
  if watermarks.length ≠ shardCount then
    (dir, .error (.invalidData
      s!"log compaction has {watermarks.length} watermarks for {shardCount} shards"))
  else compactShards watermarks (List.range shardCount) dir

end LogDir

/-! ## Cuts -/

/-- The encoding and its texts are short enough for their lengths to be written. -/
structure Mutation.Framed (m : Mutation) : Prop where
  fits : m.Fits
  short : (encodeMutation m).length < 2 ^ 32

theorem Mutation.Framed.reads {m : Mutation} (h : m.Framed) :
    Reads unexpectedEof decodeFrame (frame m) m :=
  reads_frame h.fits h.short

theorem length_frame (m : Mutation) : (frame m).length = (encodeMutation m).length + 4 := by
  rw [frame, List.length_append, writeU32, length_natToLe]
  omega

theorem readFrames_nil : readFrames [] = .ok [] := by
  rw [readFrames, if_pos rfl]

theorem readFrames_cons {m : Mutation} (h : m.Framed) (rest : List UInt8) :
    readFrames (frame m ++ rest) = (readFrames rest).map (m :: ·) := by
  have hne : frame m ++ rest ≠ [] := by
    intro hnil
    have hlen := congrArg List.length hnil
    rw [List.length_append, length_frame, List.length_nil] at hlen
    omega
  rw [readFrames, if_neg hne]
  split
  · rename_i err hd
    rw [h.reads.ok rest] at hd
    cases hd
  · rename_i m' rest' hd
    rw [h.reads.ok rest] at hd
    cases hd
    rfl

/-- A torn frame is reported. -/
theorem readFrames_torn {m : Mutation} (h : m.Framed) {cut : List UInt8} (hcut : cut <+: frame m)
    (hlt : cut.length < (frame m).length) (hne : cut ≠ []) :
    readFrames cut = .error unexpectedEof := by
  rw [readFrames, if_neg hne]
  split
  · rename_i err hd
    rw [h.reads.cut cut hcut hlt] at hd
    cases hd
    rfl
  · rename_i m' rest' hd
    rw [h.reads.cut cut hcut hlt] at hd
    cases hd

theorem readFrames_flatMap {ms : List Mutation} (h : ∀ m ∈ ms, m.Framed) :
    readFrames (ms.flatMap frame) = .ok ms := by
  induction ms with
  | nil => exact readFrames_nil
  | cons m ms ih =>
    rw [List.flatMap_cons, readFrames_cons (h m List.mem_cons_self),
      ih fun m' hm' => h m' (List.mem_cons_of_mem m hm')]
    rfl

/-- A part of the frames ends where a frame ends, and is read as the mutations before, or it is
reported. -/
theorem readFrames_cut {ms : List Mutation} (h : ∀ m ∈ ms, m.Framed) {cut : List UInt8}
    (hcut : cut <+: ms.flatMap frame) :
    (∃ k, cut = (ms.take k).flatMap frame) ∨
      readFrames cut = .error unexpectedEof ∧ ∀ k, cut ≠ (ms.take k).flatMap frame := by
  induction ms generalizing cut with
  | nil =>
    rw [List.flatMap_nil, List.prefix_nil] at hcut
    exact Or.inl ⟨0, hcut⟩
  | cons m ms ih =>
    have hm : m.Framed := h m List.mem_cons_self
    rw [List.flatMap_cons] at hcut
    rcases cut_append hcut with ⟨hfront, hlt⟩ | ⟨back, rfl, hback⟩
    · by_cases hnil : cut = []
      · exact Or.inl ⟨0, hnil⟩
      · refine Or.inr ⟨readFrames_torn hm hfront hlt hnil, ?_⟩
        rintro (_ | k) rfl
        · exact hnil rfl
        · rw [List.take_succ_cons, List.flatMap_cons, List.length_append] at hlt
          omega
    · rcases ih (fun m' hm' => h m' (List.mem_cons_of_mem m hm')) hback with
        ⟨k, rfl⟩ | ⟨herr, hnot⟩
      · exact Or.inl ⟨k + 1, by rw [List.take_succ_cons, List.flatMap_cons]⟩
      · refine Or.inr ⟨by rw [readFrames_cons hm, herr]; rfl, ?_⟩
        rintro (_ | k) hk
        · have hlen := congrArg List.length hk
          rw [List.take_zero, List.flatMap_nil, List.length_append, length_frame,
            List.length_nil] at hlen
          omega
        · rw [List.take_succ_cons, List.flatMap_cons, List.append_cancel_left_eq] at hk
          exact hnot k hk

/-! ## Appends and compactions -/

/-- The files of the directory are the frames of these logs. -/
structure LogDir.Holds (dir : LogDir) (logs : Nat → List Mutation) : Prop where
  contents : ∀ shardId, dir.contents shardId = (logs shardId).flatMap frame
  framed : ∀ shardId, ∀ m ∈ logs shardId, m.Framed

/-- The logs after an append. -/
def appendLog (logs : Nat → List Mutation) (m : Mutation) : Nat → List Mutation :=
  Function.update logs m.shard (logs m.shard ++ [m])

/-- The logs after a compaction of the shards. -/
def compactLogs (watermarks : List Nat) (shardIds : List Nat) (logs : Nat → List Mutation) :
    Nat → List Mutation := fun shardId =>
  if shardId ∈ shardIds then LogDir.logTail watermarks shardId (logs shardId) else logs shardId

namespace LogDir

theorem contents_withFile (dir : LogDir) (shardId : Nat) (bytes : List UInt8) (shardId' : Nat) :
    (dir.withFile shardId bytes).contents shardId' =
      if shardId' = shardId then bytes else dir.contents shardId' := by
  unfold contents withFile
  rw [Function.update_apply]
  split <;> rfl

theorem readShardLog_withFile (dir : LogDir) (shardId : Nat) (bytes : List UInt8) :
    (dir.withFile shardId bytes).readShardLog shardId = readFrames bytes := by
  rw [readShardLog, withFile, Function.update_self]

section Holds

variable {dir : LogDir} {logs : Nat → List Mutation}

theorem holds_empty : Holds (fun _ => none) (fun _ => []) where
  contents _ := rfl
  framed _ _ hm := by cases hm

theorem Holds.readShardLog (h : Holds dir logs) (shardId : Nat) :
    dir.readShardLog shardId = .ok (logs shardId) := by
  have hread := readFrames_flatMap (h.framed shardId)
  rw [← h.contents shardId] at hread
  unfold LogDir.readShardLog
  unfold LogDir.contents at hread
  cases hfile : dir shardId with
  | none =>
    rw [hfile, Option.getD_none, readFrames_nil] at hread
    exact hread
  | some bytes =>
    rw [hfile, Option.getD_some] at hread
    exact hread

/-- A file that is written again with the frames of a list. -/
theorem Holds.withFile (h : Holds dir logs) (shardId : Nat) {log : List Mutation}
    (hlog : ∀ m ∈ log, m.Framed) :
    Holds (dir.withFile shardId (log.flatMap frame)) (Function.update logs shardId log) where
  contents shardId' := by
    rw [contents_withFile, Function.update_apply]
    split
    · rfl
    · exact h.contents shardId'
  framed shardId' m hm := by
    rw [Function.update_apply] at hm
    split at hm
    · exact hlog m hm
    · exact h.framed shardId' m hm

theorem Holds.append (h : Holds dir logs) {m : Mutation} (hm : m.Framed) :
    Holds (dir.appendMutationToLog m) (appendLog logs m) := by
  have hframes : dir.contents m.shard ++ frame m = (logs m.shard ++ [m]).flatMap frame := by
    rw [h.contents, List.flatMap_append, List.flatMap_singleton]
  rw [appendMutationToLog, hframes]
  refine h.withFile m.shard fun m' hm' => ?_
  rcases List.mem_append.mp hm' with hm' | hm'
  · exact h.framed m.shard m' hm'
  · rw [List.mem_singleton.mp hm']
    exact hm

theorem Holds.appends (h : Holds dir logs) {ms : List Mutation} (hms : ∀ m ∈ ms, m.Framed) :
    Holds (ms.foldl appendMutationToLog dir) (ms.foldl appendLog logs) := by
  induction ms generalizing dir logs with
  | nil => exact h
  | cons m ms ih =>
    rw [List.foldl_cons, List.foldl_cons]
    exact ih (h.append (hms m List.mem_cons_self)) fun m' hm' =>
      hms m' (List.mem_cons_of_mem m hm')

/-- The shards that are compacted one after the other. -/
theorem Holds.compactShards (h : Holds dir logs) (watermarks shardIds : List Nat) :
    (LogDir.compactShards watermarks shardIds dir).2 = .ok () ∧
      Holds (LogDir.compactShards watermarks shardIds dir).1
        (compactLogs watermarks shardIds logs) := by
  induction shardIds generalizing dir logs with
  | nil =>
    have hnone : compactLogs watermarks [] logs = logs := by
      funext shardId
      exact if_neg List.not_mem_nil
    rw [hnone]
    exact ⟨rfl, h⟩
  | cons shardId shardIds ih =>
    have htail : ∀ m ∈ logTail watermarks shardId (logs shardId), m.Framed := fun m hm =>
      h.framed shardId m (List.mem_filter.mp hm).1
    have hlogs : compactLogs watermarks shardIds
        (Function.update logs shardId (logTail watermarks shardId (logs shardId))) =
        compactLogs watermarks (shardId :: shardIds) logs := by
      funext shardId'
      unfold compactLogs
      rw [Function.update_apply]
      by_cases hself : shardId' = shardId
      · -- a shard that comes again is filtered twice
        subst hself
        simp [logTail, List.filter_filter]
      · simp [hself]
    rw [LogDir.compactShards, h.readShardLog shardId]
    rw [← hlogs]
    exact ih (h.withFile shardId htail)

theorem Holds.compact (h : Holds dir logs) {shardCount : Nat} {watermarks : List Nat}
    (hlen : watermarks.length = shardCount) :
    (dir.compactLogsToWatermarks shardCount watermarks).2 = .ok () ∧
      Holds (dir.compactLogsToWatermarks shardCount watermarks).1
        (compactLogs watermarks (List.range shardCount) logs) := by
  rw [compactLogsToWatermarks, if_neg (not_not.mpr hlen)]
  exact h.compactShards watermarks (List.range shardCount)

end Holds

/-! ## Runs -/

/-- A step of a writer. -/
inductive Step where
  | append (m : Mutation)
  | compact (shardCount : Nat) (watermarks : List Nat)

/-- What a step does to the files. -/
def Step.onFiles (dir : LogDir) : Step → LogDir
  | .append m => dir.appendMutationToLog m
  | .compact shardCount watermarks => (dir.compactLogsToWatermarks shardCount watermarks).1

/-- What a step does to the logs. -/
def Step.onLogs (logs : Nat → List Mutation) : Step → Nat → List Mutation
  | .append m => appendLog logs m
  | .compact shardCount watermarks =>
    if watermarks.length = shardCount then compactLogs watermarks (List.range shardCount) logs
    else logs

theorem Holds.step {dir : LogDir} {logs : Nat → List Mutation} (h : Holds dir logs) {step : Step}
    (hstep : ∀ m, step = .append m → m.Framed) : Holds (step.onFiles dir) (step.onLogs logs) := by
  cases step with
  | append m => exact h.append (hstep m rfl)
  | compact shardCount watermarks =>
    by_cases hlen : watermarks.length = shardCount
    · simp only [Step.onFiles, Step.onLogs, if_pos hlen]
      exact (h.compact hlen).2
    · simp only [Step.onFiles, Step.onLogs, compactLogsToWatermarks, ne_eq, hlen, not_false_eq_true,
        if_true]
      exact h

/-- Over any run of appends and compactions, the files hold the frames of the logs. -/
theorem holds_run {steps : List Step} (hsteps : ∀ m, Step.append m ∈ steps → m.Framed) :
    Holds (steps.foldl Step.onFiles fun _ => none) (steps.foldl Step.onLogs fun _ => []) := by
  have hrun : ∀ (dir : LogDir) (logs : Nat → List Mutation), Holds dir logs →
      Holds (steps.foldl Step.onFiles dir) (steps.foldl Step.onLogs logs) := by
    induction steps with
    | nil => exact fun _ _ h => h
    | cons step steps ih =>
      intro dir logs h
      refine ih (fun m hm => hsteps m (List.mem_cons_of_mem step hm)) _ _ (h.step ?_)
      rintro m rfl
      exact hsteps m List.mem_cons_self
  exact hrun _ _ holds_empty

theorem foldl_appendLog (ms : List Mutation) (logs : Nat → List Mutation) (shardId : Nat) :
    ms.foldl appendLog logs shardId = logs shardId ++ ms.filter fun m => decide (m.shard = shardId) := by
  induction ms generalizing logs with
  | nil => rw [List.foldl_nil, List.filter_nil, List.append_nil]
  | cons m ms ih =>
    rw [List.foldl_cons, ih, appendLog, Function.update_apply, List.filter_cons]
    by_cases h : m.shard = shardId
    · simp [h]
    · simp [h, Ne.symm h]

/-- What a part of a file is read as. -/
theorem Holds.readShardLog_cut {dir : LogDir} {logs : Nat → List Mutation} (h : Holds dir logs)
    {shardId : Nat} {cut : List UInt8} (hcut : cut <+: dir.contents shardId) :
    ((∃ log, (dir.withFile shardId cut).readShardLog shardId = .ok log) ↔
        ∃ k, cut = ((logs shardId).take k).flatMap frame) ∧
      ∀ k, cut = ((logs shardId).take k).flatMap frame →
        (dir.withFile shardId cut).readShardLog shardId = .ok ((logs shardId).take k) := by
  have hwhole : ∀ k, cut = ((logs shardId).take k).flatMap frame →
      (dir.withFile shardId cut).readShardLog shardId = .ok ((logs shardId).take k) := by
    rintro k rfl
    rw [readShardLog_withFile]
    exact readFrames_flatMap fun m hm => h.framed shardId m (List.mem_of_mem_take hm)
  refine ⟨⟨?_, fun ⟨k, hk⟩ => ⟨_, hwhole k hk⟩⟩, hwhole⟩
  rintro ⟨log, hread⟩
  rw [readShardLog_withFile] at hread
  rw [h.contents] at hcut
  rcases readFrames_cut (h.framed shardId) hcut with hboundary | ⟨herr, -⟩
  · exact hboundary
  · rw [herr] at hread
    cases hread

/-- The log of a shard with the mutations `ms`, in a directory whose other logs are whole. A part of
the file is read exactly if it ends at a frame's end, as the mutations before it. A compaction leaves
the mutations above the watermark, and later appends continue them. -/
theorem shardLog_exact {dir : LogDir} {logs : Nat → List Mutation} (hdir : dir.Holds logs)
    {shardId : Nat} (hempty : logs shardId = []) {ms : List Mutation}
    (hshard : ∀ m ∈ ms, m.shard = shardId) (hms : ∀ m ∈ ms, m.Framed) :
    let written := ms.foldl appendMutationToLog dir
    (∀ cut, cut <+: written.contents shardId →
      ((∃ log, (written.withFile shardId cut).readShardLog shardId = .ok log) ↔
          ∃ k, cut = (ms.take k).flatMap frame) ∧
        ∀ k, cut = (ms.take k).flatMap frame →
          (written.withFile shardId cut).readShardLog shardId = .ok (ms.take k)) ∧
      written.contents shardId = ms.flatMap frame ∧
      ∀ shardCount watermarks, watermarks.length = shardCount → shardId < shardCount →
        ∃ compacted, written.compactLogsToWatermarks shardCount watermarks = (compacted, .ok ()) ∧
          compacted.readShardLog shardId =
            .ok (ms.filter fun m => decide (m.seq > watermarks.getD shardId 0)) ∧
          ∀ more : List Mutation, (∀ m ∈ more, m.shard = shardId) → (∀ m ∈ more, m.Framed) →
            (more.foldl appendMutationToLog compacted).readShardLog shardId =
              .ok ((ms.filter fun m => decide (m.seq > watermarks.getD shardId 0)) ++ more) := by
  intro written
  have hall : ∀ {l : List Mutation}, (∀ m ∈ l, m.shard = shardId) →
      l.filter (fun m => decide (m.shard = shardId)) = l := fun hl =>
    List.filter_eq_self.mpr fun m hm => decide_eq_true (hl m hm)
  have hwritten : Holds written (ms.foldl appendLog logs) := hdir.appends hms
  have hlog : ms.foldl appendLog logs shardId = ms := by
    rw [foldl_appendLog, hempty, List.nil_append, hall hshard]
  refine ⟨fun cut hcut => ?_, by rw [hwritten.contents, hlog], ?_⟩
  · have hread := hwritten.readShardLog_cut hcut
    rwa [hlog] at hread
  · intro shardCount watermarks hlen hlt
    obtain ⟨hok, hcompacted⟩ := hwritten.compact hlen
    have htail : compactLogs watermarks (List.range shardCount) (ms.foldl appendLog logs) shardId =
        ms.filter fun m => decide (m.seq > watermarks.getD shardId 0) := by
      rw [compactLogs, if_pos (List.mem_range.mpr hlt), hlog]
      rfl
    refine ⟨_, Prod.ext rfl hok, ?_, ?_⟩
    · rw [hcompacted.readShardLog, htail]
    · intro more hmore hframed
      rw [(hcompacted.appends hframed).readShardLog, foldl_appendLog, htail, hall hmore]

/-! Two mutations in a new log: a cut inside the second frame, a compaction up to the first mutation and
an append after it. -/

namespace TwoFrames

def later (opId : String) (seq : Nat) : Mutation :=
  { domainMutation with opId, commitId := ⟨0, seq, 2, "local"⟩ }

theorem framed_later {opId : String} {seq : Nat} (hopId : (utf8 opId).length < 2 ^ 32)
    (hseq : seq < 2 ^ 64) (hshort : (encodeMutation (later opId seq)).length < 2 ^ 32) :
    (later opId seq).Framed :=
  ⟨{ domainMutation_fits with opId := hopId, seq := hseq }, hshort⟩

def second : Mutation := later "op-2" 8

def third : Mutation := later "op-3" 9

theorem framed_second : second.Framed := framed_later (by decide +kernel) (by decide) (by decide +kernel)

theorem framed_third : third.Framed := framed_later (by decide +kernel) (by decide) (by decide +kernel)

theorem framed_first : domainMutation.Framed := ⟨domainMutation_fits, by decide +kernel⟩

def written : LogDir := [domainMutation, second].foldl appendMutationToLog fun _ => none

/-- The bytes without the last one. -/
def cut : List UInt8 := frame domainMutation ++ (frame second).dropLast

end TwoFrames

open TwoFrames in
theorem shardLog_exact_twoFrames :
    (written.withFile 0 (frame domainMutation)).readShardLog 0 = .ok [domainMutation] ∧
      (¬∃ log, (written.withFile 0 cut).readShardLog 0 = .ok log) ∧
      ∃ compacted, written.compactLogsToWatermarks 1 [7] = (compacted, .ok ()) ∧
        compacted.readShardLog 0 = .ok [second] ∧
        (compacted.appendMutationToLog third).readShardLog 0 = .ok [second, third] := by
  have hframed : ∀ m ∈ [domainMutation, second], m.Framed := by
    simpa using ⟨framed_first, framed_second⟩
  have hshard : ∀ m ∈ [domainMutation, second], m.shard = 0 := by
    simp [second, later, domainMutation, Mutation.shard]
  have hempty : (fun _ => [] : Nat → List Mutation) 0 = [] := rfl
  obtain ⟨hcuts, hcontents, hcompact⟩ := shardLog_exact holds_empty hempty hshard hframed
  have hwhole : [domainMutation, second].flatMap frame = frame domainMutation ++ frame second := by simp
  rw [hwhole] at hcontents
  obtain ⟨compacted, hok, hread, hmore⟩ := hcompact 1 [7] rfl Nat.one_pos
  have hkeep : [domainMutation, second].filter (fun m => decide (m.seq > [7].getD 0 0)) = [second] :=
    rfl
  rw [hkeep] at hread hmore
  refine ⟨?_, fun hlog => ?_, compacted, hok, hread, hmore [third] ?_ ?_⟩
  · exact (hcuts (frame domainMutation) (hcontents ▸ List.prefix_append _ _)).2 1 (by simp)
  · have hprefix : cut <+: written.contents 0 := by
      rw [show written.contents 0 = _ from hcontents]
      exact (List.prefix_append_right_inj _).mpr (List.dropLast_prefix _)
    obtain ⟨k, hk⟩ := (hcuts cut hprefix).1.mp hlog
    have hlen := congrArg List.length hk
    -- the cut is longer than one frame and shorter than two
    rcases k with _ | _ | k
    · simp [cut, length_frame] at hlen
    · simp [cut, length_frame] at hlen
    · simp [cut, length_frame] at hlen
  · simp [third, later, domainMutation, Mutation.shard]
  · simpa using framed_third

end LogDir

end Globacl
