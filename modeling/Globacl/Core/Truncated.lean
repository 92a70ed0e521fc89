import Globacl.Core.Codec

/-!
# Truncated payloads

A body that is cut short is decoded all the same where the cut is at the end of a section that
older encoders did not write, which the decoder sees from the number of bytes that are left: the
rules of a snapshot, and of a mutation the delivery priority, the time and the rule.

* `decodeMutation_fits`, `decodeMutationStream_fits`, `decodeSnapshot_fits`: what is decoded has the
  widths of the source.
* `spells_entry`: an entry that is decoded was encoded in the bytes.
* `decode_cut`: which cuts of an encoded snapshot or mutation are decoded, and to what.
-/

namespace Globacl

open Lib Parser

/-! ## What decoders return -/

theorem yields_string : Yields Short readString := by
  refine (yields_natLe unexpectedEof 4).bind fun len hlen => ?_
  refine (yields_take unexpectedEof len).bind fun bytes hbytes => .lift fun value hvalue => ?_
  cases hutf : fromUtf8 bytes with
  | none =>
    rw [hutf] at hvalue
    cases hvalue
  | some value' =>
    rw [hutf] at hvalue
    cases hvalue
    unfold Short
    rw [utf8_of_fromUtf8 hutf, hbytes]
    exact hlen

theorem yields_entry : Yields DenyEntry.Fits decodeEntry := by
  refine yields_string.bind fun _ htenant => yields_string.bind fun _ hspace => ?_
  refine (Yields.any _).bind fun _ _ => (Yields.any _).bind fun _ _ => (Yields.any _).bind fun _ _ => ?_
  refine (yields_natLe _ 4).bind fun _ hpriority => yields_string.bind fun _ hreason => ?_
  refine (yields_natLe _ 8).bind fun _ hexpires => yields_string.bind fun _ hcreated => ?_
  refine (yields_natLe _ 8).bind fun _ hseq => (yields_natLe _ 2).bind fun _ hshard => ?_
  exact .pure ⟨htenant, hspace, hpriority, hreason, hexpires, hcreated, hseq, hshard⟩

theorem yields_ruleEntry : Yields RuleEntry.Fits decodeRuleEntry := by
  refine yields_string.bind fun _ htenant => (Yields.any _).bind fun _ _ => ?_
  refine (Yields.any _).bind fun _ _ => yields_string.bind fun _ hpattern => ?_
  refine (Yields.any _).bind fun _ _ => (Yields.any _).bind fun _ _ => (Yields.any _).bind fun _ _ => ?_
  refine (yields_natLe _ 4).bind fun _ hpriority => yields_string.bind fun _ hreason => ?_
  refine (yields_natLe _ 8).bind fun _ hexpires => yields_string.bind fun _ hcreated => ?_
  refine (yields_natLe _ 8).bind fun _ hseq => (yields_natLe _ 2).bind fun _ hshard => ?_
  refine (Yields.any _).bind fun _ _ => (Yields.any _).bind fun _ _ => yields_string.bind fun _ hdomain => ?_
  exact .pure ⟨htenant, hpattern, hpriority, hreason, hexpires, hcreated, hseq, hshard, hdomain⟩

theorem yields_mutationHead : Yields Mutation.Fits decodeMutationHead := by
  refine (Yields.any _).bind fun _ _ => (Yields.any _).bind fun _ _ => ?_
  refine yields_string.bind fun _ hop => (yields_natLe _ 2).bind fun _ hshard => ?_
  refine (yields_natLe _ 8).bind fun _ hseq => (yields_natLe _ 8).bind fun _ hepoch => ?_
  refine yields_string.bind fun _ hregion => yields_entry.bind fun _ hentry => ?_
  exact .pure ⟨hop, hshard, hseq, hepoch, hregion, hentry, Nat.two_pow_pos 64, fun _ h => (by cases h)⟩

theorem yields_committedAt : Yields (· < 2 ^ 64) decodeCommittedAt := by
  refine (Yields.any _).bind fun left _ => ?_
  split
  · exact yields_natLe _ 8
  · exact .pure (by decide)

theorem yields_mutationRule : Yields (fun rule => ∀ r ∈ rule, r.Fits) decodeMutationRule := by
  refine (Yields.any _).bind fun left _ => ?_
  split
  · refine (Yields.any _).bind fun tag _ => ?_
    split
    · exact .pure fun _ h => (by cases h)
    · split
      · refine yields_ruleEntry.bind fun rule hrule => .pure ?_
        rintro r ⟨rfl⟩
        exact hrule
      · exact .fail _
  · exact .pure fun _ h => (by cases h)

theorem yields_mutation : Yields Mutation.Fits decodeMutationFromCursor := by
  refine yields_mutationHead.bind fun m hm => (Yields.any _).bind fun _ _ => ?_
  refine yields_committedAt.bind fun _ htime => yields_mutationRule.bind fun _ hrule => ?_
  exact .pure ⟨hm.opId, hm.shardId, hm.seq, hm.epoch, hm.sourceRegion, hm.entry, htime, hrule⟩

/-- What is decoded fits. -/
theorem decodeMutation_fits {bytes : List UInt8} {m : Mutation} (h : decodeMutation bytes = .ok m) :
    m.Fits := by
  obtain ⟨rest, hdecode⟩ := map_fst_ok h
  exact yields_mutation bytes m rest hdecode

theorem yields_vec {α : Type} {P : α → Prop} {alloc : Allocator} {size : Nat} {p : Decoder α}
    (h : Yields P p) (n : Nat) :
    Yields (fun l => Affords alloc size l.length ∧ l.length = n ∧ ∀ a ∈ l, P a)
      (readVec alloc size p n) := by
  have hsize : Yields (fun _ => Affords alloc size n)
      (lift (withCapacity alloc size n) : Decoder Unit) := by
    refine .lift fun _ hcap => ?_
    by_contra hn
    obtain ⟨message, herr⟩ := withCapacity_of_not hn
    rw [herr] at hcap
    cases hcap
  refine hsize.bind fun _ hsize => (Yields.many h n).mono fun l hl => ?_
  exact ⟨by rw [hl.1]; exact hsize, hl⟩

theorem yields_frame : Yields Mutation.Fits decodeFrame := by
  refine (Yields.any _).bind fun _ _ => (Yields.any _).bind fun _ _ => ?_
  exact .lift fun _ h => decodeMutation_fits h

/-- What is decoded fits. -/
theorem decodeMutationStream_fits {bytes : List UInt8} {mutations : List Mutation}
    (h : decodeMutationStream bytes = .ok mutations) : ∀ m ∈ mutations, m.Fits := by
  have hyields : Yields (fun l => ∀ m ∈ l, Mutation.Fits m)
      (decodeMutationStreamFromCursor unlimited) := by
    refine (Yields.any _).bind fun _ _ => (Yields.any _).bind fun _ _ => ?_
    refine (Yields.any _).bind fun count _ => (yields_vec yields_frame count).mono fun _ h => ?_
    exact h.2.2
  obtain ⟨rest, hdecode⟩ := map_fst_ok h
  exact hyields bytes mutations rest hdecode

theorem yields_snapshotHead {alloc : Allocator} :
    Yields (fun s => s.Fits ∧ s.watermarks.length = s.shardCount ∧
      Affords alloc sizeOfDenyEntry s.entries.length) (decodeSnapshotHead alloc) := by
  refine (Yields.any _).bind fun _ _ => (Yields.any _).bind fun _ _ => ?_
  refine (yields_natLe _ 2).bind fun shardCount hshards => (yields_natLe _ 4).bind fun count _ => ?_
  refine (yields_natLe _ 8).bind fun entryCount _ => ?_
  have hcount : Yields (fun _ => count = shardCount) (lift (if count ≠ shardCount then
      .error (.invalidData s!"snapshot has {count} watermarks for {shardCount} shards")
    else .ok ()) : Decoder Unit) := by
    refine .lift fun _ hok => ?_
    split at hok
    · cases hok
    · omega
  refine hcount.bind fun _ hcount => (yields_vec (yields_natLe _ 8) count).bind fun _ hmarks => ?_
  refine (yields_vec yields_entry entryCount).bind fun _ hentries => .pure ⟨?_, ?_, hentries.1⟩
  · exact ⟨hshards, hmarks.2.2, hentries.2.2, hentries.1.1, fun _ h => (by cases h), Nat.zero_le _⟩
  · rw [← hcount]
    exact hmarks.2.1

theorem yields_snapshotRules :
    Yields (fun rules => sizeOfRuleEntry * rules.length ≤ isizeMax ∧ ∀ rule ∈ rules, rule.Fits)
      (decodeSnapshotRules unlimited) := by
  refine (Yields.any _).bind fun left _ => ?_
  split
  · refine (Yields.any _).bind fun count _ => (yields_vec yields_ruleEntry count).mono fun _ h => ?_
    exact ⟨h.1.1, h.2.2⟩
  · exact .pure ⟨by decide, fun _ h => (by cases h)⟩

theorem yields_snapshot :
    Yields (fun s => s.Fits ∧ s.watermarks.length = s.shardCount)
      (decodeSnapshotFromCursor unlimited) := by
  refine yields_snapshotHead.bind fun s hs => yields_snapshotRules.bind fun rules hrules => .pure ?_
  exact ⟨⟨hs.1.shardCount, hs.1.watermarks, hs.1.entries, hs.1.entryCount, hrules.2, hrules.1⟩,
    hs.2.1⟩

/-- What is decoded fits. -/
theorem decodeSnapshot_fits {bytes : List UInt8} {s : Snapshot} (h : decodeSnapshot bytes = .ok s) :
    s.Fits ∧ s.watermarks.length = s.shardCount := by
  obtain ⟨rest, hdecode⟩ := map_fst_ok h
  exact yields_snapshot bytes s rest hdecode

/-! ## What decoders have read -/

theorem spells_u8 : Spells (fun value => [value]) readU8 := by
  intro bytes value rest h
  obtain ⟨n, mid, -, hbytes, h⟩ := (spells_natLe unexpectedEof 1).bind_ok h
  cases h
  exact hbytes

theorem spells_string : Spells writeString readString := by
  intro bytes value rest h
  obtain ⟨len, mid, -, hbytes, h⟩ := (spells_natLe unexpectedEof 4).bind_ok h
  obtain ⟨text, mid', htext, hmid, h⟩ := (spells_take unexpectedEof len).bind_ok h
  have hlen := yields_take _ _ _ _ _ htext
  cases hutf : fromUtf8 text with
  | none =>
    rw [hutf] at h
    cases h
  | some value' =>
    rw [hutf] at h
    cases h
    have hspelled : utf8 value = text := utf8_of_fromUtf8 hutf
    rw [hbytes, hmid, writeString, hspelled, hlen, List.append_assoc]
    rfl

theorem spells_magic (expected : List UInt8) : Spells (fun _ => expected) (expectMagic expected) := by
  intro bytes u rest h
  obtain ⟨actual, mid, -, hbytes, h⟩ := (spells_take unexpectedEof 4).bind_ok h
  split at h
  · rename_i heq
    cases h
    rw [hbytes, heq]
    rfl
  · cases h

theorem spells_version (what : String) :
    Spells (fun _ => writeU16 formatVersion) (expectVersion what) := by
  intro bytes u rest h
  obtain ⟨version, mid, -, hbytes, h⟩ := (spells_natLe unexpectedEof 2).bind_ok h
  split at h
  · rename_i heq
    cases h
    rw [hbytes, heq]
    rfl
  · cases h

theorem spells_action (value : UInt8) {bytes rest : List UInt8} {action : Action}
    (h : (lift (Action.fromU8 value) : Decoder Action) bytes = .ok (action, rest)) :
    action.toU8 = value ∧ bytes = rest := by
  unfold Action.fromU8 at h
  split_ifs at h <;> cases h <;> subst_vars <;> exact ⟨rfl, rfl⟩

theorem spells_kind (value : UInt8) {bytes rest : List UInt8} {kind : RuleKind}
    (h : (lift (RuleKind.fromU8 value) : Decoder RuleKind) bytes = .ok (kind, rest)) :
    kind.toU8 = value ∧ bytes = rest := by
  unfold RuleKind.fromU8 at h
  split_ifs at h <;> cases h <;> subst_vars <;> exact ⟨rfl, rfl⟩

theorem spells_entry : Spells encodeEntry decodeEntry := by
  have hnat := spells_natLe unexpectedEof
  intro bytes entry rest h
  obtain ⟨tenantId, b₁, -, h₁, h⟩ := spells_string.bind_ok h
  obtain ⟨space, b₂, -, h₂, h⟩ := spells_string.bind_ok h
  obtain ⟨keyHash, b₃, hhash, h₃, h⟩ := (hnat 8).bind_ok h
  obtain ⟨tag, b₄, -, h₄, h⟩ := spells_u8.bind_ok h
  obtain ⟨action, b₅, htag, h⟩ := bind_ok h
  obtain ⟨rfl, rfl⟩ := spells_action tag htag
  obtain ⟨priority, b₆, -, h₆, h⟩ := (hnat 4).bind_ok h
  obtain ⟨reasonCode, b₇, -, h₇, h⟩ := spells_string.bind_ok h
  obtain ⟨expiresAt, b₈, -, h₈, h⟩ := (hnat 8).bind_ok h
  obtain ⟨createdBy, b₉, -, h₉, h⟩ := spells_string.bind_ok h
  obtain ⟨commitSeq, b₁₀, -, h₁₀, h⟩ := (hnat 8).bind_ok h
  obtain ⟨shardId, b₁₁, -, h₁₁, h⟩ := (hnat 2).bind_ok h
  cases h
  have hword : (UInt64.ofNat keyHash).toNat = keyHash :=
    UInt64.toNat_ofNat_of_lt' (yields_natLe _ 8 _ _ _ hhash)
  rw [h₁, h₂, h₃, h₄, h₆, h₇, h₈, h₉, h₁₀, h₁₁]
  simp only [encodeEntry, writeU16, writeU32, writeU64, hword, List.append_assoc]

/-! ## Cuts -/

theorem decodeSnapshot_cut_head {s : Snapshot} (h : s.Fits) (hlen : s.watermarks.length = s.shardCount)
    {front : List UInt8} (hfront : front <+: encodeSnapshot s) :
    decodeSnapshot front = .error unexpectedEof ∧ front.length < (encodeSnapshotHead s).length ∨
      ∃ back, front = encodeSnapshotHead s ++ back ∧
        back <+: encodeSnapshotRules s.rules ∧
        decodeSnapshot front =
          ((do
            let rules ← decodeSnapshotRules unlimited
            pure { s.head with rules } : Decoder Snapshot) back).map Prod.fst := by
  unfold decodeSnapshot decodeSnapshotWith decodeSnapshotFromCursor
  rcases bind_cut (reads_snapshotHead_unlimited h hlen) hfront with ⟨herr, hlt⟩ | ⟨back, heq, hback, hbind⟩
  · exact Or.inl ⟨by rw [herr]; rfl, hlt⟩
  · exact Or.inr ⟨back, heq, hback, by rw [hbind]⟩

/-- A cut of a snapshot before its rules loses the rules, and no other cut is decoded. -/
theorem decodeSnapshot_cut {s : Snapshot} (h : s.Fits) (hlen : s.watermarks.length = s.shardCount)
    {front : List UInt8} (hfront : front <+: encodeSnapshot s)
    (hlt : front.length < (encodeSnapshot s).length) :
    decodeSnapshot front =
      if (encodeSnapshotHead s).length ≤ front.length ∧
          front.length < (encodeSnapshotHead s).length + 8 then .ok { s with rules := [] }
      else .error unexpectedEof := by
  rcases decodeSnapshot_cut_head h hlen hfront with ⟨herr, hshort⟩ | ⟨back, rfl, hback, hdecode⟩
  · rw [herr, if_neg (by omega)]
  · unfold encodeSnapshot at hlt
    rw [List.length_append, List.length_append] at hlt
    rw [hdecode, List.length_append]
    by_cases height : back.length < 8
    · rw [if_pos ⟨by omega, by omega⟩]
      have hnone : decodeSnapshotRules unlimited back = .ok ([], back) := by
        unfold decodeSnapshotRules
        rw [remaining_bind, if_neg (by omega)]
        rfl
      rw [bind_of_ok hnone]
      rfl
    · rw [if_neg (by omega)]
      have herr : decodeSnapshotRules unlimited back = .error unexpectedEof := by
        unfold decodeSnapshotRules
        rw [remaining_bind, if_pos (by omega)]
        exact (reads_snapshotRules h.rules h.ruleCount).cut back hback (by omega)
      rw [bind_of_error herr]
      rfl

theorem returned_eof : Returned unexpectedEof := fun _ h => (by cases h)

theorem throws_u8 : Throws Returned readU8 := (throws_natLe returned_eof 1).bind fun _ => .pure _

theorem throws_string : Throws Returned readString := by
  refine (throws_natLe returned_eof 4).bind fun len => (throws_take returned_eof len).bind fun bytes => ?_
  refine .lift fun err herr message => ?_
  split at herr <;> cases herr
  nofun

theorem throws_action (value : UInt8) : Throws Returned (lift (Action.fromU8 value)) := by
  refine .lift fun err herr message => ?_
  unfold Action.fromU8 at herr
  split_ifs at herr
  cases herr
  nofun

theorem throws_kind (value : UInt8) : Throws Returned (lift (RuleKind.fromU8 value)) := by
  refine .lift fun err herr message => ?_
  unfold RuleKind.fromU8 at herr
  split_ifs at herr
  cases herr
  nofun

theorem throws_ruleEntry : Throws Returned decodeRuleEntry := by
  have hnat := throws_natLe returned_eof
  refine throws_string.bind fun _ => throws_u8.bind fun _ => (throws_kind _).bind fun _ => ?_
  refine throws_string.bind fun _ => (hnat 8).bind fun _ => throws_u8.bind fun _ => ?_
  refine (throws_action _).bind fun _ => (hnat 4).bind fun _ => throws_string.bind fun _ => ?_
  refine (hnat 8).bind fun _ => throws_string.bind fun _ => (hnat 8).bind fun _ => ?_
  refine (hnat 2).bind fun _ => (hnat 4).bind fun _ => throws_u8.bind fun _ => ?_
  exact throws_string.bind fun _ => .pure _

theorem throws_mutationRule : Throws Returned decodeMutationRule := by
  refine Throws.remaining.bind fun left => ?_
  split
  · refine throws_u8.bind fun tag => ?_
    split
    · exact .pure _
    · split
      · exact throws_ruleEntry.bind fun _ => .pure _
      · exact .fail fun _ h => (by cases h)
  · exact .pure _

theorem consumes_string : Consumes 4 readString := by
  refine (consumes_natLe unexpectedEof 4).bind fun len => ?_
  exact (consumes_take unexpectedEof len).bind fun _ => (by rw [Nat.sub_self, Nat.zero_sub]; exact .lift _)

/-- A rule has at least two texts. -/
theorem consumes_ruleEntry : Consumes 8 decodeRuleEntry := by
  have hu8 : Consumes 0 readU8 := (consumes_natLe _ 1).bind fun _ => .pure _
  have hnat : ∀ w, Consumes 0 (natLe unexpectedEof w) := fun w bytes a rest h => by
    have := consumes_natLe unexpectedEof w bytes a rest h
    omega
  have hstring : Consumes 0 readString := fun bytes a rest h => by
    have := consumes_string bytes a rest h
    omega
  refine consumes_string.bind fun _ => hu8.bind fun _ => (Consumes.lift _).bind fun _ => ?_
  refine consumes_string.bind fun _ => (hnat 8).bind fun _ => hu8.bind fun _ => ?_
  refine (Consumes.lift _).bind fun _ => (hnat 4).bind fun _ => hstring.bind fun _ => ?_
  refine (hnat 8).bind fun _ => hstring.bind fun _ => (hnat 8).bind fun _ => ?_
  refine (hnat 2).bind fun _ => (hnat 4).bind fun _ => hu8.bind fun _ => ?_
  exact hstring.bind fun _ => .pure _

theorem decodeMutationRule_nil : decodeMutationRule [] = .ok (none, []) := rfl

/-- A byte that is not `0` is not read as the tag of a rule if fewer than eight bytes follow. -/
theorem decodeMutationRule_tag {tag : UInt8} (htag : tag ≠ 0) {rest : List UInt8}
    (hlen : rest.length < 8) : ∃ err, decodeMutationRule (tag :: rest) = .error err := by
  cases hdecode : decodeMutationRule (tag :: rest) with
  | error err => exact ⟨err, rfl⟩
  | ok r =>
    exfalso
    have hread : readU8 (tag :: rest) = .ok (tag, rest) := (reads_u8 tag).ok rest
    unfold decodeMutationRule at hdecode
    rw [remaining_bind, if_pos (by simp), bind_of_ok hread, if_neg htag] at hdecode
    split_ifs at hdecode
    · obtain ⟨rule, mid, hrule, -⟩ := bind_ok hdecode
      have := consumes_ruleEntry rest rule mid hrule
      omega
    · cases hdecode

theorem decodeMutationRule_cut {rule : Option RuleEntry} (h : ∀ r ∈ rule, r.Fits)
    {front : List UInt8} (hfront : front <+: encodeMutationRule rule) (hpos : front ≠ [])
    (hlt : front.length < (encodeMutationRule rule).length) :
    decodeMutationRule front = .error unexpectedEof := by
  have hlen := List.length_pos_iff.mpr hpos
  unfold decodeMutationRule
  rw [remaining_bind, if_pos (by omega)]
  cases rule with
  | none =>
    rw [encodeMutationRule, List.length_singleton] at hlt
    omega
  | some r => exact ((reads_u8 1).bind (reads_ruleEntry (h r rfl)).map).cut front hfront hlt

theorem decodeCommittedAt_short {bytes : List UInt8} (h : bytes.length < 8) :
    decodeCommittedAt bytes = .ok (0, bytes) := by
  unfold decodeCommittedAt
  rw [remaining_bind, if_neg (by omega)]
  rfl

/-- The end of `decode_mutation_from_cursor`. -/
theorem decodeMutation_head {m : Mutation} (h : m.Fits) (back : List UInt8) :
    decodeMutation (encodeMutationHead m ++ back) =
      ((do
        let deliveryPriority ← decodeDeliveryPriority
        let committedAtUnix ← decodeCommittedAt
        let rule ← decodeMutationRule
        pure { m with deliveryPriority, committedAtUnix, rule } : Decoder Mutation) back).map Prod.fst := by
  unfold decodeMutation decodeMutationFromCursor
  rw [bind_of_ok ((reads_mutationHead h).ok back)]
  rfl

/-- What is decoded after the delivery priority. -/
theorem decodeMutation_priority {m : Mutation} (h : m.Fits) (back : List UInt8) :
    decodeMutation (encodeMutationHead m ++ (m.deliveryPriority.toU8 :: back)) =
      ((do
        let committedAtUnix ← decodeCommittedAt
        let rule ← decodeMutationRule
        pure { m with committedAtUnix, rule } : Decoder Mutation) back).map Prod.fst := by
  have hpriority : decodeDeliveryPriority (m.deliveryPriority.toU8 :: back) =
      .ok (m.deliveryPriority, back) := decodeDeliveryPriority_encode m.deliveryPriority back
  rw [decodeMutation_head h, bind_of_ok hpriority]

/-- What is decoded after the time. -/
theorem decodeMutation_time {m : Mutation} (h : m.Fits) (back : List UInt8) :
    decodeMutation (encodeMutationHead m ++ (m.deliveryPriority.toU8 ::
        (writeU64 m.committedAtUnix ++ back))) =
      ((do
        let rule ← decodeMutationRule
        pure { m with rule } : Decoder Mutation) back).map Prod.fst := by
  rw [decodeMutation_priority h, bind_of_ok (decodeCommittedAt_encode h.committedAtUnix back)]

/-- The first byte of a cut of a number is the lowest. -/
theorem cut_writeU64 {n : Nat} {front : List UInt8} (hfront : front <+: writeU64 n) (hpos : front ≠ []) :
    ∃ rest, front = UInt8.ofNat n :: rest := by
  obtain ⟨byte, rest, rfl⟩ := List.exists_cons_of_ne_nil hpos
  obtain ⟨heq, -⟩ := List.cons_prefix_cons.mp hfront
  exact ⟨rest, by rw [heq]⟩

/-- The cuts of a mutation before the delivery priority, the time and the rule lose what comes after
them; the others are not decoded, apart from cuts inside a time whose lowest byte is `0`. -/
theorem decodeMutation_cut {m : Mutation} (h : m.Fits) {front : List UInt8}
    (hfront : front <+: encodeMutation m) (hlt : front.length < (encodeMutation m).length) {E : Nat}
    (hE : (encodeMutationHead m).length = E) :
    (front.length = E →
      decodeMutation front =
        .ok { m with deliveryPriority := .p1, committedAtUnix := 0, rule := none }) ∧
    (front.length = E + 1 → decodeMutation front = .ok { m with committedAtUnix := 0, rule := none }) ∧
    (front.length = E + 9 → decodeMutation front = .ok { m with rule := none }) ∧
    (front.length ≠ E → front.length ≠ E + 1 → front.length ≠ E + 9 →
      (E + 1 < front.length → front.length < E + 9 → m.committedAtUnix % 256 ≠ 0) →
      ∃ err, decodeMutation front = .error err ∧ Returned err) := by
  have hreads := reads_mutationHead h
  have hu64 : (writeU64 m.committedAtUnix).length = 8 := length_natToLe 8 _
  unfold encodeMutation at hfront hlt
  rcases cut_append hfront with ⟨hcut, hshort⟩ | ⟨back, rfl, hback⟩
  · refine ⟨by omega, by omega, by omega, fun _ _ _ _ => ⟨unexpectedEof, ?_, returned_eof⟩⟩
    unfold decodeMutation decodeMutationFromCursor
    rw [bind_of_error (hreads.cut front hcut hshort)]
    rfl
  simp only [List.length_append, List.length_singleton, hu64, hE] at hlt ⊢
  rcases back with - | ⟨byte, back⟩
  · -- the entry is the last that is left
    rw [List.length_nil]
    refine ⟨fun _ => ?_, by omega, by omega, by omega⟩
    rw [decodeMutation_head h]
    rfl
  have hback := List.cons_prefix_cons.mp hback
  obtain rfl := hback.1
  replace hback : back <+: writeU64 m.committedAtUnix ++ encodeMutationRule m.rule := hback.2
  rw [List.length_cons] at hlt ⊢
  refine ⟨by omega, ?_⟩
  by_cases hlen : back.length < 8
  · -- the time is cut, and what is left of it is read as a rule
    have hdecode := decodeMutation_priority h back
    rw [bind_of_ok (decodeCommittedAt_short hlen)] at hdecode
    have htime : back <+: writeU64 m.committedAtUnix :=
      List.prefix_of_prefix_length_le hback (List.prefix_append _ _) (by omega)
    refine ⟨fun hend => ?_, by omega, fun _ hend _ hlow => ?_⟩
    · obtain rfl : back = [] := List.length_eq_zero_iff.mp (by omega)
      rw [hdecode]
      rfl
    · have hpos : back ≠ [] := fun hnil => hend (by rw [hnil]; rfl)
      have hbyte := hlow (by have := List.length_pos_iff.mpr hpos; omega) (by omega)
      obtain ⟨rest, rfl⟩ := cut_writeU64 htime hpos
      rw [List.length_cons] at hlen
      have hne : UInt8.ofNat m.committedAtUnix ≠ 0 := by
        intro hzero
        have := congrArg UInt8.toNat hzero
        rw [UInt8.toNat_ofNat'] at this
        exact hbyte this
      obtain ⟨err, herr⟩ := @decodeMutationRule_tag _ hne rest (by omega)
      refine ⟨err, ?_, throws_mutationRule _ _ herr⟩
      rw [hdecode, bind_of_error herr]
      rfl
  · obtain ⟨back, rfl, hrule⟩ : ∃ back', back = writeU64 m.committedAtUnix ++ back' ∧
        back' <+: encodeMutationRule m.rule := by
      rcases cut_append hback with ⟨-, hshort⟩ | h
      · omega
      · exact h
    rw [List.length_append, hu64] at hlt ⊢
    refine ⟨by omega, fun hend => ?_, fun _ _ hend _ => ⟨unexpectedEof, ?_, returned_eof⟩⟩
    · obtain rfl : back = [] := List.length_eq_zero_iff.mp (by omega)
      rw [decodeMutation_time h, bind_of_ok decodeMutationRule_nil]
      rfl
    · have hpos : back ≠ [] := fun hnil => hend (by rw [hnil]; rfl)
      have hcut := decodeMutationRule_cut h.rule hrule hpos (by omega)
      rw [decodeMutation_time h, bind_of_error hcut]
      rfl

/-- The bytes of a snapshot or a mutation that are cut short: only a cut at the end of a section that
older encoders did not write is decoded, with the defaults for what is missing. -/
theorem decode_cut :
    (∀ (s : Snapshot) (front : List UInt8), decodeSnapshot (encodeSnapshot s) = .ok s →
      front <+: encodeSnapshot s → front ≠ encodeSnapshot s →
      let B := (encodeSnapshotHead s).length
      (B ≤ front.length ∧ front.length < B + 8 →
        decodeSnapshot front = .ok { s with rules := [] }) ∧
      (front.length < B ∨ B + 8 ≤ front.length →
        ∃ err, decodeSnapshot front = .error err ∧ Returned err)) ∧
    (∀ (m : Mutation) (front : List UInt8), decodeMutation (encodeMutation m) = .ok m →
      front <+: encodeMutation m → front ≠ encodeMutation m →
      let E := (encodeMutationHead m).length
      (front.length = E →
        decodeMutation front =
          .ok { m with deliveryPriority := .p1, committedAtUnix := 0, rule := none }) ∧
      (front.length = E + 1 →
        decodeMutation front = .ok { m with committedAtUnix := 0, rule := none }) ∧
      (front.length = E + 9 → decodeMutation front = .ok { m with rule := none }) ∧
      (front.length ≠ E → front.length ≠ E + 1 → front.length ≠ E + 9 →
        (E + 1 < front.length → front.length < E + 9 → m.committedAtUnix % 256 ≠ 0) →
        ∃ err, decodeMutation front = .error err ∧ Returned err)) := by
  refine ⟨fun s front hround hfront hne => ?_, fun m front hround hfront hne => ?_⟩
  · obtain ⟨hfits, hlen⟩ := decodeSnapshot_fits hround
    have hlt : front.length < (encodeSnapshot s).length :=
      Nat.lt_of_le_of_ne hfront.length_le fun heq => hne (hfront.eq_of_length heq)
    have hcut := decodeSnapshot_cut hfits hlen hfront hlt
    refine ⟨fun hB => by rw [hcut, if_pos hB], fun hB => ⟨unexpectedEof, ?_, returned_eof⟩⟩
    rw [hcut, if_neg (by omega)]
  · have hlt : front.length < (encodeMutation m).length :=
      Nat.lt_of_le_of_ne hfront.length_le fun heq => hne (hfront.eq_of_length heq)
    exact decodeMutation_cut (decodeMutation_fits hround) hfront hlt rfl

theorem encodeSnapshotHead_ne (s : Snapshot) : encodeSnapshotHead s ≠ encodeSnapshot s := by
  intro heq
  have hlen := congrArg List.length heq
  simp [encodeSnapshot, encodeSnapshotRules, writeU64] at hlen

theorem encodeMutationHead_ne (m : Mutation) : encodeMutationHead m ≠ encodeMutation m := by
  intro heq
  have hlen := congrArg List.length heq
  simp [encodeMutation] at hlen

theorem decode_cut_domain :
    decodeSnapshot (encodeSnapshotHead domainSnapshot) = .ok { domainSnapshot with rules := [] } ∧
    decodeMutation (encodeMutationHead domainMutation) =
      .ok { domainMutation with deliveryPriority := .p1, committedAtUnix := 0, rule := none } := by
  have hsnapshot := decode_cut.1 domainSnapshot (encodeSnapshotHead domainSnapshot)
    (decodeSnapshot_encode domainSnapshot_fits rfl) (List.prefix_append _ _) (encodeSnapshotHead_ne _)
  have hmutation := decode_cut.2 domainMutation (encodeMutationHead domainMutation)
    (decodeMutation_encodeMutation domainMutation_fits) (List.prefix_append _ _)
    (encodeMutationHead_ne _)
  exact ⟨hsnapshot.1 ⟨Nat.le_refl _, by omega⟩, hmutation.1 rfl⟩

/-- A snapshot without its last section is accepted. -/
theorem not_cut_rejected :
    ¬ ((∀ (s : Snapshot) (front : List UInt8), decodeSnapshot (encodeSnapshot s) = .ok s →
        front <+: encodeSnapshot s → front ≠ encodeSnapshot s →
        ∃ err, decodeSnapshot front = .error err) ∧
      ∀ (m : Mutation) (front : List UInt8), decodeMutation (encodeMutation m) = .ok m →
        front <+: encodeMutation m → front ≠ encodeMutation m →
        ∃ err, decodeMutation front = .error err) := by
  rintro ⟨hsnapshot, -⟩
  have hfits := domainSnapshot_fits
  obtain ⟨err, herr⟩ := hsnapshot domainSnapshot (encodeSnapshotHead domainSnapshot)
    (decodeSnapshot_encode hfits rfl) (List.prefix_append _ _) (encodeSnapshotHead_ne _)
  have hcut := decodeSnapshot_cut hfits rfl (List.prefix_append (encodeSnapshotHead _) _) (by decide +kernel)
  rw [if_pos ⟨Nat.le_refl _, by omega⟩, herr] at hcut
  cases hcut

end Globacl
