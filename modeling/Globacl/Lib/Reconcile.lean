import Globacl.Lib.HashMap
import Globacl.Lib.Runs
import Mathlib.Data.List.Dedup

/-!
# Reconciling a store with a target

A store holds values under keys and changes by commits, one value each; a commit may renumber the
value, so the values count only up to their content. Two loops bring such a store to a target: one
commits a tombstone for each value whose key the target does not have, the other commits each value of
the target that the store does not have yet. Both decide while the store changes, but what they commit
is known before the first commit.

* `Store`: the operations and what a commit does.
* `Store.plan`, `Store.reconcile_eq`: the commits of both loops, in terms of the store before them.
* `Store.Target.mem_plan`: the plan has the keys at which the store and the target differ, each once.
* `Store.Target.value_of_plan`: the commits of the plan leave the target's values in the store.
-/

namespace Lib

/-- A key at which a map and a collected list differ is a key of one of them. -/
theorem HashMap.mem_keys_of_ne {K V C : Type} [DecidableEq K] {key : V → K} {content : V → C}
    {m : HashMap K V} {l : List V} {k : K}
    (h : (m.lookup k).map content ≠ ((HashMap.collect key l ∅).lookup k).map content) :
    k ∈ m.keys ++ l.map key := by
  rw [List.mem_append]
  by_contra hnot
  obtain ⟨hm, hl⟩ := not_or.mp hnot
  refine h (congrArg (Option.map content) ?_)
  rw [HashMap.lookup_collect_of_not_mem hl, AList.lookup_empty]
  exact HashMap.not_mem_iff_lookup.mp fun hk => hm (AList.mem_keys.mp hk)

/-- A store of values in a state of type `σ`. A commit that succeeds writes the value up to its content,
or takes the value under its key away, and leaves the frame alone. -/
structure Store (ε σ K V C F : Type) [DecidableEq K] where
  look : σ → K → Option V
  key : V → K
  content : V → C
  deletes : V → Prop
  commit : σ → V → Except ε σ
  frame : σ → F
  committed : ∀ s v s', commit s v = .ok s' → frame s' = frame s ∧
    (∀ k, k ≠ key v → look s' k = look s k) ∧ (deletes v → look s' (key v) = none) ∧
    (¬deletes v → (look s' (key v)).map content = some (content v))

namespace Store

variable {ε σ K V C F : Type} [DecidableEq K] (S : Store ε σ K V C F)

/-- The value under a key up to its content. -/
def value (s : σ) (k : K) : Option C := (S.look s k).map S.content

/-- A step of the first loop. -/
def remove (keep : K → Prop) [DecidablePred keep] (tombstone : V → V) (s : σ) (v : V) : Except ε σ :=
  if keep (S.key v) then pure s else S.commit s (tombstone v)

/-- The store has the value already. -/
def has (same : V → V → Bool) (s : σ) (v : V) : Bool :=
  (S.look s (S.key v)).any fun current => same current v

/-- A step of the second loop. -/
def write (same : V → V → Bool) (s : σ) (v : V) : Except ε σ :=
  if S.has same s v then pure s else S.commit s v

/-- What both loops commit. -/
def plan (keep : K → Prop) [DecidablePred keep] (tombstone : V → V) (same : V → V → Bool)
    (current wanted : List V) (s : σ) : List V :=
  (current.filter fun v => ¬keep (S.key v)).map tombstone ++ wanted.filter fun v => !S.has same s v

/-! ## Commits of a list of values -/

section Commits

variable {S} {s s' : σ} {l : List V}

theorem frame_of_foldlM (h : l.foldlM S.commit s = .ok s') : S.frame s' = S.frame s :=
  foldlM_invariant (p := fun s₁ => S.frame s₁ = S.frame s)
    (fun s₁ s₂ v _ hs hc => (S.committed s₁ v s₂ hc).1.trans hs) rfl h

theorem look_of_foldlM {k : K} (hk : k ∉ l.map S.key) (h : l.foldlM S.commit s = .ok s') :
    S.look s' k = S.look s k :=
  foldlM_invariant (p := fun s₁ => S.look s₁ k = S.look s k)
    (fun s₁ s₂ v hv hs hc => ((S.committed s₁ v s₂ hc).2.1 k fun heq =>
      hk (List.mem_map.mpr ⟨v, hv, heq.symm⟩)).trans hs) rfl h

/-- Under distinct keys each commit is the last one of its key. -/
theorem value_of_foldlM (hnd : (l.map S.key).Nodup) (h : l.foldlM S.commit s = .ok s') {v : V}
    (hv : v ∈ l) : (S.deletes v → S.value s' (S.key v) = none) ∧
      (¬S.deletes v → S.value s' (S.key v) = some (S.content v)) := by
  induction l generalizing s with
  | nil => cases hv
  | cons w l ih =>
    rw [List.map_cons, List.nodup_cons] at hnd
    rw [List.foldlM_cons, bind_eq_ok] at h
    obtain ⟨s₁, hc, h⟩ := h
    rcases List.mem_cons.mp hv with rfl | hv
    · obtain ⟨-, -, hdel, hval⟩ := S.committed s v s₁ hc
      have hlook := look_of_foldlM hnd.1 h
      unfold value
      rw [hlook]
      exact ⟨fun hd => by rw [hdel hd]; rfl, hval⟩
    · exact ih hnd.2 h hv

end Commits

/-! ## The plan -/

/-- The first loop commits the tombstones of what is not kept. -/
theorem foldlM_remove (keep : K → Prop) [DecidablePred keep] (tombstone : V → V) (l : List V)
    (s : σ) : l.foldlM (S.remove keep tombstone) s =
      ((l.filter fun v => ¬keep (S.key v)).map tombstone).foldlM S.commit s := by
  induction l generalizing s with
  | nil => rfl
  | cons v l ih =>
    rw [List.foldlM_cons]
    by_cases hv : keep (S.key v)
    · have hstep : S.remove keep tombstone s v = .ok s := if_pos hv
      rw [hstep, ok_bind, ih, List.filter_cons_of_neg (by simpa using hv)]
    · have hstep : S.remove keep tombstone s v = S.commit s (tombstone v) := if_neg hv
      rw [hstep, List.filter_cons_of_pos (by simpa using hv), List.map_cons, List.foldlM_cons]
      exact bind_congr ih

/-- A commit under another key does not change what the store has. -/
theorem has_of_look (same : V → V → Bool) {s s' : σ} {v : V}
    (h : S.look s' (S.key v) = S.look s (S.key v)) : S.has same s' v = S.has same s v := by
  rw [has, has, h]

/-- The second loop commits what the store did not have before it. -/
theorem foldlM_write (same : V → V → Bool) {l : List V} (hnd : (l.map S.key).Nodup) (s : σ) :
    l.foldlM (S.write same) s = (l.filter fun v => !S.has same s v).foldlM S.commit s := by
  induction l generalizing s with
  | nil => rfl
  | cons v l ih =>
    rw [List.map_cons, List.nodup_cons] at hnd
    rw [List.foldlM_cons]
    cases hv : S.has same s v with
    | true =>
      have hstep : S.write same s v = .ok s := if_pos hv
      rw [hstep, ok_bind, ih hnd.2, List.filter_cons_of_neg (by rw [hv]; simp)]
    | false =>
      have hstep : S.write same s v = S.commit s v := if_neg (by rw [hv]; simp)
      rw [hstep, List.filter_cons_of_pos (by rw [hv]; rfl), List.foldlM_cons]
      cases hc : S.commit s v with
      | error err => rfl
      | ok s₁ =>
        rw [ok_bind, ok_bind, ih hnd.2]
        -- the commit concerns none of the keys to come
        have hrest : ∀ w ∈ l, (!S.has same s₁ w) = !S.has same s w := fun w hw => by
          refine congrArg (! ·) (S.has_of_look same ((S.committed s v s₁ hc).2.1 _ fun heq => ?_))
          exact hnd.1 (heq ▸ List.mem_map_of_mem hw)
        rw [List.filter_congr hrest]

/-- The first loop goes over the values of the store, the second over those of the target `goal`. -/
structure Target (keep : K → Prop) (tombstone : V → V) (same : V → V → Bool) (goal : K → Option V)
    (current wanted : List V) (s : σ) : Prop where
  key_eq : ∀ v, S.key (tombstone v) = S.key v
  deletes_all : ∀ v, S.deletes (tombstone v)
  same_iff : ∀ v w, same v w = true ↔ S.content v = S.content w
  keep_iff : ∀ k, keep k ↔ ∃ v, goal k = some v
  lists_current : HashMap.Lists S.key current (S.look s)
  nodup_current : (current.map S.key).Nodup
  lists_wanted : HashMap.Lists S.key wanted goal
  nodup_wanted : (wanted.map S.key).Nodup

section Target

variable {S} {keep : K → Prop} [DecidablePred keep] {tombstone : V → V} {same : V → V → Bool}
  {goal : K → Option V} {current wanted : List V} {s s' : σ}

/-- Both loops after each other commit the plan. -/
theorem Target.reconcile_eq (h : S.Target keep tombstone same goal current wanted s) :
    (current.foldlM (S.remove keep tombstone) s >>= fun s₁ => wanted.foldlM (S.write same) s₁) =
      (S.plan keep tombstone same current wanted s).foldlM S.commit s := by
  rw [plan, List.foldlM_append, foldlM_remove]
  cases hr : ((current.filter fun v => ¬keep (S.key v)).map tombstone).foldlM S.commit s with
  | error err => rfl
  | ok s₁ =>
    rw [ok_bind, ok_bind, S.foldlM_write same h.nodup_wanted]
    -- what the target has is kept, so the first loop does not touch it
    have hkept : ∀ v ∈ wanted, (!S.has same s₁ v) = !S.has same s v := fun v hv => by
      refine congrArg (! ·) (S.has_of_look same (look_of_foldlM (fun hmem => ?_) hr))
      simp only [List.map_map, List.mem_map, List.mem_filter, Function.comp, h.key_eq] at hmem
      obtain ⟨w, ⟨-, hw⟩, heq⟩ := hmem
      rw [heq, decide_eq_true_eq] at hw
      exact hw ((h.keep_iff _).mpr ⟨v, (h.lists_wanted.mem v).mp hv⟩)
    rw [List.filter_congr hkept]

theorem has_iff (hsame : ∀ v w, same v w = true ↔ S.content v = S.content w) {v : V} :
    S.has same s v = true ↔ S.value s (S.key v) = some (S.content v) := by
  unfold has value
  cases S.look s (S.key v) with
  | none => simp
  | some current => simp [hsame]

/-- The plan has the keys at which the store and the target differ. -/
theorem Target.mem_plan (h : S.Target keep tombstone same goal current wanted s) {k : K} :
    k ∈ (S.plan keep tombstone same current wanted s).map S.key ↔
      S.value s k ≠ (goal k).map S.content := by
  simp only [plan, List.map_append, List.map_map, List.mem_append, List.mem_map, List.mem_filter,
    Function.comp, h.key_eq, decide_eq_true_eq, Bool.not_eq_true', ← Bool.not_eq_true,
    has_iff h.same_iff]
  constructor
  · rintro (⟨v, ⟨hv, hdrop⟩, rfl⟩ | ⟨v, ⟨hv, hnew⟩, rfl⟩)
    · have hgoal : goal (S.key v) = none := by
        cases hg : goal (S.key v) with
        | none => rfl
        | some w => exact absurd ((h.keep_iff _).mpr ⟨w, hg⟩) hdrop
      rw [hgoal, value, (h.lists_current.mem v).mp hv]
      simp
    · rwa [(h.lists_wanted.mem v).mp hv]
  · intro hne
    cases hg : goal k with
    | some v =>
      obtain rfl := h.lists_wanted.keyed k v hg
      rw [hg] at hne
      exact Or.inr ⟨v, ⟨(h.lists_wanted.mem v).mpr hg, hne⟩, rfl⟩
    | none =>
      cases hl : S.look s k with
      | none =>
        rw [hg, value, hl] at hne
        exact absurd rfl hne
      | some v =>
        obtain rfl := h.lists_current.keyed k v hl
        refine Or.inl ⟨v, ⟨(h.lists_current.mem v).mpr hl, fun hkeep => ?_⟩, rfl⟩
        obtain ⟨w, hw⟩ := (h.keep_iff _).mp hkeep
        rw [hg] at hw
        cases hw

theorem Target.plan_nodup (h : S.Target keep tombstone same goal current wanted s) :
    ((S.plan keep tombstone same current wanted s).map S.key).Nodup := by
  have hkeys : S.key ∘ tombstone = S.key := funext h.key_eq
  rw [plan, List.map_append, List.map_map, hkeys, List.nodup_append]
  refine ⟨(List.filter_sublist.map _).nodup h.nodup_current,
    (List.filter_sublist.map _).nodup h.nodup_wanted, fun k hk k' hk' heq => ?_⟩
  obtain ⟨v, hv, rfl⟩ := List.mem_map.mp hk
  obtain ⟨w, hw, rfl⟩ := List.mem_map.mp hk'
  have hdrop := of_decide_eq_true (List.mem_filter.mp hv).2
  rw [heq] at hdrop
  exact hdrop ((h.keep_iff _).mpr ⟨w, (h.lists_wanted.mem w).mp (List.mem_filter.mp hw).1⟩)

/-- How many keys of the plan `f` takes to `b`: the list `keys` has all keys that count. -/
theorem Target.count_plan {β : Type} [DecidableEq β] [DecidableEq C]
    (h : S.Target keep tombstone same goal current wanted s) (keys : List K)
    (hkeys : ∀ k, S.value s k ≠ (goal k).map S.content → k ∈ keys) (f : K → β) (b : β) :
    (((S.plan keep tombstone same current wanted s).map S.key).map f).count b =
      (keys.dedup.filter fun k => f k = b ∧ S.value s k ≠ (goal k).map S.content).length := by
  rw [List.count_eq_countP, List.countP_map, List.countP_eq_length_filter]
  refine ((List.perm_ext_iff_of_nodup (h.plan_nodup.filter _)
    ((List.nodup_dedup keys).filter _)).mpr fun k => ?_).length_eq
  rw [List.mem_filter, List.mem_filter, h.mem_plan, List.mem_dedup, Function.comp, beq_iff_eq,
    decide_eq_true_eq]
  exact ⟨fun ⟨hne, hb⟩ => ⟨hkeys k hne, hb, hne⟩, fun ⟨_, hb, hne⟩ => ⟨hne, hb⟩⟩

/-- The commits of the plan leave the target's values in the store. -/
theorem Target.value_of_plan (h : S.Target keep tombstone same goal current wanted s)
    (hlive : ∀ v ∈ wanted, ¬S.deletes v)
    (hc : (S.plan keep tombstone same current wanted s).foldlM S.commit s = .ok s') (k : K) :
    S.value s' k = (goal k).map S.content := by
  by_cases hk : k ∈ (S.plan keep tombstone same current wanted s).map S.key
  · obtain ⟨v, hv, rfl⟩ := List.mem_map.mp hk
    obtain ⟨hdel, hval⟩ := value_of_foldlM h.plan_nodup hc hv
    rcases List.mem_append.mp hv with hv | hv
    · obtain ⟨w, hw, rfl⟩ := List.mem_map.mp hv
      have hdrop := of_decide_eq_true (List.mem_filter.mp hw).2
      rw [hdel (h.deletes_all w), h.key_eq]
      cases hg : goal (S.key w) with
      | none => rfl
      | some u => exact absurd ((h.keep_iff _).mpr ⟨u, hg⟩) hdrop
    · have hmem := (List.mem_filter.mp hv).1
      rw [hval (hlive v hmem), (h.lists_wanted.mem v).mp hmem]
      rfl
  · rw [value, look_of_foldlM hk hc]
    by_contra hne
    exact hk (h.mem_plan.mpr hne)

end Target

end Store

end Lib
