import Globacl.Core.Http

/-!
# Bearer tokens (`globacl-core/src/lib/auth.rs`)

The tokens that a server accepts are configured as a text, `token=identity:scope,scope;...`. With no
token the check is off, and every request is let through.

* `AuthConfig.fromSpec_ok`: what is found under a token is what the last entry with it says.
* `requireScope_iff`: a text that is accepted guards a server if and only if it has an entry.
-/

namespace Globacl

open Lib

structure AuthPrincipal where
  identity : String
  scopes : List String
  authenticated : Bool

namespace AuthPrincipal

/-- `AuthPrincipal::anonymous`. -/
def anonymous : AuthPrincipal := ⟨"anonymous", [], false⟩

/-- `AuthPrincipal::has_scope`. -/
def hasScope (principal : AuthPrincipal) (scope : String) : Bool :=
  principal.scopes.any fun candidate => candidate = "*" ∨ candidate = scope

end AuthPrincipal

inductive AuthFailure where
  | missingBearer
  | invalidBearer
  | insufficientScope

structure AuthConfig where
  tokens : HashMap String AuthPrincipal

/-- `sanitize_auth_identity`. -/
def sanitizeAuthIdentity (identity : String) : Result String :=
  if identity = "" then .error (.parse "auth identity cannot be empty")
  else if identity.toList.all fun ch => ch.isAlphanum || ['_', '-', '.', '@', ':'].contains ch then
    .ok identity
  else .error (.parse s!"auth identity {debugStr identity} contains unsupported characters")

/-! ## Specs -/

/-- `spec.split(';').map(str::trim).filter(|entry| !entry.is_empty())`. -/
def specEntries (spec : String) : List String :=
  ((spec.toList.splitOn ';').map fun part => trim (String.ofList part)).filter fun entry => entry ≠ ""

/-- `scopes_spec.split(',').map(str::trim).filter(|scope| !scope.is_empty())`. -/
def splitScopes (scopesSpec : String) : List String :=
  ((scopesSpec.toList.splitOn ',').map fun part => trim (String.ofList part)).filter
    fun scope => scope ≠ ""

namespace AuthConfig

/-- `AuthConfig::disabled`. -/
def disabled : AuthConfig := ⟨∅⟩

/-- The body of the loop of `AuthConfig::from_spec`. -/
def insertEntry (tokens : HashMap String AuthPrincipal) (rawEntry : String) :
    Result (HashMap String AuthPrincipal) :=
  match splitOnce '=' rawEntry with
  | none => .error (.parse "auth token entries must be token=identity:scope,scope")
  | some (token, principalSpec) =>
    if trim token = "" then .error (.parse "auth token cannot be empty")
    else
      let (identity, scopesSpec) :=
        (splitOnce ':' (trim principalSpec)).getD (trim principalSpec, "")
      match sanitizeAuthIdentity (trim identity) with
      | .error err => .error err
      | .ok identity => .ok (tokens.insert (trim token) ⟨identity, splitScopes scopesSpec, true⟩)

/-- `AuthConfig::from_spec`. -/
def fromSpec (spec : String) : Result AuthConfig := do
  let tokens ← (specEntries spec).foldlM insertEntry ∅
  pure { tokens }

/-- `AuthConfig::is_enabled`. -/
def isEnabled (config : AuthConfig) : Bool := !config.tokens.entries.isEmpty

/-- `AuthConfig::require_scope`. -/
def requireScope (config : AuthConfig) (request : HttpRequest) (scope : String) :
    Except AuthFailure AuthPrincipal :=
  if !config.isEnabled then .ok AuthPrincipal.anonymous
  else
    match request.bearerToken with
    | none => .error .missingBearer
    | some token =>
      match config.tokens.lookup token with
      | none => .error .invalidBearer
      | some principal =>
        if principal.hasScope scope then .ok principal else .error .insufficientScope

end AuthConfig

/-- `auth_config_from_env_var`, where the variable is given by its value. -/
def authConfigFromEnvVar (value : Option String) : Result AuthConfig :=
  match value.filter fun spec => trim spec ≠ "" with
  | some spec => AuthConfig.fromSpec spec
  | none => .ok AuthConfig.disabled

/-! ## What a spec says -/

/-- The token of an entry, before its first equals sign. -/
def entryToken (entry : String) : String := trim ((splitOnce '=' entry).getD (entry, "")).1

/-- The scopes of an entry, after the first colon behind its equals sign. -/
def entryScopes (entry : String) : List String :=
  let principal := trim ((splitOnce '=' entry).getD (entry, "")).2
  splitScopes ((splitOnce ':' principal).getD (principal, "")).2

/-- The last entry with the token lists the scope, or all scopes. -/
def Grants (spec token scope : String) : Prop :=
  ∃ entry, ((specEntries spec).reverse.find? fun entry => entryToken entry = token) = some entry ∧
    ("*" ∈ entryScopes entry ∨ scope ∈ entryScopes entry)

namespace AuthConfig

theorem insertEntry_ok {tokens tokens' : HashMap String AuthPrincipal} {entry : String}
    (h : insertEntry tokens entry = .ok tokens') :
    ∃ principal : AuthPrincipal, principal.scopes = entryScopes entry ∧
      tokens' = tokens.insert (entryToken entry) principal := by
  unfold insertEntry at h
  unfold entryToken entryScopes
  cases hsplit : splitOnce '=' entry with
  | none =>
    rw [hsplit] at h
    cases h
  | some parts =>
    obtain ⟨token, principalSpec⟩ := parts
    rw [hsplit] at h
    rw [Option.getD_some]
    dsimp only at h ⊢
    generalize (splitOnce ':' (trim principalSpec)).getD (trim principalSpec, "") = parts at h ⊢
    obtain ⟨identity, scopesSpec⟩ := parts
    dsimp only at h ⊢
    by_cases htoken : trim token = ""
    · rw [if_pos htoken] at h
      cases h
    rw [if_neg htoken] at h
    cases hidentity : sanitizeAuthIdentity (trim identity) with
    | error err =>
      rw [hidentity] at h
      cases h
    | ok identity =>
      rw [hidentity] at h
      exact ⟨⟨identity, splitScopes scopesSpec, true⟩, rfl, (Except.ok.inj h).symm⟩

/-- The map of a config holds, under each token, the scopes of the last entry with it. -/
def Reads (entries : List String) (tokens : HashMap String AuthPrincipal) : Prop :=
  ∀ token, (tokens.lookup token).map AuthPrincipal.scopes =
    (entries.reverse.find? fun entry => entryToken entry = token).map entryScopes

theorem fromSpec_ok {spec : String} {config : AuthConfig} (h : fromSpec spec = .ok config) :
    Reads (specEntries spec) config.tokens := by
  obtain ⟨tokens, hfold, h⟩ := bind_eq_ok.mp h
  cases h
  have hstep : ∀ done (m m' : HashMap String AuthPrincipal) entry,
      Reads done m → insertEntry m entry = .ok m' → Reads (done ++ [entry]) m' := by
    intro done m m' entry hm hentry token
    obtain ⟨principal, hscopes, rfl⟩ := insertEntry_ok hentry
    rw [HashMap.lookup_insert_eq, List.reverse_append, List.reverse_singleton,
      List.singleton_append, List.find?_cons]
    by_cases htoken : token = entryToken entry
    · rw [if_pos htoken, decide_eq_true htoken.symm, Option.map_some, Option.map_some, hscopes]
    · rw [if_neg htoken, decide_eq_false (Ne.symm htoken)]
      exact hm token
  have hnil : Reads [] (∅ : HashMap String AuthPrincipal) := fun _ => rfl
  exact foldlM_collects hstep hnil hfold

/-- The check is on if and only if the spec has an entry. -/
theorem isEnabled_iff {entries : List String} {config : AuthConfig}
    (h : Reads entries config.tokens) : config.isEnabled = true ↔ entries ≠ [] := by
  have hempty : config.tokens.entries = [] ↔ ∀ token, config.tokens.lookup token = none := by
    constructor
    · intro hnil token
      rw [AList.lookup_eq_none, AList.mem_keys, AList.keys, hnil]
      exact List.not_mem_nil
    · intro hnone
      refine List.eq_nil_iff_forall_not_mem.mpr fun ⟨token, principal⟩ hmem => ?_
      have := AList.mem_lookup_iff.mpr hmem
      rw [hnone token] at this
      cases this
  unfold isEnabled
  rw [Bool.not_eq_true', List.isEmpty_eq_false_iff, ne_eq, hempty, not_iff_not]
  constructor
  · intro hnone
    refine List.eq_nil_iff_forall_not_mem.mpr fun entry hmem => ?_
    have hread := h (entryToken entry)
    rw [hnone, Option.map_none, eq_comm, Option.map_eq_none_iff, List.find?_eq_none] at hread
    exact hread entry (List.mem_reverse.mpr hmem) (decide_eq_true rfl)
  · rintro rfl token
    exact Option.map_eq_none_iff.mp (h token)

end AuthConfig

/-- A spec that is accepted lets through exactly the requests that it grants the scope to, if and
only if one of its parts is not blank. -/
theorem requireScope_iff (spec : String) (config : AuthConfig)
    (hspec : AuthConfig.fromSpec spec = .ok config) (request : HttpRequest) (scope : String) :
    ((∃ principal, config.requireScope request scope = .ok principal) ↔
      ∃ token, request.bearerToken = some token ∧ Grants spec token scope) ↔
    ∃ part ∈ spec.toList.splitOn ';', trim (String.ofList part) ≠ "" := by
  have hreads := AuthConfig.fromSpec_ok hspec
  have hparts : (∃ part ∈ spec.toList.splitOn ';', trim (String.ofList part) ≠ "") ↔
      specEntries spec ≠ [] := by
    unfold specEntries
    rw [ne_eq, List.filter_eq_nil_iff]
    simp
  rw [hparts, ← AuthConfig.isEnabled_iff hreads]
  unfold AuthConfig.requireScope
  cases henabled : config.isEnabled with
  | false =>
    have hnil : specEntries spec = [] := by
      by_contra hne
      rw [(AuthConfig.isEnabled_iff hreads).mpr hne] at henabled
      cases henabled
    refine iff_of_false (fun h => ?_) (by decide)
    obtain ⟨token, -, entry, hentry, -⟩ := h.mp ⟨AuthPrincipal.anonymous, rfl⟩
    rw [hnil] at hentry
    cases hentry
  | true =>
    refine iff_of_true ?_ rfl
    rw [if_neg (by decide)]
    cases hbearer : request.bearerToken with
    | none => exact iff_of_false (by rintro ⟨_, ⟨⟩⟩) (by rintro ⟨_, ⟨⟩, _⟩)
    | some token =>
      have hread := hreads token
      unfold Grants
      dsimp only
      cases hlookup : config.tokens.lookup token with
      | none =>
        rw [hlookup, Option.map_none, eq_comm, Option.map_eq_none_iff] at hread
        refine iff_of_false (by rintro ⟨_, ⟨⟩⟩) ?_
        rintro ⟨_, ⟨⟩, entry, hentry, -⟩
        rw [hread] at hentry
        cases hentry
      | some principal =>
        rw [hlookup, Option.map_some, eq_comm, Option.map_eq_some_iff] at hread
        obtain ⟨entry, hentry, hscopes⟩ := hread
        have hscope : principal.hasScope scope = true ↔
            "*" ∈ entryScopes entry ∨ scope ∈ entryScopes entry := by
          rw [AuthPrincipal.hasScope, List.any_eq_true, hscopes]
          simp only [decide_eq_true_eq, and_or_left, exists_or, exists_eq_right]
        dsimp only
        by_cases hhas : principal.hasScope scope = true
        · rw [if_pos hhas]
          exact iff_of_true ⟨principal, rfl⟩ ⟨token, rfl, entry, hentry, hscope.mp hhas⟩
        · rw [if_neg hhas]
          refine iff_of_false (by rintro ⟨_, ⟨⟩⟩) ?_
          rintro ⟨_, ⟨⟩, entry', hentry', hgranted⟩
          rw [hentry] at hentry'
          cases hentry'
          exact hhas (hscope.mpr hgranted)

/-- Two entries with one token, and a request that names it: the last entry counts. -/
theorem requireScope_iff_laterWins :
    ∃ (config : AuthConfig) (request : HttpRequest),
      AuthConfig.fromSpec "t=a:read; t=b:write" = .ok config ∧
      request.bearerToken = some "t" ∧
      (((∃ principal, config.requireScope request "write" = .ok principal) ↔
          ∃ token, request.bearerToken = some token ∧ Grants "t=a:read; t=b:write" token "write") ↔
        ∃ part ∈ "t=a:read; t=b:write".toList.splitOn ';', trim (String.ofList part) ≠ "") := by
  have hok : (AuthConfig.fromSpec "t=a:read; t=b:write").isOk = true := by decide +kernel
  have hbearer : HttpRequest.bearerToken
      ⟨"POST", "/", (∅ : HashMap String String).insert "authorization" "Bearer t", []⟩ = some "t" := by
    decide +kernel
  cases hspec : AuthConfig.fromSpec "t=a:read; t=b:write" with
  | error err =>
    rw [hspec] at hok
    cases hok
  | ok config => exact ⟨config, _, rfl, hbearer, requireScope_iff _ config hspec _ "write"⟩

/-- A spec of a semicolon is not blank, it is accepted, and every request is let through. -/
theorem not_requireScope_grants :
    ¬ ∀ (spec : String) (config : AuthConfig), trim spec ≠ "" →
      authConfigFromEnvVar (some spec) = .ok config →
      ∀ (request : HttpRequest) (scope : String),
        (∃ principal, config.requireScope request scope = .ok principal) ↔
          ∃ token, request.bearerToken = some token ∧ Grants spec token scope := by
  intro h
  have hspec : authConfigFromEnvVar (some ";") = .ok ⟨∅⟩ := rfl
  obtain ⟨token, hbearer, -⟩ :=
    (h ";" ⟨∅⟩ (by decide) hspec ⟨"POST", "/v1/acl/deny", ∅, []⟩ "acl:write").mp ⟨_, rfl⟩
  cases hbearer

end Globacl
