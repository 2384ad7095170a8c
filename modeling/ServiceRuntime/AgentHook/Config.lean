import ServiceRuntime.AgentHook.Runner
import ServiceRuntime.AgentHook.ServiceURL
import ServiceRuntime.GoDuration

/-!
# The Configuration of the Hook

`LoadConfigFromEnv` reads the settings of the hook from environment variables, and `Validate` checks
them. A timeout may be given as a duration or as a plain number of seconds. The number is multiplied
by a second in 64-bit arithmetic before the result is compared with zero, so a large number can
come out as a short timeout that passes the check.

`time.ParseDuration` is a parameter: the results hold whatever it accepts.
-/

namespace ServiceRuntime.AgentHook

open GoStrings GoTime

/-! ## The environment -/

/-- `os.Getenv`; a variable that is not set is empty. -/
abbrev Environment := String → String

def trimEnv (env : Environment) (key : String) : String := trimSpace (env key)

def envOrDefault (env : Environment) (key fallback : String) : String :=
  if trimEnv env key ≠ "" then trimEnv env key else fallback

section Durations

variable (parseDuration : String → Option Duration)

def envDuration (env : Environment) (key : String) (fallback : Duration) : Duration :=
  let value := trimEnv env key
  if value = "" then fallback
  else
    match parseDuration value with
    | some duration => duration
    | none =>
      match atoi value with
      | some seconds => .wrap (seconds * Duration.second.ns)
      | none => fallback

/-! ## The configuration -/

structure ClientConfig where
  caFile : String
  certFile : String
  keyFile : String
  serverName : String

/-- `Config`, with the fields that a check does not read. -/
structure HookConfig extends Config where
  governanceURL : String
  approvalsURL : String
  approvalPollInterval : Duration
  governanceTimeout : Duration
  approvalsTimeout : Duration
  tls : ClientConfig

/-- The settings that are durations. -/
inductive Setting where
  | approvalTimeout
  | approvalPollInterval
  | governanceTimeout
  | approvalsTimeout
  deriving DecidableEq

namespace Setting

def key : Setting → String
  | approvalTimeout => "EVALOPS_APPROVAL_TIMEOUT"
  | approvalPollInterval => "EVALOPS_APPROVAL_POLL_INTERVAL"
  | governanceTimeout => "EVALOPS_GOVERNANCE_TIMEOUT"
  | approvalsTimeout => "EVALOPS_APPROVALS_TIMEOUT"

def fallback : Setting → Duration
  | approvalTimeout => .wrap (300 * Duration.second.ns)
  | approvalPollInterval => .wrap (3 * Duration.second.ns)
  | governanceTimeout => .wrap (5 * Duration.second.ns)
  | approvalsTimeout => .wrap (5 * Duration.second.ns)

end Setting

def HookConfig.duration (cfg : HookConfig) : Setting → Duration
  | .approvalTimeout => cfg.approvalTimeout
  | .approvalPollInterval => cfg.approvalPollInterval
  | .governanceTimeout => cfg.governanceTimeout
  | .approvalsTimeout => cfg.approvalsTimeout

/-- `Validate`: the error, or `none`. -/
def HookConfig.validate (cfg : HookConfig) : Option String :=
  if trimSpace cfg.governanceURL = "" then some "EVALOPS_GOVERNANCE_URL is required"
  else if trimSpace cfg.workspaceId = "" then some "EVALOPS_WORKSPACE_ID is required"
  else if cfg.approvalTimeout.ns ≤ 0 then
    some "EVALOPS_APPROVAL_TIMEOUT must be greater than zero"
  else if cfg.approvalPollInterval.ns ≤ 0 then
    some "EVALOPS_APPROVAL_POLL_INTERVAL must be greater than zero"
  else if cfg.governanceTimeout.ns ≤ 0 then
    some "EVALOPS_GOVERNANCE_TIMEOUT must be greater than zero"
  else if cfg.approvalsTimeout.ns ≤ 0 then
    some "EVALOPS_APPROVALS_TIMEOUT must be greater than zero"
  else none

/-- The configuration that `LoadConfigFromEnv` reads. -/
def configFromEnv (env : Environment) : HookConfig :=
  let setting := fun s : Setting => envDuration parseDuration env s.key s.fallback
  { governanceURL :=
      normalizeServiceURL (trimEnv env "EVALOPS_GOVERNANCE_URL") governanceServiceSuffixes
    approvalsURL :=
      normalizeServiceURL (trimEnv env "EVALOPS_APPROVALS_URL") approvalsServiceSuffixes
    agentToken := trimEnv env "EVALOPS_AGENT_TOKEN"
    workspaceId := trimEnv env "EVALOPS_WORKSPACE_ID"
    agentId := trimEnv env "EVALOPS_AGENT_ID"
    surface := firstNonEmpty
      [trimEnv env "EVALOPS_HOOK_SURFACE", trimEnv env "EVALOPS_SURFACE", "codex"]
    approvalTimeout := setting .approvalTimeout
    approvalPollInterval := setting .approvalPollInterval
    governanceTimeout := setting .governanceTimeout
    approvalsTimeout := setting .approvalsTimeout
    tls :=
      { caFile := trimEnv env "EVALOPS_CA_FILE"
        certFile := trimEnv env "EVALOPS_CERT_FILE"
        keyFile := trimEnv env "EVALOPS_KEY_FILE"
        serverName := envOrDefault env "EVALOPS_SERVER_NAME" "" } }

def loadConfigFromEnv (env : Environment) : HookConfig × Option String :=
  (configFromEnv parseDuration env, (configFromEnv parseDuration env).validate)

/-! ## What is checked -/

theorem duration_configFromEnv (env : Environment) (setting : Setting) :
    (configFromEnv parseDuration env).duration setting =
      envDuration parseDuration env setting.key setting.fallback := by
  cases setting <;> simp only [HookConfig.duration, configFromEnv]

theorem loadConfigFromEnv_fst (env : Environment) :
    (loadConfigFromEnv parseDuration env).1 = configFromEnv parseDuration env := by
  rw [loadConfigFromEnv]

theorem loadConfigFromEnv_snd (env : Environment) :
    (loadConfigFromEnv parseDuration env).2 = (configFromEnv parseDuration env).validate := by
  rw [loadConfigFromEnv]

theorem governanceURL_configFromEnv (env : Environment) :
    (configFromEnv parseDuration env).governanceURL =
      normalizeServiceURL (trimEnv env "EVALOPS_GOVERNANCE_URL") governanceServiceSuffixes := rfl

theorem workspaceId_configFromEnv (env : Environment) :
    (configFromEnv parseDuration env).workspaceId = trimEnv env "EVALOPS_WORKSPACE_ID" := rfl

theorem check_eq_none_iff {p : Prop} [Decidable p] {err : String} {rest : Option String} :
    (if p then some err else rest) = none ↔ ¬ p ∧ rest = none := by
  split
  · rename_i hp
    exact iff_of_false (Option.some_ne_none err) fun h => h.1 hp
  · rename_i hp
    exact ⟨fun h => ⟨hp, h⟩, And.right⟩

theorem HookConfig.validate_eq_none_iff (cfg : HookConfig) :
    cfg.validate = none ↔ trimSpace cfg.governanceURL ≠ "" ∧ trimSpace cfg.workspaceId ≠ "" ∧
      ∀ setting, 0 < (cfg.duration setting).ns := by
  have hall : (∀ setting, 0 < (cfg.duration setting).ns) ↔
      0 < cfg.approvalTimeout.ns ∧ 0 < cfg.approvalPollInterval.ns ∧
        0 < cfg.governanceTimeout.ns ∧ 0 < cfg.approvalsTimeout.ns := by
    refine ⟨fun h => ⟨h .approvalTimeout, h .approvalPollInterval, h .governanceTimeout,
      h .approvalsTimeout⟩, fun ⟨h₁, h₂, h₃, h₄⟩ setting => ?_⟩
    cases setting with
    | approvalTimeout => exact h₁
    | approvalPollInterval => exact h₂
    | governanceTimeout => exact h₃
    | approvalsTimeout => exact h₄
  rw [hall]
  simp only [validate, check_eq_none_iff, not_le, and_true, ne_eq]

theorem envDuration_of_atoi {env : Environment} {key : String} {fallback : Duration} {n : Int}
    (hatoi : atoi (trimEnv env key) = some n) (hparse : parseDuration (trimEnv env key) = none) :
    envDuration parseDuration env key fallback = .wrap (n * Duration.second.ns) := by
  have hne : trimEnv env key ≠ "" := by
    intro h
    rw [h] at hatoi
    cases hatoi
  simp only [envDuration, if_neg hne, hparse, hatoi]

/-! ## A large number of seconds -/

def required : Environment := fun key =>
  if key = "EVALOPS_GOVERNANCE_URL" then "https://governance"
  else if key = "EVALOPS_WORKSPACE_ID" then "workspace"
  else ""

/-- The variables that are required, and one setting. -/
def onlySetting (setting : Setting) (value : String) : Environment :=
  Function.update required setting.key value

theorem trimEnv_onlySetting {setting : Setting} {key : String} (h : key ≠ setting.key)
    (value : String) : trimEnv (onlySetting setting value) key = trimEnv required key := by
  rw [trimEnv, onlySetting, Function.update_of_ne h, trimEnv]

theorem Setting.key_injective : Function.Injective Setting.key := by
  intro a b h
  cases a <;> cases b <;> first | rfl | exact absurd h (by decide)

/-- With nothing else set, the setting decides whether the configuration passes. -/
theorem validate_onlySetting {setting : Setting} {value : String}
    (hpos : 0 < (envDuration parseDuration (onlySetting setting value) setting.key
      setting.fallback).ns) :
    (configFromEnv parseDuration (onlySetting setting value)).validate = none := by
  rw [HookConfig.validate_eq_none_iff]
  refine ⟨?_, ?_, fun other => ?_⟩
  · have hne : "EVALOPS_GOVERNANCE_URL" ≠ setting.key := by cases setting <;> decide
    rw [governanceURL_configFromEnv, trimEnv_onlySetting hne]
    decide +kernel
  · have hne : "EVALOPS_WORKSPACE_ID" ≠ setting.key := by cases setting <;> decide
    rw [workspaceId_configFromEnv, trimEnv_onlySetting hne]
    decide +kernel
  · rw [duration_configFromEnv]
    by_cases hother : other = setting
    · rw [hother]
      exact hpos
    -- the others are not set
    · have hunset : trimEnv (onlySetting setting value) other.key = "" := by
        rw [trimEnv_onlySetting fun h => hother (Setting.key_injective h)]
        cases other <;> decide +kernel
      rw [envDuration, if_pos hunset]
      cases other <;> decide

/-- **A number of seconds is taken as it is, or refused, exactly if the product with a second fits
    64 bits or is cut to something that is not positive.** For every setting and every text that is
    a number and no duration, whatever else is set. -/
theorem timeout_exact_iff (setting : Setting) (value : String) (n : Int)
    (hatoi : atoi (trimSpace value) = some n) (hparse : parseDuration (trimSpace value) = none) :
    (∀ env : Environment, env setting.key = value →
      (loadConfigFromEnv parseDuration env).2 ≠ none ∨
        ((loadConfigFromEnv parseDuration env).1.duration setting).ns = n * 1000000000) ↔
      (-2 ^ 63 ≤ n * 1000000000 ∧ n * 1000000000 < 2 ^ 63) ∨ n * 1000000000 % 2 ^ 64 = 0 ∨
        2 ^ 63 ≤ n * 1000000000 % 2 ^ 64 := by
  -- what the setting becomes, in any such environment
  have hduration : ∀ env : Environment, env setting.key = value →
      envDuration parseDuration env setting.key setting.fallback = .wrap (n * 1000000000) := by
    intro env henv
    have hvalue : trimEnv env setting.key = trimSpace value := by rw [trimEnv, henv]
    exact envDuration_of_atoi parseDuration (hvalue ▸ hatoi) (hvalue ▸ hparse)
  simp only [loadConfigFromEnv_fst, loadConfigFromEnv_snd, duration_configFromEnv]
  constructor
  · intro h
    by_contra hcond
    simp only [not_or] at hcond
    obtain ⟨hfits, hzero, hneg⟩ := hcond
    have henv : onlySetting setting value setting.key = value := Function.update_self ..
    have hpos : 0 < (Duration.wrap (n * 1000000000)).ns :=
      Duration.wrap_pos_iff.mpr ⟨lt_of_le_of_ne (Int.emod_nonneg _ (by norm_num)) (Ne.symm hzero),
        not_le.mp hneg⟩
    rcases h _ henv with herror | hexact
    · refine herror (validate_onlySetting parseDuration ?_)
      rw [hduration _ henv]
      exact hpos
    · rw [hduration _ henv] at hexact
      exact hfits (Duration.fits_of_wrap hexact)
  · intro hcond env henv
    rw [hduration env henv]
    rcases hcond with ⟨hlo, hhi⟩ | hcut
    · exact .inr (Duration.wrap_of_fits hlo hhi)
    · refine .inl fun hnone => ?_
      have hpos := ((HookConfig.validate_eq_none_iff _).mp hnone).2.2 setting
      rw [duration_configFromEnv parseDuration env, hduration env henv,
        Duration.wrap_pos_iff] at hpos
      rcases hcut with hzero | hneg
      · exact absurd hzero (ne_of_gt hpos.1)
      · exact absurd hpos.2 (not_lt.mpr hneg)

end Durations

/-- Five minutes as a number of seconds. -/
theorem timeout_exact_of_300 :
    atoi (trimSpace "300") = some 300 ∧ parseDuration (trimSpace "300") = none ∧
      ∀ env : Environment, env Setting.approvalTimeout.key = "300" →
        (loadConfigFromEnv parseDuration env).2 ≠ none ∨
          ((loadConfigFromEnv parseDuration env).1.duration .approvalTimeout).ns =
            300 * 1000000000 := by
  have hatoi : atoi (trimSpace "300") = some 300 := by decide +kernel
  have hparse : parseDuration (trimSpace "300") = none := by decide +kernel
  exact ⟨hatoi, hparse, (timeout_exact_iff parseDuration .approvalTimeout "300" 300 hatoi hparse).mpr
    (.inl ⟨by norm_num, by norm_num⟩)⟩

/-- More than 500 years come out as 290 milliseconds. -/
theorem timeout_wraps :
    let env := onlySetting .approvalTimeout "18446744074"
    atoi (trimEnv env Setting.approvalTimeout.key) = some 18446744074 ∧
      parseDuration (trimEnv env Setting.approvalTimeout.key) = none ∧
      (loadConfigFromEnv parseDuration env).2 = none ∧
      ((loadConfigFromEnv parseDuration env).1.duration .approvalTimeout).ns = 290448384 := by
  intro env
  have hvalue : trimEnv env Setting.approvalTimeout.key = "18446744074" := by
    have hset : env Setting.approvalTimeout.key = "18446744074" := Function.update_self ..
    rw [trimEnv, hset]
    decide +kernel
  have hatoi : atoi "18446744074" = some 18446744074 := by decide +kernel
  have hparse : parseDuration "18446744074" = none := by decide +kernel
  have hduration := @envDuration_of_atoi parseDuration env _ Setting.approvalTimeout.fallback _
    (hvalue ▸ hatoi) (hvalue ▸ hparse)
  rw [hvalue, loadConfigFromEnv_fst, loadConfigFromEnv_snd, duration_configFromEnv, hduration]
  refine ⟨hatoi, hparse, validate_onlySetting parseDuration ?_, by decide⟩
  rw [hduration]
  decide

end ServiceRuntime.AgentHook
