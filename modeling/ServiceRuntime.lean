import ServiceRuntime.Resilience.BreakerCycle
import ServiceRuntime.Resilience.BreakerProbes
import ServiceRuntime.Resilience.BreakerNotify
import ServiceRuntime.Resilience.RetryCalls
import ServiceRuntime.GoStrings
import ServiceRuntime.Idempotency.Exclusion
import ServiceRuntime.Idempotency.Replay
import ServiceRuntime.Idempotency.Pending
import ServiceRuntime.Idempotency.StoredResponse
import ServiceRuntime.Idempotency.Expiry
import ServiceRuntime.Idempotency.Separation
import ServiceRuntime.NatsBus.NoLoss
import ServiceRuntime.NatsBus.StoreRefinement
import ServiceRuntime.NatsBus.Formats
import ServiceRuntime.NatsBus.HeaderPayload
import ServiceRuntime.NatsBus.BuildMessage
import ServiceRuntime.RateLimit.Agreement
import ServiceRuntime.RateLimit.RedisBurst
import ServiceRuntime.RateLimit.Eviction
import ServiceRuntime.RateLimit.ClientIP
import ServiceRuntime.RateLimit.RetryAfter
import ServiceRuntime.Health.Freshness
import ServiceRuntime.Health.Exclusion
import ServiceRuntime.Health.Expiry
import ServiceRuntime.Identity.Revocation
import ServiceRuntime.Migrate.Commands
import ServiceRuntime.Postgres.Applied
import ServiceRuntime.AgentHook.FailClosed
import ServiceRuntime.AgentHook.Config
import ServiceRuntime.FeatureFlags.Convergence
import ServiceRuntime.FeatureFlags.Rollout
import ServiceRuntime.Observability.MetricPrefix
import ServiceRuntime.Identity.Fallback
import ServiceRuntime.Identity.ServiceTokens
import ServiceRuntime.NatsBus.DeadLetterCount
import ServiceRuntime.NatsBus.DeadLetterOrder
import ServiceRuntime.NatsBus.DeadLetterGauge
import ServiceRuntime.Startup.HTTP
import ServiceRuntime.Rterrors.Mapping
import ServiceRuntime.Authmw.Principal
import ServiceRuntime.GoFloat
import ServiceRuntime.Json.Value
import ServiceRuntime.Json.Parse
import ServiceRuntime.Json.Protojson
import ServiceRuntime.ChangeJournal.Proto
import ServiceRuntime.Async.Runner
import ServiceRuntime.NatsBus.ConsumerSafety
import ServiceRuntime.Downstream.Accounting
import ServiceRuntime.RateLimit.Degraded
import ServiceRuntime.RateLimit.Isolation
