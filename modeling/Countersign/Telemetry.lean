/-!
# Telemetry

Logging and metrics are set up once for each process, from a configuration that may come from
environment variables.

## What is here

* `TelemetryConfig` — the configuration, with its default, the one for tests, and the ones read from
  an environment.
* `Telemetry` — what has been set up so far.
* `Telemetry.init` — sets up what the configuration asks for.  It fails for an empty name of the
  service, and for what has been set up before.
-/

set_option autoImplicit false

namespace Countersign

/-! ## Configuration -/

/-- How logging and metrics are set up. -/
structure TelemetryConfig where
  serviceName : String := "quantum-chain"
  subsystemId : String := "00"
  logLevel : String := "info"
  jsonLogs : Bool := false
  metricsEnabled : Bool := true
deriving DecidableEq, Inhabited

/-- The values of the environment variables that are set. -/
abbrev Environment := String → Option String

namespace TelemetryConfig

/-- Whether the value of a variable means yes.  Case does not matter: no character beyond ASCII
becomes a letter of these words when it is lowered. -/
def isYes (value : String) : Bool :=
  ["true", "1", "yes"].contains value.toLower

/-- The configuration for tests: warnings only, and no metrics. -/
def testing : TelemetryConfig where
  logLevel := "warn"
  metricsEnabled := false

/-- The configuration that an environment describes.  Inside a container logs are in JSON unless a
variable says otherwise. -/
def ofEnvironment (env : Environment) : TelemetryConfig where
  serviceName := (env "QC_SERVICE_NAME").getD "quantum-chain"
  subsystemId := (env "QC_SUBSYSTEM_ID").getD "00"
  logLevel := ((env "QC_LOG_LEVEL").or (env "RUST_LOG")).getD "info"
  jsonLogs := ((env "QC_JSON_LOGS").map isYes).getD
    ((env "KUBERNETES_SERVICE_HOST").isSome || (env "DOCKER_CONTAINER").isSome)
  metricsEnabled := ((env "QC_METRICS_ENABLED").map isYes).getD true

/-- The configuration of one subsystem, which gives the service its name. -/
def ofSubsystem (env : Environment) (id name : String) : TelemetryConfig :=
  { ofEnvironment env with subsystemId := id, serviceName := "qc-" ++ id ++ "-" ++ name }

end TelemetryConfig

/-! ## Setting up -/

/-- Why telemetry cannot be set up. -/
inductive TelemetryError where
  | loggingInit
  | metricsInit
  | config
deriving DecidableEq, Inhabited

def TelemetryError.message : TelemetryError → String
  | loggingInit =>
    "Failed to initialize logging: a global default trace dispatcher has already been set"
  | metricsInit =>
    "Failed to initialize Prometheus metrics: Duplicate metrics collector registration attempted"
  | config => "Invalid configuration: service name is empty"

/-- What has been set up so far. -/
structure Telemetry where
  metricsRegistered : Bool := false
  loggingInstalled : Bool := false
deriving DecidableEq, Inhabited

namespace Telemetry

/-- Sets up logging. -/
def initLogging (t : Telemetry) : Except TelemetryError Unit × Telemetry :=
  if t.loggingInstalled then (.error .loggingInit, t)
  else (.ok (), { t with loggingInstalled := true })

/-- Sets up metrics, if the configuration asks for them, and logging. -/
def init (t : Telemetry) (c : TelemetryConfig) : Except TelemetryError Unit × Telemetry :=
  if c.serviceName.isEmpty then (.error .config, t)
  else if !c.metricsEnabled then t.initLogging
  else if t.metricsRegistered then (.error .metricsInit, t)
  else initLogging { t with metricsRegistered := true }

end Telemetry

end Countersign
