/-!
The daemon's configuration: the worker pool, context migration, logging, telemetry export and
the built-in workload. Spans of time are counts of nanoseconds and real numbers are binary64
bit patterns, compared as the floating-point numbers they stand for: a NaN passes every bound
check because it fails every comparison. Strings are kept as bytes, which need not be UTF-8:
a document may give any bytes as `!!binary` text. The settings are also laid out by name,
section by section in a fixed order, which is how they are read from and written to text.
-/

set_option autoImplicit false

namespace Courier.Config

/-- The bytes of a text. -/
def bytesOf (s : String) : List UInt8 := s.toUTF8.toList

/-- Whether a binary64 pattern is a NaN. -/
def isNaN (bits : Nat) : Bool := (bits / Nat.pow 2 52) % 2048 = 2047 && bits % Nat.pow 2 52 ≠ 0

/-- A key that orders non-NaN patterns as their numbers: both zeros map to zero. -/
def orderKey (bits : Nat) : Int :=
  let magnitude : Nat := bits % Nat.pow 2 63
  if (bits / Nat.pow 2 63) % 2 = 1 then -(magnitude : Int) else (magnitude : Int)

/-- `a < b` for binary64 patterns; false when either is a NaN. -/
def floatLt (a b : Nat) : Bool := !isNaN a && !isNaN b && orderKey a < orderKey b

/-- The pattern of `0.0`. -/
def zeroBits : Nat := 0

/-- The pattern of `1.0`. -/
def oneBits : Nat := 0x3FF0000000000000

/-- A nanosecond count per unit. -/
def millisecond : Int := 1000000

/-- One second in nanoseconds. -/
def second : Int := 1000000000

/-- How the worker pool is sized and named. -/
structure DispatcherSettings where
  label : List UInt8
  threads : Int
  lockOSThread : Bool
  timerSpinThreshold : Int
  shutdownTimeout : Int

/-- Context migration between workers. -/
structure BalancerSettings where
  enabled : Bool
  rebalanceInterval : Int

/-- Logging. -/
structure LogSettings where
  level : List UInt8
  format : List UInt8

/-- Telemetry export. -/
structure TelemetrySettings where
  metricsEnabled : Bool
  tracesEnabled : Bool
  otlpEndpoint : List UInt8
  serviceName : List UInt8
  serviceVersion : List UInt8
  traceSampleRate : Nat

/-- The ping-pong workload. -/
structure WorkloadSettings where
  pairs : Int
  messages : Int
  rate : Nat
  burst : Int

end Courier.Config

namespace Courier

/-- The whole configuration. -/
structure Config where
  dispatcher : Config.DispatcherSettings
  balancer : Config.BalancerSettings
  log : Config.LogSettings
  telemetry : Config.TelemetrySettings
  workload : Config.WorkloadSettings

end Courier

namespace Courier.Config

/-- The settings used when none are given. -/
def defaults : Config where
  dispatcher := ⟨bytesOf "dispatcher", 0, false, 100000, 30 * second⟩
  balancer := ⟨true, 0⟩
  log := ⟨bytesOf "info", bytesOf "text"⟩
  telemetry := ⟨false, false, bytesOf "localhost:4317", bytesOf "fluxdispatch", bytesOf "1.0.0",
    0x3FB999999999999A⟩
  workload := ⟨4, 10000, zeroBits, 100⟩

/-- The first rule a configuration breaks, if any. -/
def validate (c : Config) : Except String Unit :=
  let d := c.dispatcher
  let t := c.telemetry
  let w := c.workload
  if d.label.isEmpty then .error "dispatcher.label cannot be empty"
  else if d.threads < 0 then .error "dispatcher.threads cannot be negative"
  else if d.timerSpinThreshold < 0 || 10 * millisecond < d.timerSpinThreshold then
    .error "dispatcher.timer_spin_threshold must be between 0 and 10ms"
  else if d.shutdownTimeout < second then
    .error "dispatcher.shutdown_timeout must be at least 1 second"
  else if c.balancer.rebalanceInterval < 0 then
    .error "balancer.rebalance_interval cannot be negative"
  else if !((["debug", "info", "warn", "error"].map bytesOf).contains c.log.level) then
    .error "log.level must be one of: debug, info, warn, error"
  else if !((["text", "json"].map bytesOf).contains c.log.format) then
    .error "log.format must be one of: text, json"
  else if (t.metricsEnabled || t.tracesEnabled) && t.serviceName.isEmpty then
    .error "telemetry.service_name cannot be empty when telemetry enabled"
  else if (t.metricsEnabled || t.tracesEnabled) && t.otlpEndpoint.isEmpty then
    .error "telemetry.otlp_endpoint cannot be empty when telemetry enabled"
  else if floatLt t.traceSampleRate zeroBits || floatLt oneBits t.traceSampleRate then
    .error "telemetry.trace_sample_rate must be between 0.0 and 1.0"
  else if w.pairs < 0 then .error "workload.pairs cannot be negative"
  else if w.messages < 0 then .error "workload.messages cannot be negative"
  else if floatLt w.rate zeroBits then .error "workload.rate cannot be negative"
  else if floatLt zeroBits w.rate && w.burst < 1 then
    .error "workload.burst must be at least 1 when rate is set"
  else .ok ()

/-- What the dispatcher itself is given. -/
structure DispatchOptions where
  label : List UInt8
  threads : Int
  lockOSThread : Bool
  timerSpinThreshold : Int
  rebalanceInterval : Int

/-- The dispatcher's options drawn from a configuration. -/
def toDispatch (c : Config) : DispatchOptions :=
  ⟨c.dispatcher.label, c.dispatcher.threads, c.dispatcher.lockOSThread,
    c.dispatcher.timerSpinThreshold, c.balancer.rebalanceInterval⟩

/-- The kind of a setting's value. -/
inductive Kind where
  | text
  | int
  | duration
  | flag
  | real
deriving DecidableEq

/-- The type name a kind is reported under. -/
def Kind.typeName : Kind → String
  | .text => "string"
  | .int => "int"
  | .duration => "time.Duration"
  | .flag => "bool"
  | .real => "float64"

/-- A setting's value. -/
inductive Setting where
  | text (bytes : List UInt8)
  | int (i : Int)
  | duration (ns : Int)
  | flag (b : Bool)
  | real (bits : Nat)

/-- The sections of the configuration in order: name, type name, and settings with kinds. -/
def layout : List (String × String × List (String × Kind)) :=
  [("dispatcher", "config.DispatcherConfig",
      [("label", .text), ("threads", .int), ("lock_os_thread", .flag),
        ("timer_spin_threshold", .duration), ("shutdown_timeout", .duration)]),
    ("balancer", "config.BalancerConfig", [("enabled", .flag), ("rebalance_interval", .duration)]),
    ("log", "config.LogConfig", [("level", .text), ("format", .text)]),
    ("telemetry", "config.TelemetryConfig",
      [("metrics_enabled", .flag), ("traces_enabled", .flag), ("otlp_endpoint", .text),
        ("service_name", .text), ("service_version", .text), ("trace_sample_rate", .real)]),
    ("workload", "config.WorkloadConfig",
      [("pairs", .int), ("messages", .int), ("rate", .real), ("burst", .int)])]

/-- The type name of the whole configuration. -/
def rootTypeName : String := "config.Config"

/-- A setting by section and name. -/
def setting (c : Config) (sec name : String) : Option Setting :=
  match sec, name with
  | "dispatcher", "label" => some (.text c.dispatcher.label)
  | "dispatcher", "threads" => some (.int c.dispatcher.threads)
  | "dispatcher", "lock_os_thread" => some (.flag c.dispatcher.lockOSThread)
  | "dispatcher", "timer_spin_threshold" => some (.duration c.dispatcher.timerSpinThreshold)
  | "dispatcher", "shutdown_timeout" => some (.duration c.dispatcher.shutdownTimeout)
  | "balancer", "enabled" => some (.flag c.balancer.enabled)
  | "balancer", "rebalance_interval" => some (.duration c.balancer.rebalanceInterval)
  | "log", "level" => some (.text c.log.level)
  | "log", "format" => some (.text c.log.format)
  | "telemetry", "metrics_enabled" => some (.flag c.telemetry.metricsEnabled)
  | "telemetry", "traces_enabled" => some (.flag c.telemetry.tracesEnabled)
  | "telemetry", "otlp_endpoint" => some (.text c.telemetry.otlpEndpoint)
  | "telemetry", "service_name" => some (.text c.telemetry.serviceName)
  | "telemetry", "service_version" => some (.text c.telemetry.serviceVersion)
  | "telemetry", "trace_sample_rate" => some (.real c.telemetry.traceSampleRate)
  | "workload", "pairs" => some (.int c.workload.pairs)
  | "workload", "messages" => some (.int c.workload.messages)
  | "workload", "rate" => some (.real c.workload.rate)
  | "workload", "burst" => some (.int c.workload.burst)
  | _, _ => none

/-- Replaces a setting by section and name; a value of another kind changes nothing. -/
def withSetting (c : Config) (sec name : String) (v : Setting) : Config :=
  match sec, name, v with
  | "dispatcher", "label", .text s => { c with dispatcher.label := s }
  | "dispatcher", "threads", .int i => { c with dispatcher.threads := i }
  | "dispatcher", "lock_os_thread", .flag b => { c with dispatcher.lockOSThread := b }
  | "dispatcher", "timer_spin_threshold", .duration d => { c with dispatcher.timerSpinThreshold := d }
  | "dispatcher", "shutdown_timeout", .duration d => { c with dispatcher.shutdownTimeout := d }
  | "balancer", "enabled", .flag b => { c with balancer.enabled := b }
  | "balancer", "rebalance_interval", .duration d => { c with balancer.rebalanceInterval := d }
  | "log", "level", .text s => { c with log.level := s }
  | "log", "format", .text s => { c with log.format := s }
  | "telemetry", "metrics_enabled", .flag b => { c with telemetry.metricsEnabled := b }
  | "telemetry", "traces_enabled", .flag b => { c with telemetry.tracesEnabled := b }
  | "telemetry", "otlp_endpoint", .text s => { c with telemetry.otlpEndpoint := s }
  | "telemetry", "service_name", .text s => { c with telemetry.serviceName := s }
  | "telemetry", "service_version", .text s => { c with telemetry.serviceVersion := s }
  | "telemetry", "trace_sample_rate", .real r => { c with telemetry.traceSampleRate := r }
  | "workload", "pairs", .int i => { c with workload.pairs := i }
  | "workload", "messages", .int i => { c with workload.messages := i }
  | "workload", "rate", .real r => { c with workload.rate := r }
  | "workload", "burst", .int i => { c with workload.burst := i }
  | _, _, _ => c

end Courier.Config
