import Courier.Config.Basic
import Courier.Dispatch.State

/-!
# What a valid configuration is

Validation checks the configuration's settings one rule after another and reports the first rule
broken, by a message that begins with the path of the setting. The rules on the two real
numbers, the trace sample rate and the workload rate, are comparisons of binary64 numbers, and a
comparison with a NaN is false: so a NaN breaks neither of their bounds, and a configuration
whose rate is a NaN passes.

- `checks`, `firstBroken`: the rules in the order they are checked, each with its message, and
  the first one broken; `validate_eq_firstBroken`: validation reports the first broken rule;
- `validate_error_names_setting`: a failed validation names a setting of the configuration;
- `Valid`: the rules in the words of their documentation, the real numbers bounded unless they are
  a NaN; `validate_eq_ok_iff`: validation passes exactly on the configurations that keep them;
  `validate_defaults`: the defaults keep them;
- `nan_sample_rate_passes`: a NaN trace sample rate passes validation, so a validated rate need
  not be a number in `[0, 1]`;
- `Valid.dispatch_validate`, `Valid.dispatch_create`: the dispatcher's options drawn from a valid
  configuration pass the dispatcher's own check, and an engine is made from them.
-/

set_option autoImplicit false

namespace Courier.Config

/-! ## The rules in the order they are checked -/

/-- The rules in the order validation checks them: whether the configuration breaks each, and the
message that reports it. -/
def checks (c : Config) : List (Bool × String) :=
  let d := c.dispatcher
  let t := c.telemetry
  let w := c.workload
  [(d.label.isEmpty, "dispatcher.label cannot be empty"),
    (decide (d.threads < 0), "dispatcher.threads cannot be negative"),
    (d.timerSpinThreshold < 0 || 10 * millisecond < d.timerSpinThreshold,
      "dispatcher.timer_spin_threshold must be between 0 and 10ms"),
    (decide (d.shutdownTimeout < second), "dispatcher.shutdown_timeout must be at least 1 second"),
    (decide (c.balancer.rebalanceInterval < 0), "balancer.rebalance_interval cannot be negative"),
    (!((["debug", "info", "warn", "error"].map bytesOf).contains c.log.level),
      "log.level must be one of: debug, info, warn, error"),
    (!((["text", "json"].map bytesOf).contains c.log.format), "log.format must be one of: text, json"),
    ((t.metricsEnabled || t.tracesEnabled) && t.serviceName.isEmpty,
      "telemetry.service_name cannot be empty when telemetry enabled"),
    ((t.metricsEnabled || t.tracesEnabled) && t.otlpEndpoint.isEmpty,
      "telemetry.otlp_endpoint cannot be empty when telemetry enabled"),
    (floatLt t.traceSampleRate zeroBits || floatLt oneBits t.traceSampleRate,
      "telemetry.trace_sample_rate must be between 0.0 and 1.0"),
    (decide (w.pairs < 0), "workload.pairs cannot be negative"),
    (decide (w.messages < 0), "workload.messages cannot be negative"),
    (floatLt w.rate zeroBits, "workload.rate cannot be negative"),
    (floatLt zeroBits w.rate && decide (w.burst < 1),
      "workload.burst must be at least 1 when rate is set")]

/-- The message of the first rule broken, if any. -/
def firstBroken : List (Bool × String) → Except String Unit
  | [] => .ok ()
  | (b, m) :: rest => if b then .error m else firstBroken rest

/-- Validation reports the first rule broken. -/
theorem validate_eq_firstBroken (c : Config) : c.validate = firstBroken (checks c) := by
  simp only [validate, checks, firstBroken, decide_eq_true_eq]

theorem firstBroken_eq_ok_iff (l : List (Bool × String)) :
    firstBroken l = .ok () ↔ ∀ x ∈ l, x.1 = false := by
  induction l with
  | nil => simp [firstBroken]
  | cons x l ih =>
    obtain ⟨b, m⟩ := x
    cases b <;> simp [firstBroken, ih]

theorem firstBroken_eq_error {l : List (Bool × String)} {m : String} (h : firstBroken l = .error m) :
    ∃ x ∈ l, x.1 = true ∧ x.2 = m := by
  induction l with
  | nil => simp [firstBroken] at h
  | cons x l ih =>
    obtain ⟨b, m'⟩ := x
    cases b with
    | true =>
      simp only [firstBroken, if_true, Except.error.injEq] at h
      exact ⟨(true, m'), by simp, rfl, h⟩
    | false =>
      obtain ⟨y, hy, hb, hm⟩ := ih (by simpa [firstBroken] using h)
      exact ⟨y, by simp [hy], hb, hm⟩

/-- Every rule's message begins with the path of a setting of the configuration. -/
theorem checks_name_settings (c : Config) :
    ∀ x ∈ checks c, ∃ sec name, (c.setting sec name).isSome ∧ x.2.startsWith (sec ++ "." ++ name) := by
  simp only [checks, List.forall_mem_cons, List.not_mem_nil, false_imp_iff, forall_const, and_true]
  exact ⟨⟨"dispatcher", "label", rfl, by decide +kernel⟩,
    ⟨"dispatcher", "threads", rfl, by decide +kernel⟩,
    ⟨"dispatcher", "timer_spin_threshold", rfl, by decide +kernel⟩,
    ⟨"dispatcher", "shutdown_timeout", rfl, by decide +kernel⟩,
    ⟨"balancer", "rebalance_interval", rfl, by decide +kernel⟩,
    ⟨"log", "level", rfl, by decide +kernel⟩,
    ⟨"log", "format", rfl, by decide +kernel⟩,
    ⟨"telemetry", "service_name", rfl, by decide +kernel⟩,
    ⟨"telemetry", "otlp_endpoint", rfl, by decide +kernel⟩,
    ⟨"telemetry", "trace_sample_rate", rfl, by decide +kernel⟩,
    ⟨"workload", "pairs", rfl, by decide +kernel⟩,
    ⟨"workload", "messages", rfl, by decide +kernel⟩,
    ⟨"workload", "rate", rfl, by decide +kernel⟩,
    ⟨"workload", "burst", rfl, by decide +kernel⟩⟩

/-- A failed validation names, at the start of its message, the setting whose rule it broke. -/
theorem validate_error_names_setting {c : Config} {m : String} (h : c.validate = .error m) :
    ∃ sec name, (c.setting sec name).isSome ∧ m.startsWith (sec ++ "." ++ name) := by
  rw [validate_eq_firstBroken] at h
  obtain ⟨x, hx, -, rfl⟩ := firstBroken_eq_error h
  exact checks_name_settings c x hx

/-! ## The rules in the words of their documentation -/

/-- `a ≤ b` for binary64 patterns; false when either is a NaN. -/
def floatLe (a b : Nat) : Bool := !isNaN a && !isNaN b && decide (orderKey a ≤ orderKey b)

theorem isNaN_zeroBits : isNaN zeroBits = false := by decide

theorem isNaN_oneBits : isNaN oneBits = false := by decide

/-- A strict comparison fails exactly when one side is a NaN or the reverse comparison holds. -/
theorem floatLt_eq_false_iff (a b : Nat) :
    floatLt a b = false ↔ isNaN a = true ∨ isNaN b = true ∨ floatLe b a = true := by
  unfold floatLt floatLe
  cases isNaN a <;> cases isNaN b <;> simp

/-- Neither below `lo` nor above `hi`, compared as binary64 numbers: a NaN, or a number between
them. -/
theorem bounded_iff {x lo hi : Nat} (hlo : isNaN lo = false) (hhi : isNaN hi = false) :
    (floatLt x lo || floatLt hi x) = false ↔
      isNaN x = true ∨ (floatLe lo x = true ∧ floatLe x hi = true) := by
  rw [Bool.or_eq_false_iff, floatLt_eq_false_iff, floatLt_eq_false_iff, hlo, hhi]
  cases isNaN x <;> simp

/-- The documented rules of a configuration. The real numbers are compared as binary64 numbers,
so a NaN keeps their rules. -/
structure Valid (c : Config) : Prop where
  label : c.dispatcher.label ≠ []
  threads : 0 ≤ c.dispatcher.threads
  spin : 0 ≤ c.dispatcher.timerSpinThreshold ∧ c.dispatcher.timerSpinThreshold ≤ 10 * millisecond
  shutdown : second ≤ c.dispatcher.shutdownTimeout
  rebalance : 0 ≤ c.balancer.rebalanceInterval
  level : c.log.level ∈ ["debug", "info", "warn", "error"].map bytesOf
  format : c.log.format ∈ ["text", "json"].map bytesOf
  /-- Exported telemetry names its service and its endpoint. -/
  service : (c.telemetry.metricsEnabled || c.telemetry.tracesEnabled) = true → c.telemetry.serviceName ≠ []
  endpoint : (c.telemetry.metricsEnabled || c.telemetry.tracesEnabled) = true →
    c.telemetry.otlpEndpoint ≠ []
  sampleRate : isNaN c.telemetry.traceSampleRate = true ∨
    (floatLe zeroBits c.telemetry.traceSampleRate = true ∧
      floatLe c.telemetry.traceSampleRate oneBits = true)
  pairs : 0 ≤ c.workload.pairs
  messages : 0 ≤ c.workload.messages
  rate : isNaN c.workload.rate = true ∨ floatLe zeroBits c.workload.rate = true
  /-- A rate above zero comes with a burst of at least one. -/
  burst : floatLt zeroBits c.workload.rate = true → 1 ≤ c.workload.burst

theorem not_contains_eq_false {l : List (List UInt8)} {a : List UInt8} :
    (!l.contains a) = false ↔ a ∈ l := by
  simp only [Bool.not_eq_false', List.contains_iff_mem]

theorem and_isEmpty_eq_false {b : Bool} {l : List UInt8} : (b && l.isEmpty) = false ↔ (b = true → l ≠ []) := by
  cases b <;> simp

theorem and_lt_one_eq_false {b : Bool} {x : Int} : (b && decide (x < 1)) = false ↔ (b = true → 1 ≤ x) := by
  cases b <;> simp

/-- Each check passes exactly when its documented rule is kept. -/
theorem forall_checks_iff (c : Config) : (∀ x ∈ checks c, x.1 = false) ↔ c.Valid := by
  have hsample := bounded_iff (x := c.telemetry.traceSampleRate) isNaN_zeroBits isNaN_oneBits
  have hrate : floatLt c.workload.rate zeroBits = false ↔
      isNaN c.workload.rate = true ∨ floatLe zeroBits c.workload.rate = true := by
    rw [floatLt_eq_false_iff, isNaN_zeroBits]; simp
  -- each check, read as the rule it keeps
  simp only [checks, List.forall_mem_cons, List.not_mem_nil, false_imp_iff, forall_const, and_true,
    not_contains_eq_false, and_isEmpty_eq_false, and_lt_one_eq_false, hsample, hrate,
    List.isEmpty_eq_false_iff, decide_eq_false_iff_not, Bool.or_eq_false_iff, Int.not_lt]
  constructor
  · rintro ⟨hlabel, hthreads, hspin, hshutdown, hrebalance, hlevel, hformat, hname, hendpoint,
      hsample, hpairs, hmessages, hrate, hburst⟩
    exact ⟨hlabel, hthreads, hspin, hshutdown, hrebalance, hlevel, hformat, hname, hendpoint,
      hsample, hpairs, hmessages, hrate, hburst⟩
  · intro hv
    exact ⟨hv.label, hv.threads, hv.spin, hv.shutdown, hv.rebalance, hv.level, hv.format,
      hv.service, hv.endpoint, hv.sampleRate, hv.pairs, hv.messages, hv.rate, hv.burst⟩

/-- Validation passes exactly on the configurations that keep the documented rules. -/
theorem validate_eq_ok_iff (c : Config) : c.validate = .ok () ↔ c.Valid := by
  rw [validate_eq_firstBroken, firstBroken_eq_ok_iff, forall_checks_iff]

/-- The defaults keep every rule. -/
theorem validate_defaults : defaults.validate = .ok () := by
  rw [validate_eq_firstBroken, firstBroken_eq_ok_iff]
  decide +kernel

/-! ## A NaN rate -/

/-- A NaN, as the text `.nan` gives it. -/
def nanBits : Nat := 0x7FF8000000000001

/-- Validation passes a configuration whose trace sample rate is a NaN: the bound checks compare
with `<` and `>`, which a NaN fails both. So the sample rate of a validated configuration need not
be a number in `[0, 1]`. -/
theorem nan_sample_rate_passes :
    let c : Config := { defaults with telemetry := { defaults.telemetry with traceSampleRate := nanBits } }
    c.validate = .ok () ∧ isNaN c.telemetry.traceSampleRate = true ∧
      ¬ (floatLe zeroBits c.telemetry.traceSampleRate = true ∧
        floatLe c.telemetry.traceSampleRate oneBits = true) := by
  refine ⟨?_, by decide, by decide⟩
  rw [validate_eq_firstBroken, firstBroken_eq_ok_iff]
  decide +kernel

/-! ## The dispatcher's own check -/

/-- The settings a dispatcher is made from, drawn from its options under a label given as text;
whether workers are bound to their threads is not one of them. -/
def DispatchOptions.settings (o : DispatchOptions) (label : String) : Dispatch.Settings :=
  ⟨label, o.threads, o.timerSpinThreshold, o.rebalanceInterval⟩

/-- The dispatcher's options drawn from a valid configuration pass the dispatcher's own check:
its thread count, spin threshold and rebalance interval are none of them negative. -/
theorem Valid.dispatch_validate {c : Config} (h : c.Valid) (label : String) :
    (c.toDispatch.settings label).validate = .ok () := by
  have ht : ¬ c.dispatcher.threads < 0 := Int.not_lt.mpr h.threads
  have hs : ¬ c.dispatcher.timerSpinThreshold < 0 := Int.not_lt.mpr h.spin.1
  have hr : ¬ c.balancer.rebalanceInterval < 0 := Int.not_lt.mpr h.rebalance
  simp [Dispatch.Settings.validate, DispatchOptions.settings, toDispatch, ht, hs, hr]

/-- An engine is made from the dispatcher's options of a valid configuration, whatever the label,
the processor count and the rest of what it is made with. -/
theorem Valid.dispatch_create {c : Config} (h : c.Valid) (label : String) (cpus : Nat)
    (b : Dispatch.Balancer Nat) (failAt : Option Nat) (tag : String) (clock : Int) :
    ∃ e, Dispatch.Engine.create (c.toDispatch.settings label) cpus b failAt tag clock = .ok e := by
  unfold Dispatch.Engine.create
  rw [h.dispatch_validate label]
  exact ⟨_, rfl⟩

end Courier.Config
