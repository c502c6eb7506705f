import InkCache.StringNumber

/-!
# Positive numbers from the environment (`src/network/env.ts`), and the timers they set

The four timers with a configured period are `setInterval` with what was read: in milliseconds, or
in seconds that are made milliseconds. `setInterval` is Node's.
-/

namespace InkCache

open Lib

/-- What an environment variable is read as, with the warning that is logged. -/
structure ParsedInt where
  value : Double
  warning : Option JsString
  deriving DecidableEq

def parsePositiveInt (envValue : Option JsString) (fallback : ℕ) (varName : JsString)
    (max : Option ℕ) : ParsedInt :=
  match envValue with
  | none => { value := .finite fallback, warning := none }
  | some s =>
    let n := JsString.number s
    if !n.isInteger || n.le (.finite 0) || max.any fun m : ℕ => !n.le (.finite m) then
      { value := .finite fallback
        warning := some (js "[inkcache] " ++ varName ++ js "=\"" ++ s ++
          js "\" is not a positive integer" ++
          (match max with | some max => js " <= " ++ JsString.ofNat max | none => []) ++
          js " — using default " ++ JsString.ofNat fallback) }
    else { value := n, warning := none }

/-! ## The periods (`src/network/server.ts`, `src/network/gateway-server.ts`) -/

/-- `PERSIST_INTERVAL_MS` -/
def persistIntervalMs (env : Option JsString) : Double :=
  (parsePositiveInt env 60 (js "INKCACHE_PERSIST_INTERVAL") none).value.mul (.finite 1000)

/-- `PRIMARY_MONITOR_INTERVAL_MS` -/
def primaryMonitorIntervalMs (env : Option JsString) : Double :=
  (parsePositiveInt env 2000 (js "INKCACHE_PRIMARY_MONITOR_INTERVAL") none).value

/-- `HEALTH_CHECK_INTERVAL_MS` -/
def healthCheckIntervalMs (env : Option JsString) : Double :=
  (parsePositiveInt env 2000 (js "INKCACHE_GATEWAY_HEALTH_INTERVAL") none).value

/-- `GATEWAY_SYNC_INTERVAL_MS` -/
def gatewaySyncIntervalMs (env : Option JsString) : Double :=
  (parsePositiveInt env 5000 (js "INKCACHE_GATEWAY_SYNC_INTERVAL") none).value

/-- `TIMEOUT_MAX` of Node. -/
def timeoutMax : ℕ := 2147483647

/-- The milliseconds between two calls of `setInterval(f, after)`: Node takes a delay that is out
of range for one. -/
def setIntervalPeriod (after : Double) : ℚ :=
  match after with
  | .finite q => if 1 ≤ q ∧ q ≤ timeoutMax then q else 1
  | _ => 1

/-- The timers whose period is configured. -/
inductive BackgroundTimer where
  /-- `startAutoPersist` -/
  | autoPersist
  /-- `startPrimaryMonitor` -/
  | primaryMonitor
  /-- `startHealthChecks` -/
  | healthChecks
  /-- `startGatewaySync` -/
  | gatewaySync
  deriving DecidableEq

namespace BackgroundTimer

/-- What the variable of the timer is read as. -/
def parsed (env : Option JsString) : BackgroundTimer → ParsedInt
  | autoPersist => parsePositiveInt env 60 (js "INKCACHE_PERSIST_INTERVAL") none
  | primaryMonitor => parsePositiveInt env 2000 (js "INKCACHE_PRIMARY_MONITOR_INTERVAL") none
  | healthChecks => parsePositiveInt env 2000 (js "INKCACHE_GATEWAY_HEALTH_INTERVAL") none
  | gatewaySync => parsePositiveInt env 5000 (js "INKCACHE_GATEWAY_SYNC_INTERVAL") none

def intervalMs (env : Option JsString) : BackgroundTimer → Double
  | autoPersist => persistIntervalMs env
  | primaryMonitor => primaryMonitorIntervalMs env
  | healthChecks => healthCheckIntervalMs env
  | gatewaySync => gatewaySyncIntervalMs env

/-- The milliseconds in the unit of the variable. -/
def unitMs : BackgroundTimer → ℕ
  | autoPersist => 1000
  | primaryMonitor | healthChecks | gatewaySync => 1

/-- The period the timer runs at. -/
def period (env : Option JsString) (t : BackgroundTimer) : ℚ := setIntervalPeriod (t.intervalMs env)

end BackgroundTimer

end InkCache
