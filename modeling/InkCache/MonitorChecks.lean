import InkCache.PrimaryMonitor

/-!
# The checks of one monitor (`src/network/primary-monitor.ts`)

The interval does not wait for the ping before, so several may be in flight, and each is answered
or times out when it does. Checks are numbered in the order in which they start; `completed` is a
history of those that are over.
-/

namespace InkCache

open Lib

structure MonitorChecks where
  monitor : PrimaryMonitor
  started : ℕ
  inFlight : List ℕ
  completed : List (ℕ × Bool)

inductive CheckAction where
  /-- The interval fires. -/
  | tick
  /-- The ping of a check finds the primary up or does not. -/
  | completed (check : ℕ) (ok : Bool)
  | stop

namespace MonitorChecks

/-- What `startPrimaryMonitor` returns. -/
def start (primaryUrl : JsString) : MonitorChecks where
  monitor := .start primaryUrl
  started := 0
  inFlight := []
  completed := []

/-- Reports what `onFailure` is called with. -/
def step (s : MonitorChecks) : CheckAction → Option (MonitorChecks × List ℕ)
  | .tick =>
    if s.monitor.running then
      some ({ s with started := s.started + 1, inFlight := s.inFlight ++ [s.started] }, [])
    else none
  | .completed check ok =>
    if check ∈ s.inFlight then
      let monitor := s.monitor.checked ok
      some ({ s with
        monitor
        inFlight := s.inFlight.erase check
        completed := s.completed ++ [(check, ok)] }, if ok then [] else [monitor.failures])
    else none
  | .stop => some ({ s with monitor := s.monitor.stop }, [])

/-- The failed checks that no successful one started after. -/
def streak (completed : List (ℕ × Bool)) : ℕ :=
  completed.countP fun e => e.2 = false ∧ ∀ e' ∈ completed, e'.2 = true → e'.1 < e.1

/-- The handle reports the check that started last of those that are completed, and the length of
the streak. -/
structure ReportsLatest (s : MonitorChecks) : Prop where
  healthy : ∀ e ∈ s.completed, (∀ e' ∈ s.completed, e'.1 ≤ e.1) → s.monitor.healthy = e.2
  failures : s.monitor.failures = streak s.completed

/-- A check that fails has no later one that succeeded before it; and none that failed is later than
one that succeeds, unless another has succeeded since. -/
def InOrder (completed : List (ℕ × Bool)) (check : ℕ) : Bool → Prop
  | true => ∀ e ∈ completed, e.2 = false → check < e.1 →
    ∃ e' ∈ completed, e'.2 = true ∧ e.1 < e'.1
  | false => ∀ e ∈ completed, e.2 = true → e.1 < check

instance (completed : List (ℕ × Bool)) (check : ℕ) : ∀ ok, Decidable (InOrder completed check ok)
  | true => inferInstanceAs (Decidable (∀ e ∈ completed, e.2 = false → check < e.1 →
    ∃ e' ∈ completed, e'.2 = true ∧ e.1 < e'.1))
  | false => inferInstanceAs (Decidable (∀ e ∈ completed, e.2 = true → e.1 < check))

def CompletesInOrder (s : MonitorChecks) : CheckAction → Prop
  | .completed check ok => InOrder s.completed check ok
  | .tick | .stop => True

instance (s : MonitorChecks) : ∀ a, Decidable (CompletesInOrder s a)
  | .completed check ok => inferInstanceAs (Decidable (InOrder s.completed check ok))
  | .tick | .stop => instDecidableTrue

end MonitorChecks

end InkCache
