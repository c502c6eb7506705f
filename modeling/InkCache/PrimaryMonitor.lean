import InkCache.Election
import InkCache.Lib.Run

/-!
# Watching the primary (`src/network/primary-monitor.ts`, and `src/network/server.ts`)

A monitor is what one call of `startPrimaryMonitor` keeps; a process keeps those it has started, in
order, and a handle names one of them by its place. `checks` are the pings in flight, each with its
monitor: a ping is answered at any later time, whether or not its monitor was stopped since. The
votes of the peers arrive when an election is concluded.
-/

namespace InkCache

open Lib

/-- `running` is whether the interval is set. -/
structure PrimaryMonitor where
  primaryUrl : JsString
  running : Bool
  healthy : Bool
  failures : ℕ
  deriving DecidableEq

namespace PrimaryMonitor

def start (primaryUrl : JsString) : PrimaryMonitor where
  primaryUrl := primaryUrl
  running := true
  healthy := true
  failures := 0

def stop (m : PrimaryMonitor) : PrimaryMonitor := { m with running := false }

/-- The rest of `check` once its ping has been answered, up to the callback. -/
def checked (ok : Bool) (m : PrimaryMonitor) : PrimaryMonitor :=
  if ok then { m with healthy := true, failures := 0 }
  else { m with healthy := false, failures := m.failures + 1 }

end PrimaryMonitor

/-- `AUTO_PROMOTE`, `AUTO_PROMOTE_THRESHOLD` and `PEER_URLS`. -/
structure MonitorConfig where
  autoPromote : Bool
  autoPromoteThreshold : ℕ
  peerUrls : List JsString

/-- The part of a process that follows its primary. `electionInFlight` has the term of the election
that is under way. Terms are taken as integers: `startElection` adds doubles, and from `2 ^ 53` on
`+ 1` no longer changes them. -/
structure FollowerProcess where
  monitors : List PrimaryMonitor
  primaryMonitorHandle : Option ℕ
  checks : List ℕ
  electionInFlight : Option ℤ
  leadership : Leadership
  deriving DecidableEq

inductive MonitorEvent where
  /-- `stop()` of a handle, with what the handle reports then. -/
  | stopped (handle : ℕ) (healthy : Bool) (failures : ℕ)
  /-- `onFailure` is called by the monitor. -/
  | failed (handle : ℕ) (consecutiveFailures : ℕ)
  /-- The callback of the monitor starts an election. -/
  | campaigned (handle : ℕ) (term : ℤ)
  | promoted (term : ℤ)
  | adopted (primaryUrl : JsString)
  deriving DecidableEq

inductive MonitorAction where
  /-- The interval of a monitor fires. -/
  | tick (handle : ℕ)
  /-- The ping at a place of `checks` is answered. -/
  | answered (i : ℕ) (ok : Bool)
  | stop (handle : ℕ)
  /-- Every peer of an election has granted its vote, or has not. -/
  | conclude (grants : List Bool)
  /-- `POST /election/leader` -/
  | leader (term : ℤ) (primaryUrl : JsString)
  /-- `POST /election/request-vote` -/
  | requestVote (term : ℤ) (candidateId : JsString)
  /-- `POST /promote` -/
  | promote (replicaUrls : List JsString)

namespace FollowerProcess

variable (C : MonitorConfig)

def setMonitor (handle : ℕ) (m : PrimaryMonitor) (s : FollowerProcess) : FollowerProcess :=
  { s with monitors := s.monitors.set handle m }

def stop (handle : ℕ) (s : FollowerProcess) : FollowerProcess × List MonitorEvent :=
  match s.monitors[handle]? with
  | none => (s, [])
  | some m => (s.setMonitor handle m.stop, [.stopped handle m.healthy m.failures])

/-- `primaryMonitorHandle?.stop()` -/
def stopCurrent (s : FollowerProcess) : FollowerProcess × List MonitorEvent :=
  match s.primaryMonitorHandle with
  | none => (s, [])
  | some handle => s.stop handle

def attachPrimaryMonitor (primaryUrl : JsString) (s : FollowerProcess) :
    FollowerProcess × List MonitorEvent :=
  let r := s.stopCurrent
  ({ r.1 with
    monitors := r.1.monitors ++ [.start primaryUrl]
    primaryMonitorHandle := some r.1.monitors.length }, r.2)

/-- `campaignForPrimary` up to its first `await`, called by the monitor. -/
def campaignForPrimary (handle : ℕ) (s : FollowerProcess) :
    FollowerProcess × List MonitorEvent :=
  if s.electionInFlight.isSome then (s, [])
  else
    let r := s.leadership.election.startElection (· + 1)
    ({ s with
      leadership := { s.leadership with election := r.1 }
      electionInFlight := some r.2 }, [.campaigned handle r.2])

/-- The callback that `attachPrimaryMonitor` gives a monitor, if any. -/
def onFailure (handle consecutiveFailures : ℕ) (s : FollowerProcess) :
    FollowerProcess × List MonitorEvent :=
  if C.autoPromote then
    let r := if consecutiveFailures < C.autoPromoteThreshold then (s, [])
      else s.campaignForPrimary handle
    (r.1, .failed handle consecutiveFailures :: r.2)
  else (s, [])

/-- The rest of `check` once its ping has been answered. -/
def checked (handle : ℕ) (ok : Bool) (s : FollowerProcess) :
    FollowerProcess × List MonitorEvent :=
  match s.monitors[handle]? with
  | none => (s, [])
  | some m =>
    let m := m.checked ok
    let s := s.setMonitor handle m
    if ok then (s, []) else s.onFailure C handle m.failures

/-- The rest of `campaignForPrimary`. -/
def conclude (term : ℤ) (grants : List Bool) (s : FollowerProcess) :
    FollowerProcess × List MonitorEvent :=
  let s := { s with electionInFlight := none }
  let votes := 1 + grants.count true
  let promotion := s.leadership.promoteToPrimary C.peerUrls
  if hasMajority votes (C.peerUrls.length + 1) && promotion.2 then
    let r := { s with leadership := promotion.1 }.stopCurrent
    (r.1, .promoted term :: r.2)
  else (s, [])

def leader (term : ℤ) (primaryUrl : JsString) (s : FollowerProcess) :
    FollowerProcess × List MonitorEvent :=
  let r := s.leadership.leader term primaryUrl
  let s := { s with leadership := r.1 }
  if r.2.isAdopted then
    let r := s.attachPrimaryMonitor primaryUrl
    (r.1, r.2 ++ [.adopted primaryUrl])
  else (s, [])

def step (s : FollowerProcess) : MonitorAction → Option (FollowerProcess × List MonitorEvent)
  | .tick handle =>
    match s.monitors[handle]? with
    | none => none
    | some m => if m.running then some ({ s with checks := s.checks ++ [handle] }, []) else none
  | .answered i ok =>
    match s.checks[i]? with
    | none => none
    | some handle => some ({ s with checks := s.checks.eraseIdx i }.checked C handle ok)
  | .stop handle => some (s.stop handle)
  | .conclude grants =>
    match s.electionInFlight with
    | none => none
    | some term =>
      if grants.length = C.peerUrls.length then some (s.conclude C term grants) else none
  | .leader term primaryUrl => some (s.leader term primaryUrl)
  | .requestVote term candidateId =>
    some ({ s with leadership := (s.leadership.requestVote term candidateId).1 }, [])
  | .promote replicaUrls =>
    some ({ s with leadership := (s.leadership.promoteToPrimary replicaUrls).1 }, [])

/-- A process with nothing to watch, before `start` has attached a monitor. -/
def boot (leadership : Leadership) : FollowerProcess where
  monitors := []
  primaryMonitorHandle := none
  checks := []
  electionInFlight := none
  leadership := leadership

/-- What `start` leaves: a replica that knows its primary watches it. -/
def started (leadership : Leadership) : FollowerProcess :=
  match leadership.role, leadership.primaryUrl with
  | .primary, _ | _, none | _, some [] => boot leadership
  | .replica, some primaryUrl => ((boot leadership).attachPrimaryMonitor primaryUrl).1

end FollowerProcess

/-! ## Silence -/

/-- A ping of a stopped monitor finds the primary up, which it was at the check before as well. -/
def LateChecksAgree (s : FollowerProcess) : MonitorAction → Prop
  | .answered i ok => ∀ handle ∈ s.checks[i]?, ∀ m ∈ s.monitors[handle]?,
    m.running = false → ok = true ∧ m.failures = 0
  | _ => True

instance (s : FollowerProcess) : ∀ a, Decidable (LateChecksAgree s a)
  | .answered i ok => inferInstanceAs (Decidable (∀ handle ∈ s.checks[i]?,
      ∀ m ∈ s.monitors[handle]?, m.running = false → ok = true ∧ m.failures = 0))
  | .tick _ | .stop _ | .conclude _ | .leader _ _ | .requestVote _ _ | .promote _ =>
    instDecidableTrue

/-- Since a monitor was stopped, it has not called `onFailure` and started no election, and its
handle reports what it reported then. -/
def StaysSilent (log : List MonitorEvent) (s : FollowerProcess) : Prop :=
  ∀ before handle healthy failures after,
    log = before ++ .stopped handle healthy failures :: after →
    (∀ n, .failed handle n ∉ after) ∧ (∀ term, .campaigned handle term ∉ after) ∧
      ∃ m, s.monitors[handle]? = some m ∧ m.healthy = healthy ∧ m.failures = failures

end InkCache
