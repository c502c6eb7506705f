import InkCache.PrimaryMonitor

/-!
# How a replica takes over

What the log of a process that watches its primary says of its elections. The checks of a monitor
that fail are logged with the number of those that have failed in a row; a success is not logged,
and shows in the next failure, which is number one again.
-/

namespace InkCache

open Lib

namespace MonitorEvent

/-- An election is started or won. -/
def isElection : MonitorEvent → Bool
  | campaigned _ _ | promoted _ => true
  | _ => false

end MonitorEvent

/-- What a monitor has called `onFailure` with. -/
def failuresOf (handle : ℕ) (log : List MonitorEvent) : List ℕ :=
  log.filterMap fun
    | .failed k n => if k = handle then some n else none
    | _ => none

/-- The terms that were campaigned in. -/
def campaignTerms (log : List MonitorEvent) : List ℤ :=
  log.filterMap fun
    | .campaigned _ term => some term
    | _ => none

/-- What is called in the course of `n` failures in a row. -/
def inARow (n : ℕ) : List ℕ := (List.range n).map (· + 1)

/-- A campaign is started right after the last of so many failures of its monitor in a row. -/
def NotPremature (threshold : ℕ) (log : List MonitorEvent) : Prop :=
  ∀ before handle term after, log = before ++ .campaigned handle term :: after →
    ∃ n ≥ threshold, before.getLast? = some (.failed handle n) ∧
      ∃ earlier, failuresOf handle before = earlier ++ inARow n

/-- The node is promoted in the term that it campaigned in last, and once for a campaign. -/
def PromotedByCampaign (log : List MonitorEvent) : Prop :=
  ∀ before term after, log = before ++ .promoted term :: after →
    ∃ b handle a, before = b ++ .campaigned handle term :: a ∧ ∀ e ∈ a, e.isElection = false

/-- No ping of the monitor finds the primary up, no other candidate or leader is heard, and an
election that is concluded has a majority of the votes. -/
def Unopposed (C : MonitorConfig) (handle : ℕ) (s : FollowerProcess) : MonitorAction → Prop
  | .answered i ok => s.checks[i]? = some handle → ok = false
  | .conclude grants => hasMajority (1 + grants.count true) (C.peerUrls.length + 1) = true
  | .leader _ _ | .requestVote _ _ => False
  | _ => True

instance (C : MonitorConfig) (handle : ℕ) (s : FollowerProcess) :
    ∀ a, Decidable (Unopposed C handle s a)
  | .answered i ok => inferInstanceAs (Decidable (s.checks[i]? = some handle → ok = false))
  | .conclude grants => inferInstanceAs
      (Decidable (hasMajority (1 + grants.count true) (C.peerUrls.length + 1) = true))
  | .leader _ _ | .requestVote _ _ => instDecidableFalse
  | .tick _ | .stop _ | .promote _ => instDecidableTrue

end InkCache
