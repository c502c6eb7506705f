import InkCache.Election
import InkCache.Lib.Ballot

/-!
# What the election messages do to a node

Whatever a node receives, its ballot advances; a vote it grants is then the vote of its term.
-/

namespace InkCache

open Lib

def ElectionState.ballot (s : ElectionState) : Ballot ℤ JsString := ⟨s.currentTerm, s.votedFor⟩

variable {t : ℤ} {c : JsString} {s : ElectionState} {n : Leadership}

theorem startElection_spec : s.startElection (· + 1) =
    ({ s with currentTerm := s.currentTerm + 1, votedFor := some s.selfId }, s.currentTerm + 1) :=
  rfl

/-- What a vote request does to the state: it is refused, or granted where no other vote was cast
in its term. -/
inductive VoteStep (t : ℤ) (c : JsString) (s : ElectionState) : ElectionState × VoteResult → Prop
  | refused (hle : t ≤ s.currentTerm) :
      VoteStep t c s (s, { voteGranted := false, term := s.currentTerm })
  | granted (hle : s.currentTerm ≤ t)
      (hfree : s.currentTerm = t → s.votedFor = none ∨ s.votedFor = some c) :
      VoteStep t c s
        ({ s with currentTerm := t, votedFor := some c }, { voteGranted := true, term := t })

theorem voteStep (t : ℤ) (c : JsString) (s : ElectionState) :
    VoteStep t c s (s.requestVote t c) := by
  unfold ElectionState.requestVote
  rcases lt_trichotomy t s.currentTerm with h | rfl | h
  · rw [if_pos h]
    exact .refused h.le
  · simp only [lt_self_iff_false, if_false]
    split_ifs with hv
    · exact .granted le_rfl fun _ => hv
    · exact .refused le_rfl
  · simp only [if_neg h.not_gt, if_pos h, true_or, if_true]
    exact .granted h.le fun he => absurd he h.ne

theorem observeTerm_advances (t : ℤ) (c : Option JsString) (s : ElectionState) :
    s.ballot.Advances (s.observeTerm t c).ballot := by
  unfold ElectionState.observeTerm
  split_ifs with h
  · exact .inl h
  · exact .refl _

theorem observeTerm_term (h : s.currentTerm ≤ t) (c : Option JsString) :
    (s.observeTerm t c).currentTerm = t := by
  unfold ElectionState.observeTerm
  split_ifs with hlt
  · rfl
  · exact le_antisymm h (not_lt.1 hlt)

theorem startElection_advances (s : ElectionState) :
    s.ballot.Advances (s.startElection (· + 1)).1.ballot :=
  .inl (by simp [startElection_spec, ElectionState.ballot])

/-! ## The routes -/

/-- A vote request leaves the node as it was, or is granted; a primary that grants one for a later
term steps down. -/
inductive VoteRouteStep (t : ℤ) (c : JsString) (n : Leadership) : Leadership → Bool → Prop
  | refused (h : c = [] ∨ t < 0 ∨ t ≤ n.election.currentTerm) : VoteRouteStep t c n n false
  | granted (hc : c ≠ []) (hle : n.election.currentTerm ≤ t)
      (hfree : n.election.currentTerm = t → n.election.votedFor = none ∨
        n.election.votedFor = some c) (role : Role)
      (hrole : role = .primary → n.role = .primary ∧ n.election.currentTerm = t) :
      VoteRouteStep t c n
        { n with role, election := { n.election with currentTerm := t, votedFor := some c } } true

theorem voteRouteStep (t : ℤ) (c : JsString) (n : Leadership) :
    VoteRouteStep t c n (n.requestVote t c).1 (n.requestVote t c).2.grants := by
  unfold Leadership.requestVote
  split_ifs with ht hc
  · exact .refused (.inr (.inl ht))
  · exact .refused (.inl (List.length_eq_zero_iff.1 hc))
  · have hne : c ≠ [] := fun h => hc (List.length_eq_zero_iff.2 h)
    generalize hr : n.election.requestVote t c = r
    have hstep := voteStep t c n.election
    rw [hr] at hstep
    cases hstep with
    | refused hle =>
      simp only [Bool.false_eq_true, false_and, if_false]
      exact .refused (.inr (.inr hle))
    | granted hle hfree =>
      simp only [true_and]
      split_ifs with hdown
      · exact .granted hne hle hfree .replica (by simp)
      · refine .granted hne hle hfree n.role fun hp => ⟨hp, le_antisymm hle ?_⟩
        exact not_lt.1 fun hlt => hdown ⟨hlt, hp⟩

/-- An announcement is refused, or adopted if it is not behind the node's term. -/
inductive LeaderRouteStep (t : ℤ) (url : JsString) (n : Leadership) :
    Leadership → Bool → Prop
  | refused : LeaderRouteStep t url n n false
  | adopted (hle : n.election.currentTerm ≤ t) :
      LeaderRouteStep t url n
        { role := .replica, primaryUrl := some url, replicaUrls := [],
          election := n.election.observeTerm t (some url) } true

theorem leaderRouteStep (t : ℤ) (url : JsString) (n : Leadership) :
    LeaderRouteStep t url n (n.leader t url).1 (n.leader t url).2.isAdopted := by
  unfold Leadership.leader
  split_ifs with ht hu hs
  · exact .refused
  · exact .refused
  · exact .refused
  · exact .adopted (not_lt.1 hs)

end InkCache
