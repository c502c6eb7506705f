import InkCache.Election
import InkCache.Lib.RoundEven
import InkCache.Lib.Run

/-!
# Terms as doubles (`src/core/election.ts`)

The routes accept every number that `Number.isInteger` does and that is not negative; as doubles
these have 53 bits, and `currentTerm++` adds in double arithmetic.
-/

namespace InkCache

open Lib

/-- A whole number that is a double, and not negative. -/
def IsTerm (t : ℤ) : Prop := 0 ≤ t ∧ Representable 53 t.toNat

instance : DecidablePred IsTerm := fun _ => instDecidableAnd

/-- `t + 1` for such a number. -/
def doubleAddOne (t : ℤ) : ℤ := roundEven 53 (t.toNat + 1)

/-! ## Runs -/

inductive ElectionAction where
  | requestVote (term : ℤ) (candidateId : JsString)
  | observeTerm (term : ℤ) (candidateId : Option JsString)
  | startElection

/-- Reports the votes that are granted, and those that the node casts for itself. -/
def electionStep (s : ElectionState) :
    ElectionAction → Option (ElectionState × List (ℤ × JsString))
  | .requestVote term candidateId =>
    let r := s.requestVote term candidateId
    some (r.1, if r.2.voteGranted then [(r.2.term, candidateId)] else [])
  | .observeTerm term candidateId => some (s.observeTerm term candidateId, [])
  | .startElection =>
    let r := s.startElection doubleAddOne
    some (r.1, [(r.2, s.selfId)])

/-- The terms of the messages are ones that the routes accept. -/
def Accepted (_ : ElectionState) : ElectionAction → Prop
  | .requestVote term _ => IsTerm term
  | .observeTerm term _ => IsTerm term
  | .startElection => True

instance (s : ElectionState) : ∀ a, Decidable (Accepted s a)
  | .requestVote term _ => inferInstanceAs (Decidable (IsTerm term))
  | .observeTerm term _ => inferInstanceAs (Decidable (IsTerm term))
  | .startElection => instDecidableTrue

/-- The double after the term is another. -/
def CanAdvance (t : ℤ) : Prop := t < 2 ^ 53 ∨ t < 2 ^ 54 ∧ t % 4 = 2

instance : DecidablePred CanAdvance := fun _ => instDecidableOr

/-- An election starts only where the term can advance. -/
def AcceptedAdvancing (s : ElectionState) : ElectionAction → Prop
  | .requestVote term _ => IsTerm term
  | .observeTerm term _ => IsTerm term
  | .startElection => CanAdvance s.currentTerm

instance (s : ElectionState) : ∀ a, Decidable (AcceptedAdvancing s a)
  | .requestVote term _ => inferInstanceAs (Decidable (IsTerm term))
  | .observeTerm term _ => inferInstanceAs (Decidable (IsTerm term))
  | .startElection => inferInstanceAs (Decidable (CanAdvance s.currentTerm))

end InkCache
