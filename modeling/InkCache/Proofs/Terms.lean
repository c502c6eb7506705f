import InkCache.Proofs.Election
import InkCache.Terms

/-!
# Where terms stop

From `2 ^ 53` on adding one to a term may give the term itself (`lt_doubleAddOne_iff`). As long as
it does not, a node that stands for election moves its ballot on, and so never changes a vote.
-/

namespace InkCache

open Lib

variable {t : ℤ} {c selfId : JsString} {s : ElectionState} {log : List (ℤ × JsString)}

theorem lt_doubleAddOne_iff (ht : IsTerm t) : t < doubleAddOne t ↔ CanAdvance t := by
  obtain ⟨n, rfl⟩ := Int.eq_ofNat_of_zero_le ht.1
  have h := lt_roundEven_succ_iff (by norm_num) ht.2
  rw [Int.toNat_natCast] at h
  unfold doubleAddOne CanAdvance
  rw [Int.toNat_natCast, Nat.cast_lt, h]
  norm_num
  omega

theorem isTerm_doubleAddOne (t : ℤ) : IsTerm (doubleAddOne t) :=
  ⟨Int.natCast_nonneg _, by
    rw [doubleAddOne, Int.toNat_natCast]
    exact representable_roundEven (by norm_num) _⟩

/-- What a step does to the term, and to the ballot if it does not start an election. -/
inductive ElectionStep (s : ElectionState) : ElectionAction → ElectionState →
    List (ℤ × JsString) → Prop
  | refused (t : ℤ) (c : JsString) : ElectionStep s (.requestVote t c) s []
  | granted (t : ℤ) (c : JsString) (hle : s.currentTerm ≤ t)
      (hfree : s.currentTerm = t → s.votedFor = none ∨ s.votedFor = some c) :
      ElectionStep s (.requestVote t c) { s with currentTerm := t, votedFor := some c } [(t, c)]
  | observed (t : ℤ) (c : Option JsString) :
      ElectionStep s (.observeTerm t c) (s.observeTerm t c) []
  | started : ElectionStep s .startElection
      { s with currentTerm := doubleAddOne s.currentTerm, votedFor := some s.selfId }
      [(doubleAddOne s.currentTerm, s.selfId)]

theorem electionStep_cases {a : ElectionAction} {s' : ElectionState} {es : List (ℤ × JsString)}
    (h : electionStep s a = some (s', es)) : ElectionStep s a s' es := by
  cases a with
  | requestVote t c =>
    have hvote := voteStep t c s
    simp only [electionStep, Option.some.injEq, Prod.mk.injEq] at h
    obtain ⟨rfl, rfl⟩ := h
    generalize s.requestVote t c = r at hvote ⊢
    cases hvote with
    | refused hle => exact .refused t c
    | granted hle hfree => exact .granted t c hle hfree
  | observeTerm t c =>
    simp only [electionStep, Option.some.injEq, Prod.mk.injEq] at h
    obtain ⟨rfl, rfl⟩ := h
    exact .observed t c
  | startElection =>
    simp only [electionStep, Option.some.injEq, Prod.mk.injEq] at h
    obtain ⟨rfl, rfl⟩ := h
    exact .started

/-- The term of a node is a double throughout. -/
theorem isTerm_run (h : Run electionStep Accepted (.new selfId) log s) :
    IsTerm s.currentTerm := by
  refine h.invariant (I := fun _ s => IsTerm s.currentTerm)
    (show IsTerm 0 by decide) ?_
  intro log s a s' es hI ha he
  cases electionStep_cases he with
  | refused t c => exact hI
  | granted t c hle hfree => exact ha
  | observed t c =>
    unfold ElectionState.observeTerm
    split_ifs
    · exact ha
    · exact hI
  | started => exact isTerm_doubleAddOne _

theorem AcceptedAdvancing.accepted {a : ElectionAction} (h : AcceptedAdvancing s a) :
    Accepted s a := by
  cases a with
  | requestVote t c => exact h
  | observeTerm t c => exact h
  | startElection => trivial

/-- While elections start only where the term can advance, the votes are one a term. -/
theorem cast_run (h : Run electionStep AcceptedAdvancing (.new selfId) log s) :
    Ballot.Cast log s.ballot := by
  refine h.invariant_reached (I := fun log s => Ballot.Cast log s.ballot)
    ⟨fun v hv => absurd hv List.not_mem_nil, fun v hv => absurd hv List.not_mem_nil⟩ ?_
  intro log s a s' es hrun hI ha he
  cases electionStep_cases he with
  | refused t c =>
    rw [List.append_nil]
    exact hI
  | granted t c hle hfree =>
    have hcast : Ballot.Cast log ⟨t, some c⟩ := by
      refine hI.advances ?_
      rcases hle.lt_or_eq with hlt | heq
      · exact .inl hlt
      · exact .inr ⟨heq, (hfree heq).imp_right Eq.symm⟩
    exact hcast.vote rfl
  | observed t c =>
    rw [List.append_nil]
    exact hI.advances (observeTerm_advances t c s)
  | started =>
    have hterm := isTerm_run (hrun.mono fun _ _ h => h.accepted)
    have hlt := (lt_doubleAddOne_iff hterm).2 ha
    have hcast : Ballot.Cast log ⟨doubleAddOne s.currentTerm, some s.selfId⟩ :=
      hI.advances (.inl hlt)
    exact hcast.vote rfl

/-- In every state that a node can reach, standing for election moves its term on exactly where the
term can advance; and if it stands only there, it votes for one candidate a term. -/
theorem term_advances_iff (selfId : JsString) :
    (∀ {log s}, Run electionStep Accepted (.new selfId) log s →
      (s.currentTerm < (s.startElection doubleAddOne).2 ↔
        s.currentTerm < 2 ^ 53 ∨ s.currentTerm < 2 ^ 54 ∧ s.currentTerm % 4 = 2)) ∧
    ∀ {log s}, Run electionStep AcceptedAdvancing (.new selfId) log s →
      (∀ vote ∈ log, ∀ vote' ∈ log, vote.1 = vote'.1 → vote.2 = vote'.2) ∧
        (CanAdvance s.currentTerm → ∀ vote ∈ log, vote.1 < (s.startElection doubleAddOne).2) := by
  refine ⟨fun h => lt_doubleAddOne_iff (isTerm_run h), fun h => ⟨(cast_run h).unique, ?_⟩⟩
  intro hadvance vote hvote
  have hterm := isTerm_run (h.mono fun _ _ h => h.accepted)
  exact ((cast_run h).holds vote hvote).1.trans_lt ((lt_doubleAddOne_iff hterm).2 hadvance)

/-- The last term that every smaller one leads to: the node has one vote a term, and stands for
election in the same term again. -/
theorem term_advances_last : ∃ (log : List (ℤ × JsString)) (s : ElectionState),
    log = [(2 ^ 53 - 1, js "x"), (2 ^ 53, js "a")] ∧
      (∀ vote ∈ log, ∀ vote' ∈ log, vote.1 = vote'.1 → vote.2 = vote'.2) ∧
      ¬ s.currentTerm < (s.startElection doubleAddOne).2 := by
  have hrun : ∃ (log : List (ℤ × JsString)) (s : ElectionState),
      Run electionStep AcceptedAdvancing (.new (js "a")) log s ∧
        log = [(2 ^ 53 - 1, js "x"), (2 ^ 53, js "a")] ∧ s.currentTerm = 2 ^ 53 :=
    exists_run_of_exec [.requestVote (2 ^ 53 - 1) (js "x"), .startElection] (by decide)
  obtain ⟨log, s, h, hlog, hterm⟩ := hrun
  have hiff := term_advances_iff (js "a")
  refine ⟨log, s, hlog, (hiff.2 h).1, ?_⟩
  rw [hiff.1 (h.mono fun _ _ h => h.accepted), hterm]
  decide

/-- A vote request in the term that adding one does not change: the node then stands for election in
this term, and votes a second time. -/
theorem term_stuck : ∃ (log : List (ℤ × JsString)) (s : ElectionState),
    Run electionStep Accepted (.new (js "a")) log s ∧
      log = [(2 ^ 53, js "x"), (2 ^ 53, js "a")] ∧ s.currentTerm = 2 ^ 53 ∧
      (s.startElection doubleAddOne).2 = s.currentTerm :=
  exists_run_of_exec [.requestVote (2 ^ 53) (js "x"), .startElection] (by decide)

end InkCache
