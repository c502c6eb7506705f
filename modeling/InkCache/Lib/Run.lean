import Mathlib

/-!
# Runs of a system that reports what it does

A system is a partial step function: an action is enabled where it answers, and reports a list of
events. `Run step P s₀ log s` says that some sequence of enabled actions, each allowed by `P` in
the state it is taken in, leads from `s₀` to `s` and reports `log`.
-/

namespace Lib

variable {σ α ε : Type*} {step : σ → α → Option (σ × List ε)} {P Q : σ → α → Prop} {s₀ s : σ}
  {log : List ε}

inductive Run (step : σ → α → Option (σ × List ε)) (P : σ → α → Prop) (s₀ : σ) :
    List ε → σ → Prop
  | start : Run step P s₀ [] s₀
  | next {log : List ε} {s : σ} (a : α) {s' : σ} {es : List ε} (run : Run step P s₀ log s)
      (allowed : P s a) (enabled : step s a = some (s', es)) : Run step P s₀ (log ++ es) s'

namespace Run

/-- What holds at the start and survives every allowed step holds at the end of every run. -/
theorem invariant {I : List ε → σ → Prop} (h₀ : I [] s₀)
    (hstep : ∀ {log s a s' es}, I log s → P s a → step s a = some (s', es) → I (log ++ es) s')
    (h : Run step P s₀ log s) : I log s := by
  induction h with
  | start => exact h₀
  | next a _ allowed enabled ih => exact hstep ih allowed enabled

/-- As `invariant`, where the step may also use that the state it starts in was reached. -/
theorem invariant_reached {I : List ε → σ → Prop} (h₀ : I [] s₀)
    (hstep : ∀ {log s a s' es}, Run step P s₀ log s → I log s → P s a →
      step s a = some (s', es) → I (log ++ es) s')
    (h : Run step P s₀ log s) : I log s := by
  induction h with
  | start => exact h₀
  | next a run allowed enabled ih => exact hstep run ih allowed enabled

/-- A run whose steps are allowed by `P` is one whose steps are allowed by less. -/
theorem mono (hPQ : ∀ s a, P s a → Q s a) (h : Run step P s₀ log s) : Run step Q s₀ log s := by
  induction h with
  | start => exact .start
  | next a _ allowed enabled ih => exact ih.next a (hPQ _ a allowed) enabled

/-- A run that goes on where another ends. -/
theorem trans {log' : List ε} {s' : σ} (h : Run step P s₀ log s) (h' : Run step P s log' s') :
    Run step P s₀ (log ++ log') s' := by
  induction h' with
  | start => rwa [List.append_nil]
  | next a _ allowed enabled ih =>
    rw [← List.append_assoc]
    exact ih.next a allowed enabled

end Run

/-- Takes the actions in order, stopping where one is not enabled or not allowed. -/
def exec (step : σ → α → Option (σ × List ε)) (P : σ → α → Prop) [∀ s a, Decidable (P s a)] :
    List ε → σ → List α → Option (List ε × σ)
  | log, s, [] => some (log, s)
  | log, s, a :: as =>
    if P s a then
      match step s a with
      | none => none
      | some (s', es) => exec step P (log ++ es) s' as
    else none

theorem run_of_exec [∀ s a, Decidable (P s a)] : ∀ (as : List α) {log₁ log₂ : List ε} {s₁ s₂ : σ},
    Run step P s₀ log₁ s₁ → exec step P log₁ s₁ as = some (log₂, s₂) → Run step P s₀ log₂ s₂
  | [], log₁, log₂, s₁, s₂, h, he => by
    simp only [exec, Option.some.injEq, Prod.mk.injEq] at he
    obtain ⟨rfl, rfl⟩ := he
    exact h
  | a :: as, log₁, log₂, s₁, s₂, h, he => by
    simp only [exec] at he
    split_ifs at he with hP
    rcases hs : step s₁ a with _ | ⟨s', es⟩ <;> rw [hs] at he
    · simp at he
    · exact run_of_exec as (h.next a hP hs) he

/-- Where actions that the kernel can evaluate lead. -/
theorem exists_exec [∀ s a, Decidable (P s a)] (as : List α) {R : List ε → σ → Prop}
    [∀ log s, Decidable (R log s)]
    (he : (exec step P [] s₀ as).any (fun r => decide (R r.1 r.2)) = true) :
    ∃ log s, exec step P [] s₀ as = some (log, s) ∧ R log s := by
  rcases hr : exec step P [] s₀ as with _ | ⟨log, s⟩ <;> rw [hr] at he
  · simp at he
  · exact ⟨log, s, rfl, of_decide_eq_true he⟩

/-- A run exhibited by taking such actions. -/
theorem exists_run_of_exec [∀ s a, Decidable (P s a)] (as : List α) {R : List ε → σ → Prop}
    [∀ log s, Decidable (R log s)]
    (he : (exec step P [] s₀ as).any (fun r => decide (R r.1 r.2)) = true) :
    ∃ log s, Run step P s₀ log s ∧ R log s := by
  obtain ⟨log, s, hr, h⟩ := exists_exec as he
  exact ⟨log, s, run_of_exec as .start hr, h⟩

/-- Two executions, of which the second leaves some actions out. If these report nothing that is
kept and keep the states related, and the others are taken alike, then the second reports what is
kept of the first. -/
theorem exec_filter [∀ s a, Decidable (P s a)] [∀ s a, Decidable (Q s a)] {R : σ → σ → Prop}
    {kept : α → Bool} {shown : ε → Bool}
    (hleft : ∀ {s t a s' es}, R s t → P s a → step s a = some (s', es) → kept a = false →
      es.filter shown = [] ∧ R s' t)
    (hkept : ∀ {s t a s' es}, R s t → P s a → step s a = some (s', es) → kept a = true →
      Q t a ∧ ∃ t', step t a = some (t', es.filter shown) ∧ R s' t') :
    ∀ (as : List α) {log log' : List ε} {s s' t : σ}, R s t →
      exec step P log s as = some (log', s') →
        ∃ t', exec step Q (log.filter shown) t (as.filter kept) = some (log'.filter shown, t') ∧
          R s' t'
  | [], log, log', s, s', t, hR, he => by
    simp only [exec, Option.some.injEq, Prod.mk.injEq] at he
    obtain ⟨rfl, rfl⟩ := he
    exact ⟨t, rfl, hR⟩
  | a :: as, log, log', s, s', t, hR, he => by
    simp only [exec] at he
    split_ifs at he with hP
    rcases hs : step s a with _ | ⟨s₁, es⟩ <;> rw [hs] at he
    · simp at he
    · cases hk : kept a with
      | false =>
        obtain ⟨hes, hR'⟩ := hleft hR hP hs hk
        obtain ⟨t', hexec, hR'⟩ := exec_filter (R := R) hleft hkept as hR' he
        rw [List.filter_append, hes, List.append_nil] at hexec
        rw [List.filter_cons_of_neg (by simp [hk])]
        exact ⟨t', hexec, hR'⟩
      | true =>
        obtain ⟨hQ, t₁, ht, hR'⟩ := hkept hR hP hs hk
        obtain ⟨t', hexec, hR'⟩ := exec_filter (R := R) hleft hkept as hR' he
        rw [List.filter_append] at hexec
        rw [List.filter_cons_of_pos hk]
        refine ⟨t', ?_, hR'⟩
        simp only [exec, if_pos hQ, ht, hexec]

end Lib
