import Mathlib

/-!
# Fixed windows

A counter that starts afresh with the first tick at or after the end of its window. The ticks of a
window are numbered from one on, and any two windows are a width apart (`Counted`); so in no more
time than a window lasts there are ticks of at most two of them (`Counted.countP_le`).
-/

namespace Lib

variable {τ : Type*}

/-- Members of one kind that are all of one of two others. -/
theorem countP_le_add {α : Type*} {p q r : α → Bool} : ∀ {l : List α},
    (∀ x ∈ l, p x → q x ∨ r x) → l.countP p ≤ l.countP q + l.countP r
  | [], _ => Nat.zero_le _
  | x :: l, h => by
    rw [List.forall_mem_cons] at h
    have hone : (if p x then 1 else 0) ≤ (if q x then 1 else 0) + if r x then 1 else 0 := by
      by_cases hp : p x
      · rcases h.1 hp with hq | hr
        · simp [hp, hq]
        · simp [hp, hr]
      · simp [hp]
    have := countP_le_add h.2
    simp only [List.countP_cons]
    omega

/-- How many ticks it has counted, and the time from which it counts no more. -/
structure Window (τ : Type*) where
  count : ℕ
  resetAt : τ
  deriving DecidableEq

variable [AddCommGroup τ] [LinearOrder τ]

/-- Counts a tick, in a new window unless there is one that still goes on. -/
def tick (width now : τ) : Option (Window τ) → Window τ
  | none => ⟨1, now + width⟩
  | some w => if w.resetAt ≤ now then ⟨1, now + width⟩ else ⟨w.count + 1, w.resetAt⟩

/-- The ticks at the times of a list, each with its window as it leaves it. -/
def ticks (width : τ) : Option (Window τ) → List τ → List (τ × Window τ)
  | _, [] => []
  | w, now :: times => (now, tick width now w) :: ticks width (some (tick width now w)) times

variable {width now : τ} {w : Option (Window τ)} {v : Window τ} {log : List (τ × Window τ)}

theorem tick_of_le (h : v.resetAt ≤ now) : tick width now (some v) = ⟨1, now + width⟩ :=
  if_pos h

theorem tick_of_lt (h : now < v.resetAt) : tick width now (some v) = ⟨v.count + 1, v.resetAt⟩ :=
  if_neg (not_le.2 h)

/-- A tick opens a window or is the next in one that goes on. -/
theorem tick_cases (width now : τ) (w : Option (Window τ)) :
    tick width now w = ⟨1, now + width⟩ ∨
    ∃ v, w = some v ∧ now < v.resetAt ∧ tick width now w = ⟨v.count + 1, v.resetAt⟩ := by
  rcases w with _ | v
  · exact .inl rfl
  · rcases le_or_gt v.resetAt now with hle | hlt
    · exact .inl (tick_of_le hle)
    · exact .inr ⟨v, rfl, hlt, tick_of_lt hlt⟩

/-- Each tick is counted from where the one before it left the window. -/
theorem ticks_isChain (width : τ) : ∀ (w : Option (Window τ)) (times : List τ),
    (ticks width w times).IsChain fun e e' => e'.2 = tick width e'.1 (some e.2)
  | _, [] => .nil
  | _, [_] => .singleton _
  | _, _ :: now :: times => .cons_cons rfl (ticks_isChain width _ (now :: times))

/-- The ticks so far against the window that the last of them left. -/
structure Counted (width : τ) (log : List (τ × Window τ)) (w : Option (Window τ)) : Prop where
  started : w = none → log = []
  last : ∀ v, w = some v → ∃ t, (t, v) ∈ log
  inside : ∀ e ∈ log, e.2.resetAt ≤ e.1 + width ∧ e.1 < e.2.resetAt
  earlier : ∀ v, w = some v → ∀ e ∈ log,
    e.2.resetAt = v.resetAt ∨ e.2.resetAt + width ≤ v.resetAt
  apart : ∀ e ∈ log, ∀ e' ∈ log, e.2.resetAt = e'.2.resetAt ∨
    e.2.resetAt + width ≤ e'.2.resetAt ∨ e'.2.resetAt + width ≤ e.2.resetAt
  numbered : ∀ r L, log.countP (fun e => e.2.resetAt = r ∧ e.2.count ≤ L) ≤ L
  counts : ∀ v, w = some v → ∀ L,
    log.countP (fun e => e.2.resetAt = v.resetAt ∧ e.2.count ≤ L) ≤ v.count

namespace Counted

theorem none (width : τ) : Counted width [] none where
  started := fun _ => rfl
  last := by simp
  inside := by simp
  earlier := by simp
  apart := by simp
  numbered := by simp
  counts := by simp

section Steps

variable [IsOrderedAddMonoid τ]

omit [IsOrderedAddMonoid τ] in
/-- The windows stay apart with one more tick that is apart from those before it. -/
theorem apart_concat (h : Counted width log w) {e₀ : τ × Window τ}
    (hnew : ∀ e ∈ log, e.2.resetAt = e₀.2.resetAt ∨ e.2.resetAt + width ≤ e₀.2.resetAt) :
    ∀ e ∈ log ++ [e₀], ∀ e' ∈ log ++ [e₀], e.2.resetAt = e'.2.resetAt ∨
      e.2.resetAt + width ≤ e'.2.resetAt ∨ e'.2.resetAt + width ≤ e.2.resetAt := by
  intro e he e' he'
  rcases List.mem_append.1 he with he | he <;> rcases List.mem_append.1 he' with he' | he'
  · exact h.apart e he e' he'
  · rw [List.mem_singleton.1 he']
    exact (hnew e he).imp_right .inl
  · rw [List.mem_singleton.1 he]
    exact (hnew e' he').imp Eq.symm .inr
  · rw [List.mem_singleton.1 he, List.mem_singleton.1 he']
    exact .inl rfl

/-- A tick that no window counts any more opens one. -/
theorem opens (h : Counted width log w) (hwidth : 0 < width)
    (hended : ∀ e ∈ log, e.2.resetAt ≤ now) :
    Counted width (log ++ [(now, ⟨1, now + width⟩)]) (some ⟨1, now + width⟩) := by
  have hbefore : ∀ e ∈ log, e.2.resetAt + width ≤ now + width :=
    fun e he => add_le_add_left (hended e he) width
  have hother : ∀ L, log.countP (fun e => e.2.resetAt = now + width ∧ e.2.count ≤ L) = 0 := by
    intro L
    rw [List.countP_eq_zero]
    intro e he
    have hne : e.2.resetAt ≠ now + width :=
      ((hended e he).trans_lt (lt_add_of_pos_right now hwidth)).ne
    simp [hne]
  refine ⟨by simp, ?_, ?_, ?_, h.apart_concat fun e he => .inr (hbefore e he), ?_, ?_⟩
  · rintro v ⟨⟩
    exact ⟨now, by simp⟩
  · rw [List.forall_mem_append]
    exact ⟨h.inside, by simpa using hwidth⟩
  · rintro v ⟨⟩
    rw [List.forall_mem_append]
    exact ⟨fun e he => .inr (hbefore e he), by simp⟩
  · intro r L
    rw [List.countP_append, List.countP_singleton]
    by_cases hr : now + width = r
    · subst hr
      rw [hother]
      simp only [true_and, decide_eq_true_eq]
      split_ifs with hL
      · omega
      · omega
    · simpa [hr] using h.numbered r L
  · rintro v ⟨⟩ L
    rw [List.countP_append, hother, List.countP_singleton]
    split_ifs
    · exact le_rfl
    · exact Nat.zero_le 1

/-- A tick of the window that goes on has the next number in it. -/
theorem continues (h : Counted width log (some v)) (hlog : ∀ e ∈ log, e.1 ≤ now)
    (hnow : now < v.resetAt) :
    Counted width (log ++ [(now, ⟨v.count + 1, v.resetAt⟩)]) (some ⟨v.count + 1, v.resetAt⟩) := by
  obtain ⟨t, ht⟩ := h.last v rfl
  have hstart : v.resetAt ≤ now + width :=
    (h.inside _ ht).1.trans (add_le_add_left (hlog _ ht) width)
  refine ⟨by simp, ?_, ?_, ?_, h.apart_concat (h.earlier v rfl), ?_, ?_⟩
  · rintro v' ⟨⟩
    exact ⟨now, by simp⟩
  · rw [List.forall_mem_append]
    exact ⟨h.inside, by simpa using ⟨hstart, hnow⟩⟩
  · rintro v' ⟨⟩
    rw [List.forall_mem_append]
    exact ⟨h.earlier v rfl, by simp⟩
  · intro r L
    rw [List.countP_append, List.countP_singleton]
    by_cases hr : v.resetAt = r ∧ v.count + 1 ≤ L
    · have := h.counts v rfl L
      rw [hr.1] at this
      simp only [hr, and_self, decide_true, if_true]
      omega
    · simp only [decide_eq_true_eq, if_neg hr, add_zero]
      exact h.numbered r L
  · rintro v' ⟨⟩ L
    have := h.counts v rfl L
    rw [List.countP_append, List.countP_singleton]
    split_ifs
    · exact Nat.add_le_add_right this 1
    · exact this.trans (Nat.le_succ _)

theorem tick (h : Counted width log w) (hwidth : 0 < width) (hlog : ∀ e ∈ log, e.1 ≤ now) :
    Counted width (log ++ [(now, tick width now w)]) (some (tick width now w)) := by
  rcases w with _ | v
  · refine h.opens hwidth ?_
    simp [h.started rfl]
  · rcases le_or_gt v.resetAt now with hle | hlt
    · rw [tick_of_le hle]
      refine h.opens hwidth fun e he => ?_
      rcases h.earlier v rfl e he with heq | hbefore
      · exact heq.le.trans hle
      · exact (le_add_of_nonneg_right hwidth.le).trans (hbefore.trans hle)
    · rw [tick_of_lt hlt]
      exact h.continues hlog hlt

theorem ticks (hwidth : 0 < width) : ∀ (times : List τ) {log : List (τ × Window τ)}
    {w : Option (Window τ)}, Counted width log w → times.Pairwise (· ≤ ·) →
      (∀ e ∈ log, ∀ now ∈ times, e.1 ≤ now) → ∃ w', Counted width (log ++ ticks width w times) w'
  | [], log, w, h, _, _ => ⟨w, by rwa [Lib.ticks, List.append_nil]⟩
  | now :: times, log, w, h, htimes, hlog => by
    rw [List.pairwise_cons] at htimes
    have hnext := h.tick hwidth fun e he => hlog e he now List.mem_cons_self
    obtain ⟨w', h'⟩ := Counted.ticks hwidth times hnext htimes.2 fun e he now' hnow' => by
      rcases List.mem_append.1 he with he | he
      · exact hlog e he now' (List.mem_cons_of_mem _ hnow')
      · rw [List.mem_singleton.1 he]
        exact htimes.1 now' hnow'
    rw [List.append_assoc] at h'
    exact ⟨w', h'⟩

/-- Whether a tick is at most as long after a time as a window lasts. -/
def Near (width t : τ) (e : τ × Window τ) : Prop := t ≤ e.1 ∧ e.1 ≤ t + width

/-- Three windows in a row last longer than one and the time up to its tick. -/
theorem not_three (h : Counted width log w) {t : τ} {a b c : τ × Window τ} (ha : a ∈ log)
    (hc : c ∈ log) (hta : Near width t a) (htc : Near width t c)
    (hab : a.2.resetAt + width ≤ b.2.resetAt) : ¬ b.2.resetAt + width ≤ c.2.resetAt := by
  intro hbc
  have hlt : t + width + width < t + width + width := calc
    t + width + width < a.2.resetAt + width + width := by
        gcongr
        exact hta.1.trans_lt (h.inside a ha).2
    _ ≤ b.2.resetAt + width := by gcongr
    _ ≤ c.2.resetAt := hbc
    _ ≤ c.1 + width := (h.inside c hc).1
    _ ≤ t + width + width := by
        gcongr
        exact htc.2
  exact hlt.false

theorem exists_two (h : Counted width log w) (t : τ) : ∃ r r', ∀ e ∈ log, Near width t e →
    e.2.resetAt = r ∨ e.2.resetAt = r' := by
  by_cases hpair : ∃ a ∈ log, ∃ b ∈ log, Near width t a ∧ Near width t b ∧
      a.2.resetAt + width ≤ b.2.resetAt
  · obtain ⟨a, ha, b, hb, hta, htb, hab⟩ := hpair
    refine ⟨a.2.resetAt, b.2.resetAt, fun c hc htc => ?_⟩
    rcases h.apart c hc b hb with heq | hcb | hbc
    · exact .inr heq
    · rcases h.apart c hc a ha with heq | hca | hac
      · exact .inl heq
      · exact absurd hab (h.not_three hc hb htc htb hca)
      · exact absurd hcb (h.not_three ha hb hta htb hac)
    · exact absurd hbc (h.not_three ha hc hta htc hab)
  · by_cases hany : ∃ a ∈ log, Near width t a
    · obtain ⟨a, ha, hta⟩ := hany
      refine ⟨a.2.resetAt, a.2.resetAt, fun c hc htc => .inl ?_⟩
      rcases h.apart c hc a ha with heq | hca | hac
      · exact heq
      · exact absurd ⟨c, hc, a, ha, htc, hta, hca⟩ hpair
      · exact absurd ⟨a, ha, c, hc, hta, htc, hac⟩ hpair
    · exact ⟨t, t, fun c hc htc => absurd ⟨c, hc, htc⟩ hany⟩

/-- In no more time than a window lasts there are ticks of at most two windows. -/
theorem countP_le (h : Counted width log w) (t : τ) (L : ℕ) :
    log.countP (fun e => e.2.count ≤ L ∧ t ≤ e.1 ∧ e.1 ≤ t + width) ≤ 2 * L := by
  obtain ⟨r, r', htwo⟩ := h.exists_two t
  have hr := h.numbered r L
  have hr' := h.numbered r' L
  have hsplit := countP_le_add (l := log)
    (p := fun e => e.2.count ≤ L ∧ t ≤ e.1 ∧ e.1 ≤ t + width)
    (q := fun e => e.2.resetAt = r ∧ e.2.count ≤ L)
    (r := fun e => e.2.resetAt = r' ∧ e.2.count ≤ L) fun e he hp => by
      rw [decide_eq_true_eq] at hp
      simpa [hp.1] using htwo e he hp.2
  omega

end Steps

end Counted

end Lib
