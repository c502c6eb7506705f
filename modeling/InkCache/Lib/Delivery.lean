import Mathlib

/-!
# Messages that write to a map

A message writes some keys of a map, to values that do not depend on the map. Messages that write
no key differently commute, so a queue of them leads to the same map whichever of them is delivered
first, as long as it is delivered before none it conflicts with.
-/

namespace Lib

variable {κ β ω : Type*} (writes : ω → κ → Option β)

/-- The map after a message: what it writes, and the old value elsewhere. -/
def effect (m : κ → β) (o : ω) : κ → β := fun k => (writes o k).getD (m k)

/-- The map after a queue of messages. -/
def replay (m : κ → β) (q : List ω) : κ → β := q.foldl (effect writes) m

/-- No key is written differently by the two. -/
def Independent (o o' : ω) : Prop :=
  ∀ k, writes o k = none ∨ writes o' k = none ∨ writes o k = writes o' k

variable {writes} {m m' : κ → β} {o o' : ω} {q q' : List ω} {k : κ}

theorem Independent.symm (h : Independent writes o o') : Independent writes o' o := by
  intro k
  rcases h k with hk | hk | hk
  · exact .inr (.inl hk)
  · exact .inl hk
  · exact .inr (.inr hk.symm)

theorem effect_comm (h : Independent writes o o') :
    effect writes (effect writes m o) o' = effect writes (effect writes m o') o := by
  funext k
  unfold effect
  rcases h k with hk | hk | hk
  · simp [hk]
  · simp [hk]
  · rw [hk]

theorem replay_append : replay writes m (q ++ q') = replay writes (replay writes m q) q' :=
  List.foldl_append

theorem replay_concat : replay writes m (q ++ [o]) = effect writes (replay writes m q) o := by
  rw [replay_append]
  rfl

/-- A message independent of those before it may as well come first. -/
theorem replay_hoist : ∀ (q : List ω) (m : κ → β), (∀ o' ∈ q, Independent writes o' o) →
    effect writes (replay writes m q) o = replay writes (effect writes m o) q
  | [], _, _ => rfl
  | o' :: q, m, h => by
    have hq : ∀ o' ∈ q, Independent writes o' o := fun o' ho' => h o' (List.mem_cons_of_mem _ ho')
    calc effect writes (replay writes (effect writes m o') q) o
        = replay writes (effect writes (effect writes m o') o) q := replay_hoist q _ hq
      _ = replay writes (effect writes (effect writes m o) o') q := by
        rw [effect_comm (h o' List.mem_cons_self)]

theorem replay_deliver (h : ∀ o' ∈ q, Independent writes o' o) :
    replay writes m (q ++ o :: q') = replay writes (effect writes m o) (q ++ q') := by
  rw [replay_append, replay_append]
  change replay writes (effect writes (replay writes m q) o) q' = _
  rw [replay_hoist q m h]

/-- A message delivered from its place in the queue, where it conflicts with none before it. -/
theorem replay_eraseIdx {i : ℕ} (ho : q[i]? = some o)
    (h : ∀ o' ∈ q.take i, Independent writes o' o) :
    replay writes m q = replay writes (effect writes m o) (q.eraseIdx i) := by
  obtain ⟨hlt, rfl⟩ := List.getElem?_eq_some_iff.1 ho
  rw [List.eraseIdx_eq_take_drop_succ, ← replay_deliver h, ← List.drop_eq_getElem_cons hlt,
    List.take_append_drop]

theorem replay_of_not_written : ∀ (q : List ω) (m : κ → β), (∀ o ∈ q, writes o k = none) →
    replay writes m q k = m k
  | [], _, _ => rfl
  | o :: q, m, h => by
    have hrest := replay_of_not_written q (effect writes m o)
      fun o' ho' => h o' (List.mem_cons_of_mem _ ho')
    refine hrest.trans ?_
    rw [effect, h o List.mem_cons_self, Option.getD_none]

/-- Where a queued message writes a key, the map it starts from does not matter. -/
theorem replay_of_written : ∀ (q : List ω) (m m' : κ → β),
    (∃ o ∈ q, writes o k ≠ none) ∨ m k = m' k → replay writes m q k = replay writes m' q k
  | [], _, _, h => by
    rcases h with ⟨o, ho, -⟩ | h
    · simp at ho
    · exact h
  | o :: q, m, m', h => by
    refine replay_of_written q _ _ ?_
    rcases hw : writes o k with _ | v
    · rcases h with ⟨o', ho', hne⟩ | h
      · rcases List.mem_cons.1 ho' with rfl | ho'
        · exact absurd hw hne
        · exact .inl ⟨o', ho', hne⟩
      · exact .inr (by simp [effect, hw, h])
    · exact .inr (by simp [effect, hw])

end Lib
