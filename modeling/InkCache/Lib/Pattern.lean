import Mathlib

/-!
# Patterns with ordered choice

A regular expression as a backtracking matcher runs it: a pattern answers the lengths it can match
at the start of a text in the order it tries them, longer runs before shorter ones and the left
side of a choice before the right. A match is the first of these lengths, and a global match goes
over the text, passing over a unit where nothing matches.
-/

namespace Lib

variable {τ : Type*}

inductive Pattern (τ : Type*) where
  /-- One unit of a class. -/
  | unit (p : τ → Bool)
  /-- Units of a class, as many as there are and `least` of them at least. -/
  | many (least : ℕ) (p : τ → Bool)
  | seq (a b : Pattern τ)
  | alt (a b : Pattern τ)

namespace Pattern

/-- The lengths matched at the start of `s`, in the order they are tried. -/
def ends : Pattern τ → List τ → List ℕ
  | unit p, s => if s.head?.any p then [1] else []
  | many least p, s =>
    ((List.range ((s.takeWhile p).length + 1 - least)).map (least + ·)).reverse
  | seq a b, s => (a.ends s).flatMap fun n => (b.ends (s.drop n)).map (n + ·)
  | alt a b, s => a.ends s ++ b.ends s

/-- The length of the match at the start of `s`. -/
def exec (r : Pattern τ) (s : List τ) : Option ℕ := (r.ends s).head?

/-- The matches behind the first `skip` units; an empty one also passes over a unit. -/
def scan (r : Pattern τ) : ℕ → List τ → List (List τ)
  | 0, [] => if (r.exec []).isSome then [[]] else []
  | _ + 1, [] => []
  | 0, u :: s =>
    match r.exec (u :: s) with
    | none => scan r 0 s
    | some n => (u :: s).take n :: scan r (n - 1) s
  | skip + 1, _ :: s => scan r skip s

/-- All matches of a text from left to right. -/
def matchAll (r : Pattern τ) (s : List τ) : List (List τ) := scan r 0 s

/-! ## One match -/

variable {p q : τ → Bool} {a b : Pattern τ} {s t : List τ}

theorem exec_alt : (alt a b).exec s = (a.exec s).or (b.exec s) := List.head?_append

theorem ends_unit_cons (u : τ) : (unit p).ends (u :: s) = if p u then [1] else [] := rfl

theorem ends_unit_eq_nil (h : ∀ u ∈ s, p u = false) : (unit p).ends s = [] := by
  rcases s with _ | ⟨u, s⟩
  · rfl
  · rw [ends_unit_cons, h u List.mem_cons_self]
    rfl

theorem ends_seq : (seq a b).ends s = (a.ends s).flatMap fun n => (b.ends (s.drop n)).map (n + ·) :=
  rfl

theorem takeWhile_run (ht : ∀ u ∈ t, p u) (hs : ∀ u ∈ s.head?, p u = false) :
    (t ++ s).takeWhile p = t := by
  rw [List.takeWhile_append_of_pos ht]
  rcases s with _ | ⟨u, s⟩
  · simp
  · simp [hs u rfl]

/-- Every text starts with a run, which may be empty. -/
theorem exists_run (p : τ → Bool) (l : List τ) :
    ∃ t s, l = t ++ s ∧ (∀ u ∈ t, p u) ∧ ∀ u ∈ s.head?, p u = false := by
  refine ⟨l.takeWhile p, l.dropWhile p, List.takeWhile_append_dropWhile.symm,
    fun u hu => List.mem_takeWhile_imp hu, fun u hu => ?_⟩
  have := List.head?_dropWhile_not p l
  rw [hu] at this
  exact this

/-- The whole run comes first. -/
theorem ends_many {least : ℕ} (ht : ∀ u ∈ t, p u) (hs : ∀ u ∈ s.head?, p u = false)
    (h : least ≤ t.length) : (many least p).ends (t ++ s)
      = t.length :: ((List.range (t.length - least)).map (least + ·)).reverse := by
  have hlen : t.length + 1 - least = (t.length - least) + 1 := by omega
  have hlast : least + (t.length - least) = t.length := by omega
  simp only [ends, takeWhile_run ht hs]
  rw [hlen, List.range_succ, List.map_append, List.map_singleton, hlast, List.reverse_append,
    List.reverse_singleton, List.singleton_append]

/-- A run is matched whole. -/
theorem exec_many {least : ℕ} (ht : ∀ u ∈ t, p u) (hs : ∀ u ∈ s.head?, p u = false)
    (h : least ≤ t.length) : (many least p).exec (t ++ s) = some t.length := by
  rw [exec, ends_many ht hs h, List.head?_cons]

theorem exec_many_eq_none {least : ℕ} (hs : ∀ u ∈ s.head?, p u = false) (h : 0 < least) :
    (many least p).exec s = none := by
  have hlen : 0 + 1 - least = 0 := by omega
  have htake : s.takeWhile p = [] := takeWhile_run (t := []) (by simp) hs
  simp only [exec, ends, htake, List.length_nil, hlen, List.range_zero, List.map_nil,
    List.reverse_nil, List.head?_nil]

/-- A run up to a unit that cannot be in it: giving units back finds no such unit. -/
theorem ends_until {x : τ} (ht : ∀ u ∈ t, p u) (hx : p x = false) (hqx : q x)
    (hpq : ∀ u, p u → q u = false) :
    (seq (many 0 p) (unit q)).ends (t ++ x :: s) = [t.length + 1] := by
  have hrun : (many 0 p).ends (t ++ x :: s) = t.length :: (List.range t.length).reverse := by
    rw [ends_many ht (by simpa using hx) (Nat.zero_le _)]
    simp
  -- after fewer than `t.length` units comes a unit of `t`
  have hback : ∀ n ∈ (List.range t.length).reverse,
      ((unit q).ends ((t ++ x :: s).drop n)).map (n + ·) = [] := by
    intro n hn
    have hlt : n < t.length := by simpa using hn
    rw [List.drop_append_of_le_length hlt.le, List.drop_eq_getElem_cons hlt, List.cons_append,
      ends_unit_cons, hpq _ (ht _ (List.getElem_mem hlt))]
    rfl
  rw [ends_seq, hrun, List.flatMap_cons, List.flatMap_eq_nil_iff.2 hback, List.drop_left,
    ends_unit_cons, if_pos hqx, List.append_nil, List.map_singleton]

theorem ends_until_eq_nil {least : ℕ} (h : ∀ u ∈ s, q u = false) :
    (seq (many least p) (unit q)).ends s = [] := by
  rw [ends_seq]
  refine List.flatMap_eq_nil_iff.2 fun n _ => ?_
  rw [ends_unit_eq_nil fun u hu => h u (List.mem_of_mem_drop hu), List.map_nil]

/-! ## All matches -/

variable {r : Pattern τ}

theorem matchAll_nil (h : r.exec [] = none) : r.matchAll [] = [] := by
  simp [matchAll, scan, h]

theorem matchAll_cons_of_none {u : τ} (h : r.exec (u :: s) = none) :
    r.matchAll (u :: s) = r.matchAll s := by
  simp [matchAll, scan, h]

theorem scan_append : ∀ t : List τ, scan r t.length (t ++ s) = scan r 0 s
  | [] => rfl
  | _ :: t => scan_append t

/-- The match at the start of a text is the first of all; the others are those behind it. -/
theorem matchAll_append (h : r.exec (t ++ s) = some t.length) (ht : t ≠ []) :
    r.matchAll (t ++ s) = t :: r.matchAll s := by
  rcases t with _ | ⟨u, t⟩
  · exact absurd rfl ht
  rw [List.cons_append] at h ⊢
  simp only [matchAll, scan, h, List.length_cons, Nat.add_sub_cancel, scan_append]
  rw [← List.cons_append, ← List.length_cons, List.take_left]

end Pattern

end Lib
