import InkCache.Proofs.LiveView

/-!
# When expired entries are dropped is not observable

Two stores that are the same once purged answer every read alike and stay the same under every
operation; a call that only cleans up changes nothing of the purged store (`Alike.step`).
-/

namespace InkCache

open Lib

variable {ν : Type} [JsNumber ν] {p p' : TwinStores ν} {a : TwinAction ν} {log es : List Empty}
  {now : ν}

/-- Both stores are within their capacity, and differ in expired entries only. -/
structure Alike (p : TwinStores ν) : Prop where
  plain : Capped p.plain
  other : Capped p.other
  purged : p.other.purged p.clock = p.plain.purged p.clock

theorem Alike.purged_of_le (h : Alike p) (hle : p.clock ≤ now) :
    p.other.purged now = p.plain.purged now := by
  rw [← InkCache.purged_of_le hle p.other, ← InkCache.purged_of_le hle p.plain, h.purged]

theorem Alike.step (h : Alike p) (hP : InsertsCleanup p a) (hs : twinStep p a = some (p', es)) :
    Alike p' := by
  cases a with
  | both now op =>
    simp only [twinStep, Option.some.injEq, Prod.mk.injEq] at hs
    obtain ⟨rfl, -⟩ := hs
    refine ⟨capped_apply h.plain now op, capped_apply h.other now op, ?_⟩
    simp only
    rw [purged_apply h.other, purged_apply h.plain, h.purged_of_le hP]
  | extra now op =>
    simp only [twinStep, Option.some.injEq, Prod.mk.injEq] at hs
    obtain ⟨rfl, -⟩ := hs
    refine ⟨h.plain, capped_apply h.other now op, ?_⟩
    simp only
    rw [purged_cleanup hP.2, h.purged_of_le hP.1]

/-- After every run in which calls that clean up are inserted for the second store: both have given
up the same keys in the same order, and the next read answers the same. -/
theorem cleanup_unobservable (opts : CacheStoreOptions) (t₀ : ν)
    (h : Run twinStep InsertsCleanup ⟨t₀, CacheStore.new opts, CacheStore.new opts⟩ log p) :
    p.other.evicted = p.plain.evicted ∧ p.other.evictionCount = p.plain.evictionCount ∧
    ∀ (now : ν) (op : StoreOp ν), p.clock ≤ now → op.isObservation = true →
      op.result now p.other = op.result now p.plain := by
  have halike : Alike p :=
    h.invariant (I := fun _ p => Alike p) ⟨capped_new opts, capped_new opts, rfl⟩
      fun hI hP hs => hI.step hP hs
  have hevicted : (p.other.purged p.clock).evicted = (p.plain.purged p.clock).evicted := by
    rw [halike.purged]
  have hcount :
      (p.other.purged p.clock).evictionCount = (p.plain.purged p.clock).evictionCount := by
    rw [halike.purged]
  refine ⟨hevicted, hcount, fun now op hle hop => ?_⟩
  rw [result_purged hop, result_purged hop p.plain, halike.purged_of_le hle]

/-- A full store has an expired entry swept away, the other keeps it; then both are written to. -/
theorem cleanup_unobservable_swept : ∃ (log : List Empty) (p : TwinStores ℚ),
    Run twinStep InsertsCleanup
      ⟨0, CacheStore.new { maxEntries := 2 }, CacheStore.new { maxEntries := 2 }⟩ log p ∧
    p.plain.evicted = [js "b"] ∧ p.other.evicted = [js "b"] := by
  have hrun : ∃ (log : List Empty) (p : TwinStores ℚ),
      Run twinStep InsertsCleanup
        ⟨0, CacheStore.new { maxEntries := 2 }, CacheStore.new { maxEntries := 2 }⟩ log p ∧
      p.plain.evicted = [js "b"] :=
    exists_run_of_exec [.both 0 (.set (js "a") (js "1") (some 1)),
      .both 0 (.set (js "b") (js "2") none), .extra 2000 .sweep,
      .both 2000 (.set (js "c") (js "3") none), .both 3000 (.get (js "c")), .extra 3000 .keys,
      .both 3000 (.set (js "d") (js "4") none)] (by decide +kernel)
  obtain ⟨log, p, h, hevicted⟩ := hrun
  exact ⟨log, p, h, hevicted, (cleanup_unobservable _ _ h).1.trans hevicted⟩

end InkCache
