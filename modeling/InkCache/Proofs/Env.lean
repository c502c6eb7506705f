import InkCache.Env

/-!
# Which periods the timers keep

What `parsePositiveInt` accepts is a positive whole number. A number of milliseconds is handed on as
it is; a number of seconds is multiplied by a thousand, which is exact as long as the product is in
range, and which rounding does not bring back into range where it is not.
-/

namespace InkCache

open Lib

variable {s : JsString} {fallback : ℕ} {varName : JsString}

/-! ## Digits -/

theorem isDigit_iff {u : UInt16} : JsString.isDigit u ↔ 48 ≤ u.toNat ∧ u.toNat ≤ 57 := by
  rw [JsString.isDigit, Bool.and_eq_true, decide_eq_true_iff, decide_eq_true_iff,
    UInt16.le_iff_toNat_le, UInt16.le_iff_toNat_le]
  rfl

theorem isWhiteSpace_of_isDigit {u : UInt16} (h : JsString.isDigit u) :
    JsString.isWhiteSpace u = false := by
  rw [isDigit_iff] at h
  rw [JsString.isWhiteSpace, Bool.or_eq_false_iff]
  constructor
  · have hno : ∀ v ∈ ([9, 10, 11, 12, 13, 32, 0xA0, 0x1680, 0x2028, 0x2029, 0x202F, 0x205F, 0x3000,
        0xFEFF] : List UInt16), v.toNat < 48 ∨ 57 < v.toNat := by simp
    refine decide_eq_false fun hmem => ?_
    have := hno u hmem
    omega
  · have hlow : ¬ 0x2000 ≤ u := by
      rw [UInt16.le_iff_toNat_le]
      change ¬ 0x2000 ≤ u.toNat
      omega
    rw [decide_eq_false hlow, Bool.false_and]

theorem trim_digits (h : ∀ u ∈ s, JsString.isDigit u) : s.trim = s := by
  have hdrop : ∀ t : JsString, (∀ u ∈ t, JsString.isDigit u) →
      t.dropWhile JsString.isWhiteSpace = t := by
    rintro (_ | ⟨u, t⟩) ht
    · rfl
    · exact List.dropWhile_cons_of_neg (by simp [isWhiteSpace_of_isDigit (ht u List.mem_cons_self)])
  rw [JsString.trim, hdrop s h, hdrop s.reverse fun u hu => h u (List.mem_reverse.1 hu),
    List.reverse_reverse]

theorem readDecimal_digits (h : ∀ u ∈ s, JsString.isDigit u) {n : ℕ}
    (hn : JsString.readInteger 10 s = some n) : JsString.readDecimal s = some (n : ℚ) := by
  have htake : s.takeWhile JsString.isDigit = s := List.takeWhile_eq_self_iff.2 h
  have hdrop : s.dropWhile JsString.isDigit = [] := List.dropWhile_eq_nil_iff.2 h
  simp [JsString.readDecimal, htake, hdrop, JsString.fraction, hn, JsString.readExponent]

/-- Digits that do not start with a zero are the number they stand for, if that has at most 53
bits. -/
theorem number_digits (h : ∀ u ∈ s, JsString.isDigit u) (hlead : s.head? ≠ some 48) {n : ℕ}
    (hn : JsString.readInteger 10 s = some n) (hlt : n < 2 ^ 53) :
    JsString.number s = .finite n := by
  have hunsigned : JsString.unsignedNumber s = .finite n := by
    have hinf : s ≠ js "Infinity" := by
      rintro rfl
      exact absurd (h 73 (by decide)) (by decide)
    rw [JsString.unsignedNumber, if_neg hinf, readDecimal_digits h hn]
    exact Double.ofRat_natCast hlt
  rw [JsString.number, trim_digits h, JsString.literalNumber, hunsigned]
  · rintro rfl
    cases hn
  · rintro t rfl
    exact absurd (h 43 List.mem_cons_self) (by decide)
  · rintro t rfl
    exact absurd (h 45 List.mem_cons_self) (by decide)
  · rintro u t rfl
    exact hlead rfl

/-! ## What is accepted -/

/-- A value that is accepted is a positive whole number, and is what is returned. -/
theorem parsePositiveInt_accepts
    (h : (parsePositiveInt (some s) fallback varName none).warning = none) :
    ∃ n : ℕ, 0 < n ∧ JsString.number s = .finite n ∧
      (parsePositiveInt (some s) fallback varName none).value = .finite n := by
  unfold parsePositiveInt at h ⊢
  simp only [Option.any_none, Bool.or_false] at h ⊢
  split_ifs at h ⊢ with hreject
  simp only [Bool.or_eq_true, Bool.not_eq_true', not_or, Bool.not_eq_false,
    Bool.not_eq_true] at hreject
  obtain ⟨hint, hpos⟩ := hreject
  rcases hn : JsString.number s with q | neg | _ <;> rw [hn] at hint hpos
  · have hq : 0 < q := by simpa [Double.le] using hpos
    have hden : q.den = 1 := by simpa [Double.isInteger, Rat.isInt] using hint
    have hnum : ((q.num.toNat : ℤ) : ℚ) = q := by
      rw [Int.toNat_of_nonneg (Rat.num_nonneg.2 hq.le)]
      exact Rat.coe_int_num_of_den_eq_one hden
    refine ⟨q.num.toNat, ?_, ?_, ?_⟩
    · have := Rat.num_pos.2 hq
      omega
    · rw [← hnum]
      rfl
    · rw [← hnum]
      rfl
  · cases hint
  · cases hint

theorem setIntervalPeriod_natCast {n : ℕ} (hn : 0 < n) : setIntervalPeriod (.finite n)
    = if n ≤ timeoutMax then (n : ℚ) else 1 := by
  have h₁ : (1 : ℚ) ≤ n := by exact_mod_cast hn
  simp only [setIntervalPeriod, h₁, true_and, Nat.cast_le]

/-- A delay that the seconds make too long stays too long when it is rounded. -/
theorem setIntervalPeriod_seconds {n : ℕ} (hn : 0 < n) :
    setIntervalPeriod ((Double.finite n).mul (.finite 1000))
      = if n * 1000 ≤ timeoutMax then ((n * 1000 : ℕ) : ℚ) else 1 := by
  have hcast : (n : ℚ) * 1000 = ((n * 1000 : ℕ) : ℚ) := by push_cast; rfl
  rw [Double.mul, hcast]
  split_ifs with hle
  · have hlt : n * 1000 < 2 ^ 53 := hle.trans_lt (by decide)
    rw [Double.ofRat_natCast hlt, setIntervalPeriod_natCast (by omega), if_pos hle]
  · have hbig : 2147484000 ≤ n * 1000 := by
      unfold timeoutMax at hle
      omega
    have hbig' : (2147484000 : ℚ) ≤ ((n * 1000 : ℕ) : ℚ) := by exact_mod_cast hbig
    rcases hx : Double.ofRat ((n * 1000 : ℕ) : ℚ) with x | neg | _
    · have hround := Double.le_of_ofRat_eq (by linarith) hx
      have hout : ¬ (x ≤ (timeoutMax : ℚ)) := by
        rw [timeoutMax, not_le]
        push_cast
        linarith
      simp only [setIntervalPeriod, hout, and_false, if_false]
    · rfl
    · rfl

theorem period_eq (t : BackgroundTimer) {env : Option JsString} {n : ℕ} (hn : 0 < n)
    (hvalue : (t.parsed env).value = .finite n) : t.period env
      = if n * t.unitMs ≤ timeoutMax then ((n * t.unitMs : ℕ) : ℚ) else 1 := by
  cases t with
  | autoPersist =>
    rw [BackgroundTimer.parsed] at hvalue
    rw [BackgroundTimer.period, BackgroundTimer.intervalMs, persistIntervalMs, hvalue]
    exact setIntervalPeriod_seconds hn
  | primaryMonitor | healthChecks | gatewaySync =>
    rw [BackgroundTimer.unitMs, Nat.mul_one, ← setIntervalPeriod_natCast hn, ← hvalue]
    rfl

/-- A value that is accepted is a positive whole number `n`, and the timer runs every `n` of its
units just if these are no more milliseconds than Node counts; else it runs every millisecond.
Where the variable is not set, the timer runs at its default. -/
theorem period_configured_iff (t : BackgroundTimer) :
    (∀ s, (t.parsed (some s)).warning = none → ∃ n : ℕ, 0 < n ∧ JsString.number s = .finite n ∧
      (t.period (some s) = ((n * t.unitMs : ℕ) : ℚ) ↔ n * t.unitMs ≤ timeoutMax) ∧
      (timeoutMax < n * t.unitMs → t.period (some s) = 1)) ∧
    ∃ n : ℕ, (t.parsed none).value = .finite n ∧
      t.period none = ((n * t.unitMs : ℕ) : ℚ) := by
  refine ⟨fun s haccept => ?_, ?_⟩
  · obtain ⟨n, hn, hnumber, hvalue⟩ : ∃ n : ℕ, 0 < n ∧ JsString.number s = .finite n ∧
        (t.parsed (some s)).value = .finite n := by
      cases t <;> exact parsePositiveInt_accepts haccept
    have hperiod := period_eq t hn hvalue
    refine ⟨n, hn, hnumber, ⟨fun h => ?_, fun h => by rw [hperiod, if_pos h]⟩,
      fun h => by rw [hperiod, if_neg (not_le.2 h)]⟩
    by_contra hlong
    rw [hperiod, if_neg hlong] at h
    have hone : (1 : ℕ) = n * t.unitMs := by exact_mod_cast h
    rw [← hone] at hlong
    exact hlong (by decide)
  · obtain ⟨n, hn, hvalue, hle⟩ : ∃ n : ℕ, 0 < n ∧ (t.parsed none).value = .finite n ∧
        n * t.unitMs ≤ timeoutMax := by
      cases t with
      | autoPersist => exact ⟨60, by decide, rfl, by decide⟩
      | primaryMonitor => exact ⟨2000, by decide, rfl, by decide⟩
      | healthChecks => exact ⟨2000, by decide, rfl, by decide⟩
      | gatewaySync => exact ⟨5000, by decide, rfl, by decide⟩
    exact ⟨n, hvalue, by rw [period_eq t hn hvalue, if_pos hle]⟩

/-- A positive number of at most 53 bits is accepted. -/
theorem parsePositiveInt_finite {n : ℕ} (hn : 0 < n) (hnumber : JsString.number s = .finite n) :
    parsePositiveInt (some s) fallback varName none = { value := .finite n, warning := none } := by
  have hpos : ¬ ((n : ℚ) ≤ 0) := by
    rw [not_le]
    exact_mod_cast hn
  simp [parsePositiveInt, hnumber, Double.isInteger, Double.le, hpos, Rat.isInt]

/-- Thirty seconds. -/
theorem period_configured_thirty :
    BackgroundTimer.autoPersist.period (some (js "30")) = 30000 := by
  have hnumber : JsString.number (js "30") = .finite (30 : ℕ) :=
    number_digits (by simp [js, codeUnits, isDigit_iff]) (by decide) rfl (by norm_num)
  have haccept : (BackgroundTimer.autoPersist.parsed (some (js "30"))).warning = none := by
    rw [BackgroundTimer.parsed, parsePositiveInt_finite (by decide) hnumber]
  obtain ⟨n, -, hn, hiff, -⟩ := (period_configured_iff .autoPersist).1 (js "30") haccept
  obtain rfl : n = 30 := by
    rw [hnumber, Double.finite.injEq] at hn
    exact_mod_cast hn.symm
  rw [hiff.2 (by decide)]
  norm_num [BackgroundTimer.unitMs]

/-- Thirty days between saves, and the first number of milliseconds that is out of range: both are
accepted, and the timers run every millisecond instead. -/
theorem period_thirtyDays :
    ((BackgroundTimer.autoPersist.parsed (some (js "2592000"))).warning = none ∧
      JsString.number (js "2592000") = .finite (2592000 : ℕ) ∧
      BackgroundTimer.autoPersist.period (some (js "2592000")) = 1 ∧
      BackgroundTimer.autoPersist.period (some (js "2592000"))
        ≠ ((2592000 * BackgroundTimer.autoPersist.unitMs : ℕ) : ℚ)) ∧
    ∀ t ∈ [BackgroundTimer.primaryMonitor, .healthChecks, .gatewaySync],
      (t.parsed (some (js "2147483648"))).warning = none ∧
      JsString.number (js "2147483648") = .finite (2147483648 : ℕ) ∧
      t.period (some (js "2147483648")) = 1 ∧
      t.period (some (js "2147483648")) ≠ ((2147483648 * t.unitMs : ℕ) : ℚ) := by
  have hdays : JsString.number (js "2592000") = .finite (2592000 : ℕ) :=
    number_digits (by simp [js, codeUnits, isDigit_iff]) (by decide) rfl (by norm_num)
  have hfirst : JsString.number (js "2147483648") = .finite (2147483648 : ℕ) :=
    number_digits (by simp [js, codeUnits, isDigit_iff]) (by decide) rfl (by norm_num)
  constructor
  · have hparsed : BackgroundTimer.autoPersist.parsed (some (js "2592000"))
        = { value := .finite (2592000 : ℕ), warning := none } :=
      parsePositiveInt_finite (by decide) hdays
    have hperiod : BackgroundTimer.autoPersist.period (some (js "2592000")) = 1 := by
      rw [period_eq .autoPersist (n := 2592000) (by decide) (by rw [hparsed])]
      exact if_neg (by decide)
    refine ⟨by rw [hparsed], hdays, hperiod, ?_⟩
    rw [hperiod]
    norm_num [BackgroundTimer.unitMs]
  · intro t ht
    have hparsed : t.parsed (some (js "2147483648"))
        = { value := .finite (2147483648 : ℕ), warning := none } := by
      cases t <;> exact parsePositiveInt_finite (by decide) hfirst
    have hunit : t.unitMs = 1 := by
      cases t with
      | autoPersist => exact absurd ht (by decide)
      | primaryMonitor | healthChecks | gatewaySync => rfl
    have hperiod : t.period (some (js "2147483648")) = 1 := by
      rw [period_eq t (n := 2147483648) (by decide) (by rw [hparsed]), hunit]
      exact if_neg (by decide)
    refine ⟨by rw [hparsed], hfirst, hperiod, ?_⟩
    rw [hperiod, hunit]
    norm_num

end InkCache
