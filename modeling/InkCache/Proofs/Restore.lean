import InkCache.App

/-!
# `POST /restore` against `POST /set`

`validateAll` validates all entries of a list or answers the error of the first bad one
(`validateAll_cases`). Validating does not look at the store, so an entry that is valid beforehand
is still valid after the entries before it were set (`restored_foldl`).
-/

namespace InkCache

variable {ν : Type} [JsNumber ν] {app : App ν} {now : ν} {maxKeyLength : ℕ} {j : Json ν}
  {e : ValidatedEntry ν}

/-- The entry is one that `validateEntry` refuses. -/
def Malformed (maxKeyLength : ℕ) (now : ν) (j : Json ν) : Prop :=
  ∃ message, validateEntry maxKeyLength now (some j) = .error message

/-! ## Validation -/

theorem not_malformed (h : validateEntry maxKeyLength now (some j) = .ok e) :
    ¬ Malformed maxKeyLength now j := by
  rintro ⟨message, hm⟩
  rw [h] at hm
  simp at hm

/-- All entries are validated, or the error names the place of the first bad one. -/
theorem validateAll_cases (maxKeyLength : ℕ) (now : ν) : ∀ (l : List (Json ν)) (i : ℕ),
    (∃ es, App.validateAll maxKeyLength now i l = .ok es ∧
      List.Forall₂ (fun j e => validateEntry maxKeyLength now (some j) = .ok e) l es) ∨
    ∃ before j after message, l = before ++ j :: after ∧
      (∀ j ∈ before, ¬ Malformed maxKeyLength now j) ∧
      validateEntry maxKeyLength now (some j) = .error message ∧
      App.validateAll maxKeyLength now i l = .error
        (js "keys[" ++ JsString.ofNat (i + before.length) ++ js "]: " ++ message)
  | [], i => .inl ⟨[], rfl, .nil⟩
  | j :: l, i => by
    rcases hj : validateEntry maxKeyLength now (some j) with message | e
    · refine .inr ⟨[], j, l, message, rfl, by simp, hj, ?_⟩
      simp only [App.validateAll, hj]
      rfl
    rcases validateAll_cases maxKeyLength now l (i + 1) with ⟨es, hes, hall⟩ |
      ⟨before, j', after, message, rfl, hbefore, hbad, herr⟩
    · exact .inl ⟨e :: es, by simp only [App.validateAll, hj, hes], .cons hj hall⟩
    · refine .inr ⟨j :: before, j', after, message, rfl, ?_, hbad, ?_⟩
      · intro x hx
        rcases List.mem_cons.1 hx with rfl | hx
        · exact not_malformed hj
        · exact hbefore x hx
      · have hplace : i + 1 + before.length = i + (j :: before).length := by
          rw [List.length_cons]
          omega
        simp only [App.validateAll, hj, herr, hplace]

theorem validateAll_malformed {l : List (Json ν)} (h : ∃ j ∈ l, Malformed maxKeyLength now j) :
    ∃ message, App.validateAll maxKeyLength now 0 l = .error message := by
  rcases validateAll_cases maxKeyLength now l 0 with
    ⟨es, -, hall⟩ | ⟨_, _, _, _, _, -, -, herr⟩
  · obtain ⟨j, hj, hbad⟩ := h
    obtain ⟨i, hi, rfl⟩ := List.getElem_of_mem hj
    exact absurd hbad (not_malformed (hall.get hi (hall.length_eq ▸ hi)))
  · exact ⟨_, herr⟩

theorem validateAll_wellFormed {l : List (Json ν)} (h : ∀ j ∈ l, ¬ Malformed maxKeyLength now j) :
    ∃ es, App.validateAll maxKeyLength now 0 l = .ok es ∧
      List.Forall₂ (fun j e => validateEntry maxKeyLength now (some j) = .ok e) l es := by
  rcases validateAll_cases maxKeyLength now l 0 with
    hok | ⟨before, j, after, message, rfl, -, hbad, -⟩
  · exact hok
  · exact absurd ⟨message, hbad⟩ (h j (by simp))

/-- An entry that is `null` is validated as an empty object. -/
theorem validateEntry_orEmpty :
    validateEntry maxKeyLength now (some (orEmpty (some j))) =
      validateEntry maxKeyLength now (some j) := by
  cases j <;> rfl

/-! ## Loading -/

theorem postSet_valid (hrole : app.leadership.role ≠ .replica)
    (h : validateEntry app.maxKeyLength now (some j) = .ok e) :
    app.postSet now (some j) =
      ({ app with store := app.store.set now e.key e.value e.ttl }, .set e.key e.ttl,
        forwardToReplicas app.leadership.replicaUrls (.set e.key e.value e.ttl)) := by
  simp only [App.postSet, if_neg hrole, validateEntry_orEmpty, h]

/-- Setting validated entries one by one is what the second loop of `POST /restore` does. -/
theorem restored_foldl : ∀ {l : List (Json ν)} {es : List (ValidatedEntry ν)} {app : App ν},
    app.leadership.role ≠ .replica →
    List.Forall₂ (fun j e => validateEntry app.maxKeyLength now (some j) = .ok e) l es →
    l.foldl (fun app j => (app.postSet now (some j)).1) app =
      { app with store := es.foldl (fun s e => s.set now e.key e.value e.ttl) app.store }
  | [], [], app, _, .nil => rfl
  | j :: l, e :: es, app, hrole, .cons hj hall => by
    rw [List.foldl_cons, postSet_valid hrole hj]
    exact restored_foldl hrole hall

theorem postSet_settings (now : ν) (body : Option (Json ν)) (app : App ν) :
    (app.postSet now body).1.leadership = app.leadership ∧
      (app.postSet now body).1.maxKeyLength = app.maxKeyLength := by
  unfold App.postSet
  split_ifs
  · exact ⟨rfl, rfl⟩
  · split <;> exact ⟨rfl, rfl⟩

theorem foldl_settings (now : ν) : ∀ (l : List (Json ν)) (app : App ν),
    (l.foldl (fun app j => (app.postSet now (some j)).1) app).leadership = app.leadership ∧
      (l.foldl (fun app j => (app.postSet now (some j)).1) app).maxKeyLength = app.maxKeyLength
  | [], app => ⟨rfl, rfl⟩
  | j :: l, app => by
    obtain ⟨hl, hm⟩ := foldl_settings now l (app.postSet now (some j)).1
    obtain ⟨hl', hm'⟩ := postSet_settings now (some j) app
    exact ⟨hl.trans hl', hm.trans hm'⟩

/-! ## The answers of `POST /restore` -/

section Restore

variable {body : Option (Json ν)} {l : List (Json ν)}

theorem postRestore_replica (hrole : app.leadership.role = .replica) :
    app.postRestore now body = (app, App.rejected) :=
  if_pos hrole

theorem postRestore_noArray (hrole : app.leadership.role ≠ .replica)
    (hkeys : ∀ l, readField (orEmpty body) (js "keys") ≠ .value (.arr l)) :
    app.postRestore now body = (app, .error 400 (js "keys must be an array")) := by
  simp only [App.postRestore, if_neg hrole]

theorem postRestore_malformed (hrole : app.leadership.role ≠ .replica)
    (hkeys : readField (orEmpty body) (js "keys") = .value (.arr l))
    (hbad : ∃ j ∈ l, Malformed app.maxKeyLength now j) :
    ∃ message, app.postRestore now body = (app, .error 400 message) := by
  obtain ⟨message, hm⟩ := validateAll_malformed hbad
  exact ⟨message, by simp only [App.postRestore, if_neg hrole, hkeys, hm]⟩

/-- All entries are set as they were validated. -/
theorem postRestore_wellFormed (hrole : app.leadership.role ≠ .replica)
    (hkeys : readField (orEmpty body) (js "keys") = .value (.arr l))
    (hgood : ∀ j ∈ l, ¬ Malformed app.maxKeyLength now j) :
    app.postRestore now body =
      (l.foldl (fun app j => (app.postSet now (some j)).1) app, .restored l.length) := by
  obtain ⟨es, hes, hall⟩ := validateAll_wellFormed hgood
  rw [restored_foldl hrole hall, hall.length_eq]
  simp only [App.postRestore, if_neg hrole, hkeys, hes]

/-- Whatever was set before it, an entry that is not malformed is accepted by `POST /set`. -/
theorem postSet_accepted {before : List (Json ν)} {j : Json ν}
    (hrole : app.leadership.role ≠ .replica) (hj : ¬ Malformed app.maxKeyLength now j) :
    ∃ key ttl, ((before.foldl (fun app j => (app.postSet now (some j)).1) app).postSet now
      (some j)).2.1 = .set key ttl := by
  obtain ⟨hl, hm⟩ := foldl_settings now before app
  rw [← hm] at hj
  rw [← hl] at hrole
  generalize before.foldl (fun app j => (app.postSet now (some j)).1) app = app' at hj hrole ⊢
  rcases hv : validateEntry app'.maxKeyLength now (some j) with m | e
  · exact absurd ⟨m, hv⟩ hj
  · rw [postSet_valid hrole hv]
    exact ⟨e.key, e.ttl, rfl⟩

end Restore

/-- `POST /restore` is refused with the store unchanged, or does what `POST /set` of one entry after
the other does, each of which is accepted. -/
theorem restore_all_or_nothing (now : ν) (body : Option (Json ν)) (app : App ν) :
    let keys := readField (orEmpty body) (js "keys")
    let r := app.postRestore now body
    let setOne := fun (app : App ν) (j : Json ν) => (app.postSet now (some j)).1
    (app.leadership.role = .replica → r.1 = app ∧ ∃ message, r.2 = .error 409 message) ∧
    (app.leadership.role ≠ .replica → (∀ l, keys ≠ .value (.arr l)) →
      r.1 = app ∧ ∃ message, r.2 = .error 400 message) ∧
    (app.leadership.role ≠ .replica → ∀ l, keys = .value (.arr l) →
      (∃ j ∈ l, Malformed app.maxKeyLength now j) →
        r.1 = app ∧ ∃ message, r.2 = .error 400 message) ∧
    (app.leadership.role ≠ .replica → ∀ l, keys = .value (.arr l) →
      (∀ j ∈ l, ¬ Malformed app.maxKeyLength now j) →
        r.1 = l.foldl setOne app ∧ r.2 = .restored l.length ∧
        ∀ before j after, l = before ++ j :: after →
          ∃ key ttl, ((before.foldl setOne app).postSet now (some j)).2.1 = .set key ttl) := by
  intro keys r setOne
  refine ⟨fun hrole => ?_, fun hrole hkeys => ?_, fun hrole l hkeys hbad => ?_,
    fun hrole l hkeys hgood => ⟨?_, ?_, ?_⟩⟩
  · have hr : r = (app, App.rejected) := postRestore_replica hrole
    rw [hr]
    exact ⟨rfl, _, rfl⟩
  · have hr : r = (app, .error 400 (js "keys must be an array")) :=
      postRestore_noArray hrole hkeys
    rw [hr]
    exact ⟨rfl, _, rfl⟩
  · obtain ⟨message, hr⟩ := postRestore_malformed hrole hkeys hbad
    rw [show r = (app, .error 400 message) from hr]
    exact ⟨rfl, _, rfl⟩
  · exact congrArg Prod.fst (postRestore_wellFormed hrole hkeys hgood)
  · exact congrArg Prod.snd (postRestore_wellFormed hrole hkeys hgood)
  · rintro before j after rfl
    exact postSet_accepted hrole (hgood j (by simp))

end InkCache
