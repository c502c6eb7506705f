import InkCache.Auth
import InkCache.Proofs.Uri

/-!
# Which requests present the key

Header values have one unit for each byte, so what is read of one is well-formed, and its bytes are
the key's only if it is the key (`safeEqual_eq_true`). The token is what is between the first two
spaces of `Authorization` (`bearerToken_eq_some`): no key with a space in it is ever read from
there, and one without is, whatever follows the space behind it.
-/

namespace InkCache

open JsString Lib

variable {key auth token : JsString} {req : AuthRequest}

theorem safeEqual_eq_true {a b : JsString} (ha : a.WellFormed) (hb : b.WellFormed) :
    safeEqual a b = true ↔ a = b := by
  rw [← utf8_injOn ha hb, safeEqual]
  split_ifs with hlen
  · simp only [false_iff]
    intro h
    exact hlen (congrArg List.length h)
  · exact decide_eq_true_iff

/-! ## The token -/

theorem bearer_eq (token : JsString) : AuthRequest.bearer token = js "Bearer" ++ 32 :: token := rfl

theorem bearerToken_eq_some : bearerToken auth = some token ↔ token ≠ [] ∧ 32 ∉ token ∧
    (auth = AuthRequest.bearer token ∨ ∃ rest, auth = AuthRequest.bearer token ++ 32 :: rest) := by
  have hscheme : (32 : UInt16) ∉ js "Bearer" := by decide
  have hpieces := splitOn_eq_cons_cons (a := 32) (s := auth) (t := js "Bearer") (u := token)
  simp only [bearer_eq, List.append_assoc, List.cons_append]
  constructor
  · intro h
    rw [bearerToken] at h
    rcases hl : auth.splitOn 32 with _ | ⟨t, _ | ⟨u, l⟩⟩ <;> rw [hl] at h
    · cases h
    · cases h
    · simp only [Option.ite_none_right_eq_some, Option.some.injEq] at h
      obtain ⟨⟨rfl, hne⟩, rfl⟩ := h
      exact ⟨hne, (hpieces.1 ⟨l, hl⟩).2⟩
  · rintro ⟨hne, htoken, h⟩
    obtain ⟨l, hl⟩ := hpieces.2 ⟨hscheme, htoken, h⟩
    rw [bearerToken, hl]
    exact if_pos ⟨rfl, hne⟩

theorem bearerToken_subset (h : bearerToken auth = some token) : token ⊆ auth := by
  intro u hu
  rcases (bearerToken_eq_some.1 h).2.2 with rfl | ⟨rest, rfl⟩ <;>
    simp only [AuthRequest.bearer, List.mem_append]
  · exact .inr hu
  · exact .inl (.inr hu)

/-! ## The key that is presented -/

theorem headerValue_wellFormed (h : Option HeaderValue) {s : JsString}
    (hs : s ⊆ (h.map HeaderValue.units).getD []) : s.WellFormed := by
  refine wellFormed_of_lt fun u hu => ?_
  rcases h with _ | h
  · cases hs hu
  · exact UInt16.lt_trans (h.isByte u (hs hu)) (by decide)

theorem presentedKey_wellFormed (h : req.presentedKey = some token) : token.WellFormed := by
  unfold AuthRequest.presentedKey at h
  split_ifs at h
  · rw [Option.some.injEq] at h
    exact headerValue_wellFormed req.xApiKey (h ▸ List.Subset.refl _)
  · exact headerValue_wellFormed req.authorization (bearerToken_subset h)

/-- What passes is what presents the key. -/
theorem authMiddleware_next (hne : key ≠ []) (hkey : key.WellFormed)
    (hpath : req.path ∉ authExemptPaths) :
    authMiddleware (some key) req = .next ↔ req.presentedKey = some key := by
  obtain ⟨k, ks, rfl⟩ := List.exists_cons_of_ne_nil hne
  simp only [authMiddleware, if_neg hpath]
  rcases hp : req.presentedKey with _ | _ | ⟨u, us⟩
  · simp
  · simp
  · have hwf := presentedKey_wellFormed hp
    simp only [Option.some.injEq, ← safeEqual_eq_true hwf hkey]
    split_ifs with heq <;> simp [heq]

theorem bearer_ne_nil (key : JsString) : AuthRequest.bearer key ≠ [] :=
  List.append_ne_nil_of_left_ne_nil (by decide) key

theorem presentedKey_eq (hne : key ≠ []) : req.presentedKey = some key ↔
    if req.apiKeyHeader ≠ [] then req.apiKeyHeader = key
    else 32 ∉ key ∧ (req.authorizationHeader = AuthRequest.bearer key ∨
      ∃ rest, req.authorizationHeader = AuthRequest.bearer key ++ 32 :: rest) := by
  unfold AuthRequest.presentedKey
  split_ifs with hx hauth
  · exact Option.some_inj
  · have hnone : ∀ s, [] ≠ AuthRequest.bearer key ++ s := fun s h =>
      bearer_ne_nil key (List.append_eq_nil_iff.1 h.symm).1
    have hbearer := hnone []
    rw [List.append_nil] at hbearer
    simp only [hauth, hbearer, hnone, exists_false, or_self, and_false]
  · rw [bearerToken_eq_some, and_iff_right hne]

/-- The middleware lets through exactly the requests that hold the key if and only if the header it
reads is read to its end. -/
theorem auth_accepts_iff (key : JsString) (hne : key ≠ []) (hkey : key.WellFormed)
    (req : AuthRequest) (hpath : req.path ∉ authExemptPaths) :
    (authMiddleware (some key) req = .next ↔ req.HoldsKey key) ↔ req.ReadInFull key := by
  rw [authMiddleware_next hne hkey hpath, presentedKey_eq hne]
  unfold AuthRequest.HoldsKey AuthRequest.ReadInFull
  by_cases hx : req.apiKeyHeader = []
  · have hx' : req.apiKeyHeader ≠ key := hx ▸ hne.symm
    have hlonger : (∃ rest, req.authorizationHeader = AuthRequest.bearer key ++ 32 :: rest) →
        req.authorizationHeader ≠ AuthRequest.bearer key := by
      rintro ⟨rest, h⟩
      rw [h, Ne, List.append_right_eq_self]
      exact List.cons_ne_nil 32 rest
    simp only [if_neg (not_not.2 hx), ← not_exists, Ne]
    split_ifs <;> tauto
  · simp only [if_pos hx]
    tauto

def bearerSecret : HeaderValue := ⟨js "Bearer secret", by simp [js, codeUnits]⟩

/-- The right header, where the key has a space in it. -/
def spacedRequest : AuthRequest where
  path := js "/get/user:1"
  xApiKey := none
  authorization := some ⟨js "Bearer open sesame", by simp [js, codeUnits]⟩

/-- The right header beside a wrong one. -/
def besideRequest : AuthRequest where
  path := js "/get/user:1"
  xApiKey := some ⟨js "wrong", by simp [js, codeUnits]⟩
  authorization := some bearerSecret

/-- More than the key. -/
def longerRequest : AuthRequest where
  path := js "/get/user:1"
  xApiKey := none
  authorization := some ⟨js "Bearer secret and more", by simp [js, codeUnits]⟩

/-- The right `Authorization` header alone lets a request through. -/
theorem auth_accepts_bearer : authMiddleware (some (js "secret"))
    { longerRequest with authorization := some bearerSecret } = .next := by
  refine ((auth_accepts_iff (js "secret") (by decide) (by decide) _ (by decide)).2 ?_).2 (.inr rfl)
  intro rest h
  cases h

/-- A key with a space in it is turned away where it is behind `Bearer`, and so is the right key
beside a wrong one; more than the key is let through. -/
theorem auth_misreads :
    ¬(authMiddleware (some (js "open sesame")) spacedRequest = .next ↔
      spacedRequest.HoldsKey (js "open sesame")) ∧
    ¬(authMiddleware (some (js "secret")) besideRequest = .next ↔
      besideRequest.HoldsKey (js "secret")) ∧
    ¬(authMiddleware (some (js "secret")) longerRequest = .next ↔
      longerRequest.HoldsKey (js "secret")) := by
  refine ⟨?_, ?_, ?_⟩ <;>
    rw [authMiddleware_next (by decide) (by decide) (by decide), AuthRequest.HoldsKey] <;> decide

end InkCache
