import InkCache.KVConsole

/-!
# Nothing of a command line is lost

A line has exactly one reading, found by looking at its first unit and at whether a quote follows.
The regular expression matches the first part that is no blank and nothing at a blank, so the tokens
are the parts' texts without the quotes of quoted parts; a bare word never has quotes at both ends,
so that nothing else is taken off.
-/

namespace InkCache.KVConsole

open Lib Pattern

theorem isWhiteSpace_quoteMark : JsString.isWhiteSpace quoteMark = false := by decide

/-! ## One reading -/

/-- The first part of a line, and what follows it. -/
def first : JsString → Option (Part × JsString)
  | [] => none
  | u :: s =>
    if JsString.isWhiteSpace u then some (.blank u, s)
    else if u = quoteMark ∧ quoteMark ∈ s then
      some (.quoted (s.takeWhile (· != quoteMark)), (s.dropWhile (· != quoteMark)).tail)
    else some (.bare ((u :: s).takeWhile fun u => !JsString.isWhiteSpace u),
      (u :: s).dropWhile fun u => !JsString.isWhiteSpace u)

variable {p : Part} {s rest : JsString}

theorem first_quoted {body : JsString} (h : quoteMark ∉ body) :
    first (quoteMark :: (body ++ quoteMark :: rest)) = some (.quoted body, rest) := by
  have hbody : ∀ u ∈ body, (u != quoteMark) = true := fun u hu => by
    simpa using ne_of_mem_of_not_mem hu h
  rw [first, isWhiteSpace_quoteMark, if_neg Bool.false_ne_true, if_pos ⟨rfl, by simp⟩,
    List.takeWhile_append_of_pos hbody, List.dropWhile_append_of_pos hbody]
  simp

theorem first_bare {word : JsString} (hne : word ≠ [])
    (hword : ∀ u ∈ word, JsString.isWhiteSpace u = false)
    (hrest : ∀ u ∈ rest.head?, JsString.isWhiteSpace u)
    (hquote : word.head? = some quoteMark → quoteMark ∉ (word ++ rest).tail) :
    first (word ++ rest) = some (.bare word, rest) := by
  have htake := takeWhile_run (p := fun u => !JsString.isWhiteSpace u) (t := word) (s := rest)
    (by simpa using hword) (by simpa using hrest)
  have hdrop : (word ++ rest).dropWhile (fun u => !JsString.isWhiteSpace u) = rest := by
    have := List.takeWhile_append_dropWhile (p := fun u => !JsString.isWhiteSpace u)
      (l := word ++ rest)
    rw [htake] at this
    exact List.append_cancel_left this
  rcases word with _ | ⟨u, word⟩
  · exact absurd rfl hne
  have hu : JsString.isWhiteSpace u = false := hword u List.mem_cons_self
  have hq : ¬ (u = quoteMark ∧ quoteMark ∈ word ++ rest) := fun h =>
    hquote (congrArg some h.1) h.2
  rw [List.cons_append] at htake hdrop ⊢
  rw [first, hu, if_neg Bool.false_ne_true, if_neg hq, htake, hdrop]

theorem Part.Starts.first (h : p.Starts s rest) : first s = some (p, rest) := by
  obtain ⟨rfl, h⟩ := h
  rcases p with u | body | word
  · change KVConsole.first (u :: rest) = _
    rw [KVConsole.first, if_pos h]
  · simpa [Part.text] using first_quoted h
  · exact first_bare h.1 h.2.1 h.2.2.1 h.2.2.2

theorem exists_starts : ∀ {s : JsString}, s ≠ [] → ∃ p rest, Part.Starts p s rest
  | [], h => absurd rfl h
  | u :: s, _ => by
    by_cases hu : JsString.isWhiteSpace u
    · exact ⟨.blank u, s, rfl, hu⟩
    by_cases hq : u = quoteMark ∧ quoteMark ∈ s
    · obtain ⟨rfl, hmem⟩ := hq
      obtain ⟨body, rest, rfl, hbody⟩ := List.eq_append_cons_of_mem hmem
      exact ⟨.quoted body, rest, by simp [Part.text], hbody⟩
    · obtain ⟨word, rest, hsplit, hword, hrest⟩ :=
        exists_run (fun u => !JsString.isWhiteSpace u) (u :: s)
      rcases word with _ | ⟨v, word⟩
      · rw [List.nil_append] at hsplit
        have := hrest u (by rw [← hsplit]; rfl)
        exact absurd (by simpa using this) hu
      refine ⟨.bare (v :: word), rest, hsplit, List.cons_ne_nil _ _, by simpa using hword,
        by simpa using hrest, fun hhead hmem => hq ⟨?_, hmem⟩⟩
      exact (List.cons.inj hsplit).1.trans (Option.some.inj hhead)

theorem Part.Starts.length_lt (h : p.Starts s rest) : rest.length < s.length := by
  obtain ⟨rfl, h⟩ := h
  have htext : 0 < p.text.length := by
    rcases p with u | body | word
    · simp [Part.text]
    · simp [Part.text]
    · exact List.length_pos_iff.2 h.1
  rw [List.length_append]
  omega

theorem existsUnique_reads (s : JsString) : ∃! ps, Reads s ps := by
  by_cases hs : s = []
  · subst hs
    refine ⟨[], rfl, ?_⟩
    rintro (_ | ⟨p, ps⟩) h
    · rfl
    · obtain ⟨rest, hp, -⟩ := h
      exact absurd hp.length_lt (Nat.not_lt_zero _)
  obtain ⟨p, rest, hp⟩ := exists_starts hs
  have := hp.length_lt
  obtain ⟨ps, hps, huniq⟩ := existsUnique_reads rest
  refine ⟨p :: ps, ⟨rest, hp, hps⟩, ?_⟩
  rintro (_ | ⟨p', ps'⟩) h
  · exact absurd h hs
  · obtain ⟨rest', hp', hps'⟩ := h
    have heq := Option.some.inj (hp.first.symm.trans hp'.first)
    simp only [Prod.mk.injEq] at heq
    obtain ⟨rfl, rfl⟩ := heq
    rw [huniq ps' hps']
termination_by s.length

theorem Reads.text_eq : ∀ {ps : List Part} {s : JsString}, Reads s ps → ps.flatMap Part.text = s
  | [], _, h => h.symm
  | p :: ps, s, ⟨rest, hp, hps⟩ => by
    rw [List.flatMap_cons, hps.text_eq]
    exact hp.1.symm

/-! ## The matches are the parts -/

theorem exec_blank {u : UInt16} (h : JsString.isWhiteSpace u) :
    tokenPattern.exec (u :: rest) = none := by
  have hu : u ≠ quoteMark := by
    rintro rfl
    rw [isWhiteSpace_quoteMark] at h
    exact Bool.false_ne_true h
  rw [tokenPattern, exec_alt, exec_many_eq_none (by simpa using h) Nat.one_pos, Pattern.exec,
    ends_seq, ends_unit_cons, if_neg (by simpa using hu)]
  rfl

/-- The second alternative is not tried. -/
theorem exec_quoted {body : JsString} (h : quoteMark ∉ body) :
    tokenPattern.exec (quoteMark :: (body ++ quoteMark :: rest)) = some (body.length + 2) := by
  have hbody : ∀ u ∈ body, (u != quoteMark) = true := fun u hu => by
    simpa using ne_of_mem_of_not_mem hu h
  have hend := ends_until (x := quoteMark) (s := rest) (q := (· == quoteMark)) hbody (by simp)
    (by simp) (by simp)
  rw [tokenPattern, exec_alt, Pattern.exec, ends_seq, ends_unit_cons, if_pos (by simp)]
  simp [hend]
  omega

/-- A word that starts with a quote has no other behind it, and the first alternative fails. -/
theorem exec_bare {word : JsString} (hne : word ≠ [])
    (hword : ∀ u ∈ word, JsString.isWhiteSpace u = false)
    (hrest : ∀ u ∈ rest.head?, JsString.isWhiteSpace u)
    (hquote : word.head? = some quoteMark → quoteMark ∉ (word ++ rest).tail) :
    tokenPattern.exec (word ++ rest) = some word.length := by
  have hmany : (many 1 fun u => !JsString.isWhiteSpace u).exec (word ++ rest)
      = some word.length :=
    exec_many (by simpa using hword) (by simpa using hrest) (List.length_pos_iff.2 hne)
  rcases word with _ | ⟨u, word⟩
  · exact absurd rfl hne
  rw [tokenPattern, exec_alt, hmany, Pattern.exec, List.cons_append, ends_seq, ends_unit_cons]
  by_cases hu : u = quoteMark
  · have hend : (seq (many 0 (· != quoteMark)) (unit (· == quoteMark))).ends (word ++ rest) = [] :=
      ends_until_eq_nil fun v hv => by
        simpa using ne_of_mem_of_not_mem hv (hquote (congrArg some hu))
    rw [if_pos (by simpa using hu)]
    simp [hend]
  · rw [if_neg (by simpa using hu)]
    rfl

/-! ## Tokens -/

/-- The token of a part that is no blank. -/
def Part.token : Part → Option JsString
  | blank _ => none
  | quoted body => some body
  | bare word => some word

theorem unquote_quote (body : JsString) : unquote (quote body) = body := by
  have hend : JsString.endsWith (quote body) (js "\"") = true :=
    List.isSuffixOf_iff_suffix.2 (List.suffix_append (quoteMark :: body) [quoteMark])
  rw [unquote, if_pos ⟨by simp [quote], by simp [quote, JsString.startsWith, js, codeUnits,
    quoteMark], hend⟩]
  simp [quote]

/-- A bare word has no quotes at both ends. -/
theorem unquote_bare {word : JsString}
    (hquote : word.head? = some quoteMark → quoteMark ∉ (word ++ rest).tail) :
    unquote word = word := by
  refine if_neg fun ⟨hlen, hstart, hend⟩ => ?_
  rcases word with _ | ⟨u, _ | ⟨v, word⟩⟩
  · simp at hlen
  · simp at hlen
  have hu : u = quoteMark := by
    obtain ⟨t, ht⟩ := List.isPrefixOf_iff_prefix.1 hstart
    exact (List.cons.inj ht).1.symm
  obtain ⟨_ | ⟨w, t⟩, ht⟩ := List.isSuffixOf_iff_suffix.1 hend
  · exact absurd (congrArg List.length ht) (by simp [js, codeUnits])
  have hmem : quoteMark ∈ v :: word := by
    rw [← (List.cons.inj ht).2]
    exact List.mem_append_right t List.mem_cons_self
  exact hquote (congrArg some hu) (List.mem_append_left rest hmem)

theorem tokenize_nil : tokenize [] = [] := by
  rw [tokenize, matchAll_nil (by decide), List.map_nil]

theorem tokenize_append {t : JsString} (h : tokenPattern.exec (t ++ rest) = some t.length)
    (ht : t ≠ []) : tokenize (t ++ rest) = unquote t :: tokenize rest := by
  rw [tokenize, matchAll_append h ht, List.map_cons, tokenize]

/-- One part of a line gives its token, if it has one. -/
theorem Part.Starts.tokenize (h : p.Starts s rest) :
    tokenize s = p.token.toList ++ tokenize rest := by
  obtain ⟨rfl, h⟩ := h
  rcases p with u | body | word
  · change (tokenPattern.matchAll (u :: rest)).map unquote = _
    rw [matchAll_cons_of_none (exec_blank h)]
    rfl
  · have hexec : tokenPattern.exec (quote body ++ rest) = some (quote body).length := by
      simpa [quote] using exec_quoted h
    change KVConsole.tokenize (quote body ++ rest) = _
    rw [tokenize_append hexec (List.cons_ne_nil _ _), unquote_quote]
    rfl
  · obtain ⟨hne, hword, hrest, hquote⟩ := h
    change KVConsole.tokenize (word ++ rest) = _
    rw [tokenize_append (exec_bare hne hword hrest hquote) hne, unquote_bare hquote]
    rfl

theorem Reads.tokenize : ∀ {ps : List Part} {s : JsString}, Reads s ps →
    tokenize s = ps.filterMap Part.token
  | [], _, h => by
    rw [show _ = [] from h, tokenize_nil]
    rfl
  | p :: ps, s, ⟨rest, hp, hps⟩ => by
    rw [hp.tokenize, hps.tokenize, List.filterMap_cons]
    rcases p.token with _ | t <;> rfl

theorem kept_eq : ∀ ps : List Part, ps.flatMap Part.kept = (ps.filterMap Part.token).flatten
  | [] => rfl
  | .blank _ :: ps => kept_eq ps
  | .quoted body :: ps => congrArg (body ++ ·) (kept_eq ps)
  | .bare word :: ps => congrArg (word ++ ·) (kept_eq ps)

/-! ## Texts between quotes -/

/-- Texts between quotes with spaces between them come back. -/
theorem tokenize_quoteAll : ∀ {l : List JsString}, (∀ t ∈ l, quoteMark ∉ t) →
    tokenize (quoteAll l) = l
  | [], _ => tokenize_nil
  | [t], h => by
    have ht : (Part.quoted t).Starts (quote t) [] := ⟨by simp [quote, Part.text], h t (by simp)⟩
    rw [quoteAll, List.map_singleton, List.intercalate_singleton, ht.tokenize, tokenize_nil]
    rfl
  | t :: t' :: l, h => by
    have ih := tokenize_quoteAll fun x hx => h x (List.mem_cons_of_mem t hx)
    have ht : (Part.quoted t).Starts (quoteAll (t :: t' :: l)) (js " " ++ quoteAll (t' :: l)) :=
      ⟨by simp [quote, Part.text, quoteAll, List.intercalate_cons_cons], h t (by simp)⟩
    have hspace : JsString.isWhiteSpace 32 := by decide
    have hblank : (Part.blank 32).Starts (js " " ++ quoteAll (t' :: l)) (quoteAll (t' :: l)) :=
      ⟨rfl, hspace⟩
    rw [ht.tokenize, hblank.tokenize, ih]
    rfl

/-- Every line has one reading; its tokens are, one after the other, what the reading keeps, which
is all but the white space outside quotes and the quotes of quoted texts. Texts without quotes that
are put between quotes come back as they were. -/
theorem tokenize_keeps :
    (∀ s, ∃! ps, Reads s ps) ∧
    (∀ s ps, Reads s ps → ps.flatMap Part.text = s ∧
      (tokenize s).flatten = ps.flatMap Part.kept) ∧
    ∀ l : List JsString, (∀ t ∈ l, quoteMark ∉ t) → tokenize (quoteAll l) = l :=
  ⟨existsUnique_reads, fun _ ps h => ⟨h.text_eq, by rw [h.tokenize, kept_eq ps]⟩,
    fun _ => tokenize_quoteAll⟩

/-- A quoted text, a space and a word with a quote in it. -/
theorem tokenize_keeps_three :
    Reads (js "\"a b\" c\"") [.quoted (js "a b"), .blank 32, .bare (js "c\"")] ∧
    (tokenize (js "\"a b\" c\"")).flatten = js "a bc\"" ∧
    tokenize (quoteAll [js "a b", js "c"]) = [js "a b", js "c"] := by
  have hbody : quoteMark ∉ js "a b" := by decide
  have hword : js "c\"" ≠ [] ∧ (∀ u ∈ js "c\"", JsString.isWhiteSpace u = false) ∧
      (∀ u ∈ ([] : JsString).head?, JsString.isWhiteSpace u) ∧
      ((js "c\"").head? = some quoteMark → quoteMark ∉ (js "c\"").tail) :=
    ⟨by decide, by simp [js, codeUnits, JsString.isWhiteSpace], by simp, by decide⟩
  have hspace : JsString.isWhiteSpace 32 := by decide
  have h : Reads (js "\"a b\" c\"") [.quoted (js "a b"), .blank 32, .bare (js "c\"")] :=
    ⟨_, ⟨rfl, hbody⟩, _, ⟨rfl, hspace⟩, _, ⟨rfl, hword⟩, rfl⟩
  exact ⟨h, (tokenize_keeps.2.1 _ _ h).2, tokenize_keeps.2.2 _ (by decide)⟩

end InkCache.KVConsole
