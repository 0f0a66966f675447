import CloudOffers.Proofs.Settings.Validation
import Mathlib.Data.List.TakeWhile
/-!
Which fault of settings is reported. The checks stand in a list, those of the names by their places, and it is
the first of them to fail that is heard of.
-/

namespace CloudOffers

theorem trimBoth_eq_nil_iff {p : Char → Bool} {cs : List Char} : trimBoth p cs = [] ↔ ∀ c ∈ cs, p c := by
  rw [trimBoth, List.reverse_eq_nil_iff, List.dropWhile_eq_nil_iff]
  constructor
  · intro hrest c hc
    rw [← List.takeWhile_append_dropWhile (p := p) (l := cs)] at hc
    rcases List.mem_append.1 hc with hc | hc
    · exact List.mem_takeWhile_imp hc
    · exact hrest c (List.mem_reverse.2 hc)
  · intro hall c hc
    rw [List.dropWhile_eq_nil_iff.2 hall] at hc
    exact absurd hc List.not_mem_nil

theorem isBlankText_iff {s : String} : isBlankText s = true ↔ trimBoth isWhiteSpace s.toList = [] := by
  rw [trimBoth_eq_nil_iff, isBlankText, List.all_eq_true]

namespace Settings

inductive Check where
  | providers
  | name (i : Nat)
  | renewal
  | longTtl
  | shortTtl
  | shutdown

variable (s : Settings)

def checks : List Check :=
  .providers :: ((List.range s.providers.length).map .name ++ [.renewal, .longTtl, .shortTtl, .shutdown])

def Fails : Check → Prop
  | .providers => s.providers = []
  | .name i => ∃ name ∈ s.providers[i]?,
    trimBoth isWhiteSpace name.toList = [] ∨ name ∈ s.providers.take i
  | .renewal => s.renewalSecs < 60
  | .longTtl => s.longTtlSecs = 0
  | .shortTtl => s.shortTtlSecs = 0
  | .shutdown => 300000 < s.shutdownMs

instance : DecidablePred s.Fails
  | .providers => inferInstanceAs (Decidable (s.providers = []))
  | .name i => inferInstanceAs (Decidable (∃ name ∈ s.providers[i]?,
    trimBoth isWhiteSpace name.toList = [] ∨ name ∈ s.providers.take i))
  | .renewal => inferInstanceAs (Decidable (s.renewalSecs < 60))
  | .longTtl => inferInstanceAs (Decidable (s.longTtlSecs = 0))
  | .shortTtl => inferInstanceAs (Decidable (s.shortTtlSecs = 0))
  | .shutdown => inferInstanceAs (Decidable (300000 < s.shutdownMs))

/-- What is said of a check that fails. A name that is blank and was there before is called blank. -/
def complaint : Check → SettingsError
  | .providers => .missing "providers" "Set CLOUDINFO_PROVIDERS environment variable, e.g. [amazon]"
  | .name i =>
    let name := s.providers.getD i ""
    if trimBoth isWhiteSpace name.toList = [] then .invalid "providers" "names must not be empty"
    else .invalid "providers" ("duplicate provider: " ++ name)
  | .renewal => .invalid "renewal_interval_secs" "must be at least 60 seconds"
  | .longTtl => .invalid "cache_long_ttl_secs" "must be greater than 0"
  | .shortTtl => .invalid "cache_short_ttl_secs" "must be greater than 0"
  | .shutdown => .invalid "shutdown_timeout_ms" "must not exceed 5 minutes (300000ms)"

/-- What comes of checks made in order. -/
def verdict (l : List Check) : Except SettingsError Unit :=
  match l.find? (fun c ↦ decide (s.Fails c)) with
  | none => .ok ()
  | some c => .error (s.complaint c)

variable {s}

theorem verdict_cons {c : Check} {q : Prop} [Decidable q] (h : s.Fails c ↔ q) (l : List Check) :
    s.verdict (c :: l) = if q then .error (s.complaint c) else s.verdict l := by
  by_cases hq : q
  · simp [verdict, h.2 hq, hq]
  · simp [verdict, mt h.1 hq, hq]

theorem verdict_eq_error_iff {l : List Check} {e : SettingsError} : s.verdict l = .error e ↔
    ∃ before c after, l = before ++ c :: after ∧ s.Fails c ∧ s.complaint c = e ∧
      ∀ earlier ∈ before, ¬s.Fails earlier := by
  rw [verdict]
  constructor
  · intro h
    split at h
    next => cases h
    next c hfirst =>
      obtain ⟨hfails, before, after, hl, hbefore⟩ := List.find?_eq_some_iff_append.1 hfirst
      refine ⟨before, c, after, hl, of_decide_eq_true hfails, Except.error.inj h, fun earlier hmem ↦ ?_⟩
      simpa using hbefore earlier hmem
  · intro h
    obtain ⟨before, c, after, hl, hfails, rfl, hbefore⟩ := h
    have hfirst : l.find? (fun c ↦ decide (s.Fails c)) = some c :=
      List.find?_eq_some_iff_append.2 ⟨decide_eq_true hfails, before, after, hl, by simpa using hbefore⟩
    rw [hfirst]

section Names

variable {done rest : List String} {name : String} (h : s.providers = done ++ name :: rest)

include h

theorem fails_name_iff : s.Fails (.name done.length) ↔ isBlankText name = true ∨ name ∈ done := by
  simp [Fails, h, isBlankText_iff]

theorem complaint_name : s.complaint (.name done.length) =
    if isBlankText name then .invalid "providers" "names must not be empty"
    else .invalid "providers" ("duplicate provider: " ++ name) := by
  simp [complaint, h, isBlankText_iff]

end Names

/-- The names that are left are checked against those that are done, which are the ones seen. -/
theorem verdict_names {seen done rest : List String} (h : s.providers = done ++ rest)
    (hseen : ∀ name, name ∈ seen ↔ name ∈ done) (l : List Check) :
    s.verdict ((List.range' done.length rest.length).map .name ++ l) = (do
      checkNames seen rest
      s.verdict l) := by
  induction rest generalizing seen done with
  | nil => rfl
  | cons name rest ih =>
    rw [List.length_cons, List.range'_succ, List.map_cons, List.cons_append,
      verdict_cons (fails_name_iff h), complaint_name h, checkNames]
    by_cases hblank : isBlankText name = true
    · rw [if_pos (.inl hblank), if_pos hblank, if_pos hblank]
      rfl
    · by_cases hmem : name ∈ seen
      · rw [if_pos (.inr ((hseen name).1 hmem)), if_neg hblank, if_neg hblank, if_pos hmem]
        rfl
      · have hfine : ¬(isBlankText name = true ∨ name ∈ done) := by simp [hblank, ← hseen, hmem]
        have hsplit : s.providers = (done ++ [name]) ++ rest := by simp [h]
        have hdone (n : String) : n ∈ name :: seen ↔ n ∈ done ++ [name] := by simp [hseen, or_comm]
        have hnext := ih hsplit hdone
        rw [List.length_append, List.length_singleton] at hnext
        rw [if_neg hfine, if_neg hblank, if_neg hmem, hnext]

theorem validate_eq_verdict : s.validate = s.verdict s.checks := by
  have hnames := verdict_names (List.nil_append s.providers).symm (fun _ ↦ Iff.rfl)
    [.renewal, .longTtl, .shortTtl, .shutdown]
  rw [List.length_nil, ← List.range_eq_range'] at hnames
  rw [checks, verdict_cons (c := .providers) List.isEmpty_iff.symm, hnames, verdict_cons (c := .renewal) Iff.rfl,
    verdict_cons (c := .longTtl) Iff.rfl, verdict_cons (c := .shortTtl) Iff.rfl,
    verdict_cons (c := .shutdown) Iff.rfl]
  rfl

section Warnings

variable (s)

def longTtlWarning : Log.Event :=
  Log.warn ("Long-lived cache TTL is shorter than the renewal interval; " ++
      "metadata will expire between refreshes")
    [("cache_long_ttl_secs", toString s.longTtlSecs), ("renewal_interval_secs", toString s.renewalSecs)]

def shortTtlWarning : Log.Event :=
  Log.warn ("Short-lived cache TTL is shorter than the price refresh interval; " ++
      "prices will expire between refreshes")
    [("cache_short_ttl_secs", toString s.shortTtlSecs)]

variable {s}

theorem warnings_eq : s.warnings = (if s.longTtlSecs < s.renewalSecs then [s.longTtlWarning] else []) ++
    (if s.shortTtl < priceRefresh then [s.shortTtlWarning] else []) := rfl

theorem longTtlWarning_ne_shortTtlWarning : s.longTtlWarning ≠ s.shortTtlWarning := by
  intro heq
  exact absurd (congrArg (fun w ↦ w.fields.length) heq) (by decide : ¬2 = 1)

theorem shortTtl_lt_iff : s.shortTtl < priceRefresh ↔ s.shortTtlSecs < 240 := by
  rw [shortTtl, priceRefresh]
  omega

theorem warnings_sublist : s.warnings.Sublist [s.longTtlWarning, s.shortTtlWarning] := by
  have hgiven {c : Prop} [Decidable c] (w : Log.Event) : (if c then [w] else []).Sublist [w] := by
    split
    · exact List.Sublist.refl _
    · exact List.nil_sublist _
  exact (hgiven s.longTtlWarning).append (hgiven s.shortTtlWarning)

theorem longTtlWarning_mem_warnings : s.longTtlWarning ∈ s.warnings ↔ s.longTtlSecs < s.renewalSecs := by
  rw [warnings_eq, List.mem_append]
  split <;> split <;> simp [longTtlWarning_ne_shortTtlWarning, *]

theorem shortTtlWarning_mem_warnings : s.shortTtlWarning ∈ s.warnings ↔ s.shortTtlSecs < 240 := by
  rw [warnings_eq, List.mem_append, ← shortTtl_lt_iff]
  split <;> split <;> simp [longTtlWarning_ne_shortTtlWarning.symm, *]

theorem mem_validationLog_iff {w : Log.Event} :
    w ∈ s.validationLog ↔ s.validate = .ok () ∧ w ∈ s.warnings := by
  rw [validationLog]
  cases hvalid : s.validate with
  | ok => simp
  | error => simp

theorem validationLog_sublist : s.validationLog.Sublist s.warnings := by
  rw [validationLog]
  split
  · exact List.Sublist.refl _
  · exact List.nil_sublist _

end Warnings

theorem isBlankText_eq_false_iff {name : String} :
    isBlankText name = false ↔ trimBoth isWhiteSpace name.toList ≠ [] := by
  rw [← Bool.not_eq_true, isBlankText_iff]

theorem validate_eq_ok_iff_forall : s.validate = .ok () ↔ s.providers ≠ [] ∧
    (∀ name ∈ s.providers, trimBoth isWhiteSpace name.toList ≠ []) ∧ s.providers.Nodup ∧
    60 ≤ s.renewalSecs ∧ 0 < s.longTtlSecs ∧ 0 < s.shortTtlSecs ∧ s.shutdownMs ≤ 300000 := by
  simp only [validate_eq_ok_iff, ← isBlankText_eq_false_iff]
  constructor
  · intro h
    exact ⟨h.some, h.named, h.distinct, h.renewal, h.longTtl, h.shortTtl, h.shutdown⟩
  · intro h
    obtain ⟨hsome, hnamed, hdistinct, hrenewal, hlong, hshort, hshutdown⟩ := h
    exact ⟨hsome, hnamed, hdistinct, hrenewal, hlong, hshort, hshutdown⟩

/-- Validation refuses what is not legal for the first check that fails. Its warnings are about legal settings. -/
theorem validate_first_fault (s : Settings) :
    (s.validate = .ok () ↔ s.providers ≠ [] ∧
      (∀ name ∈ s.providers, trimBoth isWhiteSpace name.toList ≠ []) ∧ s.providers.Nodup ∧
      60 ≤ s.renewalSecs ∧ 0 < s.longTtlSecs ∧ 0 < s.shortTtlSecs ∧ s.shutdownMs ≤ 300000) ∧
    (∀ e, s.validate = .error e ↔ ∃ before c after, s.checks = before ++ c :: after ∧
      s.Fails c ∧ s.complaint c = e ∧ ∀ earlier ∈ before, ¬s.Fails earlier) ∧
    s.validationLog.Sublist [s.longTtlWarning, s.shortTtlWarning] ∧
    (s.longTtlWarning ∈ s.validationLog ↔ s.validate = .ok () ∧ s.longTtlSecs < s.renewalSecs) ∧
    (s.shortTtlWarning ∈ s.validationLog ↔ s.validate = .ok () ∧ s.shortTtlSecs < 240) := by
  refine ⟨validate_eq_ok_iff_forall, fun e ↦ ?_, validationLog_sublist.trans warnings_sublist, ?_, ?_⟩
  · rw [validate_eq_verdict, verdict_eq_error_iff]
  · rw [mem_validationLog_iff, longTtlWarning_mem_warnings]
  · rw [mem_validationLog_iff, shortTtlWarning_mem_warnings]

/-- The second of two equal names is at fault before a blank one that comes later. -/
example : ({ Settings.default with providers := ["amazon", "amazon", " "], renewalSecs := 0 } : Settings).validate =
    .error (.invalid "providers" "duplicate provider: amazon") := by decide

end Settings

end CloudOffers
