import CloudOffers.Proofs.Json.Lexeme
import CloudOffers.Settings.Loading
/-!
What validation accepts. Settings that are loaded have been validated.
-/

namespace CloudOffers.Settings

open Json (bind_eq_ok_iff)

/-- What is asked of settings. -/
structure Legal (s : Settings) : Prop where
  some : s.providers ≠ []
  named : ∀ name ∈ s.providers, isBlankText name = false
  distinct : s.providers.Nodup
  renewal : 60 ≤ s.renewalSecs
  longTtl : 0 < s.longTtlSecs
  shortTtl : 0 < s.shortTtlSecs
  shutdown : s.shutdownMs ≤ 300000

theorem Legal.renewal_pos {s : Settings} (h : s.Legal) : 0 < s.renewal := by
  have hleast := h.renewal
  rw [Settings.renewal]
  omega

theorem checkNames_eq_ok_iff {seen names : List String} : checkNames seen names = .ok () ↔
    (∀ name ∈ names, isBlankText name = false) ∧ names.Nodup ∧ ∀ name ∈ names, name ∉ seen := by
  induction names generalizing seen with
  | nil => simp [checkNames]
  | cons name rest ih =>
    rw [checkNames]
    cases hblank : isBlankText name with
    | true => simp [hblank]
    | false =>
      by_cases hseen : name ∈ seen
      · simp [hseen]
      · -- the names after this one must differ from it as well
        have hrest : (∀ n ∈ rest, n ∉ name :: seen) ↔ name ∉ rest ∧ ∀ n ∈ rest, n ∉ seen := by
          simp only [List.mem_cons, not_or, forall_and]
          refine and_congr_left fun _ ↦ ⟨fun h hmem ↦ h name hmem rfl, ?_⟩
          intro h n hn heq
          exact h (heq ▸ hn)
        rw [if_neg Bool.false_ne_true, if_neg hseen, ih, hrest]
        simp only [List.forall_mem_cons, List.nodup_cons, hblank, hseen, not_false_eq_true, true_and,
          and_assoc]
        exact and_congr_right fun _ ↦ and_left_comm

section Checks

variable {c : Prop} [Decidable c] {e : SettingsError} {rest : Except SettingsError Unit}

theorem check_eq_ok_iff :
    (if c then (do .error e; rest) else rest) = .ok () ↔ ¬c ∧ rest = .ok () := by
  by_cases hc : c
  · simp [hc, bind, Except.bind]
  · simp [hc]

theorem last_check_eq_ok_iff : (if c then .error e else pure ()) = Except.ok () ↔ ¬c := by
  by_cases hc : c
  · simp [hc]
  · simp [hc, pure, Except.pure]

end Checks

theorem validate_eq_ok_iff {s : Settings} : s.validate = .ok () ↔ s.Legal := by
  simp only [validate, check_eq_ok_iff, last_check_eq_ok_iff, bind_eq_ok_iff, List.isEmpty_iff,
    Nat.not_lt]
  constructor
  · intro h
    obtain ⟨hsome, _, hnames, hrenewal, hlong, hshort, hshutdown⟩ := h
    obtain ⟨hnamed, hdistinct, -⟩ := checkNames_eq_ok_iff.1 hnames
    exact ⟨hsome, hnamed, hdistinct, hrenewal, Nat.pos_of_ne_zero hlong, Nat.pos_of_ne_zero hshort,
      hshutdown⟩
  · intro h
    have hnames : checkNames [] s.providers = .ok () :=
      checkNames_eq_ok_iff.2 ⟨h.named, h.distinct, fun _ _ ↦ List.not_mem_nil⟩
    exact ⟨h.some, (), hnames, h.renewal, Nat.ne_of_gt h.longTtl, Nat.ne_of_gt h.shortTtl,
      h.shutdown⟩

theorem validate_of_load {vars : List (String × String)} {file : String → Option String}
    {s : Settings} (h : load vars file = .ok s) : s.validate = .ok () := by
  have hread {layers : Layers} (h : (do
      let s ← ofLayers layers
      s.validate
      .ok s) = Except.ok s) : s.validate = .ok () := by
    obtain ⟨found, -, h⟩ := bind_eq_ok_iff.1 h
    obtain ⟨_, hvalid, h⟩ := bind_eq_ok_iff.1 h
    cases h
    exact hvalid
  rw [load] at h
  split at h
  · obtain ⟨below, -, h⟩ := bind_eq_ok_iff.1 h
    exact hread h
  · exact hread h

end CloudOffers.Settings
