import CloudOffers.Proofs.Refresh.Ensemble
/-!
A full cycle and a price cycle of one provider that overlap. They meet on prices only, and each price
is written as a whole by one of them.
-/

namespace CloudOffers

open Plan (Step inquiries writes withoutLogs)
open PriceRefresh (Listing Outcome compute)

/-- The price that a snapshot has for a key, if any. -/
def FullRefresh.found (provider : String) (snapshot : Request.snapshot.Reply) :
    (k : Key) → Option k.Payload
  | .price p region instanceType =>
    if p = provider then
      snapshot.toOption.bind (fun (prices : PriceSnapshot) ↦
        (prices.get? region).bind (fun (d : Dict String Price) ↦ d.get? instanceType))
    else none
  | _ => none

namespace FullRefresh

variable {provider : String} {snapshot : Request.snapshot.Reply} {k : Key} {v : k.Payload}

theorem mem_publications_iff_found :
    ⟨k, v⟩ ∈ (Step.asked .snapshot snapshot).publications provider ↔
      found provider snapshot k = some v := by
  constructor
  · intro h
    cases snapshot with
    | error e => cases h
    | ok prices =>
      obtain ⟨region, d, instanceType, price, hregion, hprice, heq⟩ :=
        (Request.mem_snapshot_publications_iff provider).1 h
      cases heq
      rw [found, if_pos rfl]
      change (Dict.get? prices region).bind (fun (d : Dict String Price) ↦ d.get? instanceType) = _
      exact Option.bind_eq_some_iff.2 ⟨d, hregion, hprice⟩
  · intro h
    cases k with
    | price p region instanceType =>
      simp only [found] at h
      split at h
      · next hp =>
        subst hp
        cases snapshot with
        | error e => cases h
        | ok prices =>
          change (Dict.get? prices region).bind (fun (d : Dict String Price) ↦ d.get? instanceType) =
            some v at h
          obtain ⟨d, hregion, hprice⟩ := Option.bind_eq_some_iff.1 h
          exact (Request.mem_snapshot_publications_iff p).2
            ⟨region, d, instanceType, v, hregion, hprice, rfl⟩
      · cases h
    | _ => cases h

end FullRefresh

/-- The price that a cycle offers for a key if its source always answers alike. -/
def Cycle.offer (src : Source Unit) (provider : String) : Cycle → (k : Key) → Option k.Payload
  | .full => FullRefresh.found provider (src.answer .snapshot ()).1
  | .prices => PriceRefresh.found provider (src.answer (.regions compute) ()).1
      (fun region ↦ (src.answer (.currentPrices region) ()).1)

theorem Course.Moves.answers {src : Source Unit} {time : Unit → Nat} {provider : String} {c d : Course}
    {s t : Unit} {steps : List Step} (h : c.Moves src time provider s steps d t) :
    ∀ x ∈ inquiries steps, src.Answers () x := by
  have hdialogue : src.Dialogue (fun _ _ ↦ False) s (inquiries steps) t := h.dialogue
  have hall (r : Request) (reply : r.Reply) (_ : .asked r reply ∈ inquiries steps) : True := trivial
  exact (hdialogue.invariant (P := fun _ ↦ True) (R := src.Answers ()) trivial (fun _ _ _ _ ↦ trivial)
    (fun _ _ _ _ ↦ ⟨rfl, trivial⟩) (fun _ _ ↦ trivial) hall).1

namespace Ensemble

/-- Both cycles of one manager. -/
def both (src : Source Unit) (provider : String) : Ensemble Unit Cycle (fun _ ↦ Unit) where
  provider _ := provider
  source _ := src
  manager _ := ()
  cycle c := c

/-- What is left of a chronicle when the price cycle is left out. -/
def Chronicle.fullAlone (l : Chronicle Unit Cycle) : Chronicle Unit Cycle :=
  l.filter (fun x ↦ x.2.isAmong (fun _ ↦ true) (fun c ↦ c = .full) (fun _ ↦ true))

variable {src : Source Unit} {provider : String} {l : Chronicle Unit Cycle}
  {a b : Stage Unit Cycle (fun _ ↦ Unit)} {k : Key}

theorem Runs.answers (h : (both src provider).Runs a l b) {c : Cycle} :
    ∀ x ∈ inquiries (l.own c), src.Answers () x := by
  intro x hx
  obtain ⟨hown, hinquiry⟩ := List.mem_filter.1 hx
  obtain ⟨time, steps, hmem, hsteps⟩ := Chronicle.mem_own_iff.1 hown
  obtain ⟨_, _, _, _, hm⟩ := h.moves hmem
  exact hm.answers x (List.mem_filter.2 ⟨hsteps, hinquiry⟩)

theorem Runs.fullAlone (h : (both src provider).Runs a l b) :
    ∃ b', (both src provider).Runs a l.fullAlone b' ∧ b'.courses .full = b.courses .full := by
  have hclosed : (both src provider).IsClosed (fun _ ↦ true) (fun c ↦ c = .full) :=
    ⟨fun _ _ ↦ rfl, fun _ _ _ ↦ inferInstanceAs (Subsingleton Unit)⟩
  obtain ⟨b', halone, hagrees⟩ := h.filter hclosed (.refl a)
  exact ⟨b', halone, (hagrees.courses .full rfl).symm⟩

section Settled

variable (h : (both src provider).Runs ((both src provider).start (fun _ ↦ ())) l b)
  (hover : ∀ c, b.courses c = Course.ended c)
include h hover

theorem Runs.mem_publications_full_iff (hk : k.category = .prices) {v : k.Payload} :
    ⟨k, v⟩ ∈ (writes (l.own .full)).map Write.publication ↔
      Cycle.full.offer src provider k = some v := by
  obtain ⟨text, hcompleted⟩ :=
    h.ensures_ended (i := Cycle.full) (FullRefresh.cycle_ensures provider) (hover .full)
  have hcompleted := hcompleted.of_withoutLogs
  obtain ⟨snapshot, rest, hasked, hrest⟩ := hcompleted.inquires.snapshot
  have hreply : snapshot = (src.answer .snapshot ()).1 :=
    h.answers (.asked .snapshot snapshot) (hasked ▸ List.mem_cons_self)
  have hstatus : k.category ≠ .status := by
    rw [hk]
    decide
  rw [hcompleted.mem_published_iff hstatus, hasked, List.flatMap_cons, List.mem_append,
    FullRefresh.mem_publications_iff_found, hreply]
  refine or_iff_left fun hmem ↦ ?_
  -- after the snapshot no price is written
  obtain ⟨x, hx, hmem⟩ := List.mem_flatMap.1 hmem
  cases x with
  | asked r reply =>
    cases reply with
    | ok answer =>
      have hasks := (Request.key_of_mem_publications provider hmem).2.1 hk
      exact Bool.noConfusion (hasks.symm.trans (hrest r _ hx))
    | error e => cases hmem
  | askedImages offered => cases hmem
  | acted time act => cases hmem

theorem Runs.mem_publications_prices_iff {v : k.Payload} :
    ⟨k, v⟩ ∈ (writes (l.own .prices)).map Write.publication ↔
      Cycle.prices.offer src provider k = some v := by
  obtain ⟨listing, outcome, hs⟩ :=
    h.ensures_ended (i := Cycle.prices) (PriceRefresh.cycle_ensures provider) (hover .prices)
  have hs := hs.of_withoutLogs
  obtain ⟨hlisting, houtcome⟩ := hs.answered h.answers
  rw [hs.published.mem_iff, PriceRefresh.mem_publications_iff_found,
    PriceRefresh.found_congr houtcome, hlisting]
  rfl

/-- A cycle offers the prices that it writes. -/
theorem Runs.offer_eq_some_iff {c : Cycle} (hk : k.category = .prices) {v : k.Payload} :
    c.offer src provider k = some v ↔
      ∃ time steps, (time, .moved c steps) ∈ l ∧ ⟨time, k, v⟩ ∈ writes steps := by
  have hpublished : ⟨k, v⟩ ∈ (writes (l.own c)).map Write.publication ↔
      c.offer src provider k = some v := by
    cases c with
    | full => exact h.mem_publications_full_iff hover hk
    | prices => exact h.mem_publications_prices_iff hover
  rw [← hpublished, List.mem_map]
  constructor
  · rintro ⟨⟨written, k', v'⟩, hw, heq⟩
    cases heq
    obtain ⟨time, steps, hmem, hw⟩ := Chronicle.mem_writes_own_iff.1 hw
    have htime : written = time := h.times hmem hw
    exact ⟨time, steps, hmem, htime ▸ hw⟩
  · rintro ⟨time, steps, hmem, hw⟩
    exact ⟨_, Chronicle.mem_writes_own_iff.2 ⟨time, steps, hmem, hw⟩, rfl⟩

theorem Runs.category_of_mem_writes {time : Nat} {steps : List Step}
    (hmem : (time, .moved .prices steps) ∈ l) {w : Write} (hw : w ∈ writes steps) :
    w.key.category = .prices := by
  have hown := Chronicle.mem_writes_own_iff.2 ⟨time, steps, hmem, hw⟩
  have hoffer := (h.mem_publications_prices_iff hover).1 (List.mem_map_of_mem hown)
  obtain ⟨region, instanceType, hkey⟩ := PriceRefresh.exists_of_found hoffer
  rw [hkey]
  rfl

/-- The price cycle writes nothing else. -/
theorem Runs.latest_fullAlone (hk : k.category ≠ .prices) :
    Write.latest k (History.writes l.fullAlone.history) =
      Write.latest k (History.writes l.history) := by
  apply Chronicle.latest_filter
  rintro ⟨time, x⟩ hx hleft w hw rfl
  cases x with
  | moved c steps =>
    rw [Chronicle.writes_history_moved] at hw
    cases c with
    | full => cases hleft
    | prices => exact hk (h.category_of_mem_writes hover hx hw)
  | changed m => cases hleft
  | operated o => cases hleft

theorem Runs.offer_of_latest (hl : ∀ time o, (time, .operated o) ∉ l) (hk : k.category = .prices)
    {e : Entry k.Payload}
    (hlast : Write.latest k (History.writes l.history) = some e) :
    ∃ (before : Chronicle Unit Cycle) (c : Cycle) (steps : List Step) (later : Chronicle Unit Cycle),
      l = before ++ (e.writtenAt, .moved c steps) :: later ∧ ⟨e.writtenAt, k, e.value⟩ ∈ writes steps ∧
      (∀ time c steps, (time, .moved c steps) ∈ later → ∀ w ∈ writes steps, w.key ≠ k) ∧
      c.offer src provider k = some e.value := by
  obtain ⟨before, time, c, steps, later, hsplit, hw, hlater⟩ := Chronicle.exists_of_latest hl hlast
  have hmem : (time, .moved c steps) ∈ l := by
    rw [hsplit]
    exact List.mem_append_right _ List.mem_cons_self
  have htime : e.writtenAt = time := h.times hmem hw
  rw [← htime] at hsplit hmem
  refine ⟨before, c, steps, later, hsplit, hw, hlater, ?_⟩
  exact (h.offer_eq_some_iff hover hk).2 ⟨e.writtenAt, steps, hmem, hw⟩

theorem Runs.offer_eq_none (hk : k.category = .prices)
    (hlast : Write.latest k (History.writes l.history) = none) (c : Cycle) :
    c.offer src provider k = none := by
  rw [Option.eq_none_iff_forall_ne_some]
  intro v hv
  obtain ⟨time, steps, hmem, hw⟩ := (h.offer_eq_some_iff hover hk).1 hv
  exact Write.latest_eq_none_iff.1 hlast _ (Chronicle.mem_writes_history hmem hw) rfl

end Settled

/-- A full cycle and a price cycle of one manager whose source always answers alike, in any order of
their moves. Whatever is not a price is as the full cycle leaves it by itself. A price is one that a
cycle offers, as a whole, and the cycle that wrote it last; it is the old one if neither offers any. -/
theorem both_settled (h : (both src provider).Runs ((both src provider).start (fun _ ↦ ())) l b)
    (hover : ∀ c, b.courses c = Course.ended c) (hl : ∀ time o, (time, .operated o) ∉ l)
    (store : Store) :
    let after := store.after l.history
    (∃ b', (both src provider).Runs ((both src provider).start (fun _ ↦ ())) l.fullAlone b' ∧
      b'.courses .full = Course.ended .full) ∧
    (∀ k, k.category ≠ .prices → after.kept? k = (store.after l.fullAlone.history).kept? k) ∧
    (∀ k, k.category = .prices →
      (∀ (c : Cycle) v, c.offer src provider k = some v ↔
        ∃ time steps, (time, .moved c steps) ∈ l ∧ ⟨time, k, v⟩ ∈ writes steps) ∧
      ((∀ c : Cycle, c.offer src provider k = none) ∧ after.kept? k = store.kept? k ∨
        ∃ (before : Chronicle Unit Cycle) (time : Nat) (c : Cycle) (steps : List Step)
          (later : Chronicle Unit Cycle) (v : k.Payload),
          l = before ++ (time, .moved c steps) :: later ∧ ⟨time, k, v⟩ ∈ writes steps ∧
          (∀ time c steps, (time, .moved c steps) ∈ later → ∀ w ∈ writes steps, w.key ≠ k) ∧
          c.offer src provider k = some v ∧ after.kept? k = some ⟨v, time⟩)) ∧
    ∀ k, (store.kept? k).isSome → (after.kept? k).isSome := by
  intro after
  have hkept (k : Key) : after.kept? k = _ := Chronicle.kept?_after_history hl store k
  refine ⟨?_, fun k hk ↦ ?_, fun k hk ↦ ⟨fun c v ↦ h.offer_eq_some_iff hover hk, ?_⟩,
    fun k hsome ↦ ?_⟩
  · obtain ⟨b', halone, hcourse⟩ := h.fullAlone
    exact ⟨b', halone, hcourse.trans (hover .full)⟩
  · have halone (time : Nat) (o : Operation) : (time, .operated o) ∉ l.fullAlone :=
      fun hmem ↦ hl time o (List.mem_filter.1 hmem).1
    rw [hkept, Chronicle.kept?_after_history halone, h.latest_fullAlone hover hk]
  · rw [hkept]
    cases hlast : Write.latest k (History.writes l.history) with
    | none => exact .inl ⟨h.offer_eq_none hover hk hlast, Option.none_or⟩
    | some e =>
      obtain ⟨before, c, steps, later, hsplit, hw, hlater, hoffer⟩ :=
        h.offer_of_latest hover hl hk hlast
      exact .inr ⟨before, e.writtenAt, c, steps, later, e.value, hsplit, hw, hlater, hoffer, rfl⟩
  · rw [hkept, Option.isSome_or, hsome, Bool.or_true]

theorem both_settled_sampleSource :
    let E := both PriceRefresh.sampleSource "p"
    let k : Key := .price "p" "e" "t"
    Cycle.full.offer PriceRefresh.sampleSource "p" k = some (⟨.ofNat 3, .empty⟩ : Price) ∧
      Cycle.prices.offer PriceRefresh.sampleSource "p" k = some (⟨.ofNat 5, .empty⟩ : Price) ∧
      ∃ l b, E.Runs (E.start (fun _ ↦ ())) l b ∧ (∀ c, b.courses c = Course.ended c) ∧
        ∃ (c : Cycle) (v : k.Payload) (time : Nat),
          c.offer PriceRefresh.sampleSource "p" k = some v ∧
          ((Store.empty ⟨9, 9⟩).after l.history).kept? k = some ⟨v, time⟩ := by
  intro E k
  have hfull : Cycle.full.offer PriceRefresh.sampleSource "p" k =
      some (⟨.ofNat 3, .empty⟩ : Price) := rfl
  refine ⟨hfull, rfl, ?_⟩
  let a := E.start (fun _ ↦ ())
  obtain ⟨first, hfirst, -, hmoved⟩ := runs_of_course (E := E) (i := Cycle.full) a
    (Course.runs_plan PriceRefresh.sampleSource (fun _ ↦ 3) (fun _ _ ↦ False) "p" .full ())
  let a' := (a.setState () ()).setCourse Cycle.full (Course.ended .full)
  obtain ⟨second, hsecond, -, hmoved'⟩ := runs_of_course (E := E) (i := Cycle.prices) a'
    (Course.runs_plan PriceRefresh.sampleSource (fun _ ↦ 4) (fun _ _ ↦ False) "p" .prices ())
  have hruns := hfirst.trans hsecond
  have hl (time : Nat) (o : Operation) : (time, .operated o) ∉ first ++ second := by
    intro hmem
    rcases List.mem_append.1 hmem with hmem | hmem
    · obtain ⟨_, heq⟩ := hmoved _ hmem
      cases heq
    · obtain ⟨_, heq⟩ := hmoved' _ hmem
      cases heq
  refine ⟨first ++ second, _, hruns, fun c ↦ by cases c <;> rfl, ?_⟩
  obtain ⟨-, -, hprices, -⟩ := both_settled hruns (fun c ↦ by cases c <;> rfl) hl (.empty ⟨9, 9⟩)
  rcases (hprices k rfl).2 with ⟨hnone, -⟩ | ⟨_, time, c, _, _, v, _, _, _, hoffer, hkept⟩
  · have hoffer := hnone .full
    rw [hfull] at hoffer
    cases hoffer
  · exact ⟨c, v, time, hoffer, hkept⟩

end Ensemble

end CloudOffers
