import CloudOffers.Proofs.Metrics.Sample
import Mathlib.Logic.Function.Basic
/-!
What the text form shows of any reports. Each family has the samples of the labels that were reported, with
what the reports add up to, unless it takes different labels for the same.
-/

namespace CloudOffers.Metrics

namespace Kind

/-- What is shown for some labels. -/
def shows (k : Kind) (events : List Event) (labels : List (String × String)) : List Sample :=
  k.form.samples k.family.name labels (events.filter (fun e ↦ e.kind = k ∧ e.labels = labels))

/-- The lines of a family that shows some labels. -/
def block (k : Kind) (events : List Event) (shown : List (List (String × String))) : List String :=
  if shown.isEmpty then []
  else
    ["# HELP " ++ k.family.name ++ " " ++ k.family.help, "# TYPE " ++ k.family.name ++ " " ++ k.form.type] ++
      (shown.flatMap (k.shows events)).map Sample.line

end Kind

/-- Just the labels that were reported, each once, ascending. -/
structure Listing (events : List Event) (shown : Kind → List (List (String × String))) : Prop where
  mem_iff : ∀ k labels, labels ∈ shown k ↔ ∃ e ∈ events, e.kind = k ∧ e.labels = labels
  ascending : ∀ k, (shown k).Pairwise (fun a b ↦ a.map (·.2) < b.map (·.2))

/-- The text shows what the reports add up to and nothing else, each sample once and in one line. -/
def Exposes (events : List Event) (text : String) : Prop :=
  ∃ shown, Listing events shown ∧
    text = ofLines (Kind.all.flatMap (fun k ↦ k.block events (shown k))) ∧
    (∀ l ∈ Kind.all.flatMap (fun k ↦ k.block events (shown k)), '\n' ∉ l.toList) ∧
    ((Kind.all.flatMap (fun k ↦ (shown k).flatMap (k.shows events))).map (fun s ↦ (s.name, s.labels))).Nodup

/-- Reports of one kind whose labels have the same fingerprint have the same labels. -/
def Separate (events : List Event) : Prop :=
  ∀ e ∈ events, ∀ e' ∈ events, e.kind = e'.kind → fingerprint e.values = fingerprint e'.values → e.labels = e'.labels

instance (events : List Event) : Decidable (Separate events) :=
  inferInstanceAs (Decidable (∀ e ∈ events, ∀ e' ∈ events,
    e.kind = e'.kind → fingerprint e.values = fingerprint e'.values → e.labels = e'.labels))

section Lines

/-- How a family writes the value of a sample. -/
def Form.lines (name : String) (labels : List (String × String)) : (f : Form) → f.Value → List String
  | .gauge, (x : Binary64) => [sampleLine name labels (NumberStyle.plain.text x)]
  | .counter, (n : Nat) => [sampleLine name labels (toString n)]
  | .histogram, (h : Histogram) =>
    (bounds.zip h.within).map (fun b ↦
      sampleLine (name ++ "_bucket") (labels ++ [("le", NumberStyle.plain.text (limit b.1))]) (toString b.2)) ++
    [sampleLine (name ++ "_bucket") (labels ++ [("le", "+Inf")]) (toString h.count),
      sampleLine (name ++ "_sum") labels (NumberStyle.plain.text h.sum),
      sampleLine (name ++ "_count") labels (toString h.count)]

theorem Form.lines_value (f : Form) (name : String) (labels : List (String × String)) (es : List Event) :
    f.lines name labels (f.value es) = (f.samples name labels es).map Sample.line := by
  cases f with
  | gauge => rfl
  | counter => rfl
  | histogram =>
    simp only [lines, value, samples, ← map_bounds, List.map_append, List.map_map, ← List.map_prod_left_eq_zip]
    rfl

/-- The lines of one family. -/
def Kind.lines (k : Kind) (g : Registry) : List String :=
  k.family.lines k.form.type (k.samples g) (k.form.lines k.family.name)

theorem Registry.lines_eq (g : Registry) : g.lines = Kind.all.flatMap (fun k ↦ k.lines g) := by
  simp only [lines, Kind.all, List.flatMap_cons, List.flatMap_nil, List.append_nil, List.append_assoc]
  rfl

end Lines

/-- A report is the first of its kind with the fingerprint of its labels. -/
def Leads (k : Kind) (events : List Event) (e : Event) : Prop :=
  (sharing k (fingerprint e.values) events).head? = some e

theorem mem_sharing_iff {k : Kind} {key : Nat} {events : List Event} {e : Event} :
    e ∈ sharing k key events ↔ e ∈ events ∧ e.kind = k ∧ fingerprint e.values = key := by
  simp [sharing]

namespace Leads

variable {k : Kind} {events : List Event} {e : Event}

theorem mem (h : Leads k events e) : e ∈ events ∧ e.kind = k :=
  have hmem := mem_sharing_iff.1 (List.mem_of_head? h)
  ⟨hmem.1, hmem.2.1⟩

end Leads

theorem mem_samples_iff {k : Kind} {events : List Event} {s : List String × k.form.Value} :
    s ∈ (k.samples (.ofEvents events)).values ↔ ∃ e, Leads k events e ∧
      s = (e.values, k.form.value (sharing k (fingerprint e.values) events)) := by
  have hget (key : Nat) : (k.samples (.ofEvents events)).get? key = some s ↔
      ∃ e, (sharing k key events).head? = some e ∧ s = (e.values, k.form.value (sharing k key events)) := by
    rw [get?_samples_ofEvents, Option.map_eq_some_iff]
    simp only [eq_comm]
  rw [Dict.values, List.mem_map]
  constructor
  · intro hs
    obtain ⟨⟨key, s⟩, hmem, rfl⟩ := hs
    obtain ⟨e, hhead, hs⟩ := (hget key).1 (Dict.mem_entries_iff.1 hmem)
    obtain ⟨-, -, rfl⟩ := mem_sharing_iff.1 (List.mem_of_head? hhead)
    exact ⟨e, hhead, hs⟩
  · intro hs
    obtain ⟨e, hhead, hs⟩ := hs
    exact ⟨(_, s), Dict.mem_entries_iff.2 ((hget _).2 ⟨e, hhead, hs⟩), rfl⟩

section Shown

variable {k : Kind} {events : List Event} {e : Event} {labels : List (String × String)} {l : String} {g : Registry}

/-- The samples of a family in the order in which it shows them. -/
def Kind.ordered (k : Kind) (g : Registry) : List (List String × k.form.Value) :=
  (k.family.ascendingSamples (k.samples g)).values

/-- The labels that a family shows. -/
def Kind.shown (k : Kind) (g : Registry) : List (List (String × String)) :=
  (k.ordered g).map (fun s ↦ k.family.ascendingLabels s.1)

theorem mem_samples_of_mem_entries {x : List String × List String × k.form.Value}
    (h : x ∈ (k.family.ascendingSamples (k.samples g)).entries) :
    x.2 ∈ (k.samples g).values ∧ x.1 = (k.family.ascendingLabels x.2.1).map (·.2) := by
  obtain ⟨s, hs, rfl⟩ := List.mem_map.1 (Dict.mem_of_mem_entries_ofList h)
  exact ⟨hs, rfl⟩

theorem ascending_shown : (k.shown g).Pairwise (fun a b ↦ a.map (·.2) < b.map (·.2)) := by
  rw [Kind.shown, List.pairwise_map, Kind.ordered, Dict.values, List.pairwise_map]
  refine (k.family.ascendingSamples (k.samples g)).ascending.imp_of_mem fun ha hb hlt ↦ ?_
  rwa [(mem_samples_of_mem_entries ha).2, (mem_samples_of_mem_entries hb).2] at hlt

theorem exists_of_mem_ordered {s : List String × k.form.Value} (h : s ∈ k.ordered (.ofEvents events)) :
    ∃ e, Leads k events e ∧ k.family.ascendingLabels s.1 = e.labels ∧
      s.2 = k.form.value (sharing k (fingerprint e.values) events) := by
  obtain ⟨x, hx, rfl⟩ := List.mem_map.1 h
  obtain ⟨e, he, hs⟩ := mem_samples_iff.1 (mem_samples_of_mem_entries hx).1
  refine ⟨e, he, ?_, by rw [hs]⟩
  rw [hs, ← he.mem.2]
  exact ascendingLabels_values e

theorem mem_shown_iff : labels ∈ k.shown (.ofEvents events) ↔ ∃ e, Leads k events e ∧ e.labels = labels := by
  constructor
  · intro h
    obtain ⟨s, hs, rfl⟩ := List.mem_map.1 h
    obtain ⟨e, he, hlabels, -⟩ := exists_of_mem_ordered hs
    exact ⟨e, he, hlabels.symm⟩
  · intro h
    obtain ⟨e, he, rfl⟩ := h
    have hasc (e : Event) (hk : e.kind = k) : k.family.ascendingLabels e.values = e.labels :=
      hk ▸ ascendingLabels_values e
    -- whatever is shown under the texts of the labels has the same labels
    have hkey : e.labels.map (·.2) ∈ (k.family.ascendingSamples (k.samples (.ofEvents events))).keys := by
      rw [Family.ascendingSamples, Dict.mem_keys_ofList, List.map_map]
      refine List.mem_map.2 ⟨_, mem_samples_iff.2 ⟨e, he, rfl⟩, ?_⟩
      rw [← hasc e he.mem.2]
      rfl
    obtain ⟨x, hx, hkey⟩ := List.mem_map.1 hkey
    obtain ⟨hs, htexts⟩ := mem_samples_of_mem_entries hx
    obtain ⟨e', he', hs'⟩ := mem_samples_iff.1 hs
    have hlabels : k.family.ascendingLabels x.2.1 = e'.labels := by
      rw [hs']
      exact hasc e' he'.mem.2
    rw [htexts, hlabels] at hkey
    refine List.mem_map.2 ⟨x.2, List.mem_map.2 ⟨x, hx, rfl⟩, ?_⟩
    rw [hlabels]
    exact labels_eq_of_texts (he'.mem.2.trans he.mem.2.symm) hkey

theorem isEmpty_samples : (k.samples (.ofEvents events)).isEmpty = (k.shown (.ofEvents events)).isEmpty := by
  have hvalues : (k.samples (.ofEvents events)).isEmpty = (k.samples (.ofEvents events)).values.isEmpty := by
    rw [Dict.isEmpty, Dict.values, List.isEmpty_map]
  rw [hvalues, Bool.eq_iff_iff, List.isEmpty_iff, List.isEmpty_iff, List.eq_nil_iff_forall_not_mem,
    List.eq_nil_iff_forall_not_mem]
  constructor
  · intro hnone labels hlabels
    obtain ⟨e, he, -⟩ := mem_shown_iff.1 hlabels
    exact hnone _ (mem_samples_iff.2 ⟨e, he, rfl⟩)
  · intro hnone s hs
    obtain ⟨e, he, -⟩ := mem_samples_iff.1 hs
    exact hnone _ (mem_shown_iff.2 ⟨e, he, rfl⟩)

theorem lineOf_of_mem_lines (h : l ∈ k.lines (.ofEvents events)) : LineOf k (Leads k events) l := by
  rw [Kind.lines, Family.lines] at h
  split at h
  · cases h
  · obtain hl | hl := List.mem_append.1 h
    · exact .heading hl
    · obtain ⟨s, hs, hl⟩ := List.mem_flatMap.1 hl
      obtain ⟨e, he, hlabels, hvalue⟩ := exists_of_mem_ordered hs
      rw [hlabels, hvalue, Form.lines_value] at hl
      obtain ⟨x, hx, rfl⟩ := List.mem_map.1 hl
      exact .sample he he.mem.2 hx

end Shown

section Listing

variable {k : Kind} {events : List Event} {shown : Kind → List (List (String × String))} {l : String}

theorem Listing.lineOf (h : Listing events shown) (hl : l ∈ k.block events (shown k)) : LineOf k (· ∈ events) l := by
  rw [Kind.block] at hl
  split at hl
  · cases hl
  · obtain hl | hl := List.mem_append.1 hl
    · exact .heading hl
    · obtain ⟨s, hs, rfl⟩ := List.mem_map.1 hl
      obtain ⟨labels, hlabels, hs⟩ := List.mem_flatMap.1 hs
      obtain ⟨e, he, hkind, rfl⟩ := (h.mem_iff k labels).1 hlabels
      exact .sample he hkind hs

theorem Listing.nodup (h : Listing events shown) :
    ((Kind.all.flatMap (fun k ↦ (shown k).flatMap (k.shows events))).map (fun s ↦ (s.name, s.labels))).Nodup := by
  have hevent {k : Kind} {labels : List (String × String)} (hlabels : labels ∈ shown k) :
      ∃ e : Event, e.labels = labels := by
    obtain ⟨e, -, -, hlabels⟩ := (h.mem_iff k labels).1 hlabels
    exact ⟨e, hlabels⟩
  simp only [List.map_flatMap]
  refine List.nodup_flatMap.2 ⟨fun k _ ↦ List.nodup_flatMap.2 ⟨fun labels _ ↦ ?_, ?_⟩, ?_⟩
  · exact Form.nodup_samples ..
  · refine (h.ascending k).imp_of_mem fun {a b} ha hb hlt x hxa hxb ↦ ?_
    obtain ⟨s, hs, rfl⟩ := List.mem_map.1 hxa
    obtain ⟨s', hs', heq⟩ := List.mem_map.1 hxb
    obtain ⟨e, rfl⟩ := hevent ha
    obtain ⟨e', rfl⟩ := hevent hb
    rw [labels_eq_of_mem hs' hs (congrArg Prod.snd heq)] at hlt
    exact KeyOrder.irrefl _ hlt
  · have hall : Kind.all.Nodup := by decide
    refine hall.imp fun {a b} hne x hxa hxb ↦ hne ?_
    obtain ⟨labels, -, hx⟩ := List.mem_flatMap.1 hxa
    obtain ⟨labels', -, hx'⟩ := List.mem_flatMap.1 hxb
    obtain ⟨s, hs, rfl⟩ := List.mem_map.1 hx
    obtain ⟨s', hs', heq⟩ := List.mem_map.1 hx'
    have hname : s'.name = s.name := congrArg Prod.fst heq
    have hfound := Kind.find?_of_mem_names _ (Form.shows_of_mem hs').name
    rw [hname, Kind.find?_of_mem_names _ (Form.shows_of_mem hs).name] at hfound
    exact Option.some.inj hfound

end Listing

section Separate

variable {k : Kind} {events : List Event} {e : Event}

theorem Separate.sharing_eq (h : Separate events) (he : e ∈ events) (hk : e.kind = k) :
    sharing k (fingerprint e.values) events = events.filter (fun e' ↦ e'.kind = k ∧ e'.labels = e.labels) := by
  refine List.filter_congr fun e' he' ↦ decide_eq_decide.2 (and_congr_right fun hk' ↦ ?_)
  have hkind := hk'.trans hk.symm
  refine ⟨h e' he' e he hkind, fun hlabels ↦ ?_⟩
  rw [(values_eq_iff hkind).2 hlabels]

theorem Separate.leads (h : Separate events) (he : e ∈ events) (hk : e.kind = k) :
    ∃ e', Leads k events e' ∧ e'.labels = e.labels := by
  obtain ⟨e', hhead⟩ : ∃ e', (sharing k (fingerprint e.values) events).head? = some e' := by
    refine Option.isSome_iff_exists.1 (List.isSome_head?.2 (List.ne_nil_of_mem (mem_sharing_iff.2 ⟨he, hk, rfl⟩)))
  obtain ⟨he', hk', hkey⟩ := mem_sharing_iff.1 (List.mem_of_head? hhead)
  refine ⟨e', ?_, h e' he' e he (hk'.trans hk.symm) hkey⟩
  rw [Leads, hkey]
  exact hhead

theorem Separate.listing (h : Separate events) : Listing events (fun k ↦ k.shown (.ofEvents events)) where
  mem_iff k labels := by
    rw [mem_shown_iff]
    constructor
    · intro hlabels
      obtain ⟨e, he, hlabels⟩ := hlabels
      exact ⟨e, he.mem.1, he.mem.2, hlabels⟩
    · intro hlabels
      obtain ⟨e, he, hk, rfl⟩ := hlabels
      exact h.leads he hk
  ascending _ := ascending_shown

theorem Separate.lines_eq (h : Separate events) (k : Kind) :
    k.lines (.ofEvents events) = k.block events (k.shown (.ofEvents events)) := by
  rw [Kind.lines, Family.lines, Kind.block, isEmpty_samples]
  split
  · rfl
  · rw [Kind.shown, List.flatMap_map, List.map_flatMap]
    refine congrArg _ (List.flatMap_congr fun s hs ↦ ?_)
    obtain ⟨e, he, hlabels, hvalue⟩ := exists_of_mem_ordered hs
    rw [hvalue, Form.lines_value, h.sharing_eq he.mem.1 he.mem.2, hlabels]
    rfl

theorem Separate.exposes (h : Separate events) : Exposes events (Registry.ofEvents events).text := by
  refine ⟨_, h.listing, ?_, fun l hl ↦ ?_, h.listing.nodup⟩
  · rw [← List.flatMap_congr fun k _ ↦ h.lines_eq k, ← Registry.lines_eq]
    rfl
  · obtain ⟨k, -, hl⟩ := List.mem_flatMap.1 hl
    exact (h.listing.lineOf hl).newline_not_mem

theorem Form.exists_mem_samples (f : Form) (name : String) (labels : List (String × String)) (es : List Event) :
    ∃ s, s ∈ f.samples name labels es := by
  cases f with
  | gauge | counter => exact ⟨_, List.mem_cons_self⟩
  | histogram => exact ⟨_, List.mem_append_right _ List.mem_cons_self⟩

theorem separate_of_exposes (h : Exposes events (Registry.ofEvents events).text) : Separate events := by
  obtain ⟨shown, hlisting, htext, hnewline, -⟩ := h
  have hlines : (Registry.ofEvents events).lines = Kind.all.flatMap (fun k ↦ k.block events (shown k)) := by
    refine ofLines_inj (fun l hl ↦ ?_) hnewline htext
    rw [Registry.lines_eq] at hl
    obtain ⟨k, -, hl⟩ := List.mem_flatMap.1 hl
    exact (lineOf_of_mem_lines hl).newline_not_mem
  rw [Registry.lines_eq] at hlines
  -- each report's labels are shown, so they are those of the first with its fingerprint
  have hleads {e : Event} (he : e ∈ events) : ∃ e', Leads e.kind events e' ∧ e'.labels = e.labels := by
    obtain ⟨s, hs⟩ := Form.exists_mem_samples e.kind.form e.kind.family.name e.labels
      (events.filter (fun e' ↦ e'.kind = e.kind ∧ e'.labels = e.labels))
    have hshown : e.labels ∈ shown e.kind := (hlisting.mem_iff _ _).2 ⟨e, he, rfl, rfl⟩
    have hmem : s.line ∈ Kind.all.flatMap (fun k ↦ k.block events (shown k)) := by
      refine List.mem_flatMap.2 ⟨e.kind, by cases e.kind <;> decide, ?_⟩
      rw [Kind.block, if_neg (by simpa using List.ne_nil_of_mem hshown)]
      exact List.mem_append_right _ (List.mem_map_of_mem (List.mem_flatMap.2 ⟨_, hshown, hs⟩))
    rw [← hlines] at hmem
    obtain ⟨k, -, hmem⟩ := List.mem_flatMap.1 hmem
    obtain ⟨e', he', -, rfl, hlabels⟩ := (lineOf_of_mem_lines hmem).exists hs
    exact ⟨e', he', hlabels⟩
  intro e he e' he' hkind hkey
  obtain ⟨first, hfirst, hlabels⟩ := hleads he
  obtain ⟨first', hfirst', hlabels'⟩ := hleads he'
  have hvalues := (values_eq_iff hfirst.mem.2).2 hlabels
  have hvalues' := (values_eq_iff hfirst'.mem.2).2 hlabels'
  rw [Leads, hvalues, hkind, hkey] at hfirst
  rw [Leads, hvalues'] at hfirst'
  rw [← hlabels, ← hlabels', Option.some.inj (hfirst.symm.trans hfirst')]

end Separate

section Reporters

variable {ι : Type} [DecidableEq ι]

/-- The registries of some reporters after calls, each to one of them. -/
def afterCalls (calls : List (ι × Event)) : ι → Registry :=
  calls.foldl (fun g call ↦ Function.update g call.1 ((g call.1).record call.2)) (fun _ ↦ .empty)

/-- What one reporter was told. -/
def told (i : ι) (calls : List (ι × Event)) : List Event := (calls.filter (fun call ↦ call.1 = i)).map (·.2)

theorem afterCalls_eq (calls : List (ι × Event)) (i : ι) : afterCalls calls i = .ofEvents (told i calls) := by
  induction calls using List.reverseRecOn with
  | nil => rfl
  | append_singleton calls call ih =>
    have hfold : afterCalls (calls ++ [call]) =
        Function.update (afterCalls calls) call.1 ((afterCalls calls call.1).record call.2) := List.foldl_append
    have htold : told i (calls ++ [call]) = told i calls ++ told i [call] := by
      rw [told, List.filter_append, List.map_append]
      rfl
    rw [hfold, htold]
    by_cases hi : call.1 = i
    · subst hi
      have hone : told call.1 [call] = [call.2] := by simp [told]
      rw [Function.update_self, ih, hone, Registry.ofEvents_concat]
    · have hnone : told i [call] = [] := by simp [told, hi]
      rw [Function.update_of_ne (Ne.symm hi), ih, hnone, List.append_nil]

/-- The counts of a histogram never decrease from one bound to the next, nor from the last to the count of all. -/
theorem buckets_pairwise (es : List Event) :
    (Form.buckets.map (fun b ↦ es.countP (fun e ↦ e.elapsed ≤ b.1)) ++ [es.length]).Pairwise (· ≤ ·) := by
  have hbounds : Form.buckets.Pairwise (·.1 ≤ ·.1) := by decide
  refine List.pairwise_append.2 ⟨List.pairwise_map.2 (hbounds.imp fun hle ↦ ?_), List.pairwise_singleton _ _, ?_⟩
  · exact List.countP_mono_left fun e _ he ↦ decide_eq_true (Nat.le_trans (of_decide_eq_true he) hle)
  · intro n hn m hm
    obtain ⟨bound, -, rfl⟩ := List.mem_map.1 hn
    obtain rfl := List.mem_singleton.1 hm
    exact List.countP_le_length

/-- Whoever else is told what, a reporter shows what it was told itself exactly if no two labels of a family have
the same fingerprint. Buckets never decrease, and no line could stand for other labels of its family. -/
theorem exposes_afterCalls_iff (calls : List (ι × Event)) (i : ι) :
    (Exposes (told i calls) (afterCalls calls i).text ↔ Separate (told i calls)) ∧
    (∀ es : List Event,
      (Form.buckets.map (fun b ↦ es.countP (fun e ↦ e.elapsed ≤ b.1)) ++ [es.length]).Pairwise (· ≤ ·)) ∧
    ∀ (events events' : List Event) (e e' : Event), e.kind = e'.kind →
      ∀ s ∈ e.kind.shows events e.labels, ∀ s' ∈ e'.kind.shows events' e'.labels,
        s.line = s'.line → e.values = e'.values := by
  refine ⟨?_, buckets_pairwise, fun events events' e e' hkind s hs s' hs' hline ↦ ?_⟩
  · rw [afterCalls_eq]
    exact ⟨separate_of_exposes, Separate.exposes⟩
  · obtain rfl := Sample.line_inj (named_of_mem hs) (named_of_mem hs') hline
    exact (values_eq_iff hkind).2 (labels_eq_of_mem hs hs' rfl)

/-- Calls to two reporters, some with labels that have to be escaped. -/
def quotedCalls : List (Nat × Event) :=
  [(0, .failure "p" "a\",b" "c"), (1, .failure "p" "a" "c"), (0, .failure "p" "a" "\"\n,c"),
    (0, .regionPricesCompleted "p\\" "c" 100000001), (0, .price "p" "c" "t" .zero), (1, .providerCompleted "q" 40)]

theorem exposes_afterCalls_quotedCalls : Separate (told 0 quotedCalls) ∧
    Exposes (told 0 quotedCalls) (afterCalls quotedCalls 0).text :=
  have hseparate : Separate (told 0 quotedCalls) := by decide +kernel
  ⟨hseparate, (exposes_afterCalls_iff quotedCalls 0).1.2 hseparate⟩

/-- Two failures of one provider whose other labels read the same one after the other. -/
def clashingCalls : List (Nat × Event) := [(0, .failure "p" "a" "bc"), (0, .failure "p" "ab" "c")]

theorem not_exposes_clashingCalls : ¬Exposes (told 0 clashingCalls) (afterCalls clashingCalls 0).text ∧
    (afterCalls clashingCalls 0).lines =
      ["# HELP cloudinfo_scrape_failures_total Total number of failed full refresh steps",
        "# TYPE cloudinfo_scrape_failures_total counter",
        "cloudinfo_scrape_failures_total\x7bprovider=\"p\",region=\"bc\",service=\"a\"\x7d 2"] := by
  refine ⟨fun h ↦ ?_, by decide +kernel⟩
  rw [afterCalls_eq] at h
  exact absurd (separate_of_exposes h) (by decide +kernel)

end Reporters

end CloudOffers.Metrics
