import CloudOffers.Proofs.Inventory.Missing
import CloudOffers.Proofs.Refresh.FullCycle
import CloudOffers.Proofs.Store.Count
/-!
A full refresh after another one that was answered the same. It asks the same, and leaves what can be
looked up as it is, besides the status.
-/

namespace CloudOffers

open Plan (Step inquiries writes)

namespace Write

variable {k : Key}

theorem latest_concat_self (l : List Write) (w : Write) :
    latest w.key (l ++ [w]) = some ⟨w.payload, w.time⟩ :=
  latest_eq_some_iff.2 ⟨l, [], rfl, List.forall_mem_nil _⟩

theorem latest_concat_of_ne {w : Write} (h : w.key ≠ k) (l : List Write) :
    latest k (l ++ [w]) = latest k l := by
  rw [latest_append, latest, left?_of_ne h]
  rfl

theorem map_left?_congr {w w' : Write} (h : w.publication = w'.publication) :
    (w.left? k).map Entry.value = (w'.left? k).map Entry.value := by
  obtain ⟨time, key, payload⟩ := w
  obtain ⟨time', key', payload'⟩ := w'
  cases h
  by_cases hk : key = k
  · subst hk
    rw [left?_self, left?_self, Option.map_some, Option.map_some]
  · rw [left?_of_ne hk, left?_of_ne hk]

/-- The same publications leave the same values, whenever they are made. -/
theorem map_latest_congr {l l' : List Write} (h : l.map publication = l'.map publication) :
    (latest k l).map Entry.value = (latest k l').map Entry.value := by
  induction l generalizing l' with
  | nil =>
    rw [List.map_eq_nil_iff.1 h.symm]
  | cons w l ih =>
    obtain ⟨w', l', rfl, hw, hl⟩ := List.map_eq_cons_iff.1 h.symm
    rw [latest, latest, Option.map_or, Option.map_or, ih hl.symm, map_left?_congr hw.symm]

theorem exists_key_of_publications {l l' : List Write} (h : l.map publication = l'.map publication)
    {w : Write} (hw : w ∈ l') : ∃ w' ∈ l, w'.key = w.key := by
  have hmem : w.publication ∈ l.map publication := h ▸ List.mem_map_of_mem hw
  obtain ⟨w', hw', heq⟩ := List.mem_map.1 hmem
  exact ⟨w', hw', congrArg Sigma.fst heq⟩

end Write

theorem Store.get_writeAll_concat (s : Store) (l : List Write) {w : Write} {now : Nat}
    (h : now - w.time < s.ttl.of w.key.tier) :
    (s.writeAll (l ++ [w])).get now w.key = some w.payload :=
  get_writeAll s (Write.latest_concat_self l w) h

/-- Writes that leave the same value as earlier ones do not show, while both live and what neither
touches lives on. -/
theorem Store.get_writeAll_again {s : Store} {l l' : List Write} {k : Key} {now later : Nat}
    (hsame : (Write.latest k l).map Entry.value = (Write.latest k l').map Entry.value)
    (hnow : ∀ w ∈ l, now - w.time < s.ttl.of k.tier)
    (hlater : ∀ w ∈ l', later - w.time < s.ttl.of k.tier)
    (hkept : ∀ e, s.kept? k = some e → (∀ w ∈ l, w.key ≠ k) →
      (now - e.writtenAt < s.ttl.of k.tier ↔ later - e.writtenAt < s.ttl.of k.tier)) :
    ((s.writeAll l).writeAll l').get later k = (s.writeAll l).get now k := by
  cases hl : Write.latest k l with
  | none =>
    rw [hl] at hsame
    have hl' : Write.latest k l' = none := Option.map_eq_none_iff.1 hsame.symm
    have huntouched := Write.latest_eq_none_iff.1 hl
    ext v
    simp only [get_eq_some_iff, kept?_writeAll, ttl_writeAll, hl, hl', Option.none_or]
    refine exists_congr fun time ↦ and_congr_right fun h ↦ ?_
    exact (hkept _ h huntouched).symm
  | some e =>
    rw [hl] at hsame
    obtain ⟨e', hl', hvalue⟩ := Option.map_eq_some_iff.1 hsame.symm
    have hfirst := get_writeAll s hl (hnow _ (Write.mem_of_latest hl))
    have hsecond : ((s.writeAll l).writeAll l').get later k = some e'.value := by
      refine get_writeAll _ hl' ?_
      rw [ttl_writeAll]
      exact hlater _ (Write.mem_of_latest hl')
    rw [hfirst, hsecond, hvalue]

/-- Inquiries that are answered the same: what is asked at the same place of both. -/
structure SameAnswers (asked asked' : List Step) : Prop where
  replies : ∀ (n : Nat) (r : Request) (reply reply' : r.Reply),
    asked[n]? = some (.asked r reply) → asked'[n]? = some (.asked r reply') → reply = reply'
  images : ∀ (n : Nat) (offered offered' : Bool),
    asked[n]? = some (.askedImages offered) → asked'[n]? = some (.askedImages offered') →
      offered = offered'

namespace SameAnswers

variable {asked asked' l l' : List Step} {x y : Step}

theorem tail (h : SameAnswers (x :: asked) (y :: asked')) : SameAnswers asked asked' :=
  ⟨fun n ↦ h.replies (n + 1), fun n ↦ h.images (n + 1)⟩

theorem of_append (first : List Step) (h : SameAnswers (first ++ asked) (first ++ asked')) :
    SameAnswers asked asked' := by
  induction first with
  | nil => exact h
  | cons x first ih => exact ih h.tail

theorem reply_eq {r : Request} {reply reply' : r.Reply}
    (h : SameAnswers (.asked r reply :: asked) (.asked r reply' :: asked')) : reply = reply' :=
  h.replies 0 r reply reply' rfl rfl

theorem offered_eq {offered offered' : Bool}
    (h : SameAnswers (.askedImages offered :: asked) (.askedImages offered' :: asked')) :
    offered = offered' := h.images 0 offered offered' rfl rfl

section Steady

variable {σ : Type} {src : Source σ} {beside : σ → σ → Prop} {s t s' t' : σ}

/-- What a source answers in all its states. -/
def Always (src : Source σ) : Step → Prop
  | .asked r reply => ∀ s, (src.answer r s).1 = reply
  | .askedImages offered => ∀ s, src.offersImages s = offered
  | .acted .. => True

theorem always_of_steady (hreply : ∀ r s s', (src.answer r s).1 = (src.answer r s').1)
    (himages : ∀ s s', src.offersImages s = src.offersImages s')
    (h : src.Dialogue beside s asked t) : ∀ x ∈ asked, Always src x := by
  refine (h.invariant (P := fun _ ↦ True) trivial ?_ ?_ ?_ fun _ _ _ ↦ trivial).1
  · exact fun _ _ _ _ ↦ trivial
  · exact fun r s _ _ ↦ ⟨fun s' ↦ hreply r s' s, trivial⟩
  · exact fun s _ s' ↦ himages s' s

/-- A source that answers the same in all its states does so twice. -/
theorem of_steady (hreply : ∀ r s s', (src.answer r s).1 = (src.answer r s').1)
    (himages : ∀ s s', src.offersImages s = src.offersImages s')
    (h : src.Dialogue beside s asked t) (h' : src.Dialogue beside s' asked' t') :
    SameAnswers asked asked' := by
  have hall := always_of_steady hreply himages h
  have hall' := always_of_steady hreply himages h'
  constructor
  · intro _ r reply reply' hn hn'
    have hreply : (src.answer r s).1 = reply := hall _ (List.mem_of_getElem? hn) s
    have hreply' : (src.answer r s).1 = reply' := hall' _ (List.mem_of_getElem? hn') s
    exact hreply.symm.trans hreply'
  · intro _ offered offered' hn hn'
    have hoffered : src.offersImages s = offered := hall _ (List.mem_of_getElem? hn) s
    have hoffered' : src.offersImages s = offered' := hall' _ (List.mem_of_getElem? hn') s
    exact hoffered.symm.trans hoffered'

end Steady

end SameAnswers

/-- An agenda that is answered the same is worked off the same. -/
theorem WorkedOff.eq_of_sameAnswers {agenda : List Request} {asked asked' later later' : List Step}
    {whole whole' : Bool} (h : WorkedOff agenda asked whole) (h' : WorkedOff agenda asked' whole')
    (hsame : SameAnswers (asked ++ later) (asked' ++ later')) :
    asked = asked' ∧ SameAnswers later later' := by
  induction h generalizing asked' with
  | done =>
    cases h'
    exact ⟨rfl, hsame⟩
  | @failed r rest e =>
    cases h' with
    | failed e' =>
      rw [List.append_assoc, List.append_assoc] at hsame
      have hrest := hsame.of_append
      cases hrest.reply_eq
      exact ⟨rfl, hrest.tail⟩
    | answered a _ =>
      rw [List.append_assoc, List.append_assoc] at hsame
      cases hsame.of_append.reply_eq
    | withoutImages _ => cases hsame.offered_eq
  | @answered r rest asked whole a _ ih =>
    cases h' with
    | failed e =>
      rw [List.append_assoc, List.append_assoc] at hsame
      cases hsame.of_append.reply_eq
    | answered a' h' =>
      rw [List.append_assoc, List.append_assoc] at hsame
      have hrest := hsame.of_append
      cases hrest.reply_eq
      obtain ⟨rfl, hlater⟩ := ih h' hrest.tail
      exact ⟨rfl, hlater⟩
    | withoutImages _ => cases hsame.offered_eq
  | withoutImages _ ih =>
    cases h' with
    | failed e => cases hsame.offered_eq
    | answered a _ => cases hsame.offered_eq
    | withoutImages h' =>
      obtain ⟨rfl, hlater⟩ := ih h' hsame.tail
      exact ⟨rfl, hlater⟩

namespace FullRefresh

theorem Inquires.eq_of_sameAnswers {asked asked' : List Step} (h : Inquires asked)
    (h' : Inquires asked') (hsame : SameAnswers asked asked') : asked = asked' := by
  obtain ⟨snapshot, services, attributes, regions, rfl, ⟨_, hattributes⟩, _, hregions⟩ := h
  obtain ⟨snapshot', services', attributes', regions', rfl, ⟨_, hattributes'⟩, _, hregions'⟩ := h'
  obtain rfl : snapshot = snapshot' := hsame.reply_eq
  obtain rfl : services = services' := hsame.tail.reply_eq
  obtain ⟨rfl, hlater⟩ := hattributes.eq_of_sameAnswers hattributes' hsame.tail.tail
  rw [← List.append_nil regions, ← List.append_nil regions'] at hlater
  obtain ⟨rfl, -⟩ := hregions.eq_of_sameAnswers hregions' hlater
  rfl

variable {provider : String}

/-- A cycle after another one: what it asks, and what can be looked up at `now` when the first is over
and at `later` when both are. -/
structure Repeats (provider : String) (store : Store) (steps steps' : List Step) (now later : Nat) :
    Prop where
  inquiries : inquiries steps' = inquiries steps
  readable : ∀ k, k ≠ .status provider →
    ((store.replay steps).replay steps').get later k = (store.replay steps).get now k
  status : ((store.replay steps).get now (.status provider)).isSome ∧
    (((store.replay steps).replay steps').get later (.status provider)).isSome
  counts : ∀ c, ((store.replay steps).replay steps').count c = (store.replay steps).count c

section Cycles

variable {σ : Type} {src : Source σ} {time : σ → Nat} {beside : σ → σ → Prop} {s t s' t' : σ}
  {steps steps' : List Step} {store : Store} {now later : Nat}

/-- Whatever a store holds: a full refresh that is answered as one before it was asks the same, and
under every key but the status there is the same to look up, as long as what was there lives on. -/
theorem repeats_of_advances (hbeside : ∀ s t, beside s t → time s ≤ time t)
    (hanswer : ∀ r s, time (src.answer r s).2 = time s)
    (h : Plan.Advances src time beside (plan provider) s steps (.done ()) t)
    (h' : Plan.Advances src time beside (plan provider) s' steps' (.done ()) t')
    (hsame : SameAnswers (inquiries steps) (inquiries steps'))
    (hnow : ∀ tier, now - time s < store.ttl.of tier)
    (hlater : ∀ tier, later - time s' < store.ttl.of tier)
    (hkept : ∀ k e, store.kept? k = some e → (∀ w ∈ writes steps, w.key ≠ k) →
      (now - e.writtenAt < store.ttl.of k.tier ↔ later - e.writtenAt < store.ttl.of k.tier)) :
    Repeats provider store steps steps' now later := by
  obtain ⟨asked, l, n, m, hin, rfl, hwrites, hpub, -, -, htimes⟩ :=
    plan_advances provider hbeside hanswer h
  obtain ⟨asked', l', n', m', hin', rfl, hwrites', hpub', -, -, htimes'⟩ :=
    plan_advances provider hbeside hanswer h'
  have heq : inquiries steps = inquiries steps' := hin.eq_of_sameAnswers hin' hsame
  have hpublications : l.map Write.publication = l'.map Write.publication := by
    rw [hpub, hpub', heq]
  have hfirst (tier : Tier) (w : Write) (hw : w ∈ writes steps) : now - w.time < store.ttl.of tier := by
    have hstart := (htimes w hw).1
    have hlive := hnow tier
    omega
  have hsecond (tier : Tier) (w : Write) (hw : w ∈ writes steps') :
      later - w.time < store.ttl.of tier := by
    have hstart := (htimes' w hw).1
    have hlive := hlater tier
    omega
  constructor
  case inquiries => exact heq.symm
  case readable =>
    intro k hk
    rw [Plan.replay_eq_writeAll, Plan.replay_eq_writeAll]
    refine Store.get_writeAll_again ?_ (hfirst k.tier) (hsecond k.tier) (hkept k)
    rw [hwrites, hwrites', Write.latest_concat_of_ne hk.symm, Write.latest_concat_of_ne hk.symm]
    exact Write.map_latest_congr hpublications
  case status =>
    rw [Plan.replay_eq_writeAll, Plan.replay_eq_writeAll]
    constructor
    · rw [hwrites] at hfirst ⊢
      have hlive := hfirst .long _ (List.mem_append_right _ List.mem_cons_self)
      exact Option.isSome_of_eq_some (Store.get_writeAll_concat store l hlive)
    · rw [hwrites'] at hsecond ⊢
      have hlive := hsecond .long _ (List.mem_append_right _ List.mem_cons_self)
      rw [← Store.ttl_writeAll store (writes steps)] at hlive
      exact Option.isSome_of_eq_some (Store.get_writeAll_concat _ l' hlive)
  case counts =>
    intro c
    rw [Plan.replay_eq_writeAll, Plan.replay_eq_writeAll]
    refine Store.count_writeAll_again (fun w hw ↦ ?_) c
    rw [hwrites'] at hw
    rw [hwrites]
    obtain hw | hw := List.mem_append.1 hw
    · obtain ⟨w', hw', hkey⟩ := Write.exists_key_of_publications hpublications hw
      exact ⟨w', List.mem_append_left _ hw', hkey⟩
    · rw [List.mem_singleton.1 hw]
      exact ⟨_, List.mem_append_right _ List.mem_cons_self, rfl⟩

end Cycles

/-- A source by the clock that always lists a product and has no versions. -/
def steadySource : Source Nat where
  answer r clock :=
    (match r with
      | .snapshot => .ok (Dict.ofList [("e", Dict.ofList [("t", ⟨.ofNat 3, .empty⟩)])])
      | .services => .ok ([⟨"a"⟩, ⟨"b"⟩] : List Service)
      | .regions _ => .ok (Dict.ofList [("E", "e"), ("Europe", "e")])
      | .attributeValues .. => .ok (⟨[]⟩ : AttributeValues)
      | .products .. => .ok ([⟨"t", .ofNat 2, .empty, .ofNat 1, .ofNat 2, .zero, "", "", ["z"], .empty,
          false⟩] : List Product)
      | .images .. | .versions .. | .currentPrices _ => .error (.unavailable ""), clock)
  notes _ _ := []
  offersImages _ := false
  offersCurrentPrices _ := false

/-- The store already has an entry, and one of the region that will be published again. -/
theorem repeats_of_advances_steadySource :
    let run := (plan "p").run steadySource id 5
    let run' := (plan "p").run steadySource id 7
    let store := ((Store.empty ⟨9, 9⟩).put 1 (.zones "p" "e") ["y"]).put 2 (.status "q") "2"
    SameAnswers (inquiries run.steps) (inquiries run'.steps) ∧
      Repeats "p" store run.steps run'.steps 6 8 := by
  intro run run' store
  have hrun : Plan.Advances steadySource id (fun _ _ ↦ False) (plan "p") 5 run.steps (.done ())
      run.state := Plan.advances_run_unit (plan "p") 5
  have hrun' : Plan.Advances steadySource id (fun _ _ ↦ False) (plan "p") 7 run'.steps (.done ())
      run'.state := Plan.advances_run_unit (plan "p") 7
  have hsame : SameAnswers (inquiries run.steps) (inquiries run'.steps) :=
    .of_steady (fun _ _ _ ↦ rfl) (fun _ _ ↦ rfl) hrun.dialogue hrun'.dialogue
  have hlive (tier : Tier) : 6 - 5 < store.ttl.of tier ∧ 8 - 7 < store.ttl.of tier := by
    cases tier <;> decide
  have hkept (k : Key) (e : Entry k.Payload) (he : store.kept? k = some e) :
      6 - e.writtenAt < store.ttl.of k.tier ↔ 8 - e.writtenAt < store.ttl.of k.tier := by
    have httl : store.ttl.of k.tier = 9 := by cases k <;> rfl
    rw [httl]
    omega
  exact ⟨hsame, repeats_of_advances (fun _ _ h ↦ h.elim) (fun _ _ ↦ rfl) hrun hrun' hsame
    (fun tier ↦ (hlive tier).1) (fun tier ↦ (hlive tier).2) (fun k e he _ ↦ hkept k e he)⟩

end FullRefresh

end CloudOffers
