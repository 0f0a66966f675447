import CloudOffers.Proofs.Dict
import CloudOffers.Proofs.Inventory
/-!
Which questions are answered and which are refused. A refusal that says that something is missing names
the one key under which a write makes the answer.
-/

namespace CloudOffers

/-- How many things a payload is made of; a price and a status are one each. -/
def Category.amount : (c : Category) → c.Payload → Nat
  | .services, (l : List Service) => l.length
  | .regions, (d : Dict String String) => d.entries.length
  | .zones, (l : List String) => l.length
  | .attributes, (s : AttributeValues) => s.size
  | .products, (l : List Product) => l.length
  | .prices, _ => 1
  | .images, (l : List Image) => l.length
  | .versions, (l : List String) => l.length
  | .status, _ => 1

namespace Store

theorem get_eq_none_iff {s : Store} {now : Nat} {k : Key} :
    s.get now k = none ↔ ∀ e, s.kept? k = some e → s.ttl.of k.tier ≤ now - e.writtenAt := by
  rw [get_eq, Option.map_eq_none_iff, Option.filter_eq_none_iff]
  simp only [Entry.not_isExpired_iff, Nat.not_lt]

theorem get_eq_some_iff {s : Store} {now : Nat} {k : Key} {v : k.Payload} :
    s.get now k = some v ↔
      ∃ time, s.kept? k = some ⟨v, time⟩ ∧ now - time < s.ttl.of k.tier := by
  rw [get_eq, Option.map_eq_some_iff]
  simp only [Option.filter_eq_some_iff, Entry.not_isExpired_iff]
  constructor
  · rintro ⟨⟨_, time⟩, ⟨hkept, hlive⟩, rfl⟩
    exact ⟨time, hkept, hlive⟩
  · rintro ⟨time, hkept, hlive⟩
    exact ⟨_, ⟨hkept, hlive⟩, rfl⟩

theorem get_put_self {s : Store} {now time : Nat} {k : Key} (h : now - time < s.ttl.of k.tier)
    (v : k.Payload) : (s.put time k v).get now k = some v :=
  get_eq_some_iff.2 ⟨time, kept?_put_self .., by rwa [ttl_put]⟩

theorem get_put_of_ne {s : Store} {k k' : Key} (h : k ≠ k') (now time : Nat) (v : k.Payload) :
    (s.put time k v).get now k' = s.get now k' := by
  rw [get_eq, get_eq, kept?_put_of_ne s time h, ttl_put]

end Store

namespace Inventory

def Question.amount : (q : Question) → q.Answer → Nat
  | .provider, (p : Provider) => p.services.length
  | .services, (l : List Service) => l.length
  | .attributeValues .., (l : List Binary64) => l.length
  | .zones _, (l : List String) => l.length
  | .regions _, (d : Dict String String) => d.entries.length
  | .products .., (l : List ProductDetails) => l.length
  | .status, _ => 1
  | .images .., (l : List Image) => l.length
  | .versions .., (l : List String) => l.length

theorem Question.amount_answerOf (held : Lookup) (about : String) (q : Question)
    (v : (q.key about).Payload) : q.amount (q.answerOf held about v) = (q.key about).category.amount v := by
  cases q with
  | attributeValues service name => exact List.length_map ..
  | products service region => exact List.length_map ..
  | _ => rfl

theorem Question.fault?_eq_some_iff {q : Question} {reason : String} :
    q.fault? = some reason ↔ ∃ service name, q = .attributeValues service name ∧
      name ≠ Attribute.cpu ∧ name ≠ Attribute.memory ∧ reason = "unsupported attribute: " ++ name := by
  cases q with
  | attributeValues service name =>
    simp only [fault?, Attribute.all, List.mem_cons, List.not_mem_nil, or_false,
      Option.ite_none_left_eq_some, Option.some_inj, not_or]
    constructor
    · intro h
      exact ⟨service, name, rfl, by simpa [eq_comm, and_assoc] using h⟩
    · rintro ⟨_, _, heq, h⟩
      cases heq
      simpa [eq_comm, and_assoc] using h
  | _ => simp [fault?]

/-- What may become of a question about a provider that is put to a store, where questions may name the
providers `names`. -/
structure Precise (names : List String) (inv : Inventory) (s : Store) (now : Nat) (about : String)
    (q : Question) : Prop where
  unsupported : ∀ p, inv.answer (s.lookup now) about q = .error (.unsupportedProvider p) ↔
    p = about ∧ about ∉ names
  invalid : ∀ reason, inv.answer (s.lookup now) about q = .error (.invalidInput reason) ↔
    about ∈ names ∧ ∃ service name, q = .attributeValues service name ∧
      name ≠ Attribute.cpu ∧ name ≠ Attribute.memory ∧ reason = "unsupported attribute: " ++ name
  missing : ∀ k, inv.answer (s.lookup now) about q = .error (.notCached k) ↔
    about ∈ names ∧ q.fault? = none ∧ k = q.key about ∧
      ∀ e, s.kept? k = some e → s.ttl.of k.tier ≤ now - e.writtenAt
  answered : ∀ a, inv.answer (s.lookup now) about q = .ok a ↔
    about ∈ names ∧ q.fault? = none ∧ ∃ v time, s.kept? (q.key about) = some ⟨v, time⟩ ∧
      now - time < s.ttl.of (q.key about).tier ∧ a = q.answerOf (s.lookup now) about v ∧
      q.amount a = (q.key about).category.amount v
  /-- The key that is missing is the one to write. -/
  mended : ∀ k, inv.answer (s.lookup now) about q = .error (.notCached k) →
    ∃ hk : k = q.key about, (∀ time v, now - time < s.ttl.of k.tier →
      inv.answer ((s.put time k v).lookup now) about q =
        .ok (q.answerOf (s.lookup now) about (hk ▸ v))) ∧
    ∀ k' time v, k' ≠ k →
      inv.answer ((s.put time k' v).lookup now) about q = .error (.notCached k)

variable {inv : Inventory} {names : List String} {s : Store} {now : Nat} {about : String} {q : Question}

/-- No question asks for a price, so a write that mends one leaves the prices of products alone. -/
theorem answerOf_put (q : Question) (time : Nat) (v : (q.key about).Payload) :
    q.answerOf ((s.put time (q.key about) v).lookup now) about = q.answerOf (s.lookup now) about :=
  answerOf_congr (fun _ _ ↦ Store.get_put_of_ne (q.key_ne_price about _ _ _) now time v) q

theorem precise_of_not_mem (h : about ∉ inv.names) (hnot : about ∉ names) (q : Question) :
    Precise names inv s now about q := by
  have hanswer (held : Lookup) : inv.answer held about q = .error (.unsupportedProvider about) :=
    answer_of_not_mem h q
  constructor <;> simp [hanswer, hnot, eq_comm]

theorem precise_of_fault {reason : String} (h : about ∈ inv.names) (hmem : about ∈ names)
    (hq : q.fault? = some reason) : Precise names inv s now about q := by
  have hanswer (held : Lookup) : inv.answer held about q = .error (.invalidInput reason) :=
    answer_of_fault h hq
  constructor <;> simp [hanswer, hmem, hq, ← Question.fault?_eq_some_iff]

theorem precise_of_held (h : about ∈ inv.names) (hmem : about ∈ names) (hq : q.fault? = none)
    {v : (q.key about).Payload} (hv : s.get now (q.key about) = some v) :
    Precise names inv s now about q := by
  have hanswer : inv.answer (s.lookup now) about q = .ok (q.answerOf (s.lookup now) about v) :=
    answer_of_held h hq hv
  constructor
  case unsupported => simp [hanswer, hmem]
  case invalid => simp [hanswer, hq, ← Question.fault?_eq_some_iff]
  case missing =>
    rintro k
    simp only [hanswer, ← Store.get_eq_none_iff, reduceCtorEq, false_iff]
    rintro ⟨-, -, rfl, hnone⟩
    rw [hv] at hnone
    cases hnone
  case answered =>
    intro a
    rw [hanswer, Except.ok.injEq]
    constructor
    · rintro rfl
      obtain ⟨time, hkept, hlive⟩ := Store.get_eq_some_iff.1 hv
      exact ⟨hmem, hq, v, time, hkept, hlive, rfl, q.amount_answerOf ..⟩
    · rintro ⟨-, -, v', time, hkept, hlive, rfl, -⟩
      have hv' := Store.get_eq_some_iff.2 ⟨time, hkept, hlive⟩
      rw [Option.some_inj.1 (hv.symm.trans hv')]
  case mended => simp [hanswer]

theorem precise_of_missing (h : about ∈ inv.names) (hmem : about ∈ names) (hq : q.fault? = none)
    (hv : s.get now (q.key about) = none) : Precise names inv s now about q := by
  have hanswer : inv.answer (s.lookup now) about q = .error (.notCached (q.key about)) :=
    answer_of_missing h hq hv
  constructor
  case unsupported => simp [hanswer, hmem]
  case invalid => simp [hanswer, hq, ← Question.fault?_eq_some_iff]
  case missing =>
    intro k
    simp only [hanswer, ← Store.get_eq_none_iff, Except.error.injEq, Refusal.notCached.injEq]
    constructor
    · rintro rfl
      exact ⟨hmem, hq, rfl, hv⟩
    · exact fun hk ↦ hk.2.2.1.symm
  case answered =>
    intro a
    simp only [hanswer, reduceCtorEq, false_iff]
    rintro ⟨-, -, v, time, hkept, hlive, -⟩
    rw [Store.get_eq_some_iff.2 ⟨time, hkept, hlive⟩] at hv
    cases hv
  case mended =>
    intro k hk
    rw [hanswer, Except.error.injEq, Refusal.notCached.injEq] at hk
    subst hk
    refine ⟨rfl, fun time v hlive ↦ ?_, fun k' time v hne ↦ ?_⟩
    · rw [← answerOf_put q time v]
      exact answer_of_held h hq (Store.get_put_self hlive v)
    · exact answer_of_missing h hq ((Store.get_put_of_ne hne now time v).trans hv)

theorem precise (hnames : ∀ p, p ∈ inv.names ↔ p ∈ names) (s : Store) (now : Nat) (about : String)
    (q : Question) : Precise names inv s now about q := by
  by_cases habout : about ∈ inv.names
  · have hmem : about ∈ names := (hnames about).1 habout
    cases hq : q.fault? with
    | some reason => exact precise_of_fault habout hmem hq
    | none =>
      cases hv : s.get now (q.key about) with
      | some v => exact precise_of_held habout hmem hq hv
      | none => exact precise_of_missing habout hmem hq hv
  · exact precise_of_not_mem habout (fun h ↦ habout ((hnames about).2 h)) q

theorem eq_ascending_of_ofNames (h : ofNames names = .ok inv) : inv = ⟨ascending names⟩ := by
  rw [ofNames] at h
  split at h
  · cases h
  · exact (Except.ok.inj h).symm

theorem providers_eq (held : Lookup) :
    inv.providers held = inv.names.map (fun p ↦
      ⟨p, ((held (.services p) : Option (List Service)).getD [])⟩) := by
  refine List.map_congr_left fun p hp ↦ ?_
  cases hv : held (.services p) with
  | some l =>
    have hanswer : inv.provider held p = .ok (⟨p, l⟩ : Provider) :=
      answer_of_held (q := .provider) hp rfl hv
    simp only [hanswer]
    rfl
  | none =>
    have hanswer : inv.provider held p = .error (.notCached (.services p)) :=
      answer_of_missing (q := .provider) hp rfl hv
    simp only [hanswer]
    rfl

end Inventory

end CloudOffers
