import CloudOffers.Proofs.Json.Document
import CloudOffers.Proofs.Json.Float
import CloudOffers.Proofs.Json.Lawful
/-!
Writing a value and reading it again. The reader that rounds in steps gets a value back if it does so with each of
its floats; the one that rounds once always does.
-/

namespace CloudOffers

open Json Json.Document

theorem Json.Parts.read?_float {p : Parts} {n : Number} (hp : p.integer? = none) (h : p.read? = some n) :
    ∃ x, n = .float x := by
  rw [Parts.read?_eq, hp, Option.none_or] at h
  exact (Option.map_eq_some_iff.1 h).imp fun _ h ↦ h.2.symm

namespace Number

theorem Proper.written {n : Number} (h : n.Proper) : n.Written := h.readBy_exact.written

/-- An integer is read back, and a float if it is read back by itself. -/
theorem Proper.readBy_read? {n : Number} (h : n.Proper)
    (hfloat : ∀ x, n = .float x → parse Binary64 (bytes (toJson x).compact) = .ok x) : n.ReadBy Parts.read? := by
  cases n with
  | nat n => exact nat_readBy h
  | negative n =>
    obtain ⟨p, hp, hexact⟩ := h.readBy_exact
    refine ⟨p, hp, ?_⟩
    rw [Parts.read?_eq]
    cases hinteger : p.integer? with
    | none =>
      rw [Parts.exact, hinteger] at hexact
      cases hexact
    | some m =>
      rw [Parts.exact, hinteger, Option.some_or] at hexact
      rw [Option.some_or, hexact]
  | float x =>
    obtain ⟨p, hp, hinteger, _⟩ := writes_float h
    obtain ⟨t, v, ht, hv, hx⟩ := parse_eq_ok_iff.1 (hfloat x rfl)
    have htext : toJson x = .num (.float x) := if_pos h
    have hspells : Spells (Json.num (.float x)).tree (bytes (toJson x).compact) :=
      htext ▸ spells_compact (by rw [htext]; exact List.forall_mem_singleton.2 ⟨p, hp⟩)
    rw [ht.unique hspells, Json.tree, tree_eq hp] at hv
    obtain ⟨w, hw, hscalar⟩ := Option.bind_eq_some_iff.1 (decode_num .. ▸ hv)
    obtain ⟨n, hread, rfl⟩ := Option.map_eq_some_iff.1 hw
    obtain ⟨y, rfl⟩ := Parts.read?_float hinteger hread
    cases hscalar
    cases hx
    exact ⟨p, hp, hread⟩

end Number

namespace Json

section Written

variable {depth : Nat} {shape : Shape} {v w : Json}

theorem Written.readBy_exact (h : Written depth shape v w) : ∀ n ∈ v.numbers, n.ReadBy Parts.exact :=
  fun n hn ↦ (h.numbers n hn).readBy_exact

theorem Written.readBy_read? (h : Written depth shape v w)
    (hfloats : ∀ x, .float x ∈ v.numbers → parse Binary64 (bytes (toJson x).compact) = .ok x) :
    ∀ n ∈ v.numbers, n.ReadBy Parts.read? :=
  fun n hn ↦ (h.numbers n hn).readBy_read? fun x hx ↦ hfloats x (hx ▸ hn)

/-- The texts of a value are those of JSON. -/
theorem Written.spells (h : Written depth shape v w) : Spells v.tree (bytes v.compact) ∧ Spells v.tree (bytes v.pretty) := by
  have hwritten : ∀ n ∈ v.numbers, n.Written := fun n hn ↦ (h.numbers n hn).written
  exact ⟨spells_compact hwritten, spells_pretty hwritten⟩

end Written

variable {α : Type} [Document α] {v : α}

/-- A tree that stands for a value, as the member of an object. A reader that rounds once reads the value of it, and
so does the one that rounds in steps, if it gets each float of the value back from its own text. -/
structure Says (t : Tree) (v : α) : Prop where
  exact : (decode Parts.exact (nesting - 1) (shape α) t).bind ofJson? = some v
  parsed : (∀ x, .float x ∈ (toJson v).numbers → parse Binary64 (bytes (toJson x).compact) = .ok x) →
    (decode Parts.read? (nesting - 1) (shape α) t).bind ofJson? = some v

/-- A value that is read back where it stands as the member of an object. -/
def Readable (v : α) : Prop :=
  ∃ depth w, Written depth (shape α) (toJson v) w ∧ ofJson? w = some v ∧ depth < nesting - 1

theorem Readable.written (h : Readable v) : ∀ n ∈ (toJson v).numbers, n.Written := by
  obtain ⟨_, _, hw, _⟩ := h
  exact fun n hn ↦ (hw.numbers n hn).written

theorem Readable.says (h : Readable v) : Says (toJson v).tree v := by
  obtain ⟨depth, w, hw, hv, hdepth⟩ := h
  exact
    { exact := by rw [hw.decode hw.readBy_exact hdepth, Option.bind_some, hv]
      parsed := fun hfloats ↦ by rw [hw.decode (hw.readBy_read? hfloats) hdepth, Option.bind_some, hv] }

namespace LawfulDocument

variable [LawfulDocument α]

theorem readable (hv : Proper v) (hdepth : depth α < nesting - 1) : Readable v :=
  ⟨_, _, written hv, ofJson?_canonical v, hdepth⟩

/-- What is parsed is proper. -/
theorem proper_of_parse {bs : Bytes} (h : parse α bs = .ok v) : Proper v := by
  obtain ⟨t, w, _, hw, hv⟩ := parse_eq_ok_iff.1 h
  exact proper_of_fits (fits_decode (fun _ _ ↦ Parts.read?_proper) t hw) hv

/-- A value is parsed from what is written of it, edited or not, if each of its floats is parsed from its own text. -/
theorem parse_of_spells (hv : Proper v) (hdepth : depth α < nesting)
    (hfloats : ∀ x, .float x ∈ (toJson v).numbers → parse Binary64 (bytes (toJson x).compact) = .ok x) {t : Tree}
    (ht : Relation.ReflTransGen (Edits Parts.read? nesting (shape α)) (toJson v).tree t) {bs : Bytes} (hbs : Spells t bs) :
    parse α bs = .ok v := by
  have hdecode := (written hv).decode ((written hv).readBy_read? hfloats) hdepth
  exact parse_eq_ok_iff.2 ⟨t, _, hbs, decode_edited ht hdecode, ofJson?_canonical v⟩

end LawfulDocument

end Json

end CloudOffers
