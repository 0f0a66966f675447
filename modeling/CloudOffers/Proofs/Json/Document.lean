import CloudOffers.Json.Document
import CloudOffers.Proofs.Json.Reading
/-!
Values of the domain that are parsed: what the tree that is spelled says, made into a value.
-/

namespace CloudOffers.Json

variable {α : Type} [Document α] {bs : Bytes} {t : Tree}

theorem parse_eq (α : Type) [Document α] (h : Spells t bs) :
    (parse α bs).toOption = (decode Parts.read? nesting (Document.shape α) t).bind Document.ofJson? := by
  rw [parse, toOption_bind, read_eq h]
  cases decode Parts.read? nesting (Document.shape α) t with
  | none => rfl
  | some v =>
    rw [Option.bind_some, Option.bind_some]
    cases (Document.ofJson? v : Option α) <;> rfl

theorem parse_eq_ok_iff {x : α} : parse α bs = .ok x ↔
    ∃ t v, Spells t bs ∧ decode Parts.read? nesting (Document.shape α) t = some v ∧ Document.ofJson? v = some x := by
  constructor
  · intro h
    obtain ⟨v, hread, _⟩ := bind_eq_ok_iff.1 (show (read (Document.shape α) bs >>= _) = .ok x from h)
    obtain ⟨t, ht⟩ := of_read hread
    have hparse := parse_eq α ht
    rw [h] at hparse
    obtain ⟨w, hw, hx⟩ := Option.bind_eq_some_iff.1 hparse.symm
    exact ⟨t, w, ht, hw, hx⟩
  · rintro ⟨t, v, ht, hv, hx⟩
    rw [← toOption_eq_some_iff, parse_eq α ht, hv, Option.bind_some, hx]

end CloudOffers.Json
