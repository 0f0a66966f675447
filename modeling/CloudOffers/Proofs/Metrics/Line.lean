import CloudOffers.Metrics.Exposition
import CloudOffers.Proofs.Json.Number
import Mathlib.Tactic.SplitIfs
/-!
Lines of samples. A line gives back the name, the labels and the value that it was made from, and a text
gives back its lines.
-/

namespace CloudOffers

namespace NumberStyle

theorem mem_positionalText {style : NumberStyle} {ds : List Char} {exponent : Int} {c : Char}
    (h : c ∈ style.positionalText ds exponent) : c ∈ ds ∨ c = '0' ∨ c = '.' := by
  rw [positionalText] at h
  split at h
  · simp only [List.mem_append, List.mem_replicate] at h
    obtain (hc | hc) | hc := h
    · exact .inl hc
    · exact .inr (.inl hc.2)
    · split at hc <;> simp_all [or_comm]
  · split at h
    · obtain hc | hc := List.mem_append.1 h
      · exact .inl (List.mem_of_mem_take hc)
      · obtain rfl | hc := List.mem_cons.1 hc
        · exact .inr (.inr rfl)
        · exact .inl (List.mem_of_mem_drop hc)
    · simp only [List.cons_append, List.mem_cons, List.mem_append, List.mem_replicate] at h
      obtain hc | hc | hc | hc := h
      · exact .inr (.inl hc)
      · exact .inr (.inr hc)
      · exact .inr (.inl hc.2)
      · exact .inl hc

theorem newline_not_mem_digits (n : Nat) : '\n' ∉ digits n := by
  intro h
  have hdigit : '\n'.isDigit = true := isDigit_of_mem_digits h
  exact absurd hdigit (by decide)

theorem newline_not_mem_positionalText {style : NumberStyle} {ds : List Char} (hds : '\n' ∉ ds) (exponent : Int) :
    '\n' ∉ style.positionalText ds exponent := by
  intro h
  obtain hmem | hzero | hpoint := mem_positionalText h
  · exact hds hmem
  · exact absurd hzero (by decide)
  · exact absurd hpoint (by decide)

theorem newline_not_mem_plain (x : Binary64) : '\n' ∉ (plain.text x).toList := by
  rw [text, String.toList_ofList, chars]
  by_cases hnan : x.isNaN = true
  · rw [if_pos hnan]
    decide
  · have hbody : '\n' ∉ if x.isInfinite then plain.infinity.toList
        else if x.isZero then plain.positionalText ['0'] 0
        else plain.decimalText (x.shortest plain.tie) := by
      split
      · decide
      · split
        · exact newline_not_mem_positionalText (by decide) 0
        · exact newline_not_mem_positionalText (newline_not_mem_digits _) _
    rw [if_neg hnan]
    cases x.negative with
    | true => exact List.not_mem_cons_of_ne_of_not_mem (by decide) hbody
    | false => exact hbody

end NumberStyle

namespace Metrics

section SelfDelimiting

variable {r r' : List Char}

theorem append_stop_inj {stop : Char} {a b : List Char} (ha : stop ∉ a) (hb : stop ∉ b)
    (h : a ++ stop :: r = b ++ stop :: r') : a = b ∧ r = r' := by
  induction a generalizing b with
  | nil =>
    cases b with
    | nil => exact ⟨rfl, List.tail_eq_of_cons_eq h⟩
    | cons d b => exact absurd (List.head_eq_of_cons_eq h ▸ List.mem_cons_self) hb
  | cons c a ih =>
    cases b with
    | nil => exact absurd ((List.head_eq_of_cons_eq h).symm ▸ List.mem_cons_self) ha
    | cons d b =>
      obtain ⟨rfl, hrest⟩ := List.cons.inj h
      obtain ⟨rfl, hr⟩ := ih (List.not_mem_of_not_mem_cons ha) (List.not_mem_of_not_mem_cons hb) hrest
      exact ⟨rfl, hr⟩

theorem escape_append_ne_quote (c : Char) : escape c ++ r ≠ '"' :: r' := by
  rw [escape]
  split_ifs <;> simp_all

theorem escape_append_inj {c d : Char} (h : escape c ++ r = escape d ++ r') : c = d ∧ r = r' := by
  rw [escape, escape] at h
  split_ifs at h <;> grind

theorem escaped_append_inj {a b : List Char}
    (h : a.flatMap escape ++ '"' :: r = b.flatMap escape ++ '"' :: r') : a = b ∧ r = r' := by
  induction a generalizing b with
  | nil =>
    cases b with
    | nil => exact ⟨rfl, List.tail_eq_of_cons_eq h⟩
    | cons d b =>
      rw [List.flatMap_cons, List.append_assoc] at h
      exact absurd h.symm (escape_append_ne_quote d)
  | cons c a ih =>
    cases b with
    | nil =>
      rw [List.flatMap_cons, List.append_assoc] at h
      exact absurd h (escape_append_ne_quote c)
    | cons d b =>
      rw [List.flatMap_cons, List.append_assoc, List.flatMap_cons, List.append_assoc] at h
      obtain ⟨rfl, hrest⟩ := escape_append_inj h
      obtain ⟨rfl, hr⟩ := ih hrest
      exact ⟨rfl, hr⟩

end SelfDelimiting

/-- Whether a name consists of what families and labels are named with. -/
def Plain (name : String) : Prop := ∀ c ∈ name.toList, c.isAlphanum = true ∨ c = '_'

theorem plain_ofList {cs : List Char} (h : cs.all (fun c ↦ c.isAlphanum || c = '_') = true) :
    Plain (String.ofList cs) := by
  rw [Plain, String.toList_ofList]
  simpa using h

theorem Plain.append {a b : String} (ha : Plain a) (hb : Plain b) : Plain (a ++ b) := by
  rw [Plain, String.toList_append]
  exact List.forall_mem_append.2 ⟨ha, hb⟩

theorem Plain.not_mem {name : String} (h : Plain name) {c : Char} (hc : ¬(c.isAlphanum = true ∨ c = '_')) :
    c ∉ name.toList := fun hmem ↦ hc (h c hmem)

section Labels

variable {r r' : List Char}

theorem label_append_inj {l l' : String × String} (hl : Plain l.1) (hl' : Plain l'.1)
    (h : label l.1 l.2 ++ r = label l'.1 l'.2 ++ r') : l = l' ∧ r = r' := by
  simp only [label, List.append_assoc, List.cons_append, List.nil_append] at h
  obtain ⟨hnames, hrest⟩ := append_stop_inj (hl.not_mem (by decide)) (hl'.not_mem (by decide)) h
  obtain ⟨hvalues, hr⟩ := escaped_append_inj (List.tail_eq_of_cons_eq hrest)
  exact ⟨Prod.ext (String.toList_inj.1 hnames) (String.toList_inj.1 hvalues), hr⟩

/-- The labels of a sample after its first, up to the end of a line. -/
def furtherLabels (r : List Char) : List (String × String) → List Char
  | [] => '\x7d' :: r
  | l :: ls => ',' :: (label l.1 l.2 ++ furtherLabels r ls)

theorem intercalate_labels (l : String × String) (ls : List (String × String)) :
    [','].intercalate ((l :: ls).map (fun l ↦ label l.1 l.2)) ++ '\x7d' :: r =
      label l.1 l.2 ++ furtherLabels r ls := by
  induction ls generalizing l with
  | nil => rw [List.map_singleton, List.intercalate_singleton]; rfl
  | cons l' ls ih =>
    have hrest := ih l'
    rw [List.map_cons] at hrest
    rw [List.map_cons, List.map_cons, List.intercalate_cons_cons, List.append_assoc, hrest, List.append_assoc]
    rfl

theorem furtherLabels_inj {ls ls' : List (String × String)} (hls : ∀ l ∈ ls, Plain l.1) (hls' : ∀ l ∈ ls', Plain l.1)
    (h : furtherLabels r ls = furtherLabels r' ls') : ls = ls' ∧ r = r' := by
  induction ls generalizing ls' with
  | nil =>
    cases ls' with
    | nil => exact ⟨rfl, List.tail_eq_of_cons_eq h⟩
    | cons l' ls' => exact absurd (List.head_eq_of_cons_eq h) (by decide)
  | cons l ls ih =>
    cases ls' with
    | nil => exact absurd (List.head_eq_of_cons_eq h) (by decide)
    | cons l' ls' =>
      obtain ⟨hl, hls⟩ := List.forall_mem_cons.1 hls
      obtain ⟨hl', hls'⟩ := List.forall_mem_cons.1 hls'
      obtain ⟨hfirst, hrest⟩ := label_append_inj hl hl' (List.tail_eq_of_cons_eq h)
      obtain ⟨hothers, hr⟩ := ih hls hls' hrest
      exact ⟨by rw [hfirst, hothers], hr⟩

end Labels

/-- A sample, as its line shows it. -/
structure Sample where
  name : String
  labels : List (String × String)
  value : String

namespace Sample

def line (s : Sample) : String := sampleLine s.name s.labels s.value

structure Named (s : Sample) : Prop where
  plain : Plain s.name
  labelled : s.labels ≠ []
  labels : ∀ l ∈ s.labels, Plain l.1

theorem toList_line (s : Sample) : s.line.toList = s.name.toList ++
    '\x7b' :: ([','].intercalate (s.labels.map (fun l ↦ label l.1 l.2)) ++ '\x7d' :: ' ' :: s.value.toList) :=
  String.toList_ofList

/-- Whatever stands in the labels, a line tells them, the name and the value apart. -/
theorem line_inj {s s' : Sample} (hs : s.Named) (hs' : s'.Named) (h : s.line = s'.line) : s = s' := by
  have hchars := congrArg String.toList h
  rw [toList_line, toList_line] at hchars
  obtain ⟨hnames, hrest⟩ := append_stop_inj (hs.plain.not_mem (by decide)) (hs'.plain.not_mem (by decide)) hchars
  obtain ⟨name, labels, value⟩ := s
  obtain ⟨name', labels', value'⟩ := s'
  obtain ⟨l, ls, rfl⟩ := List.exists_cons_of_ne_nil hs.labelled
  obtain ⟨l', ls', rfl⟩ := List.exists_cons_of_ne_nil hs'.labelled
  obtain ⟨hl, hls⟩ := List.forall_mem_cons.1 hs.labels
  obtain ⟨hl', hls'⟩ := List.forall_mem_cons.1 hs'.labels
  rw [intercalate_labels, intercalate_labels] at hrest
  obtain ⟨hfirst, hfurther⟩ := label_append_inj hl hl' hrest
  obtain ⟨hothers, hvalues⟩ := furtherLabels_inj hls hls' hfurther
  rw [Sample.mk.injEq, hfirst, hothers]
  exact ⟨String.toList_inj.1 hnames, rfl, String.toList_inj.1 (List.tail_eq_of_cons_eq hvalues)⟩

end Sample

section Lines

theorem newline_not_mem_label {name : String} (hname : Plain name) (value : String) : '\n' ∉ label name value := by
  have hescape (c : Char) : '\n' ∉ escape c := by
    rw [escape]
    split_ifs <;> simp_all [eq_comm]
  rw [label]
  have hvalue : '\n' ∉ value.toList.flatMap escape := fun h ↦ by
    obtain ⟨c, -, hc⟩ := List.mem_flatMap.1 h
    exact hescape c hc
  have hname := hname.not_mem (c := '\n') (by decide)
  simp [hname, hvalue]

theorem newline_not_mem_furtherLabels {r : List Char} (hr : '\n' ∉ r) {ls : List (String × String)}
    (hls : ∀ l ∈ ls, Plain l.1) : '\n' ∉ furtherLabels r ls := by
  induction ls with
  | nil => exact List.not_mem_cons_of_ne_of_not_mem (by decide) hr
  | cons l ls ih =>
    obtain ⟨hl, hls⟩ := List.forall_mem_cons.1 hls
    refine List.not_mem_cons_of_ne_of_not_mem (by decide) fun h ↦ ?_
    obtain hlabel | hfurther := List.mem_append.1 h
    · exact newline_not_mem_label hl _ hlabel
    · exact ih hls hfurther

theorem Sample.newline_not_mem_line {s : Sample} (hs : s.Named) (hvalue : '\n' ∉ s.value.toList) :
    '\n' ∉ s.line.toList := by
  obtain ⟨name, labels, value⟩ := s
  obtain ⟨l, ls, rfl⟩ := List.exists_cons_of_ne_nil hs.labelled
  obtain ⟨hl, hls⟩ := List.forall_mem_cons.1 hs.labels
  have hend : '\n' ∉ ' ' :: value.toList := List.not_mem_cons_of_ne_of_not_mem (by decide) hvalue
  rw [toList_line, intercalate_labels]
  simp [hs.plain.not_mem (c := '\n') (by decide), newline_not_mem_label hl, newline_not_mem_furtherLabels hend hls]

theorem newline_not_mem_ofList {cs : List Char} (h : '\n' ∉ cs) : '\n' ∉ (String.ofList cs).toList := by
  rwa [String.toList_ofList]

/-- The text of some lines, each of which ends in a newline. -/
def ofLines (lines : List String) : String := String.join (lines.map (· ++ "\n"))

theorem ofLines_inj {lines lines' : List String} (hlines : ∀ l ∈ lines, '\n' ∉ l.toList)
    (hlines' : ∀ l ∈ lines', '\n' ∉ l.toList) (h : ofLines lines = ofLines lines') : lines = lines' := by
  have hcons (l : String) (ls : List String) :
      (ofLines (l :: ls)).toList = l.toList ++ '\n' :: (ofLines ls).toList := by
    simp [ofLines, String.join_cons]
  induction lines generalizing lines' with
  | nil =>
    cases lines' with
    | nil => rfl
    | cons l' ls' => exact absurd (congrArg String.toList h) (by rw [hcons]; simp [ofLines])
  | cons l ls ih =>
    cases lines' with
    | nil => exact absurd (congrArg String.toList h) (by rw [hcons]; simp [ofLines])
    | cons l' ls' =>
      obtain ⟨hl, hls⟩ := List.forall_mem_cons.1 hlines
      obtain ⟨hl', hls'⟩ := List.forall_mem_cons.1 hlines'
      have hchars := congrArg String.toList h
      rw [hcons, hcons] at hchars
      obtain ⟨hfirst, hrest⟩ := append_stop_inj hl hl' hchars
      rw [String.toList_inj.1 hfirst, ih hls hls' (String.toList_inj.1 hrest)]

end Lines

end Metrics

end CloudOffers
