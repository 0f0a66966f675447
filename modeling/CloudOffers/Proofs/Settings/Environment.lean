import CloudOffers.Proofs.Dict
import CloudOffers.Settings.Loading
import Mathlib.Data.List.Basic
import Mathlib.Data.List.TakeWhile
/-!
Which variables give settings. A variable names a setting after the common beginning, in any letter case and with
white space around the two; a longer name, parted by a point or by two underscores, leads below the setting.
-/

namespace CloudOffers

section Trim

variable {p : Char → Bool}

theorem not_of_mem_head?_dropWhile (cs : List Char) : ∀ c ∈ (cs.dropWhile p).head?, ¬p c := by
  intro c hc
  have hfirst := List.head?_dropWhile_not p cs
  rw [Option.mem_def.1 hc] at hfirst
  exact Bool.eq_false_iff.1 hfirst

theorem dropWhile_eq_self {cs : List Char} (h : ∀ c ∈ cs.head?, ¬p c) : cs.dropWhile p = cs := by
  cases cs with
  | nil => rfl
  | cons c cs => exact List.dropWhile_cons_of_neg (h c rfl)

theorem not_of_mem_getLast?_trimBoth (cs : List Char) : ∀ c ∈ (trimBoth p cs).getLast?, ¬p c := by
  rw [trimBoth, List.getLast?_reverse]
  exact not_of_mem_head?_dropWhile _

theorem not_of_mem_head?_trimBoth (cs : List Char) : ∀ c ∈ (trimBoth p cs).head?, ¬p c := by
  intro c hc
  have hsplit := List.takeWhile_append_dropWhile (p := p) (l := (cs.dropWhile p).reverse)
  rw [trimBoth, List.head?_reverse] at hc
  have hrest : (cs.dropWhile p).reverse.dropWhile p ≠ [] := List.ne_nil_of_mem (List.mem_of_getLast? hc)
  have hlast : c ∈ (cs.dropWhile p).reverse.getLast? := by
    rw [← hsplit]
    exact List.getLast?_append_of_ne_nil _ hrest ▸ hc
  exact not_of_mem_head?_dropWhile cs c (List.getLast?_reverse ▸ hlast)

theorem trimBoth_append {before middle after : List Char} (hbefore : ∀ c ∈ before, p c) (hafter : ∀ c ∈ after, p c)
    (hfirst : ∀ c ∈ middle.head?, ¬p c) (hlast : ∀ c ∈ middle.getLast?, ¬p c) :
    trimBoth p (before ++ middle ++ after) = middle := by
  have hback : ∀ c ∈ after.reverse, p c := fun c hc ↦ hafter c (List.mem_reverse.1 hc)
  rw [trimBoth, List.append_assoc, List.dropWhile_append_of_pos hbefore]
  cases middle with
  | nil =>
    rw [List.nil_append, List.dropWhile_eq_nil_iff.2 hafter]
    rfl
  | cons c middle =>
    have hwhole : ((c :: middle) ++ after).dropWhile p = (c :: middle) ++ after := dropWhile_eq_self hfirst
    rw [hwhole, List.reverse_append, List.dropWhile_append_of_pos hback,
      dropWhile_eq_self (List.head?_reverse ▸ hlast), List.reverse_reverse]

theorem exists_trimBoth (p : Char → Bool) (cs : List Char) :
    ∃ before after, (∀ c ∈ before ++ after, p c) ∧ cs = before ++ trimBoth p cs ++ after := by
  have hend := List.takeWhile_append_dropWhile (p := p) (l := (cs.dropWhile p).reverse)
  refine ⟨cs.takeWhile p, ((cs.dropWhile p).reverse.takeWhile p).reverse, fun c hc ↦ ?_, ?_⟩
  · obtain hc | hc := List.mem_append.1 hc
    · exact List.mem_takeWhile_imp hc
    · exact List.mem_takeWhile_imp (List.mem_reverse.1 hc)
  · rw [trimBoth, List.append_assoc, ← List.reverse_append, hend, List.reverse_reverse, List.takeWhile_append_dropWhile]

theorem trimBoth_map {f : Char → Char} (hf : ∀ c, p (f c) = p c) (cs : List Char) :
    trimBoth p (cs.map f) = (trimBoth p cs).map f := by
  have hcomp : p ∘ f = p := funext hf
  rw [trimBoth, trimBoth, List.dropWhile_map, hcomp, ← List.map_reverse, List.dropWhile_map, hcomp, ← List.map_reverse]

theorem isWhiteSpace_toLower (c : Char) : isWhiteSpace c.toLower = isWhiteSpace c := by
  have hletter {d : Char} (hd : 65 ≤ d.toNat ∧ d.toNat ≤ 122) : isWhiteSpace d = false := by
    simp only [isWhiteSpace, Bool.or_eq_false_iff, Bool.and_eq_false_iff, decide_eq_false_iff_not]
    omega
  delta Char.toLower
  split
  next hupper =>
    have hrange : 65 ≤ c.toNat ∧ c.toNat ≤ 90 := hupper
    have hlower : (c.val + ('a'.val - 'A'.val)).toNat = c.toNat + 32 := by
      rw [UInt32.toNat_add]
      change (c.toNat + 32) % 4294967296 = _
      omega
    rw [hletter ⟨hrange.1, by omega⟩, hletter]
    rw [Char.toNat, hlower]
    omega
  · rfl

end Trim

namespace Settings

def fields : List String :=
  ["providers", "catalog_dir", "renewal_interval_secs", "cache_long_ttl_secs", "cache_short_ttl_secs",
    "shutdown_timeout_ms"]

end Settings

namespace Environment

theorem dropStart?_eq_some_iff {first cs rest : List Char} : dropStart? first cs = some rest ↔
    ∃ front, cs = front ++ rest ∧ front.map Char.toLower = first.map Char.toLower := by
  induction first generalizing cs with
  | nil => simp [dropStart?, eq_comm]
  | cons b first ih =>
    cases cs with
    | nil => simp [dropStart?]
    | cons c cs =>
      have hcons : (∃ front, c :: cs = front ++ rest ∧ front.map Char.toLower = (b :: first).map Char.toLower) ↔
          b.toLower = c.toLower ∧ ∃ front, cs = front ++ rest ∧ front.map Char.toLower = first.map Char.toLower := by
        constructor
        · intro h
          obtain ⟨_ | ⟨d, front⟩, hcs, hfront⟩ := h
          · cases hfront
          · obtain ⟨rfl, rfl⟩ := List.cons.inj hcs
            obtain ⟨hd, hrest⟩ := List.cons.inj hfront
            exact ⟨hd.symm, front, rfl, hrest⟩
        · intro h
          obtain ⟨hc, front, rfl, hfront⟩ := h
          exact ⟨c :: front, rfl, by rw [List.map_cons, List.map_cons, hc, hfront]⟩
      rw [dropStart?, hcons, ← ih, Option.ite_none_right_eq_some]

theorem start_lower : start.toList.map Char.toLower = "cloudinfo_".toList := by decide

/-- What a name says after the common beginning: the rest of it in lower case, without the white space around it. -/
structure Says (name : String) (said : List Char) : Prop where
  nonempty : said ≠ []
  first : ∀ c ∈ said.head?, ¬isWhiteSpace c
  last : ∀ c ∈ said.getLast?, ¬isWhiteSpace c
  name : ∃ before between after : List Char, (∀ c ∈ before ++ (between ++ after), isWhiteSpace c) ∧
    name.toList.map Char.toLower = before ++ ("cloudinfo_".toList ++ (between ++ said)) ++ after

def Names (name field : String) : Prop := Says name field.toList

/-- A name of several parts leads below what its first part names. -/
def Below (name field : String) : Prop :=
  ∃ said, Says name said ∧ (field.toList ++ ['.'] <+: said ∨ field.toList ++ ['_', '_'] <+: said)

/-- A name that has nothing to do with any setting, nor with the file of settings. -/
def Unknown (name : String) : Prop :=
  name ≠ "CLOUDINFO_CONFIG_FILE" ∧ ∀ field ∈ Settings.fields, ¬Names name field ∧ ¬Below name field

def said? (name : String) : Option (List Char) :=
  (dropStart? start.toList (trimBoth isWhiteSpace name.toList)).map
    (fun rest ↦ trimBoth isWhiteSpace (rest.map Char.toLower))

theorem says_of_said? {name : String} {said : List Char} (h : said? name = some said) (hsome : said ≠ []) :
    Says name said := by
  obtain ⟨rest, hrest, hsaid⟩ := Option.map_eq_some_iff.1 h
  obtain ⟨front, htrim, hfront⟩ := dropStart?_eq_some_iff.1 hrest
  obtain ⟨before, after, hblank, hname⟩ := exists_trimBoth isWhiteSpace name.toList
  obtain ⟨between, behind, hinner, hlower⟩ := exists_trimBoth isWhiteSpace (rest.map Char.toLower)
  rw [hsaid] at hlower
  have hmap {cs : List Char} (hcs : ∀ c ∈ cs, isWhiteSpace c) : ∀ c ∈ cs.map Char.toLower, isWhiteSpace c := by
    intro c hc
    obtain ⟨d, hd, rfl⟩ := List.mem_map.1 hc
    rw [isWhiteSpace_toLower]
    exact hcs d hd
  refine ⟨hsome, hsaid ▸ not_of_mem_head?_trimBoth _, hsaid ▸ not_of_mem_getLast?_trimBoth _,
    before.map Char.toLower, between, behind ++ after.map Char.toLower, ?_, ?_⟩
  · simp only [List.forall_mem_append] at hblank hinner ⊢
    exact ⟨hmap hblank.1, hinner.1, hinner.2, hmap hblank.2⟩
  · rw [hname, htrim]
    simp only [List.map_append, hfront, start_lower, hlower, List.append_assoc]

theorem Says.said?_eq {name : String} {said : List Char} (h : Says name said) : said? name = some said := by
  obtain ⟨before, between, after, hblank, hname⟩ := h.name
  simp only [List.forall_mem_append] at hblank
  obtain ⟨hbefore, hbetween, hafter⟩ := hblank
  have hhead : "cloudinfo_".toList.head? = some 'c' := by decide
  have hstart : ∀ c ∈ "cloudinfo_".toList.head?, ¬isWhiteSpace c := by
    intro c hc
    cases hhead.symm.trans hc
    decide
  have htrim : (trimBoth isWhiteSpace name.toList).map Char.toLower =
      start.toList.map Char.toLower ++ (between ++ said) := by
    rw [start_lower]
    rw [← trimBoth_map isWhiteSpace_toLower, hname]
    refine trimBoth_append hbefore hafter ?_ ?_
    · rwa [List.head?_append_of_ne_nil _ (by decide)]
    · rw [List.getLast?_append_of_ne_nil _ (List.append_ne_nil_of_right_ne_nil _ h.nonempty),
        List.getLast?_append_of_ne_nil _ h.nonempty]
      exact h.last
  obtain ⟨front, rest, hsplit, hfront, hrest⟩ := List.map_eq_append_iff.1 htrim
  have hdrop : dropStart? start.toList (trimBoth isWhiteSpace name.toList) = some rest :=
    dropStart?_eq_some_iff.2 ⟨front, hsplit, hfront⟩
  have hinner := trimBoth_append hbetween (List.forall_mem_nil _) h.first h.last
  rw [List.append_nil] at hinner
  rw [said?, hdrop, Option.map_some, hrest, hinner]

theorem says_iff {name : String} {said : List Char} : Says name said ↔ said? name = some said ∧ said ≠ [] :=
  ⟨fun h ↦ ⟨h.said?_eq, h.nonempty⟩, fun h ↦ says_of_said? h.1 h.2⟩

instance (name : String) (said : List Char) : Decidable (Says name said) := decidable_of_iff _ says_iff.symm

instance (name field : String) : Decidable (Names name field) := inferInstanceAs (Decidable (Says name field.toList))

instance (name field : String) : Decidable (Below name field) :=
  decidable_of_iff (∃ said ∈ said? name, said ≠ [] ∧
    (field.toList ++ ['.'] <+: said ∨ field.toList ++ ['_', '_'] <+: said)) (by
      simp only [Below, says_iff, Option.mem_def, and_assoc])

instance (name : String) : Decidable (Unknown name) := inferInstanceAs (Decidable (_ ∧ _))

/-- A variable gives a setting, or something below one, by what its name says. -/
theorem ofVariable?_eq (name value : String) : ofVariable? name value = (said? name).bind (fun said ↦
    if said = fileVariable.toList.map Char.toLower || (parts said).any List.isEmpty then none
    else
      match parts said with
      | [one] => some (String.ofList one, setting value)
      | first :: _ => some (String.ofList first, .map)
      | [] => none) := by
  rw [said?, Option.bind_map]
  rfl

theorem parts_ne_nil (cs : List Char) : parts cs ≠ [] := by
  fun_cases parts cs <;> exact List.cons_ne_nil _ _

/-- What is said starts with its first part. A lone part is all of it, others follow after what parts them. -/
theorem exists_of_parts {said first : List Char} {others : List (List Char)} (h : parts said = first :: others) :
    (others = [] ∧ said = first) ∨ (others ≠ [] ∧ (first ++ ['.'] <+: said ∨ first ++ ['_', '_'] <+: said)) := by
  fun_induction parts said generalizing first others with
  | case1 =>
    cases h
    exact .inl ⟨rfl, rfl⟩
  | case2 cs =>
    cases h
    exact .inr ⟨parts_ne_nil cs, .inr (List.prefix_append ['_', '_'] cs)⟩
  | case3 cs =>
    cases h
    exact .inr ⟨parts_ne_nil cs, .inl (List.prefix_append ['.'] cs)⟩
  | case4 c cs _ _ hnone => exact absurd hnone (parts_ne_nil cs)
  | case5 c cs _ _ head tail hparts ih =>
    cases h
    obtain ⟨hlone, rfl⟩ | ⟨hmore, hprefix⟩ := ih hparts
    · exact .inl ⟨hlone, rfl⟩
    · exact .inr ⟨hmore, hprefix.imp (List.cons_prefix_cons.2 ⟨rfl, ·⟩) (List.cons_prefix_cons.2 ⟨rfl, ·⟩)⟩

/-- What a variable gives, it says in its name. -/
theorem names_or_below {name value field : String} {v : Setting} (h : ofVariable? name value = some (field, v)) :
    (Names name field ∧ v = setting value) ∨ (Below name field ∧ v = .map) := by
  rw [ofVariable?_eq] at h
  obtain ⟨said, hsaid, h⟩ := Option.bind_eq_some_iff.1 h
  obtain ⟨hgiven, h⟩ := Option.ite_none_left_eq_some.1 h
  have hsome : said ≠ [] := by
    intro hnone
    subst hnone
    exact hgiven rfl
  have hsays := says_of_said? hsaid hsome
  split at h
  next one hparts =>
    cases h
    obtain ⟨-, rfl⟩ | ⟨hmore, -⟩ := exists_of_parts hparts
    · exact .inl ⟨by rwa [Names, String.toList_ofList], rfl⟩
    · exact absurd rfl hmore
  next first others hmany hparts =>
    cases h
    obtain ⟨rfl, -⟩ | ⟨-, hprefix⟩ := exists_of_parts hparts
    · exact absurd rfl hmany
    · exact .inr ⟨⟨said, hsays, by rwa [String.toList_ofList]⟩, rfl⟩
  next => cases h

/-- A variable that names a setting gives its value. -/
theorem ofVariable?_of_names {name field : String} (hfield : field ∈ Settings.fields) (h : Names name field)
    (value : String) : ofVariable? name value = some (field, setting value) := by
  have hplain : ∀ field ∈ Settings.fields, field.toList ≠ fileVariable.toList.map Char.toLower ∧
      parts field.toList = [field.toList] := by decide
  obtain ⟨hfile, hparts⟩ := hplain field hfield
  rw [ofVariable?_eq, h.said?_eq, Option.bind_some]
  simp [hfile, hparts, h.nonempty]

section Layer

variable {vars : List (String × String)} {field : String} {v : Setting}

theorem exists_of_get?_layer (h : (layer vars).get? field = some v) :
    ∃ e ∈ vars, (Names e.1 field ∧ v = setting e.2) ∨ (Below e.1 field ∧ v = .map) := by
  have hmem := Dict.mem_of_mem_entries_ofList (Dict.mem_entries_iff.2 h)
  obtain ⟨e, he, hgiven⟩ := List.mem_filterMap.1 hmem
  exact ⟨e, he, names_or_below hgiven⟩

theorem not_names_of_get?_layer (hfield : field ∈ Settings.fields) (h : (layer vars).get? field = none) :
    ∀ e ∈ vars, ¬Names e.1 field := by
  intro e he hnames
  have hgiven : (field, setting e.2) ∈ vars.filterMap (fun v ↦ ofVariable? v.1 v.2) :=
    List.mem_filterMap.2 ⟨e, he, ofVariable?_of_names hfield hnames e.2⟩
  have hkey : field ∈ (layer vars).keys := Dict.mem_keys_ofList.2 (List.mem_map_of_mem (f := Prod.fst) hgiven)
  rw [Dict.mem_keys_iff, h] at hkey
  cases hkey

/-- A variable that gives nothing for a setting may stand anywhere among the others. -/
theorem get?_layer_insert {name value : String} (h : ∀ e ∈ ofVariable? name value, e.1 ≠ field)
    (before after : List (String × String)) :
    (layer (before ++ (name, value) :: after)).get? field = (layer (before ++ after)).get? field := by
  simp only [layer, Dict.get?_ofList, List.filterMap_append, List.filterMap_cons]
  cases hgiven : ofVariable? name value with
  | none => rfl
  | some e =>
    have hne : e.1 ≠ field := h e hgiven
    simp [List.find?_append, hne]

end Layer

theorem Unknown.ofVariable?_ne {name field : String} (h : Unknown name) (hfield : field ∈ Settings.fields)
    (value : String) : ∀ e ∈ ofVariable? name value, e.1 ≠ field := by
  intro e hgiven heq
  subst heq
  obtain ⟨hnames, hbelow⟩ := h.2 e.1 hfield
  obtain ⟨hgives, -⟩ | ⟨hleads, -⟩ := names_or_below hgiven
  · exact hnames hgives
  · exact hbelow hleads

theorem file?_insert {name : String} (h : name ≠ "CLOUDINFO_CONFIG_FILE") (value : String)
    (before after : List (String × String)) : file? (before ++ (name, value) :: after) = file? (before ++ after) := by
  have hfile : start ++ fileVariable = "CLOUDINFO_CONFIG_FILE" := by decide
  simp [file?, hfile, List.find?_append, h]

end Environment

end CloudOffers
