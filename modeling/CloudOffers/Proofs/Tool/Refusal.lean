import CloudOffers.Tool.Rpc
/-!
What a caller learns from a refusal. Where something is missing, the message has the whole key in it: its category,
which says what the key consists of, and then its parts with commas between them.
-/

namespace CloudOffers

namespace Category

def ofName? (name : String) : Option Category := all.find? (fun c ↦ c.name = name)

theorem ofName?_name (c : Category) : ofName? c.name = some c := by
  cases c <;> rfl

theorem blank_not_mem_name (c : Category) : ' ' ∉ c.name.toList := by
  cases c <;> decide

end Category

namespace Key

/-- The key of a category with these arguments, if they are as many as it takes. -/
def ofArguments? : Category → List String → Option Key
  | .services, [p] => some (.services p)
  | .regions, [p, s] => some (.regions p s)
  | .zones, [p, r] => some (.zones p r)
  | .attributes, [p, s, a] => some (.attributes p s a)
  | .products, [p, s, r] => some (.products p s r)
  | .prices, [p, r, t] => some (.price p r t)
  | .images, [p, s, r] => some (.images p s r)
  | .versions, [p, s, r] => some (.versions p s r)
  | .status, [p] => some (.status p)
  | _, _ => none

theorem ofArguments?_arguments (k : Key) : ofArguments? k.category k.arguments = some k := by
  cases k <;> rfl

/-- What stands after the first equals sign. -/
def valueOf (piece : List Char) : String := String.ofList (piece.dropWhile (· ≠ '=')).tail

/-- A value may have equals signs of its own. -/
theorem valueOf_append {name : List Char} (hname : '=' ∉ name) (value : String) :
    valueOf (name ++ '=' :: value.toList) = value := by
  have hpass : ∀ c ∈ name, decide (c ≠ '=') = true := fun c hc ↦ decide_eq_true (ne_of_mem_of_not_mem hc hname)
  rw [valueOf, List.dropWhile_append_of_pos hpass]
  exact String.ofList_toList

/-- The parts of a key with their names. The blank that follows a comma counts to the name. -/
def parts (k : Key) : List (String × String) :=
  ("provider", k.provider) :: [(" service", k.service?), (" region", k.region?), (" attribute", k.attribute?),
    (" instanceType", k.instanceType?)].filterMap (fun e ↦ e.2.map (e.1, ·))

theorem map_parts (k : Key) : k.parts.map (·.2) = k.arguments := by
  cases k <;> rfl

theorem not_mem_of_mem_parts {k : Key} {e : String × String} (h : e ∈ k.parts) :
    '=' ∉ e.1.toList ∧ ',' ∉ e.1.toList := by
  have hnames : ∀ name ∈ ["provider", " service", " region", " attribute", " instanceType"],
      '=' ∉ name.toList ∧ ',' ∉ name.toList := by decide
  refine hnames e.1 ?_
  obtain rfl | hfurther := List.mem_cons.1 h
  · exact List.mem_cons_self
  · obtain ⟨⟨name, value?⟩, hmem, hvalue⟩ := List.mem_filterMap.1 hfurther
    obtain ⟨value, -, rfl⟩ := Option.map_eq_some_iff.1 hvalue
    exact List.mem_cons_of_mem _ (List.mem_map_of_mem (f := Prod.fst) hmem)

/-- A part as it stands between the commas. -/
def piece (e : String × String) : List Char := e.1.toList ++ '=' :: e.2.toList

theorem toList_text (k : Key) : k.text.toList = [','].intercalate (k.parts.map piece) := by
  cases k <;> simp [text, part, parts, piece, provider, service?, region?, attribute?, instanceType?]

theorem map_valueOf_pieces (k : Key) : (k.parts.map piece).map valueOf = k.arguments := by
  rw [← map_parts, List.map_map]
  exact List.map_congr_left fun e he ↦ valueOf_append (not_mem_of_mem_parts he).1 e.2

def CommaFree (k : Key) : Prop := ∀ s ∈ k.arguments, ',' ∉ s.toList

theorem CommaFree.pieces {k : Key} (h : k.CommaFree) : ∀ p ∈ k.parts.map piece, ',' ∉ p := by
  intro p hp
  obtain ⟨e, he, rfl⟩ := List.mem_map.1 hp
  have hvalue : ',' ∉ e.2.toList := h e.2 (k.map_parts ▸ List.mem_map_of_mem he)
  simp [piece, (not_mem_of_mem_parts he).2, hvalue]

/-- Reads the text of a key of a category. -/
def ofText? (c : Category) (text : List Char) : Option Key := ofArguments? c ((text.splitOn ',').map valueOf)

theorem ofText?_text {k : Key} (h : k.CommaFree) : ofText? k.category k.text.toList = some k := by
  rw [ofText?, toList_text, List.splitOn_intercalate ',' h.pieces (List.cons_ne_nil _ _), map_valueOf_pieces,
    ofArguments?_arguments]

end Key

namespace Refusal

/-- The key that a message says is missing. -/
def missing? (message : String) : Option Key := do
  let said := message.toList.drop "NOT_CACHED: ".length
  let c ← Category.ofName? (String.ofList (said.takeWhile (· ≠ ' ')))
  Key.ofText? c ((said.dropWhile (· ≠ ' ')).drop " not yet cached (".length).dropLast

theorem toList_message (k : Key) : (notCached k).message.toList = "NOT_CACHED: ".toList ++
    (k.category.name.toList ++ (" not yet cached (".toList ++ (k.text.toList ++ ")".toList))) := by
  change ("NOT_CACHED: " ++ k.category.name ++ " not yet cached (" ++ k.text ++ ")").toList = _
  simp only [String.toList_append, List.append_assoc]

theorem missing?_message {k : Key} (h : k.CommaFree) : missing? (notCached k).message = some k := by
  have hname : ∀ c ∈ k.category.name.toList, decide (c ≠ ' ') = true := fun c hc ↦
    decide_eq_true (ne_of_mem_of_not_mem hc k.category.blank_not_mem_name)
  -- the name of the category ends at the blank that the next words start with
  have htake (r : List Char) : (" not yet cached (".toList ++ r).takeWhile (· ≠ ' ') = [] := rfl
  have hdrop (r : List Char) : (" not yet cached (".toList ++ r).dropWhile (· ≠ ' ') =
      " not yet cached (".toList ++ r := rfl
  rw [missing?, toList_message, List.drop_left' String.length_toList]
  simp only [List.takeWhile_append_of_pos hname, List.dropWhile_append_of_pos hname, htake, hdrop, List.append_nil,
    String.ofList_toList, Category.ofName?_name, Option.bind_eq_bind, Option.bind_some,
    List.drop_left' String.length_toList]
  exact (congrArg (Key.ofText? k.category) List.dropLast_concat).trans (Key.ofText?_text h)

end Refusal

namespace Rpc

/-- A call that is refused since a key is missing, and its reply. -/
def Misses (k : Key) (reply : Except Json Json) : Prop :=
  ∃ inv held metrics params, Tool.call inv held metrics (toolName params) (params.member? "arguments") =
    .error (.refused (.notCached k)) ∧ callTool inv held metrics params = reply

theorem Misses.reply_eq {k : Key} {reply : Except Json Json} (h : Misses k reply) :
    reply = .error (errorJson (-32001) (Refusal.notCached k).message) := by
  obtain ⟨inv, held, metrics, params, hcall, rfl⟩ := h
  rw [callTool, hcall]
  rfl

theorem errorJson_message_inj {code : Int} {m m' : String} : errorJson code m = errorJson code m' ↔ m = m' := by
  simp [errorJson]

/-- From the message of a refusal, and so from the reply to a call, a caller learns exactly which key is missing, as
long as there are no commas in it. -/
theorem missing_told {k k' : Key} (hk : k.CommaFree) (hk' : k'.CommaFree) :
    Refusal.missing? (Refusal.notCached k).message = some k ∧
      ((Refusal.notCached k).message = (Refusal.notCached k').message ↔ k = k') ∧
      ∀ reply reply', Misses k reply → Misses k' reply' →
        reply = .error (errorJson (-32001) (Refusal.notCached k).message) ∧ (reply = reply' ↔ k = k') := by
  have hmessage : (Refusal.notCached k).message = (Refusal.notCached k').message ↔ k = k' := by
    constructor
    · intro heq
      have hread := Refusal.missing?_message hk
      rw [heq, Refusal.missing?_message hk'] at hread
      exact (Option.some_inj.1 hread).symm
    · exact congrArg fun k ↦ (Refusal.notCached k).message
  refine ⟨Refusal.missing?_message hk, hmessage, fun reply reply' h h' ↦ ⟨h.reply_eq, ?_⟩⟩
  rw [h.reply_eq, h'.reply_eq, Except.error.injEq, errorJson_message_inj, hmessage]

/-- A question about the images of a region whose name looks like parts of a key. -/
def obscureParams : Json := .obj [("name", .str "get_images"), ("arguments",
  .obj [("provider", .str "a=b"), ("service", .str ""), ("region", .str "region=(x) service=y")])]

theorem missing_told_obscureParams :
    let k : Key := .images "a=b" "" "region=(x) service=y"
    let k' : Key := .images "a=b" "region=(x)" "service=y"
    k.CommaFree ∧ k'.CommaFree ∧ (Refusal.notCached k).message ≠ (Refusal.notCached k').message ∧
      Refusal.missing? (Refusal.notCached k).message = some k ∧
      Misses k (callTool ⟨["a=b"]⟩ (fun _ ↦ none) (.ok "") obscureParams) ∧
      callTool ⟨["a=b"]⟩ (fun _ ↦ none) (.ok "") obscureParams =
        .error (errorJson (-32001) (Refusal.notCached k).message) := by
  intro k k'
  have hk : k.CommaFree := by
    change ∀ s ∈ ["a=b", "", "region=(x) service=y"], ',' ∉ s.toList
    decide
  have hk' : k'.CommaFree := by
    change ∀ s ∈ ["a=b", "region=(x)", "service=y"], ',' ∉ s.toList
    decide
  have hne : k ≠ k' := by decide
  have hmisses : Misses k (callTool ⟨["a=b"]⟩ (fun _ ↦ none) (.ok "") obscureParams) := ⟨_, _, _, _, rfl, rfl⟩
  obtain ⟨hread, hmessage, hreply⟩ := missing_told hk hk'
  exact ⟨hk, hk', mt hmessage.1 hne, hread, hmisses, ((missing_told hk hk).2.2 _ _ hmisses hmisses).1⟩

/-- With commas in them, keys may share a message. -/
example : (Refusal.notCached (.images "a" "b, region=c" "d")).message =
    (Refusal.notCached (.images "a" "b" "c, region=d")).message := by decide

end Rpc

end CloudOffers
