import CloudOffers.Proofs.Store.Write
import CloudOffers.Refresh.Plan
/-!
What plans do, whatever they are answered and whenever. Log lines are left out: the source has a part
in them.
-/

namespace CloudOffers

abbrev Publication := (k : Key) × k.Payload

def Write.publication (w : Write) : Publication := ⟨w.key, w.payload⟩

/-- If at most one value is published under a key, it does not matter when that is. -/
theorem Write.map_latest {k : Key} {l : List Write} {x : Option k.Payload}
    (h : ∀ v, ⟨k, v⟩ ∈ l.map Write.publication ↔ x = some v) :
    (Write.latest k l).map Entry.value = x := by
  cases hlast : Write.latest k l with
  | some e =>
    have hmem := List.mem_map_of_mem (f := Write.publication) (Write.mem_of_latest hlast)
    exact ((h e.value).1 hmem).symm
  | none =>
    cases x with
    | none => rfl
    | some v =>
      obtain ⟨w, hw, hpublication⟩ := List.mem_map.1 ((h v).2 rfl)
      exact absurd (congrArg Sigma.fst hpublication) (Write.latest_eq_none_iff.1 hlast w hw)

/-- A report without how long something took. -/
def Metrics.Event.untimed : Metrics.Event → Metrics.Event
  | .regionCompleted provider service region _ => .regionCompleted provider service region 0
  | .providerCompleted provider _ => .providerCompleted provider 0
  | .regionPricesCompleted provider region _ => .regionPricesCompleted provider region 0
  | .providerPricesCompleted provider _ => .providerPricesCompleted provider 0
  | e => e

namespace Plan

namespace Step

def isLog : Step → Bool
  | .acted _ (.log _) => true
  | _ => false

def isInquiry : Step → Bool
  | .acted .. => false
  | _ => true

def write? : Step → Option Write
  | .acted time (.put k v) => some ⟨time, k, v⟩
  | _ => none

end Step

def inquiries (steps : List Step) : List Step := steps.filter Step.isInquiry

def writes (steps : List Step) : List Write := steps.filterMap Step.write?

def reports (steps : List Step) : List Metrics.Event := steps.filterMap Step.event?

def withoutLogs (steps : List Step) : List Step := steps.filter (fun x ↦ !x.isLog)

section Lists

variable (a b : List Step)

@[simp] theorem inquiries_append : inquiries (a ++ b) = inquiries a ++ inquiries b :=
  List.filter_append ..

@[simp] theorem writes_append : writes (a ++ b) = writes a ++ writes b := List.filterMap_append

@[simp] theorem reports_append : reports (a ++ b) = reports a ++ reports b := List.filterMap_append

@[simp] theorem withoutLogs_append : withoutLogs (a ++ b) = withoutLogs a ++ withoutLogs b :=
  List.filter_append ..

theorem inquiries_withoutLogs : inquiries (withoutLogs a) = inquiries a := by
  induction a with
  | nil => rfl
  | cons x a ih =>
    rcases x with _ | _ | ⟨_, _ | _ | _⟩
    case acted.log => exact ih
    case acted.put => exact ih
    case acted.report => exact ih
    all_goals exact congrArg (List.cons _) ih

theorem writes_withoutLogs : writes (withoutLogs a) = writes a := by
  induction a with
  | nil => rfl
  | cons x a ih =>
    rcases x with _ | _ | ⟨_, _ | _ | _⟩
    case acted.put => exact congrArg (List.cons _) ih
    all_goals exact ih

theorem reports_withoutLogs : reports (withoutLogs a) = reports a := by
  induction a with
  | nil => rfl
  | cons x a ih =>
    rcases x with _ | _ | ⟨_, _ | _ | _⟩
    case acted.report => exact congrArg (List.cons _) ih
    all_goals exact ih

theorem replay_eq_writeAll (s : Store) : s.replay a = s.writeAll (writes a) := by
  induction a generalizing s with
  | nil => rfl
  | cons x a ih => rcases x with _ | _ | ⟨_, _ | _ | _⟩ <;> exact ih _

@[simp] theorem ttl_replay (s : Store) : (s.replay a).ttl = s.ttl := by
  rw [replay_eq_writeAll, Store.ttl_writeAll]

theorem kept?_replay (s : Store) (k : Key) :
    (s.replay a).kept? k = (Write.latest k (writes a)).or (s.kept? k) := by
  rw [replay_eq_writeAll, Store.kept?_writeAll]

end Lists

/-- What some steps ask with what answers, what they publish and what they report. -/
structure Amounts (steps asked : List Step) (published : List Publication)
    (reported : List Metrics.Event) : Prop where
  inquiries : inquiries steps = asked
  publications : (writes steps).map Write.publication = published
  reports : (reports steps).map Metrics.Event.untimed = reported

namespace Amounts

variable {steps steps' asked asked' : List Step} {published published' : List Publication}
  {reported reported' : List Metrics.Event}

theorem nil : Amounts [] [] [] [] := ⟨rfl, rfl, rfl⟩

theorem append (h : Amounts steps asked published reported)
    (h' : Amounts steps' asked' published' reported') :
    Amounts (steps ++ steps') (asked ++ asked') (published ++ published') (reported ++ reported') where
  inquiries := by rw [inquiries_append, h.inquiries, h'.inquiries]
  publications := by rw [writes_append, List.map_append, h.publications, h'.publications]
  reports := by rw [reports_append, List.map_append, h.reports, h'.reports]

theorem asked_cons (h : Amounts steps asked published reported) (r : Request) (reply : r.Reply) :
    Amounts (.asked r reply :: steps) (.asked r reply :: asked) published reported :=
  ⟨congrArg (List.cons _) h.inquiries, h.publications, h.reports⟩

theorem askedImages_cons (h : Amounts steps asked published reported) (offered : Bool) :
    Amounts (.askedImages offered :: steps) (.askedImages offered :: asked) published reported :=
  ⟨congrArg (List.cons _) h.inquiries, h.publications, h.reports⟩

theorem put (time : Nat) (k : Key) (v : k.Payload) :
    Amounts [.acted time (.put k v)] [] [⟨k, v⟩] [] := ⟨rfl, rfl, rfl⟩

theorem report (time : Nat) (e : Metrics.Event) :
    Amounts [.acted time (.report e)] [] [] [e.untimed] := ⟨rfl, rfl, rfl⟩

end Amounts

variable {α β : Type}

/-- Whatever a plan is answered, what it does besides logging and its result are as told. -/
def Ensures : Plan α → (List Step → α → Prop) → Prop
  | .done a, Q => Q [] a
  | .ask r next, Q => ∀ reply, (next reply).Ensures (fun steps a ↦ Q (.asked r reply :: steps) a)
  | .askImages next, Q =>
    ∀ offered, (next offered).Ensures (fun steps a ↦ Q (.askedImages offered :: steps) a)
  | .clock next, Q => ∀ now, (next now).Ensures Q
  | .act x next, Q =>
    ∀ time, next.Ensures (fun steps a ↦ Q (withoutLogs [.acted time x] ++ steps) a)

theorem Ensures.mono {p : Plan α} {Q Q' : List Step → α → Prop} (h : p.Ensures Q)
    (hQ : ∀ steps a, Q steps a → Q' steps a) : p.Ensures Q' := by
  induction p generalizing Q Q' with
  | done a => exact hQ [] a h
  | ask r next ih => exact fun reply ↦ ih reply (h reply) (fun steps a ↦ hQ _ a)
  | askImages next ih => exact fun offered ↦ ih offered (h offered) (fun steps a ↦ hQ _ a)
  | clock next ih => exact fun now ↦ ih now (h now) hQ
  | act x next ih => exact fun time ↦ ih (h time) (fun steps a ↦ hQ _ a)

theorem Ensures.bind {p : Plan α} {f : α → Plan β} {Q : List Step → β → Prop}
    (h : p.Ensures (fun first a ↦ (f a).Ensures (fun rest b ↦ Q (first ++ rest) b))) :
    (p >>= f).Ensures Q := by
  induction p generalizing Q with
  | done a => exact h
  | ask r next ih => exact fun reply ↦ ih reply (h reply)
  | askImages next ih => exact fun offered ↦ ih offered (h offered)
  | clock next ih => exact fun now ↦ ih now (h now)
  | act x next ih =>
    intro time
    apply ih
    apply (h time).mono
    intro first a hf
    apply hf.mono
    intro rest b hQ
    rwa [List.append_assoc] at hQ

theorem Ensures.of_bind {p : Plan α} {f : α → Plan β} {Q : List Step → β → Prop}
    (h : (p >>= f).Ensures Q) :
    p.Ensures (fun first a ↦ (f a).Ensures (fun rest b ↦ Q (first ++ rest) b)) := by
  induction p generalizing Q with
  | done a => exact h
  | ask r next ih => exact fun reply ↦ ih reply (h reply)
  | askImages next ih => exact fun offered ↦ ih offered (h offered)
  | clock next ih => exact fun now ↦ ih now (h now)
  | act x next ih =>
    intro time
    apply (ih (h time)).mono
    intro first a hf
    apply hf.mono
    intro rest b hQ
    rwa [List.append_assoc]

section Actions

variable {f : α → Plan β} {Q : List Step → β → Prop}

theorem Ensures.request {r : Request} {f : r.Reply → Plan β}
    (h : ∀ reply, (f reply).Ensures (fun rest b ↦ Q (.asked r reply :: rest) b)) :
    (Plan.request r >>= f).Ensures Q := h

theorem Ensures.now {f : Nat → Plan β} (h : ∀ time, (f time).Ensures Q) :
    (Plan.now >>= f).Ensures Q := h

theorem Ensures.log {e : Log.Event} {f : Unit → Plan β} (h : (f ()).Ensures Q) :
    (Plan.log e >>= f).Ensures Q := fun _ ↦ h

end Actions

theorem Ensures.forM {f : α → Plan Unit} {published : α → List Publication}
    {reported : α → List Metrics.Event}
    (h : ∀ x, (f x).Ensures (fun steps _ ↦ Amounts steps [] (published x) (reported x)))
    (l : List α) :
    (l.forM f).Ensures (fun steps _ ↦
      Amounts steps [] (l.flatMap published) (l.flatMap reported)) := by
  induction l with
  | nil => exact Amounts.nil
  | cons x l ih =>
    change (f x >>= fun _ ↦ l.forM f).Ensures _
    apply Ensures.bind
    apply (h x).mono
    intro first _ hx
    apply ih.mono
    intro rest _ hl
    exact hx.append hl

end Plan

end CloudOffers
