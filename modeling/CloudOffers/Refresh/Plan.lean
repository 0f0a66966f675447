import CloudOffers.Source.Request
import CloudOffers.Store.Basic
import CloudOffers.Metrics.Registry
/-!
Refreshes as plans: trees of requests to a source and of actions, the next step depending on what was
answered. A plan says nothing about the source or the store, so the same plan can run in one go
(`Plan.run`) or in pieces among others.
-/

namespace CloudOffers

inductive Action where
  | put (k : Key) (v : k.Payload)
  | report (e : Metrics.Event)
  | log (e : Log.Event)

inductive Plan (α : Type) where
  | done (a : α)
  | ask (r : Request) (next : r.Reply → Plan α)
  | askImages (next : Bool → Plan α)
  | clock (next : Nat → Plan α)
  | act (a : Action) (next : Plan α)

namespace Plan

variable {α β σ : Type}

def bind : Plan α → (α → Plan β) → Plan β
  | .done a, f => f a
  | .ask r next, f => .ask r (fun reply ↦ (next reply).bind f)
  | .askImages next, f => .askImages (fun offered ↦ (next offered).bind f)
  | .clock next, f => .clock (fun now ↦ (next now).bind f)
  | .act a next, f => .act a (next.bind f)

instance : Monad Plan where
  pure := .done
  bind := bind

theorem bind_done (p : Plan α) : p.bind .done = p := by
  induction p with
  | done a => rfl
  | ask r next ih => exact congrArg (Plan.ask r) (funext ih)
  | askImages next ih => exact congrArg Plan.askImages (funext ih)
  | clock next ih => exact congrArg Plan.clock (funext ih)
  | act a next ih => exact congrArg (Plan.act a) ih

theorem bind_assoc {γ : Type} (p : Plan α) (f : α → Plan β) (g : β → Plan γ) :
    (p.bind f).bind g = p.bind (fun a ↦ (f a).bind g) := by
  induction p with
  | done a => rfl
  | ask r next ih => exact congrArg (Plan.ask r) (funext ih)
  | askImages next ih => exact congrArg Plan.askImages (funext ih)
  | clock next ih => exact congrArg Plan.clock (funext ih)
  | act a next ih => exact congrArg (Plan.act a) ih

instance : LawfulMonad Plan := LawfulMonad.mk' Plan bind_done (fun _ _ ↦ rfl) bind_assoc

def request (r : Request) : Plan r.Reply := .ask r .done

/-- Whether the source offers images. -/
def imagesOffered : Plan Bool := .askImages .done

/-- The time in nanoseconds. -/
def now : Plan Nat := .clock .done

def put (k : Key) (v : k.Payload) : Plan Unit := .act (.put k v) (.done ())

def report (e : Metrics.Event) : Plan Unit := .act (.report e) (.done ())

def log (e : Log.Event) : Plan Unit := .act (.log e) (.done ())

inductive Step where
  | asked (r : Request) (reply : r.Reply)
  | askedImages (offered : Bool)
  | acted (time : Nat) (a : Action)

/-- A run of a plan: its result, what happened in order, and the state it left the source in. -/
structure Run (σ α : Type) where
  result : α
  steps : List Step
  state : σ

def Run.after (steps : List Step) (r : Run σ α) : Run σ α := { r with steps := steps ++ r.steps }

def run (src : Source σ) (time : σ → Nat) : Plan α → σ → Run σ α
  | .done a, s => ⟨a, [], s⟩
  | .ask r next, s =>
    let (reply, s') := src.answer r s
    ((next reply).run src time s').after
      (.asked r reply :: (src.notes r s).map (fun e ↦ .acted (time s') (.log e)))
  | .askImages next, s =>
    ((next (src.offersImages s)).run src time s).after [.askedImages (src.offersImages s)]
  | .clock next, s => (next (time s)).run src time s
  | .act a next, s => (next.run src time s).after [.acted (time s) a]

namespace Step

def request? : Step → Option Request
  | .asked r _ => some r
  | _ => none

def event? : Step → Option Metrics.Event
  | .acted _ (.report e) => some e
  | _ => none

def log? : Step → Option Log.Event
  | .acted _ (.log e) => some e
  | _ => none

def applyTo (s : Store) : Step → Store
  | .acted time (.put k v) => s.put time k v
  | _ => s

end Step

end Plan

/-- The store after what happened in a run. -/
def Store.replay (s : Store) (steps : List Plan.Step) : Store := steps.foldl Plan.Step.applyTo s

end CloudOffers
