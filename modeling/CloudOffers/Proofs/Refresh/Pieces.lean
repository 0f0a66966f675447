import CloudOffers.Proofs.Refresh.Shutdown
/-!
The pieces of a timeline: a cycle that runs is somewhere among the tasks, in one piece or, while its
regions are visited, in several. A driver that moves the cycle follows a piece that is run.
-/

namespace CloudOffers

open Plan (Step)
open Driver (Takes Runs)

namespace Driver

variable {σ : Type} (d : Driver σ)

/-- A driver after one of its cycles has got somewhere. -/
def placed (f : Flight) (c : Course) (sources : List σ) (store : Store) : Driver σ :=
  { d with sources := sources, courses := Function.update d.courses f c, store := store }

variable {d} {f : Flight} {c : Course}

theorem placed_placed (c' : Course) (sources sources' : List σ) (store store' : Store) :
    (d.placed f c sources store).placed f c' sources' store' = d.placed f c' sources' store' := by
  simp [placed]

theorem placed_self (h : d.courses f = c) : d.placed f c d.sources d.store = d := by
  rw [placed, ← h, Function.update_eq_self]

theorem courses_placed (sources : List σ) (store : Store) :
    (d.placed f c sources store).courses f = c := Function.update_self ..

theorem courses_placed_of_ne {g : Flight} (h : g ≠ f) (sources : List σ) (store : Store) :
    (d.placed f c sources store).courses g = d.courses g := Function.update_of_ne h ..

/-- A move in which nothing happens. -/
theorem Runs.silent {src : Source σ} {wall : Nat → Nat} {l : Chronicle} {c' : Course}
    {sources : List σ} {store : Store} (h : Runs src wall d l (d.placed f c sources store))
    (hd : d.Sound) (hf : f ∈ d.rota.flights)
    (hm : ∀ x, c.Moves src (fun _ ↦ wall d.now) (d.provider f) x [] c' x) :
    ∃ l, Runs src wall d l (d.placed f c' sources store) := by
  let d' := d.placed f c sources store
  have hlt : f.manager < d'.sources.length := (h.sound hd).manager_lt hf
  have hmoves : (d'.courses f).Moves src (fun _ ↦ wall d'.now) (d'.provider f) d'.sources[f.manager]
      [] c' d'.sources[f.manager] := by
    rw [courses_placed]
    exact hm _
  have hmoved : Takes src wall d' (.moved f []) _ := .moved hf (List.getElem?_eq_getElem hlt) hmoves
  rw [List.set_getElem_self] at hmoved
  have hlast : Runs src wall d' _ ((d.placed f c sources store).placed f c' sources store) :=
    .step hmoved (.refl _)
  rw [placed_placed] at hlast
  exact ⟨_, h.trans hlast⟩

end Driver

namespace Timeline

variable {σ : Type} {w : Conditions σ} {s s' s'' : Timeline σ} {d d' : Driver σ} {f : Flight}

/-- What can be seen of a timeline in a driver. -/
structure Agrees (s : Timeline σ) (d : Driver σ) : Prop where
  now : d.now = s.now
  cancelled : d.cancelled = s.cancelled
  rota : d.rota = s.rota
  sources : d.sources = s.sources
  store : d.store = s.store

/-- Tasks and records are not seen in a driver. -/
theorem Agrees.same (h : s.Agrees d)
    (hsame : (s'.now, s'.cancelled, s'.rota, s'.sources, s'.store) =
      (s.now, s.cancelled, s.rota, s.sources, s.store)) : s'.Agrees d := by
  simp only [Prod.mk.injEq] at hsame
  obtain ⟨hnow, hcancelled, hrota, hsources, hstore⟩ := hsame
  exact ⟨h.now.trans hnow.symm, h.cancelled.trans hcancelled.symm, h.rota.trans hrota.symm,
    h.sources.trans hsources.symm, h.store.trans hstore.symm⟩

theorem Agrees.placed {c c' : Course} {sources : List σ} {store : Store}
    (h : s.Agrees (d.placed f c sources store)) : s.Agrees (d.placed f c' sources store) :=
  ⟨h.now, h.cancelled, h.rota, h.sources, h.store⟩

theorem Agrees.getElem? {m : Nat} (h : s.Agrees d) (hlt : m < d.sources.length) :
    s.sources[m]? = some d.sources[m] := by
  rw [← h.sources]
  exact List.getElem?_eq_getElem hlt

theorem Agrees.set_self {m : Nat} (h : s.Agrees d) (hlt : m < d.sources.length) :
    d.sources.set m d.sources[m] = s.sources :=
  (List.set_getElem_self hlt).trans h.sources

/-- No task has come, gone or been counted. -/
structure SameTasks (s s' : Timeline σ) : Prop where
  ready : s'.ready = s.ready
  asleep : s'.asleep = s.asleep
  joins : s'.joins = s.joins

theorem SameTasks.refl (s : Timeline σ) : s.SameTasks s := ⟨rfl, rfl, rfl⟩

theorem SameTasks.trans (h : s.SameTasks s') (h' : s'.SameTasks s'') : s.SameTasks s'' :=
  ⟨h'.ready.trans h.ready, h'.asleep.trans h.asleep, h'.joins.trans h.joins⟩

/-- What a task is to run, for which manager, if it is part of a cycle. -/
def Task.piece? : Task → Option (Nat × Plan Outcome)
  | .loop .. => none
  | .piece m p => some (m, p)
  | .answer m r next => some (m, .ask r next)

theorem replay_logs (store : Store) (time : Nat) (l : List Log.Event) :
    store.replay (l.map (fun e ↦ .acted time (.log e))) = store := by
  induction l with
  | nil => rfl
  | cons e l ih => exact ih

theorem replay_asked (store : Store) (r : Request) (reply : r.Reply) (time : Nat)
    (l : List Log.Event) :
    store.replay (.asked r reply :: l.map (fun e ↦ .acted time (.log e))) = store :=
  replay_logs store time l

theorem sameTasks_act (w : Conditions σ) (s : Timeline σ) (a : Action) : s.SameTasks (act w s a) := by
  cases a <;> exact ⟨rfl, rfl, rfl⟩

section Piece

variable {α : Type} (part : Plan α → Course) (wrap : α → Outcome) (w f)

/-- What becomes of a piece of a cycle: it ends, or it waits for an answer. -/
inductive Lands (s : Timeline σ) (d : Driver σ) : Plan α → Timeline σ → Prop
  | ended {s' : Timeline σ} (a : α) : s.SameTasks s' → s'.Agrees d →
      Lands s d (.done a) (s'.conclude f.manager (wrap a))
  | waits {s' : Timeline σ} (r : Request) (next : r.Reply → Plan α) (wake : Nat) :
      s.SameTasks s' → s'.Agrees d → Lands s d (.ask r next)
        (s'.sleep wake (.answer f.manager r (fun reply ↦ next reply >>= fun a ↦ .done (wrap a))))

/-- A piece of a cycle runs as far as it can, while the driver moves the cycle. -/
def Proceeds (s : Timeline σ) (d : Driver σ) (result : Timeline σ) : Prop :=
  ∃ l p sources store, Runs w.source w.wall d l (d.placed f (part p) sources store) ∧
    Lands f wrap s (d.placed f (part p) sources store) p result

variable {part wrap w f}

theorem Lands.of_same {p : Plan α} {result : Timeline σ} (hsame : s.SameTasks s')
    (h : Lands f wrap s' d p result) : Lands f wrap s d p result := by
  cases h with
  | ended a h hs => exact .ended a (hsame.trans h) hs
  | waits r next wake h hs => exact .waits r next wake (hsame.trans h) hs

theorem Proceeds.step {p : Plan α} {x : Driver.Occurrence} {sources : List σ} {store : Store}
    {result : Timeline σ} (hx : Takes w.source w.wall d x (d.placed f (part p) sources store))
    (hsame : s.SameTasks s')
    (h : Proceeds w f part wrap s' (d.placed f (part p) sources store) result) :
    Proceeds w f part wrap s d result := by
  obtain ⟨l, q, sources', store', hruns, hlands⟩ := h
  rw [Driver.placed_placed] at hruns hlands
  exact ⟨_, q, sources', store', .step hx hruns, hlands.of_same hsame⟩

variable (hpart : ∀ {p p' : Plan α} {x x' : σ} {steps : List Step} {time : σ → Nat} {provider : String},
  p.step? w.source time x = some (steps, p', x') →
    (part p).Moves w.source time provider x steps (part p') x')
include hpart

theorem takes_placed {p p' : Plan α} {x x' : σ} {steps : List Step} (hf : f ∈ d.rota.flights)
    (hp : d.courses f = part p) (hx : d.sources[f.manager]? = some x)
    (h : p.step? w.source (fun _ ↦ w.wall d.now) x = some (steps, p', x')) :
    Takes w.source w.wall d (.moved f steps)
      (d.placed f (part p') (d.sources.set f.manager x') (d.store.replay steps)) :=
  .moved hf hx (hp ▸ hpart h)

/-- The driver moves the cycle, and what is left of the piece proceeds from there. -/
theorem Proceeds.moved {p p' : Plan α} {x' : σ} {steps : List Step} {result : Timeline σ}
    (hf : f ∈ d.rota.flights) (hlt : f.manager < d.sources.length) (hp : d.courses f = part p)
    (h : p.step? w.source (fun _ ↦ w.wall d.now) d.sources[f.manager] = some (steps, p', x'))
    (hsame : s.SameTasks s')
    (hrest : let d' := d.placed f (part p') (d.sources.set f.manager x') (d.store.replay steps)
      f ∈ d'.rota.flights → f.manager < d'.sources.length → d'.courses f = part p' →
        Proceeds w f part wrap s' d' result) :
    Proceeds w f part wrap s d result :=
  .step (takes_placed hpart hf hp (List.getElem?_eq_getElem hlt) h) hsame
    (hrest hf (hlt.trans_eq List.length_set.symm) (Driver.courses_placed ..))

theorem advancePiece_proceeds {p : Plan α} (hs : s.Agrees d) (hf : f ∈ d.rota.flights)
    (hlt : f.manager < d.sources.length) (hp : d.courses f = part p) :
    Proceeds w f part wrap s d
      (advancePiece w f.manager (p >>= fun a ↦ .done (wrap a)) s) := by
  induction p generalizing s d with
  | done a =>
    refine ⟨[], .done a, d.sources, d.store, ?_, ?_⟩
    · rw [Driver.placed_self hp]
      exact .refl d
    · rw [Driver.placed_self hp]
      exact .ended a (.refl s) hs
  | ask r next ih =>
    change Proceeds w f part wrap s d (advancePiece w f.manager (.ask r _) s)
    rw [advancePiece, hs.getElem? hlt]
    dsimp only
    split
    · refine .moved hpart hf hlt hp rfl ?_ (ih _ ?_)
      · exact ⟨rfl, rfl, rfl⟩
      · refine ⟨hs.now, hs.cancelled, hs.rota, congrArg (List.set · ..) hs.sources, ?_⟩
        exact (replay_asked ..).trans hs.store
    · refine ⟨[], .ask r next, d.sources, d.store, ?_, ?_⟩
      · rw [Driver.placed_self hp]
        exact .refl d
      · rw [Driver.placed_self hp]
        exact .waits r next _ ⟨rfl, rfl, rfl⟩ (hs.same rfl)
  | askImages next ih =>
    change Proceeds w f part wrap s d (advancePiece w f.manager (.askImages _) s)
    rw [advancePiece, hs.getElem? hlt]
    refine .moved hpart hf hlt hp rfl (.refl s) (ih _ ?_)
    exact ⟨hs.now, hs.cancelled, hs.rota, hs.set_self hlt, hs.store⟩
  | clock next ih =>
    change Proceeds w f part wrap s d (advancePiece w f.manager (.clock _) s)
    rw [advancePiece, ← hs.now]
    refine .moved hpart hf hlt hp rfl (.refl s) (ih _ ?_)
    exact ⟨hs.now, hs.cancelled, hs.rota, hs.set_self hlt, hs.store⟩
  | act a next ih =>
    change Proceeds w f part wrap s d (advancePiece w f.manager (.act a _) s)
    rw [advancePiece]
    refine .moved hpart hf hlt hp rfl (sameTasks_act w s a) (ih ?_)
    cases a with
    | put k v =>
      refine ⟨hs.now, hs.cancelled, hs.rota, hs.set_self hlt, ?_⟩
      change d.store.put (w.wall d.now) k v = s.store.put (w.wall s.now) k v
      rw [hs.store, hs.now]
    | report e => exact ⟨hs.now, hs.cancelled, hs.rota, hs.set_self hlt, hs.store⟩
    | log e => exact ⟨hs.now, hs.cancelled, hs.rota, hs.set_self hlt, hs.store⟩

theorem runTask_proceeds {p : Plan α} {t : Task} (hs : s.Agrees d) (hf : f ∈ d.rota.flights)
    (hlt : f.manager < d.sources.length) (hp : d.courses f = part p)
    (ht : t.piece? = some (f.manager, p >>= fun a ↦ .done (wrap a))) :
    Proceeds w f part wrap s d (runTask w s t) := by
  cases t with
  | loop c ticker => cases ht
  | piece m q =>
    cases ht
    exact advancePiece_proceeds hpart hs hf hlt hp
  | answer m r next =>
    cases p with
    | ask r' next' =>
      cases ht
      rw [runTask, hs.getElem? hlt]
      refine .moved hpart hf hlt hp rfl ?_ (advancePiece_proceeds hpart ?_)
      · exact ⟨rfl, rfl, rfl⟩
      · refine ⟨hs.now, hs.cancelled, hs.rota, congrArg (List.set · ..) hs.sources, ?_⟩
        exact (replay_asked ..).trans hs.store
    | _ => cases ht

end Piece

end Timeline

open Timeline (Outcome Join Task)

def Plan.isDone {α : Type} : Plan α → Bool
  | .done _ => true
  | _ => false

namespace Course

/-- The pieces that a cycle is in. Regions that have been visited are in none. -/
def pieces : Course → List (Plan Outcome)
  | .full p => [p >>= fun _ ↦ .done (.ended .full)]
  | .listing p => [p >>= fun x ↦ .done (.regions x.1 x.2)]
  | .visiting _ regions =>
    (regions.filter (!·.isDone)).map (fun p ↦ p >>= fun _ ↦ .done .regionEnded)
  | .closing p => [p >>= fun _ ↦ .done (.ended .prices)]

/-- What waits for the regions of a price cycle. -/
def join? (m : Nat) : Course → Option Join
  | .visiting started regions => some ⟨m, started, (visiting started regions).pieces.length⟩
  | _ => none

theorem pieces_start (provider : String) (c : Cycle) :
    (start provider c).pieces = [Timeline.beginning provider c] := by
  cases c <;> rfl

section Regions

variable {started : Nat} {before after regions : List (Plan Unit)}

theorem pieces_visiting {q : Plan Unit} (hq : q.isDone = false) (started : Nat)
    (before after : List (Plan Unit)) :
    (visiting started (before ++ q :: after)).pieces.Perm
      ((q >>= fun _ ↦ .done .regionEnded) :: (visiting started (before ++ after)).pieces) := by
  have hmiddle : (before ++ q :: after).Perm (q :: (before ++ after)) := List.perm_middle
  have hlive := hmiddle.filter (fun q ↦ !q.isDone)
  rw [List.filter_cons_of_pos (by simp [hq])] at hlive
  exact hlive.map _

/-- A region that has been visited is in no piece. -/
theorem pieces_visited : (visiting started (before ++ .done () :: after)).pieces =
    (visiting started (before ++ after)).pieces := by
  simp [pieces, Plan.isDone]

theorem pieces_forked (provider : String) (started : Nat) (ids : List String) :
    (visiting started (ids.map (PriceRefresh.publishRegion provider))).pieces =
      ids.map (Timeline.regionPiece provider) := by
  have hlive : (ids.map (PriceRefresh.publishRegion provider)).filter (!·.isDone) =
      ids.map (PriceRefresh.publishRegion provider) := by
    refine List.filter_eq_self.2 fun q hq ↦ ?_
    obtain ⟨id, -, rfl⟩ := List.mem_map.1 hq
    rfl
  rw [pieces, hlive, List.map_map]
  rfl

theorem visited_of_pieces (h : (visiting started regions).pieces = []) :
    ∀ q ∈ regions, q = .done () := by
  intro q hq
  have hdone : ¬(!q.isDone) = true := List.filter_eq_nil_iff.1 (List.map_eq_nil_iff.1 h) q hq
  cases q with
  | done a => rfl
  | _ => exact absurd rfl hdone

end Regions

end Course

namespace Driver

variable {σ : Type} (d : Driver σ)

def piecesOf (f : Flight) : List (Nat × Plan Outcome) :=
  (d.courses f).pieces.map (fun p ↦ (f.manager, p))

def pieces : List (Nat × Plan Outcome) := d.rota.flights.flatMap d.piecesOf

def join? (m : Nat) : Option Join :=
  if ⟨Timeline.handle, m, .prices⟩ ∈ d.rota.flights
  then (d.courses ⟨Timeline.handle, m, .prices⟩).join? m else none

variable {d} {f : Flight} {c : Course} {sources : List σ} {store : Store} {m : Nat}

/-- The pieces of the other cycles stay where they are. -/
theorem pieces_placed (hd : d.Sound) (hf : f ∈ d.rota.flights) :
    (d.placed f c sources store).pieces.Perm (c.pieces.map (fun p ↦ (f.manager, p)) ++
      (d.rota.complete f).flights.flatMap d.piecesOf) := by
  have hperm : d.rota.flights.Perm (f :: (d.rota.complete f).flights) := List.perm_cons_erase hf
  refine (hperm.flatMap_right _).trans (.of_eq ?_)
  rw [List.flatMap_cons, piecesOf, courses_placed]
  congr 1
  apply List.flatMap_congr
  intro g hg
  have hne : g ≠ f := by
    rintro rfl
    exact hd.completed_not_mem hf hg
  rw [piecesOf, piecesOf, courses_placed_of_ne hne]

theorem join?_placed (hf : f ∈ d.rota.flights) : (d.placed f c sources store).join? m =
    if f = ⟨Timeline.handle, m, .prices⟩ then c.join? m else d.join? m := by
  change (if _ ∈ d.rota.flights then _ else _) = _
  split
  · next hm =>
    split
    · next heq => rw [← heq, courses_placed]
    · next hne =>
      rw [join?, if_pos hm, courses_placed_of_ne (Ne.symm hne)]
  · next hm =>
    rw [join?, if_neg hm, if_neg]
    rintro rfl
    exact hm hf

end Driver

namespace Timeline

variable {σ : Type} {w : Conditions σ} {s s' : Timeline σ} {d : Driver σ} {f : Flight} {c : Course}
  {waiting : List (Nat × Plan Outcome)} {p : Plan Outcome} {new rest : List (Plan Outcome)}
  {l : Driver.Chronicle} {sources : List σ} {store : Store}

def pieces (s : Timeline σ) : List (Nat × Plan Outcome) :=
  (s.ready ++ s.asleep.map (·.2)).filterMap Task.piece?

theorem SameTasks.pieces (h : s.SameTasks s') : s'.pieces = s.pieces := by
  rw [Timeline.pieces, h.ready, h.asleep, Timeline.pieces]

/-- The cycles that run are the tasks of a timeline, with some that wait to be run. -/
structure Tracks (s : Timeline σ) (waiting : List (Nat × Plan Outcome)) (d : Driver σ) : Prop where
  agrees : s.Agrees d
  sound : d.Sound
  loops : d.cancelled = false → d.loops = [.full, .prices]
  kinds : ∀ f ∈ d.rota.flights, (d.courses f).cycle = f.cycle
  pieces : (s.pieces ++ waiting).Perm d.pieces
  joins : ∀ m, s.joins.find? (fun j ↦ j.manager = m) = d.join? m

theorem Tracks.remaining (h : s.Tracks ((f.manager, p) :: waiting) d) (hf : f ∈ d.rota.flights)
    (hold : (d.courses f).pieces.Perm (p :: rest)) :
    (s.pieces ++ waiting).Perm (rest.map (fun p ↦ (f.manager, p)) ++
      (d.rota.complete f).flights.flatMap d.piecesOf) := by
  have hpieces : d.pieces.Perm _ := Driver.placed_self rfl ▸ Driver.pieces_placed h.sound hf
  have hall := List.perm_middle.symm.trans (h.pieces.trans hpieces)
  exact (hall.trans ((hold.map _).append_right _)).cons_inv

/-- A cycle is at another place, and what was waiting of it has become new tasks. -/
theorem Tracks.place (h : s.Tracks ((f.manager, p) :: waiting) d) (hf : f ∈ d.rota.flights)
    (hold : (d.courses f).pieces.Perm (p :: rest)) (hnew : c.pieces.Perm (new ++ rest))
    (hkind : c.cycle = f.cycle)
    (hruns : Runs w.source w.wall d l (d.placed f c sources store))
    (hs : s'.Agrees (d.placed f c sources store))
    (htasks : s'.pieces.Perm (s.pieces ++ new.map (fun p ↦ (f.manager, p))))
    (hjoins : ∀ m, s'.joins.find? (fun j ↦ j.manager = m) =
      if f = ⟨handle, m, .prices⟩ then c.join? m else s.joins.find? (fun j ↦ j.manager = m)) :
    s'.Tracks waiting (d.placed f c sources store) where
  agrees := hs
  sound := hruns.sound h.sound
  loops := h.loops
  kinds g hg := by
    by_cases hgf : g = f
    · rw [hgf, Driver.courses_placed, hkind]
    · rw [Driver.courses_placed_of_ne hgf]
      exact h.kinds g hg
  pieces := by
    have hplaced : (d.placed f c sources store).pieces.Perm (new.map (fun p ↦ (f.manager, p)) ++
        (rest.map (fun p ↦ (f.manager, p)) ++ (d.rota.complete f).flights.flatMap d.piecesOf)) := by
      refine (Driver.pieces_placed h.sound hf).trans ?_
      rw [← List.append_assoc, ← List.map_append]
      exact (hnew.map _).append_right _
    have htasks' : (s'.pieces ++ waiting).Perm
        (new.map (fun p ↦ (f.manager, p)) ++ (s.pieces ++ waiting)) := by
      rw [← List.append_assoc]
      exact (htasks.trans List.perm_append_comm).append_right _
    exact htasks'.trans (((h.remaining hf hold).append_left _).trans hplaced.symm)
  joins m := by rw [hjoins, Driver.join?_placed hf, h.joins]

/-- A driver can go on, at once, to where it tracks a timeline. -/
def Follows (w : Conditions σ) (s : Timeline σ) (waiting : List (Nat × Plan Outcome)) (d : Driver σ) :
    Prop :=
  ∃ l d', Runs w.source w.wall d l d' ∧ d'.now = d.now ∧ d'.halt = d.halt ∧ s.Tracks waiting d'

/-- A cycle is completed that had only one piece left. -/
theorem Tracks.complete (h : s.Tracks ((f.manager, p) :: waiting) d) (hf : f ∈ d.rota.flights)
    (hold : (d.courses f).pieces = [p]) (hnone : (d.courses f).join? f.manager = none)
    (hover : c.IsOver) (hruns : Runs w.source w.wall d l (d.placed f c sources store))
    (hsame : s.SameTasks s') (hs : s'.Agrees (d.placed f c sources store)) :
    Follows w { s' with rota := s'.rota.complete f } waiting d := by
  let d' : Driver σ := { d.placed f c sources store with rota := d.rota.complete f }
  have hover' : ((d.placed f c sources store).courses f).IsOver := by
    rwa [Driver.courses_placed]
  have hall : Runs w.source w.wall d _ d' := hruns.trans (.step (.completed hf hover') (.refl _))
  have hcourse {g : Flight} (hg : g ∈ (d.rota.complete f).flights) : d'.courses g = d.courses g := by
    refine Driver.courses_placed_of_ne ?_ sources store
    rintro rfl
    exact h.sound.completed_not_mem hf hg
  refine ⟨_, d', hall, rfl, rfl, ?_, hall.sound h.sound, h.loops, fun g hg ↦ ?_, ?_, fun m ↦ ?_⟩
  · exact ⟨hs.now, hs.cancelled, congrArg (Rota.complete · f) hs.rota, hs.sources, hs.store⟩
  · rw [hcourse hg]
    exact h.kinds g (List.mem_of_mem_erase hg)
  · have hrest := h.remaining hf (.of_eq hold)
    have hpieces : d'.pieces = (d.rota.complete f).flights.flatMap d.piecesOf :=
      List.flatMap_congr fun g hg ↦ by rw [Driver.piecesOf, Driver.piecesOf, hcourse hg]
    rw [hpieces]
    exact hsame.pieces ▸ hrest
  · refine (congrArg (List.find? _) hsame.joins).trans ((h.joins m).trans ?_)
    rw [Driver.join?, Driver.join?]
    by_cases hfm : ⟨handle, m, .prices⟩ = f
    · have hgone : ⟨handle, m, .prices⟩ ∉ d'.rota.flights := hfm ▸ h.sound.completed_not_mem hf
      rw [if_neg hgone, hfm, if_pos hf]
      rw [← hfm] at hnone ⊢
      exact hnone
    · have hmem : ⟨handle, m, .prices⟩ ∈ d'.rota.flights ↔ ⟨handle, m, .prices⟩ ∈ d.rota.flights :=
        List.mem_erase_of_ne hfm
      by_cases hm : ⟨handle, m, .prices⟩ ∈ d.rota.flights
      · rw [if_pos hm, if_pos (hmem.2 hm), hcourse (hmem.2 hm)]
      · rw [if_neg hm, if_neg (mt hmem.1 hm)]

theorem pieces_ready {α : Type} (s : Timeline σ) (m : α → Nat) (p : α → Plan Outcome) (new : List α) :
    ({ s with ready := s.ready ++ new.map (fun a ↦ .piece (m a) (p a)) } : Timeline σ).pieces.Perm
      (s.pieces ++ new.map (fun a ↦ (m a, p a))) := by
  have hnew : (new.map (fun a ↦ Task.piece (m a) (p a))).filterMap Task.piece? =
      new.map (fun a ↦ (m a, p a)) := by
    rw [List.filterMap_map]
    exact congrFun (List.filterMap_eq_map (f := fun a ↦ (m a, p a))) new
  simp only [pieces, List.filterMap_append, hnew, List.append_assoc]
  exact List.perm_append_comm.append_left _

theorem pieces_sleep (s : Timeline σ) (wake : Nat) (t : Task) :
    (s.sleep wake t).pieces = s.pieces ++ t.piece?.toList := by
  rw [pieces, pieces, sleep, List.map_append, ← List.append_assoc, List.filterMap_append]
  rfl

theorem Tracks.joins_of_same (h : s.Tracks waiting d) (hf : f ∈ d.rota.flights)
    (hjoin : c.join? f.manager = (d.courses f).join? f.manager) (m : Nat) :
    s.joins.find? (fun j ↦ j.manager = m) =
      if f = ⟨handle, m, .prices⟩ then c.join? m else s.joins.find? (fun j ↦ j.manager = m) := by
  split
  · next heq =>
    subst heq
    rw [h.joins, Driver.join?, if_pos hf]
    exact hjoin.symm
  · rfl

theorem joins_of_prices {joins joins' : List Join} (hf : f = ⟨handle, f.manager, .prices⟩)
    (h : ∀ m, joins'.find? (fun j ↦ j.manager = m) =
      if m = f.manager then c.join? m else joins.find? (fun j ↦ j.manager = m)) (m : Nat) :
    joins'.find? (fun j ↦ j.manager = m) =
      if f = ⟨handle, m, .prices⟩ then c.join? m else joins.find? (fun j ↦ j.manager = m) := by
  rw [h]
  by_cases hm : m = f.manager
  · rw [if_pos hm, hm, if_pos hf]
  · rw [if_neg hm, if_neg (fun heq ↦ hm (congrArg Flight.manager heq).symm)]

/-- A piece of a cycle has come to where it waits. -/
theorem Tracks.waits {p' : Plan Outcome} {t : Task} (h : s.Tracks ((f.manager, p) :: waiting) d)
    (hf : f ∈ d.rota.flights) (hold : (d.courses f).pieces.Perm (p :: rest))
    (hnew : c.pieces.Perm (p' :: rest)) (hkind : c.cycle = f.cycle)
    (hjoin : c.join? f.manager = (d.courses f).join? f.manager)
    (hruns : Runs w.source w.wall d l (d.placed f c sources store)) (hsame : s.SameTasks s')
    (hs : s'.Agrees (d.placed f c sources store)) (ht : t.piece? = some (f.manager, p')) (wake : Nat) :
    Follows w (s'.sleep wake t) waiting d := by
  have hnew' : c.pieces.Perm ([p'] ++ rest) := hnew
  refine ⟨l, d.placed f c sources store, hruns, rfl, rfl, h.place hf hold hnew' hkind hruns ?_ ?_ ?_⟩
  · exact hs.same rfl
  · rw [pieces_sleep, hsame.pieces, ht]
    rfl
  · intro m
    exact (congrArg (List.find? _) hsame.joins).trans (h.joins_of_same hf hjoin m)

/-- All regions of a price cycle have been visited, if there were any. -/
theorem Tracks.closes {started : Nat} (h : s.Tracks ((f.manager, p) :: waiting) d)
    (hf : f ∈ d.rota.flights) (hold : (d.courses f).pieces = [p]) (hcycle : Cycle.prices = f.cycle)
    (hruns : Runs w.source w.wall d l
      (d.placed f (.closing (PriceRefresh.finish (d.provider f) started)) sources store))
    (hs : s'.Agrees (d.placed f (.closing (PriceRefresh.finish (d.provider f) started)) sources store))
    (hsame : s'.pieces = s.pieces)
    (hjoins : ∀ m, s'.joins.find? (fun j ↦ j.manager = m) =
      if m = f.manager then none else s.joins.find? (fun j ↦ j.manager = m)) :
    Follows w (s'.spawn (.piece f.manager (lastPiece (d.provider f) started))) waiting d := by
  have hf' : f = ⟨handle, f.manager, .prices⟩ := by rw [hcycle, ← h.sound.handle_eq hf]
  have hnew : (Course.closing (PriceRefresh.finish (d.provider f) started)).pieces.Perm
      ([lastPiece (d.provider f) started] ++ []) := .refl _
  refine ⟨_, _, hruns, rfl, rfl, h.place hf (.of_eq hold) hnew hcycle hruns ?_ ?_ ?_⟩
  · exact hs.same rfl
  · rw [← hsame]
    exact pieces_ready s' (fun _ ↦ f.manager) id [lastPiece (d.provider f) started]
  · exact joins_of_prices hf' hjoins

/-- The regions of a price cycle are listed, and there is a piece for each from here on. -/
theorem Tracks.forks {started : Nat} {ids : List String} (h : s.Tracks ((f.manager, p) :: waiting) d)
    (hf : f ∈ d.rota.flights) (hold : (d.courses f).pieces = [p]) (hcycle : Cycle.prices = f.cycle)
    (hc : c = .visiting started (ids.map (PriceRefresh.publishRegion (d.provider f))))
    (hruns : Runs w.source w.wall d l (d.placed f c sources store))
    (hs : s'.Agrees (d.placed f c sources store)) (hsame : s.SameTasks s')
    (hbefore : s.joins.find? (fun j ↦ j.manager = f.manager) = none) :
    Follows w { s' with
      ready := s'.ready ++ ids.map (fun id ↦ .piece f.manager (regionPiece (d.provider f) id))
      joins := s'.joins ++ [⟨f.manager, started, ids.length⟩] } waiting d := by
  subst hc
  have hf' : f = ⟨handle, f.manager, .prices⟩ := by rw [hcycle, ← h.sound.handle_eq hf]
  let c : Course := .visiting started (ids.map (PriceRefresh.publishRegion (d.provider f)))
  have hpieces : c.pieces = ids.map (regionPiece (d.provider f)) := Course.pieces_forked ..
  have hnew : c.pieces.Perm (ids.map _ ++ []) := .of_eq (hpieces.trans (List.append_nil _).symm)
  have hjoin (m : Nat) : c.join? m = some ⟨m, started, ids.length⟩ := by
    rw [Course.join?, hpieces, List.length_map]
  refine ⟨_, _, hruns, rfl, rfl, h.place hf (.of_eq hold) hnew hcycle hruns ?_ ?_ ?_⟩
  · exact hs.same rfl
  · rw [← hsame.pieces, List.map_map]
    exact pieces_ready s' (fun _ ↦ f.manager) (regionPiece (d.provider f)) ids
  · refine joins_of_prices hf' fun m ↦ ?_
    rw [hsame.joins, List.find?_append]
    by_cases hm : m = f.manager
    · subst hm
      rw [if_pos rfl, hbefore, hjoin]
      simp
    · rw [if_neg hm, List.find?_singleton, if_neg, Option.or_none]
      simpa using Ne.symm hm

theorem find?_others (joins : List Join) (m m' : Nat) :
    (joins.filter (fun j ↦ j.manager ≠ m)).find? (fun j ↦ j.manager = m') =
      if m' = m then none else joins.find? (fun j ↦ j.manager = m') := by
  rw [List.find?_filter]
  split
  · next h => simp [h]
  · next h =>
    congr 1
    funext j
    by_cases hj : j.manager = m'
    · simp [hj, h]
    · simp [hj]

section Kinds

variable {t : Task} (h : s.Tracks ((f.manager, p) :: waiting) d) (hf : f ∈ d.rota.flights)
  (ht : t.piece? = some (f.manager, p))
include h hf ht

/-- The last piece of a cycle of some kind. -/
theorem Tracks.ending (part : Plan Unit → Course) (k : Cycle)
    (hpart : ∀ {p p' : Plan Unit} {x x' : σ} {steps : List Step} {time : σ → Nat} {provider : String},
      p.step? w.source time x = some (steps, p', x') →
        (part p).Moves w.source time provider x steps (part p') x')
    (hpieces : ∀ q, (part q).pieces = [q >>= fun _ ↦ .done (.ended k)])
    (hjoin : ∀ q m, (part q).join? m = none) (hkind : ∀ q, (part q).cycle = k)
    (hover : (part (.done ())).IsOver) {q : Plan Unit} (hcourse : d.courses f = part q)
    (hp : p ∈ (part q).pieces) : Follows w (runTask w s t) waiting d := by
  have hcycle : f.cycle = k := by rw [← h.kinds f hf, hcourse, hkind]
  have hf' : ⟨handle, f.manager, k⟩ = f := by rw [← hcycle, ← h.sound.handle_eq hf]
  rw [hpieces, List.mem_singleton] at hp
  subst hp
  have hold : (d.courses f).pieces = [q >>= fun _ ↦ .done (.ended k)] := by rw [hcourse, hpieces]
  have hnone : (d.courses f).join? f.manager = none := by rw [hcourse, hjoin]
  obtain ⟨l, q', sources, store, hruns, hlands⟩ : Proceeds w f part _ s d (runTask w s t) :=
    runTask_proceeds hpart h.agrees hf (h.sound.manager_lt hf) hcourse ht
  generalize runTask w s t = result at hlands ⊢
  cases hlands with
  | ended a hsame hs =>
    have hdone := h.complete hf hold hnone hover hruns hsame hs
    rw [← hf'] at hdone
    exact hdone
  | waits r next wake hsame hs =>
    refine h.waits hf (.of_eq hold) (.of_eq (hpieces _)) ?_ ?_ hruns hsame hs rfl wake
    · rw [hkind, hcycle]
    · rw [hjoin, hnone]

theorem Tracks.listing {q : Plan (Nat × List String)} (hcourse : d.courses f = .listing q)
    (hp : p ∈ (Course.listing q).pieces) : Follows w (runTask w s t) waiting d := by
  have hcycle : Cycle.prices = f.cycle := by rw [← h.kinds f hf, hcourse]; rfl
  have hf' : f = ⟨handle, f.manager, .prices⟩ := by rw [hcycle, ← h.sound.handle_eq hf]
  cases List.mem_singleton.1 hp
  have hold : (d.courses f).pieces = _ := congrArg Course.pieces hcourse
  have hnone : (d.courses f).join? f.manager = none := congrArg (Course.join? _) hcourse
  obtain ⟨l, q', sources, store, hruns, hlands⟩ : Proceeds w f .listing _ s d (runTask w s t) :=
    runTask_proceeds .listing h.agrees hf (h.sound.manager_lt hf) hcourse ht
  generalize runTask w s t = result at hlands ⊢
  cases hlands with
  | @ended s' x hsame hs =>
    obtain ⟨started, ids⟩ := x
    obtain ⟨l, hforked⟩ := hruns.silent h.sound hf (fun x ↦ .fork started ids x)
    have hprovider : s'.rota.providers.getD f.manager "" = d.provider f := by rw [← hs.rota]; rfl
    have hbefore : s.joins.find? (fun j ↦ j.manager = f.manager) = none := by
      rw [h.joins, Driver.join?, ← hf', if_pos hf, hnone]
    change Follows w (s'.fork f.manager started ids) waiting d
    rw [fork, hprovider]
    split
    · next hempty =>
      cases List.isEmpty_iff.1 hempty
      obtain ⟨l, hjoined⟩ := hforked.silent h.sound hf (fun x ↦ .join nofun)
      refine h.closes hf hold hcycle hjoined hs.placed hsame.pieces fun m ↦ ?_
      rw [hsame.joins]
      split
      · next hm => rw [hm, hbefore]
      · rfl
    · exact h.forks hf hold hcycle rfl hforked hs.placed hsame hbefore
  | waits r next wake hsame hs =>
    have hjoin : (Course.listing (.ask r next)).join? f.manager = (d.courses f).join? f.manager :=
      hnone.symm
    have hnew : (Course.listing (.ask r next)).pieces.Perm _ := .refl _
    exact h.waits hf (.of_eq hold) hnew hcycle hjoin hruns hsame hs rfl wake

theorem Tracks.region {started : Nat} {regions : List (Plan Unit)}
    (hcourse : d.courses f = .visiting started regions)
    (hp : p ∈ (Course.visiting started regions).pieces) : Follows w (runTask w s t) waiting d := by
  have hcycle : Cycle.prices = f.cycle := by rw [← h.kinds f hf, hcourse]; rfl
  have hf' : f = ⟨handle, f.manager, .prices⟩ := by rw [hcycle, ← h.sound.handle_eq hf]
  obtain ⟨q, hq, rfl⟩ := List.mem_map.1 hp
  obtain ⟨hq, hlive⟩ := List.mem_filter.1 hq
  obtain ⟨before, after, rfl⟩ := List.append_of_mem hq
  replace hlive : q.isDone = false := by simpa using hlive
  have hall := Course.pieces_visiting hlive started before after
  generalize hrest : (Course.visiting started (before ++ after)).pieces = rest at hall
  have hold : (d.courses f).pieces.Perm (_ :: rest) := hcourse ▸ hall
  obtain ⟨l, q', sources, store, hruns, hlands⟩ :
      Proceeds w f (fun q ↦ .visiting started (before ++ q :: after)) _ s d (runTask w s t) :=
    runTask_proceeds .region h.agrees hf (h.sound.manager_lt hf) hcourse ht
  generalize runTask w s t = result at hlands ⊢
  cases hlands with
  | @ended s' _ hsame hs =>
    have hvisited : (Course.visiting started (before ++ .done () :: after)).pieces = rest :=
      Course.pieces_visited.trans hrest
    have hfind : s'.joins.find? (fun j ↦ j.manager = f.manager) =
        some ⟨f.manager, started, rest.length + 1⟩ := by
      rw [hsame.joins, h.joins, Driver.join?, ← hf', if_pos hf, hcourse, Course.join?, hall.length_eq]
      rfl
    have hprovider : s'.rota.providers.getD f.manager "" = d.provider f := by rw [← hs.rota]; rfl
    change Follows w (s'.join f.manager) waiting d
    rw [join, hfind, hprovider]
    dsimp only
    split
    · next hlast =>
      obtain rfl : rest = [] := List.eq_nil_of_length_eq_zero (by omega)
      obtain ⟨l, hjoined⟩ := hruns.silent h.sound hf
        (fun x ↦ .join (Course.visited_of_pieces hvisited))
      refine h.closes hf (List.perm_singleton.1 hold) hcycle hjoined (hs.placed.same rfl) hsame.pieces
        fun m ↦ ?_
      exact (find?_others s'.joins f.manager m).trans (by rw [hsame.joins])
    · have hnew : (Course.visiting started (before ++ .done () :: after)).pieces.Perm ([] ++ rest) :=
        .of_eq hvisited
      refine ⟨_, _, hruns, rfl, rfl, h.place hf hold hnew hcycle hruns ?_ ?_ ?_⟩
      · exact hs.same rfl
      · exact .of_eq (hsame.pieces.trans (List.append_nil _).symm)
      · refine joins_of_prices hf' fun m ↦ ?_
        rw [List.find?_cons, find?_others, hsame.joins, Course.join?, hvisited]
        by_cases hm : m = f.manager
        · simp [hm]
        · simp [hm, Ne.symm hm]
  | waits r next wake hsame hs =>
    have hnew : (Course.visiting started (before ++ .ask r next :: after)).pieces.Perm (_ :: rest) :=
      hrest ▸ Course.pieces_visiting rfl started before after
    have hjoin : (Course.visiting started (before ++ .ask r next :: after)).join? f.manager =
        (d.courses f).join? f.manager := by
      rw [hcourse, Course.join?, Course.join?, hnew.length_eq, hall.length_eq]
      rfl
    exact h.waits hf hold hnew hcycle hjoin hruns hsame hs rfl wake

end Kinds

end Timeline

end CloudOffers
