import SelectEngine.Proofs.Correspondence.Binding
import SelectEngine.Proofs.Memory.Place
import SelectEngine.Proofs.Protocol.Watch
import SelectEngine.Proofs.Session.Driven

/-!
# Tables in memory under watch

Where the providers of tables in memory are watched, a source at a place has been asked for moves,
and a `Track` is a place with these. A session `Stands` at tracks if its sources are at their places
and each provider has been asked for the moves of its track and no others. Moving a source changes
its track only (`Asks.leads_at`), and looking at a source changes none (`leads_look`).
-/

set_option autoImplicit false

namespace SelectEngine

/-! ## The moves of a provider -/

/-- The call opens, moves or closes its provider; the others only look. -/
def Call.moves : Call → Bool
  | .openTable _ _ | .first | .next | .close => true
  | .eof | .columnCount | .columnId _ | .column _ | .describe _ => false

/-- The calls that opened, moved or closed a provider, the first one first. -/
def movesOf (n : Nat) : List Exchange → List Call
  | [] => []
  | e :: earlier =>
    if e.provider = n ∧ e.call.moves = true then movesOf n earlier ++ [e.call]
    else movesOf n earlier

/-- A call that moves is behind the others of its provider. -/
theorem movesOf_cons_moves (m n : Nat) {call : Call} (h : call.moves = true) (granted : Bool)
    (earlier : List Exchange) :
    movesOf m (⟨n, call, granted⟩ :: earlier) =
      movesOf m earlier ++ if n = m then [call] else [] := by
  by_cases hn : n = m
  · simp [movesOf, hn, h]
  · simp [movesOf, hn]

theorem movesOf_cons_looks (m n : Nat) {call : Call} (h : call.moves = false) (granted : Bool)
    (earlier : List Exchange) :
    movesOf m (⟨n, call, granted⟩ :: earlier) = movesOf m earlier := by
  simp [movesOf, h]

namespace Memory

variable {catalog : Catalog} {α : Type}

/-- The source that stands at a place, its provider under watch. -/
def Place.watched (p : Place catalog) (n : Nat) : Source (Watched Scan) :=
  { aliasName := p.name.aliasName, name := p.name.table, isOpen := true,
    provider := ⟨n, p.source.provider⟩ }

/-- A place with the moves that its provider has been asked for, the first one first. -/
structure Track (catalog : Catalog) where
  place : Place catalog
  moves : List Call

/-- The sources are at the places of the tracks, their providers numbered in order, and each
provider has been asked for the moves of its track. -/
structure Stands (tracks : List (Track catalog)) (session : Session (Watched Scan) (Watch Unit)) :
    Prop where
  sources : session.sources = tracks.mapIdx fun n t => t.place.watched n
  created : session.world.created = tracks.length
  moves : ∀ n, movesOf n session.world.exchanges = (tracks[n]?.map Track.moves).getD []

/-- The computation takes a source from the place `p` to `q` with the answer `a`, and its provider
is asked for the given moves. -/
def Asks (x : Run (Source (Watched Scan) × Watch Unit) α) (p : Place catalog) (moves : List Call)
    (q : Place catalog) (a : α) : Prop :=
  ∀ (n : Nat) (w : Watch Unit), ∃ exchanges,
    x (p.watched n, w) = .ok a (q.watched n, ⟨(), w.created, exchanges⟩) ∧
      ∀ m, movesOf m exchanges = movesOf m w.exchanges ++ if n = m then moves else []

theorem asks_first (p : Place catalog) :
    Asks (Source.first (backend catalog).watched) p [.first] p.rewound () :=
  fun n w => ⟨⟨n, .first, true⟩ :: w.exchanges, rfl,
    fun m => movesOf_cons_moves m n rfl true w.exchanges⟩

theorem asks_next (p : Place catalog) :
    Asks (Source.next (backend catalog).watched) p [.next] p.advanced () := by
  intro n w
  refine ⟨⟨n, .next, true⟩ :: w.exchanges, ?_,
    fun m => movesOf_cons_moves m n rfl true w.exchanges⟩
  by_cases h : p.position < p.table.rowCount <;>
    simp [Source.next, Source.ask, Run.bind_apply, Backend.watched, backend, Scan.answer, Scan.next,
      Scan.opened, Place.watched, Place.source, Place.advanced, Call.granted, Except.isOk,
      Except.toBool, h]

theorem asks_eof (p : Place catalog) :
    Asks (Source.eof (backend catalog).watched) p [] p p.ended :=
  fun n w => ⟨⟨n, .eof, true⟩ :: w.exchanges, rfl, fun m => by
    rw [movesOf_cons_looks m n rfl, ite_self, List.append_nil]⟩

/-- The moves of a source that starts again. -/
def Place.restart (p : Place catalog) : List Call :=
  [.close, .openTable .read p.name.table, .first]

theorem asks_reset (p : Place catalog) :
    Asks (Source.reset (backend catalog).watched) p p.restart p.rewound () := by
  intro n w
  refine ⟨⟨n, .first, true⟩ :: ⟨n, .openTable .read p.name.table, true⟩ :: ⟨n, .close, true⟩ ::
    w.exchanges, ?_, fun m => ?_⟩
  · simp [Source.reset, Source.close, Source.openTable, Source.first, Source.ask, Run.bind_apply,
      Backend.watched, backend, Scan.answer, Scan.openTable, Scan.closed, Scan.first, Scan.opened,
      Place.watched, Place.source, Place.rewound, Call.granted, Except.isOk, Except.toBool, p.found]
  · rw [movesOf_cons_moves m n rfl, movesOf_cons_moves m n rfl, movesOf_cons_moves m n rfl]
    split <;> simp [Place.restart]

/-- A scan that is only looked at stays what it is. -/
theorem Scan.answer_of_looks {call : Call} (h : call.moves = false) (s : Scan) :
    (s.answer call).2 = s := by
  cases call with
  | eof | columnCount | columnId _ | column _ | describe _ => rfl
  | openTable _ _ | first | next | close => cases h

theorem ask_of_looks {call : Call} (h : call.moves = false) (p : Place catalog) (n : Nat)
    (w : Watch Unit) :
    Source.ask (backend catalog).watched call (p.watched n, w) =
      .ok (p.source.provider.answer call).1 (p.watched n,
        ⟨(), w.created, ⟨n, call, call.granted (p.source.provider.answer call).1⟩ ::
          w.exchanges⟩) := by
  show EStateM.Result.ok _ ((⟨_, _, ⟨n, (p.source.provider.answer call).2⟩, _⟩ :
    Source (Watched Scan)), _) = _
  rw [Scan.answer_of_looks h]
  rfl

/-! ## The sources of a session -/

variable {tracks : List (Track catalog)} {session : Session (Watched Scan) (Watch Unit)}

theorem Stands.source (h : Stands tracks session) (i : Nat) :
    session.sources[i]? = tracks[i]?.map fun t => t.place.watched i := by
  rw [h.sources, List.getElem?_mapIdx]

/-- What a source does is done on its track. -/
theorem Asks.leads_at {x : Run (Source (Watched Scan) × Watch Unit) α} {p q : Place catalog}
    {moves : List Call} {a : α} (h : Asks x p moves q a) (front back : List (Track catalog))
    (before : List Call) {F : Session (Watched Scan) (Watch Unit) → Prop} :
    Run.Leads (Stands (front ++ ⟨p, before⟩ :: back)) (Session.at_ front.length x)
      (fun b session => b = a ∧ Stands (front ++ ⟨q, before ++ moves⟩ :: back) session) F := by
  intro session hstands
  have hsource : session.sources[front.length]? = some (p.watched front.length) := by
    simp [hstands.source]
  obtain ⟨exchanges, hrun, hmoves⟩ := h front.length session.world
  rw [Session.at_apply_ok hsource hrun]
  refine ⟨rfl, ?_, ?_, fun n => ?_⟩
  · simp [hstands.sources, List.mapIdx_append]
  · simpa using hstands.created
  · have hset : front ++ ⟨q, before ++ moves⟩ :: back =
        (front ++ ⟨p, before⟩ :: back).set front.length ⟨q, before ++ moves⟩ := by
      simp
    rw [hmoves, hstands.moves, hset]
    -- The track of the source is the only one that grows.
    by_cases hn : front.length = n
    · subst hn
      simp
    · rw [List.getElem?_set_ne hn, if_neg hn, List.append_nil]

/-- Looking at a source moves none, whether or not it succeeds. -/
theorem leads_look (call : Call) (hcall : call.moves = false) {f : call.Answer → Except Error α}
    {x : Run (Source (Watched Scan) × Watch Unit) α}
    (hx : x = Source.ask (backend catalog).watched call >>= fun a => relay (f a)) (i : Nat) :
    Run.Leads (Stands tracks) (Session.at_ i x) (fun _ => Stands tracks) (Stands tracks) := by
  subst hx
  intro session h
  cases hsource : tracks[i]? with
  | none =>
    have hnone : session.sources[i]? = none := by rw [h.source, hsource]; rfl
    rw [Session.at_apply_none hnone]
    exact h
  | some t =>
    have hsome : session.sources[i]? = some (t.place.watched i) := by rw [h.source, hsource]; rfl
    have hset : session.sources.set i (t.place.watched i) = session.sources := by
      obtain ⟨hi, heq⟩ := List.getElem?_eq_some_iff.mp hsome
      rw [← heq, List.set_getElem_self]
    have hask := ask_of_looks hcall t.place i session.world
    have hstands (granted : Bool) : Stands tracks ⟨session.sources, (), session.world.created,
        ⟨i, call, granted⟩ :: session.world.exchanges⟩ :=
      ⟨h.sources, h.created, fun n => (movesOf_cons_looks n i hcall granted _).trans (h.moves n)⟩
    -- The source is put back as it was, whatever is made of the answer.
    cases hanswer : f (t.place.source.provider.answer call).1 with
    | ok a =>
      rw [Session.at_apply_ok hsome (by rw [Run.bind_of_ok hask, hanswer]; rfl), hset]
      exact hstands _
    | error e =>
      rw [Session.at_apply_error hsome (by rw [Run.bind_of_ok hask, hanswer]; rfl), hset]
      exact hstands _

theorem reads_stands (tracks : List (Track catalog)) :
    Session.Reads (backend catalog).watched (Stands tracks) :=
  fun i position => leads_look (.column position) rfl rfl i

/-- The questions that binding asks. -/
theorem scopes_stands (names : List SourceName) (tracks : List (Track catalog)) :
    Correspondence.Scopes (Correspondence.preserving (Stands tracks))
      (Session.scope (backend catalog).watched names)
      (Session.scope (backend catalog).watched names) where
  sources := rfl
  columnCount i := leads_look .columnCount (f := .ok) rfl (bind_pure _).symm i
  columnId i name := leads_look (.columnId name) (f := .ok) rfl (bind_pure _).symm i
  describe i position := leads_look (.describe position) rfl rfl i

end Memory

end SelectEngine
