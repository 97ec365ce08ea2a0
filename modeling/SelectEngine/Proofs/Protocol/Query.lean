import SelectEngine.Proofs.Cursor.Fetch
import SelectEngine.Proofs.Ordinary.Query
import SelectEngine.Proofs.Protocol.Cursor
import SelectEngine.Proofs.Protocol.Keeping

/-!
# How a query ends

A query reports the failure to prepare it or to fetch its rows, whatever closing its sources brings,
or else the first failure to close in FROM order, or all its rows (`Reports`). The scan is the loop
of `Fetch.turn`, which has no limit: the rows are those that it ends with, and a scan is given up
only in the middle of a loop that has gone on for longer than the backend expects. However a query
ends, each provider that was opened has been closed once, and if it has rows, no provider has
refused a call (`query_ends`).
-/

set_option autoImplicit false

namespace SelectEngine

variable {σ γ α : Type}

/-! ## Closing in FROM order -/

/-- The name by which a statement lists a source. -/
def Source.named (s : Source σ) : SourceName := ⟨s.aliasName, s.name⟩

/-- The failure that an answer is, if it is one. -/
def failure? : Except Error Unit → Option Error
  | .ok _ => none
  | .error e => some e

namespace Session

/-- The answers to closing sources one after the other, whatever those in front have answered. A
source that is not open has nothing to close. -/
def closings (B : Backend σ γ) : List (Source σ) → γ → List (SourceName × Except Error Unit)
  | [], _ => []
  | s :: rest, world =>
    if s.isOpen then
      let (answer, _, world) := B.answer .close s.provider world
      (s.named, answer) :: closings B rest world
    else (s.named, .ok ()) :: closings B rest world

theorem map_fst_closings (B : Backend σ γ) (sources : List (Source σ)) (world : γ) :
    (closings B sources world).map Prod.fst = sources.map Source.named := by
  induction sources generalizing world with
  | nil => rfl
  | cons s rest ih =>
    rw [closings]
    split
    · rw [List.map_cons, ih, List.map_cons]
    · rw [List.map_cons, ih, List.map_cons]

variable {B : Backend σ γ}

/-- The source behind some others is closed in its place. -/
theorem attempt_close_append (B : Backend σ γ) (front back : List (Source σ)) (s : Source σ)
    (world : γ) : ∃ answer later world',
      attempt (at_ front.length (Source.close B)) ⟨front ++ s :: back, world⟩ =
        .ok answer ⟨front ++ later :: back, world'⟩ ∧
      closings B (s :: back) world = (s.named, answer) :: closings B back world' := by
  have hsource : (front ++ s :: back)[front.length]? = some s := by simp
  have hset (later : Source σ) :
      (front ++ s :: back).set front.length later = front ++ later :: back := by
    simp
  by_cases hopen : s.isOpen = true
  · cases hanswer : B.answer .close s.provider world with
    | mk answer rest =>
      obtain ⟨provider, world'⟩ := rest
      have hclosings :
          closings B (s :: back) world = (s.named, answer) :: closings B back world' := by
        rw [closings, if_pos hopen, hanswer]
      have hclose : Source.close B (s, world) =
          (relay answer : Run (Source σ × γ) Unit)
            ({ s with provider, isOpen := false }, world') := by
        simp [Source.close, Source.ask, Run.bind_apply, hopen, hanswer]
      refine ⟨answer, { s with provider, isOpen := false }, world', ?_, hclosings⟩
      unfold attempt
      cases answer with
      | ok closed => rw [at_apply_ok hsource hclose, hset]
      | error e => rw [at_apply_error hsource hclose, hset]
  · have hclose : Source.close B (s, world) = .ok () (s, world) := by
      simp [Source.close, Run.bind_apply, hopen]
    refine ⟨.ok (), s, world, ?_, by rw [closings, if_neg hopen]⟩
    unfold attempt
    rw [at_apply_ok hsource hclose, hset]

/-- The induction is on the sources that are left, so that those in front have been closed. -/
theorem closeEach_append (B : Backend σ γ) (front back : List (Source σ)) (world : γ) :
    (closeEach B (List.range' front.length back.length)).outcome ⟨front ++ back, world⟩ =
      .ok ((closings B back world).findSome? fun found => failure? found.2) := by
  induction back generalizing front world with
  | nil => rfl
  | cons s back ih =>
    obtain ⟨answer, later, world', hclose, hclosings⟩ := attempt_close_append B front back s world
    have hrest := ih (front ++ [later]) world'
    rw [List.length_append, List.length_singleton, List.append_assoc,
      List.singleton_append] at hrest
    rw [List.length_cons, List.range'_succ, closeEach, Run.outcome_bind_of_ok hclose, hclosings,
      List.findSome?_cons]
    cases answer with
    | ok closed => exact (Run.outcome_bind_pure _ id _).trans (congrArg (Except.map id) hrest)
    | error e =>
      rw [Run.outcome_bind_pure, hrest]
      rfl

/-- Closing all sources fails with the first failure among their answers. -/
theorem outcome_closeAll (B : Backend σ γ) (session : Session σ γ) :
    (closeAll B).outcome session =
      match (closings B session.sources session.world).findSome? fun found => failure? found.2 with
      | none => .ok ()
      | some e => .error e := by
  have heach := closeEach_append B [] session.sources session.world
  rw [List.length_nil, ← List.range_eq_range', List.nil_append] at heach
  have hcount : count session = .ok session.sources.length session := rfl
  rw [closeAll, Run.outcome_bind_of_ok hcount]
  cases hrun : closeEach B (List.range session.sources.length) session with
  | error e later =>
    rw [Run.outcome_of_error hrun] at heach
    cases heach
  | ok failure later =>
    rw [Run.outcome, hrun] at heach
    rw [Run.outcome_bind_of_ok hrun, ← Except.ok.inj heach]
    cases failure <;> rfl

end Session

/-! ## Reading all rows -/

namespace Cursor

variable {B : Backend σ γ} {c later : Cursor σ γ} {rows : List (List Value)}

/-- The answers to closing the sources of a cursor in FROM order. -/
def closings (B : Backend σ γ) (c : Cursor σ γ) : List (SourceName × Except Error Unit) :=
  Session.closings B c.session.sources c.session.world

/-- From a row to the last one: the rows are read one by one, and the last is the one behind which
there is none. -/
inductive Drains (B : Backend σ γ) : Cursor σ γ → List (List Value) → Cursor σ γ → Prop
  | last {c on later : Cursor σ γ} {current : List Value} (hrow : row B c = .ok current on)
      (hnext : next B on = .ok .ended later) : Drains B c [current] later
  | more {c on moved later : Cursor σ γ} {current : List Value} {rows : List (List Value)}
      (hrow : row B c = .ok current on) (hnext : next B on = .ok .row moved)
      (hrest : Drains B moved rows later) : Drains B c (current :: rows) later

/-- The whole scan: the cursor is executed, goes to the first row and from there to the last. -/
inductive Scans (B : Backend σ γ) (params : Params) (c : Cursor σ γ) :
    List (List Value) → Cursor σ γ → Prop
  | empty {executed later : Cursor σ γ} (hexecute : execute params c = .ok () executed)
      (hfirst : first B executed = .ok .ended later) : Scans B params c [] later
  | rows {executed on later : Cursor σ γ} {rows : List (List Value)}
      (hexecute : execute params c = .ok () executed) (hfirst : first B executed = .ok .row on)
      (hrows : Drains B on rows later) : Scans B params c rows later

/-- The induction is on the number of rows that may be read. -/
theorem drains_of_drain {limit : Nat} (h : drain B limit c = .ok (some rows) later) :
    Drains B c rows later := by
  induction limit generalizing c rows with
  | zero => cases h
  | succ limit ih =>
    obtain ⟨current, on, hrow, hbehind⟩ := Run.bind_eq_ok h
    obtain ⟨landing, moved, hnext, hend⟩ := Run.bind_eq_ok hbehind
    cases landing with
    | row =>
      obtain ⟨rest, last, hdrain, hlast⟩ := Run.bind_eq_ok hend
      cases rest with
      | none => cases hlast
      | some rest =>
        cases hlast
        exact .more hrow hnext (ih hdrain)
    | ended =>
      cases hend
      exact .last hrow hnext
    | givenUp => cases hend

theorem scans_of_fetchAll {params : Params} (h : fetchAll B params c = .ok (some rows) later) :
    Scans B params c rows later := by
  obtain ⟨_, executed, hexecute, hbehind⟩ := Run.bind_eq_ok h
  obtain ⟨landing, on, hfirst, hend⟩ := Run.bind_eq_ok hbehind
  cases landing with
  | row =>
    obtain ⟨limit, same, hlimit, hdrain⟩ := Run.bind_eq_ok hend
    have hsame : same = on := by
      cases hlimit
      rfl
    exact .rows hexecute hfirst (drains_of_drain (hsame ▸ hdrain))
  | ended =>
    cases hend
    exact .empty hexecute hfirst
  | givenUp => cases hend

/-- What requests preserve is preserved where all rows are read, however that ends. -/
theorem leads_fetchAll {P : Cursor σ γ → Prop}
    (step : ∀ (c : Cursor σ γ) (request : Request), P c → P (request.run B c)) (params : Params) :
    Run.Leads P (fetchAll B params) (fun _ => P) P := by
  have hstep {α : Type} {x : Run (Cursor σ γ) α} (request : Request)
      (hx : ∀ c, request.run B c = x.final c) : Run.Leads P x (fun _ => P) P := by
    intro c hc
    have hfinal := step c request hc
    rw [hx, Run.final] at hfinal
    cases hrun : x c with
    | ok a later =>
      rw [hrun] at hfinal
      exact hfinal
    | error e later =>
      rw [hrun] at hfinal
      exact hfinal
  have hrow : Run.Leads P (row B) (fun _ => P) P := hstep .row fun _ => rfl
  have hnext : Run.Leads P (next B) (fun _ => P) P := hstep .next fun _ => rfl
  have hdrain : ∀ limit : Nat, Run.Leads P (drain B limit) (fun _ => P) P := by
    intro limit
    induction limit with
    | zero => exact Run.leads_pure fun _ h => h
    | succ limit ih =>
      apply Run.leads_bind hrow
      intro current
      apply Run.leads_bind hnext
      intro landing
      cases landing with
      | row => exact Run.leads_bind ih fun _ => Run.leads_pure fun _ h => h
      | ended | givenUp => exact Run.leads_pure fun _ h => h
  apply Run.leads_bind (hstep (.execute params) fun _ => rfl)
  intro _
  apply Run.leads_bind (hstep .first fun _ => rfl)
  intro landing
  cases landing with
  | row =>
    have hbound : Run.Leads P (rowBound B) (fun _ => P) P := fun _ h => h
    exact Run.leads_bind hbound hdrain
  | ended | givenUp => exact Run.leads_pure fun _ h => h

end Cursor

/-! ## What is kept while nothing fails -/

/-- No provider has refused a call. -/
def Watch.Granted (w : Watch γ) : Prop := ∀ exchange ∈ w.exchanges, exchange.granted = true

namespace Session

/-- The sources are the ones that a statement lists by these names. -/
def Named (names : List SourceName) (session : Session σ γ) : Prop :=
  session.sources.map Source.named = names

theorem keeping_granted (B : Backend σ γ) :
    Keeping B.watched (fun (_ : Unit) state => state.2.Granted)
      fun session => session.world.Granted where
  source _ :=
    { asks := by
        rintro call ⟨source, w⟩ h hgranted exchange hexchange
        rcases List.mem_cons.mp hexchange with rfl | hearlier
        · exact hgranted
        · exact h exchange hearlier
      marks := fun _ _ _ h => h }
  at_ i _ hx := keeps_at fun _ _ _ _ _ h _ hrun => (hx ()).of_ok h hrun

theorem keeping_named (B : Backend σ γ) (names : List SourceName) :
    Keeping B (fun name state => state.1.named = name) (Named names) where
  source _ :=
    { asks := fun _ _ h _ => h
      marks := fun _ _ _ h => h }
  at_ i x hx := by
    refine keeps_at fun session source later world a h hsource hrun => ?_
    have hnamed : later.named = source.named := (hx source.named).of_ok rfl hrun
    have hset : (session.sources.map Source.named).set i source.named =
        session.sources.map Source.named := by
      obtain ⟨hi, rfl⟩ := List.getElem?_eq_some_iff.mp hsource
      rw [← List.map_set, List.set_getElem_self]
    show (session.sources.set i later).map Source.named = names
    rw [List.map_set, hnamed, hset]
    exact h

theorem keeps_openAll_granted (B : Backend σ γ) : ∀ names : List SourceName,
    Run.Keeps (fun session => session.world.Granted) (openAll B.watched names)
  | [] => Run.keeps_pure ()
  | name :: rest => by
    refine Run.leads_bind ?_ fun _ => keeps_openAll_granted B rest
    intro session h
    cases hrun : openSource B.watched name session with
    | error e later => trivial
    | ok opened later =>
      obtain ⟨provider, world, source, world', hcreate, hopen, rfl⟩ := openSource_eq_ok hrun
      have hworld : world.Granted := by
        rw [Backend.watched] at hcreate
        dsimp only at hcreate
        split at hcreate <;> cases hcreate
        exact h
      exact ((keeping_granted B).source ()).openTable.of_ok hworld hopen

/-- The sources that are opened are those listed, in their order. -/
theorem leads_openAll_named (B : Backend σ γ) : ∀ names front : List SourceName,
    Run.Leads (Named front) (openAll B names) (fun _ => Named (front ++ names)) fun _ => True
  | [], front => Run.leads_pure fun _ h => (List.append_nil front).symm ▸ h
  | name :: rest, front => by
    have hopen : Run.Leads (Named front) (openSource B name) (fun _ => Named (front ++ [name]))
        fun _ => True := by
      intro session h
      cases hrun : openSource B name session with
      | error e later => trivial
      | ok opened later =>
        obtain ⟨provider, world, source, world', -, hopen, rfl⟩ := openSource_eq_ok hrun
        have hnamed : source.named = name :=
          ((keeping_named B front).source name).openTable.of_ok rfl hopen
        show (session.sources ++ [source]).map Source.named = front ++ [name]
        rw [List.map_append, List.map_singleton, hnamed]
        exact congrArg (· ++ [name]) h
    refine Run.leads_bind hopen fun _ => ?_
    rw [List.append_cons front name rest]
    exact leads_openAll_named B rest (front ++ [name])

end Session

namespace Cursor

variable {B : Backend σ γ} {registry : Registry} {settings : Settings} {text : String}

/-- The sources of a prepared cursor are those of its plan. -/
theorem named_of_prepare {world : γ} {c : Cursor σ γ}
    (h : prepare B registry settings text world = .ok c) :
    ∃ plan, c.plan = some plan ∧ c.session.Named plan.sources := by
  obtain ⟨tree, plan, session, -, hbind, rfl⟩ := prepare_eq_ok h
  have hleads : Run.Leads (Session.Named []) (Session.bind B registry settings tree)
      (fun plan => Session.Named plan.sources) fun _ => True := by
    apply Run.leads_bind (Run.keeps_relay _)
    intro select
    apply Run.leads_bind (Run.keeps_relay _)
    intro names
    apply Run.leads_bind (Session.leads_openAll_named B names [])
    intro _
    have hscope := Correspondence.ofScope ((Session.keeping_named B names).scopes names) tree select
      registry settings
    refine (hscope.returning (Plan.returns_ofScope tree select _ registry settings)).weaken
      (fun _ h => h) ?_ (fun _ h => h)
    rintro found session ⟨hsources, hnamed⟩
    rw [hsources]
    exact hnamed
  have hstart : Session.Named [] (⟨[], world⟩ : Session σ γ) := rfl
  exact ⟨plan, rfl, hleads.of_ok hstart hbind⟩

theorem granted_of_prepare {world : γ} {c : Cursor (Watched σ) (Watch γ)}
    (h : prepare B.watched registry settings text (Watch.start world) = .ok c) :
    c.session.world.Granted := by
  obtain ⟨tree, plan, session, -, hbind, rfl⟩ := prepare_eq_ok h
  have hkeeps : Run.Keeps (fun session => session.world.Granted)
      (Session.bind B.watched registry settings tree) := by
    apply Run.leads_bind (Run.keeps_relay _)
    intro select
    apply Run.leads_bind (Run.keeps_relay _)
    intro names
    apply Run.leads_bind (Session.keeps_openAll_granted B names)
    intro _
    exact Correspondence.ofScope ((Session.keeping_granted B).scopes names) tree select registry
      settings
  exact hkeeps.of_ok (fun _ hnone => absurd hnone List.not_mem_nil) hbind

theorem settled_of_prepare_eq_error {world : γ} {e : Error} {w : Watch γ}
    (h : prepare B.watched registry settings text (Watch.start world) = .error (e, w)) :
    Settled w.exchanges := by
  unfold prepare at h
  split at h
  · exact settled_of_ofTree_eq_error h
  · cases h
    exact Legal.settled trivial fun _ => rfl

/-- A cursor that has been prepared admits to be executed. -/
theorem admits_of_prepare {world : γ} {c : Cursor σ γ}
    (h : prepare B registry settings text world = .ok c) :
    c.state ∈ [CursorState.prepared, .opened, .positioned, .eof] := by
  obtain ⟨tree, plan, session, -, -, rfl⟩ := prepare_eq_ok h
  exact List.mem_cons_self

theorem accounted_of_prepare {world : γ} {c : Cursor (Watched σ) (Watch γ)}
    (h : prepare B.watched registry settings text (Watch.start world) = .ok c) : Accounted c := by
  unfold prepare at h
  split at h
  · exact accounted_of_ofTree_eq_ok h
  · cases h

/-- A cursor closes as its sources do. -/
theorem outcome_close (B : Backend σ γ) (c : Cursor σ γ) :
    (close B).outcome c = (Session.closeAll B).outcome c.session := by
  rw [close, Run.outcome_bind_of_ok (Run.attempt_apply _ c),
    Run.outcome_bind_of_ok (Run.modify_apply _ _), Run.outcome_relay rfl, outcome_onSession]

/-- A cursor without sources has nothing to release. -/
theorem release_final_close (B : Backend σ γ) (c : Cursor σ γ) :
    ((close B).final c).release B = ((Session.closeAll B).final c.session).world := by
  rw [final_close]
  rfl

end Cursor

/-! ## Queries -/

section

variable (B : Backend σ γ) (registry : Registry) (settings : Settings) (text : String)
variable (params : Params) (world : γ)

/-- What a query may report. -/
inductive Reports : Except Error (Option (List (List Value))) → Prop
  /-- The failure to read it. -/
  | unread {e : Error} (hparse : parse settings.reading text = .error e) : Reports (.error e)
  /-- The failure to bind it, whatever the sources that are open answer when they are closed. -/
  | unbound {tree : Tree} {e : Error} {session : Session σ γ}
      (hparse : parse settings.reading text = .ok tree)
      (hbind : Session.bind B registry settings tree ⟨[], world⟩ = .error e session) :
      Reports (.error e)
  /-- The failure that the scan ends with, whatever the sources answer when they are closed. -/
  | unfetched {c later : Cursor σ γ} {e : Error} {visited : List (Fetch σ γ)}
      (hprepare : Cursor.prepare B registry settings text world = .ok c)
      (hfetch : Cursor.fetchAll B params c = .error e later)
      (hends : Loop.Ends (Fetch.turn B) (.start params c) visited (.error e later)) :
      Reports (.error e)
  /-- The failure of the first source in FROM order that fails to close. -/
  | unclosed {c later : Cursor σ γ} {plan : Plan} {rows : Option (List (List Value))}
      {front back : List (SourceName × Except Error Unit)} {name : SourceName} {e : Error}
      (hprepare : Cursor.prepare B registry settings text world = .ok c)
      (hplan : c.plan = some plan) (hfetch : Cursor.fetchAll B params c = .ok rows later)
      (hfrom : (later.closings B).map Prod.fst = plan.sources)
      (hclosings : later.closings B = front ++ (name, .error e) :: back)
      (hfront : ∀ found ∈ front, found.2 = .ok ()) : Reports (.error e)
  /-- All its rows, where the whole scan succeeds and every source closes. -/
  | complete {c later : Cursor σ γ} {plan : Plan} {rows : List (List Value)}
      {visited : List (Fetch σ γ)}
      (hprepare : Cursor.prepare B registry settings text world = .ok c)
      (hplan : c.plan = some plan) (hfetch : Cursor.fetchAll B params c = .ok (some rows) later)
      (hscan : Cursor.Scans B params c rows later)
      (hends : Loop.Ends (Fetch.turn B) (.start params c) visited (.ok (some rows) later))
      (hfrom : (later.closings B).map Prod.fst = plan.sources)
      (hclosings : ∀ found ∈ later.closings B, found.2 = .ok ()) : Reports (.ok (some rows))
  /-- That the scan was given up, where every source closes. It has come through more combined rows
  than the sources would have if each had the most rows that the backend expects, and has not
  ended. -/
  | givenUp {c later : Cursor σ γ} {plan : Plan} {visited : List (Fetch σ γ)} {state : Fetch σ γ}
      (hprepare : Cursor.prepare B registry settings text world = .ok c)
      (hplan : c.plan = some plan) (hfetch : Cursor.fetchAll B params c = .ok none later)
      (hcomes : Loop.Comes (Fetch.turn B) (.start params c) visited state)
      (hpassed : Nat.pow (B.rowLimit + 1) plan.sources.length < (Fetch.candidates visited).length)
      (hclosings : ∀ found ∈ later.closings B, found.2 = .ok ()) : Reports (.ok none)

variable {B registry settings text params world}

theorem eq_ok_of_failure? {x : Except Error Unit} (h : failure? x = none) : x = .ok () := by
  cases x with
  | ok closed => rfl
  | error e => cases h

theorem eq_error_of_failure? {x : Except Error Unit} {e : Error} (h : failure? x = some e) :
    x = .error e := by
  cases x with
  | ok closed => cases h
  | error found =>
    cases h
    rfl

/-- A statement that cannot be prepared cannot be read or cannot be bound. -/
theorem reports_of_prepare_eq_error {e : Error} {later : γ}
    (h : Cursor.prepare B registry settings text world = .error (e, later)) :
    Reports B registry settings text params world (.error e) := by
  unfold Cursor.prepare at h
  split at h
  · next tree hparse =>
    unfold Cursor.ofTree at h
    split at h
    · cases h
    · next session hbind =>
      cases h
      exact .unbound hparse hbind
  · next hparse =>
    cases h
    exact .unread hparse

theorem reports_query : Reports B registry settings text params world
    (query B registry settings text params world).1 := by
  cases hprepare : Cursor.prepare B registry settings text world with
  | error failure =>
    rw [query_of_failed hprepare]
    exact reports_of_prepare_eq_error hprepare
  | ok c =>
    have hlimited := Cursor.limited_fetchAll (B := B) params (Cursor.admits_of_prepare hprepare)
    rw [query_of_prepared hprepare]
    cases hfetch : Cursor.fetchAll B params c with
    | error e later =>
      rw [hfetch] at hlimited
      obtain ⟨hends⟩ | ⟨-, hstopped, -⟩ := hlimited
      swap
      · cases hstopped
      rw [Run.outcome_of_error hfetch]
      exact .unfetched hprepare hfetch hends
    | ok rows later =>
      rw [hfetch] at hlimited
      obtain ⟨plan, hplan, hnamed⟩ := Cursor.named_of_prepare hprepare
      have hfrom : (later.closings B).map Prod.fst = plan.sources := by
        rw [Cursor.closings, Session.map_fst_closings]
        exact ((Session.keeping_named B plan.sources).fetchAll params).of_ok hnamed hfetch
      rw [Run.outcome, Run.final, hfetch, Outcome.ok_bind, Cursor.outcome_close,
        Session.outcome_closeAll, ← Cursor.closings]
      cases hfailure : (later.closings B).findSome? fun found => failure? found.2 with
      | some e =>
        obtain ⟨front, ⟨name, answer⟩, back, hclosings, hanswer, hfront⟩ :=
          List.findSome?_eq_some_iff.mp hfailure
        cases eq_error_of_failure? hanswer
        exact .unclosed hprepare hplan hfetch hfrom hclosings fun found hfound =>
          eq_ok_of_failure? (hfront found hfound)
      | none =>
        have hclosings : ∀ found ∈ later.closings B, found.2 = .ok () := fun found hfound =>
          eq_ok_of_failure? (List.findSome?_eq_none_iff.mp hfailure found hfound)
        cases hlimited with
        | stopped hcomes hstopped hpassed =>
          cases hstopped
          have hlength : c.session.sources.length = plan.sources.length := by
            rw [← hnamed, List.length_map]
          rw [hlength] at hpassed
          exact .givenUp hprepare hplan hfetch hcomes hpassed hclosings
        | done hends =>
          obtain ⟨rows, rfl⟩ := Option.isSome_iff_exists.mp (Fetch.isSome_of_ends hends)
          exact .complete hprepare hplan hfetch (Cursor.scans_of_fetchAll hfetch) hends hfrom
            hclosings

/-- If the scan ends before it has come through more combined rows than the backend expects, then
what it ends with is what the query reports, unless a source fails to close. The number that the
backend expects makes no difference to that. -/
theorem query_of_ends {c : Cursor σ γ} {visited : List (Fetch σ γ)} {result : Fetch.Result σ γ}
    (hprepare : Cursor.prepare B registry settings text world = .ok c)
    (hends : Loop.Ends (Fetch.turn B) (.start params c) visited result)
    (hlimit : (Fetch.candidates visited).length ≤
      Nat.pow (B.rowLimit + 1) c.session.sources.length) :
    (query B registry settings text params world).1 =
      match result with
      | .error e _ => .error e
      | .ok rows later => ((Cursor.close B).outcome later).map fun _ => rows := by
  have hfetch := Cursor.fetchAll_of_ends (Cursor.admits_of_prepare hprepare) hends hlimit
  rw [query_of_prepared hprepare, Run.outcome, Run.final, hfetch]
  cases result with
  | error e later => rfl
  | ok rows later =>
    dsimp only
    cases (Cursor.close B).outcome later <;> rfl

theorem query_snd {c : Cursor σ γ} (h : Cursor.prepare B registry settings text world = .ok c) :
    (query B registry settings text params world).2 =
      ((Session.closeAll B).final ((Cursor.fetchAll B params).final c).session).world := by
  rw [← Cursor.release_final_close]
  unfold query
  rw [h]
  dsimp only
  rw [Run.bind_of_ok (Run.attempt_apply _ c), Run.bind_of_ok (Run.attempt_apply _ _)]
  cases (Cursor.fetchAll B params).outcome c with
  | error e => rfl
  | ok rows =>
    cases (Cursor.close B).outcome ((Cursor.fetchAll B params).final c) with
    | error e => rfl
    | ok closed => rfl

end

/-- However a query ends, each opening of a provider was followed by one close. -/
theorem settled_query (B : Backend σ γ) (registry : Registry) (settings : Settings) (text : String)
    (params : Params) (world : γ) :
    Settled (query B.watched registry settings text params (Watch.start world)).2.exchanges := by
  cases hprepare : Cursor.prepare B.watched registry settings text (Watch.start world) with
  | error failure =>
    unfold query
    rw [hprepare]
    exact Cursor.settled_of_prepare_eq_error hprepare
  | ok c =>
    have hfetch := Cursor.leads_fetchAll (B := B.watched) (P := Cursor.Accounted)
      (fun _ request h => h.run request) params
    have haccounted := hfetch.final_of_both (Cursor.accounted_of_prepare hprepare)
    rw [query_snd hprepare]
    exact ((Session.leads_closeAll (B := B)).final_of_both haccounted.session).settled

/-- A query that a provider has refused a call does not succeed. -/
theorem granted_of_query_eq_ok {B : Backend σ γ} {registry : Registry} {settings : Settings}
    {text : String} {params : Params} {world : γ} {rows : Option (List (List Value))}
    (h : (query B.watched registry settings text params (Watch.start world)).1 = .ok rows) :
    (query B.watched registry settings text params (Watch.start world)).2.Granted := by
  cases hprepare : Cursor.prepare B.watched registry settings text (Watch.start world) with
  | error failure =>
    rw [query_of_failed hprepare] at h
    cases h
  | ok c =>
    rw [query_of_prepared hprepare] at h
    obtain ⟨found, hfetch, hbehind⟩ := Outcome.bind_eq_ok h
    obtain ⟨closed, hclose, -⟩ := Outcome.bind_eq_ok hbehind
    rw [Cursor.outcome_close] at hclose
    have hkeeping := Session.keeping_granted B
    have hfetched :=
      (hkeeping.fetchAll params).final_of_ok (Cursor.granted_of_prepare hprepare) hfetch
    rw [query_snd hprepare]
    exact hkeeping.closeAll.final_of_ok hfetched hclose

/-- Whatever the providers answer, a query reports what went wrong first: the failure to read or to
bind it, else the failure to fetch its rows, else the first failure to close in FROM order; only if
nothing failed it has its rows, and then no provider has refused a call. However it ends, each
provider that was opened has been asked to close once. -/
theorem query_ends (B : Backend σ γ) (registry : Registry) (settings : Settings) (text : String)
    (params : Params) (world : γ) :
    Reports B registry settings text params world
        (query B registry settings text params world).1 ∧
      Settled (query B.watched registry settings text params (Watch.start world)).2.exchanges ∧
      ∀ rows, (query B.watched registry settings text params (Watch.start world)).1 = .ok rows →
        (query B.watched registry settings text params (Watch.start world)).2.Granted :=
  ⟨reports_query, settled_query B registry settings text params world,
    fun _ => granted_of_query_eq_ok⟩

end SelectEngine
