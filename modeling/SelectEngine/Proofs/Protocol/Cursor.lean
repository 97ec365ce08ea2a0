import SelectEngine.Proofs.Cursor.Step
import SelectEngine.Proofs.Protocol.Session

/-!
# The protocol of providers

From the time a statement is read to the time its cursor is dropped, providers see legal calls only,
and in the end each successful opening has been followed by exactly one close
(`Cursor.protocol_settled`). What every request preserves is `Cursor.Accounted`: all sources are open
until a move fails, and all are gone once the cursor is closed.
-/

set_option autoImplicit false

namespace SelectEngine.Cursor

variable {σ γ α : Type} {B : Backend σ γ} {c : Cursor (Watched σ) (Watch γ)}

/-- The exchanges with the providers of a cursor are accounted for. -/
structure Accounted (c : Cursor (Watched σ) (Watch γ)) : Prop where
  session : c.session.Accounted
  /-- Only a move that failed leaves sources that are not open. -/
  ready : c.state ≠ .bad → c.session.Ready
  closed : c.state = .closed → c.session.sources = []

/-- A cursor with open sources in a state other than closed. -/
theorem Accounted.of_ready (h : c.session.Ready) (hstate : c.state ≠ .closed) : Accounted c where
  session := h.accounted
  ready _ := h
  closed hclosed := absurd hclosed hstate

/-- A move leaves the exchanges accounted for, however it ends. -/
theorem Lands.accounted {bound : Nat} {move : Run (Cursor (Watched σ) (Watch γ)) Landing}
    (h : Lands c bound Session.Ready Session.Accounted (move c)) : Accounted (move.final c) := by
  rw [Run.final]
  cases hstep : move c with
  | ok landing later =>
    rw [hstep] at h
    refine .of_ready h.2 (h.1.state_eq ▸ ?_)
    cases landing <;> exact nofun
  | error e later =>
    rw [hstep] at h
    exact ⟨h.2, fun hbad => absurd h.1.state_eq hbad,
      fun hclosed => absurd (h.1.state_eq.symm.trans hclosed) nofun⟩

/-- Reading leaves the exchanges accounted for. -/
theorem Accounted.run_of_reads (h : Accounted c) {request : Request}
    (hreads : request.reads = true) : Accounted (request.run B.watched c) := by
  have hready : c.state = .positioned → c.session.Ready := fun hpositioned =>
    h.ready (hpositioned ▸ nofun)
  rcases Cursor.run_of_reads (Session.driven_ready B).column hready hreads with
    hsame | ⟨hpositioned, hkept, hlater⟩
  · rw [hsame]
    exact h
  · exact .of_ready hlater (hkept.state_eq.trans hpositioned ▸ nofun)

/-! ## Closing -/

/-- Once all is settled the sources may be dropped. -/
theorem accounted_of_settled (hsettled : Settled c.session.world.exchanges)
    (hsources : c.session.sources = []) : Accounted c := by
  have hnone : ∀ (i : Nat) (source : Source (Watched σ)), c.session.sources[i]? ≠ some source := by
    intro i source hsource
    rw [hsources] at hsource
    cases hsource
  have hready : c.session.Ready :=
    { legal := hsettled.legal
      created := fun i source h => absurd h (hnone i source)
      distinct := fun i _ source _ h => absurd h (hnone i source)
      own := fun i source h => absurd h (hnone i source)
      others := fun n _ => hsettled.closed n
      marked := fun i source h => absurd h (hnone i source) }
  exact ⟨hready.accounted, fun _ => hready, fun _ => hsources⟩

theorem Accounted.final_close (h : Accounted c) : Accounted ((close B.watched).final c) := by
  have hclosed := (Session.leads_closeAll (B := B)).final_of_both h.session
  rw [Cursor.final_close]
  exact accounted_of_settled hclosed.settled rfl

/-! ## Whole runs -/

/-- Every request leaves the exchanges accounted for. -/
theorem Accounted.run (h : Accounted c) (request : Request) :
    Accounted (request.run B.watched c) := by
  have hready : ∀ {allowed : List CursorState}, .bad ∉ allowed → c.state ∈ allowed →
      c.session.Ready := fun hnot hmem => h.ready fun hbad => hnot (hbad ▸ hmem)
  generalize hlater : request.run B.watched c = later
  cases hlater ▸ step_run B.watched c request with
  | refused _ _ => exact h
  | stayed _ => exact h
  | executed params hstate => exact .of_ready (hready (by decide) hstate) nofun
  | moved _ _ hstate _ hmove =>
    exact (hmove _ _ 0 (Session.driven_ready B) (fun _ _ => Nat.zero_le _)
      (hready (by decide) hstate)).accounted
  | read _ _ hreads => exact h.run_of_reads hreads
  | closed => exact h.final_close

theorem Accounted.after (h : Accounted c) (requests : List Request) :
    Accounted (c.after B.watched requests) :=
  after_induction (fun _ request h => h.run request) requests h

/-- Binding leaves the sources that it has opened open, failed or not. -/
theorem leads_bindSources (registry : Registry) (settings : Settings) (tree : Tree) :
    Run.Leads Session.Ready (Session.bind B.watched registry settings tree)
      (fun _ => Session.Ready) Session.Ready := by
  apply Run.leads_bind (Run.leads_relay (fun _ _ _ h => h) (fun _ _ _ h => h))
  intro select
  apply Run.leads_bind (Run.leads_relay (fun _ _ _ h => h) (fun _ _ _ h => h))
  intro names
  apply Run.leads_bind (Session.leads_openAll names)
  intro _
  exact Correspondence.ofScope (Session.scopes_preserving names) tree select registry settings

/-- A statement that cannot be bound has all closed that was opened for it. -/
theorem settled_of_ofTree_eq_error {registry : Registry} {settings : Settings} {tree : Tree}
    {world : γ} {e : Error} {w : Watch γ}
    (h : ofTree B.watched registry settings tree (Watch.start world) = .error (e, w)) :
    Settled w.exchanges := by
  have hbind := leads_bindSources (B := B) registry settings tree _ (Session.ready_start world)
  unfold ofTree at h
  split at h
  · cases h
  · rename_i session heq
    rw [heq] at hbind
    cases h
    exact Session.settled_release (Session.Ready.accounted hbind)

theorem accounted_of_ofTree_eq_ok {registry : Registry} {settings : Settings} {tree : Tree}
    {world : γ} (h : ofTree B.watched registry settings tree (Watch.start world) = .ok c) :
    Accounted c := by
  have hbind := leads_bindSources (B := B) registry settings tree _ (Session.ready_start world)
  unfold ofTree at h
  split at h
  · rename_i session heq
    rw [heq] at hbind
    cases h
    exact ⟨Session.Ready.accounted hbind, fun _ => hbind, nofun⟩
  · cases h

/-- Of a closed cursor nothing is left open. -/
theorem Accounted.settled (h : Accounted c) (hclosed : c.state = .closed) :
    Settled c.session.world.exchanges := by
  have hnone : c.session.sources = [] := h.closed hclosed
  apply (h.session.weaken ?_).settled
  intro i source hsource
  rw [hnone] at hsource
  cases hsource

/-- The providers see legal calls only. If a statement cannot be prepared, all is settled. If it can,
the exchanges are legal after any number of requests, and all is settled once the cursor is dropped,
and also from when it is closed. -/
theorem protocol_settled (B : Backend σ γ) (registry : Registry) (settings : Settings)
    (text : String) (world : γ) :
    match prepare B.watched registry settings text (Watch.start world) with
    | .error (_, w) => Settled w.exchanges
    | .ok c => ∀ requests later : List Request,
        Legal (c.after B.watched requests).session.world.exchanges ∧
        Settled ((c.after B.watched requests).release B.watched).exchanges ∧
        Settled (c.after B.watched (requests ++ .close :: later)).session.world.exchanges := by
  unfold prepare
  cases hparse : parse settings.reading text with
  | error e => exact Legal.settled trivial fun _ => rfl
  | ok tree =>
    dsimp only
    cases hbound : ofTree B.watched registry settings tree (Watch.start world) with
    | error failure => exact settled_of_ofTree_eq_error hbound
    | ok c =>
      intro requests later
      have h := accounted_of_ofTree_eq_ok hbound
      have hrun : Accounted (c.after B.watched requests) := h.after requests
      refine ⟨hrun.session.legal, Session.settled_release hrun.session, ?_⟩
      apply (h.after (requests ++ .close :: later)).settled
      rw [after_append]
      exact state_after_of_closed B.watched later (state_final_close B.watched _)

end SelectEngine.Cursor
