import SelectEngine.Proofs.Correspondence.Binding
import SelectEngine.Proofs.Protocol.Watch
import SelectEngine.Proofs.Session.Driven

/-!
# Sessions under watch

`Session.Lawful marking` says of a session whose providers are watched that all exchanges were
legal, that its sources have providers of their own, and that a provider is open exactly if it is
the one of a source that is marked as open; which sources may be marked how, `marking` says. Every
computation of a session leads from lawful sessions to lawful ones. Those that ask the providers for
something need all sources open (`Session.Ready`), and a source that fails to start again is the only
one that they may leave closed.
-/

set_option autoImplicit false

namespace SelectEngine

variable {σ γ α : Type}

namespace Run

variable {s : Type} {P Q F : s → Prop}

/-- An attempt leads to where the computation leads, failed or not. -/
theorem leads_attempt_both {x : Run s α} (h : Leads P x (fun _ => Q) Q) :
    Leads P (attempt x) (fun _ => Q) F := by
  refine (leads_attempt h).weaken (fun _ h => h) ?_ (fun _ h => h.elim)
  intro outcome state hstate
  cases outcome with
  | ok a => exact hstate
  | error e => exact hstate

end Run

namespace Session

variable {B : Backend σ γ} {marking marking' failing : Nat → Bool → Prop}
variable {session : Session (Watched σ) (Watch γ)} {source later : Source (Watched σ)}
variable {world : Watch γ} {i : Nat}

/-- All exchanges were legal, and the providers that are open are those of the sources that are
marked as open, each marked as `marking` allows in its place. -/
structure Lawful (marking : Nat → Bool → Prop) (session : Session (Watched σ) (Watch γ)) :
    Prop where
  legal : Legal session.world.exchanges
  created : ∀ (i : Nat) (source : Source (Watched σ)), session.sources[i]? = some source →
    source.provider.number < session.world.created
  distinct : ∀ (i j : Nat) (source other : Source (Watched σ)), session.sources[i]? = some source →
    session.sources[j]? = some other → source.provider.number = other.provider.number → i = j
  own : ∀ (i : Nat) (source : Source (Watched σ)), session.sources[i]? = some source →
    isOpenAfter source.provider.number session.world.exchanges = source.isOpen
  others : ∀ n, (∀ (i : Nat) (source : Source (Watched σ)), session.sources[i]? = some source →
    source.provider.number ≠ n) → isOpenAfter n session.world.exchanges = false
  marked : ∀ (i : Nat) (source : Source (Watched σ)), session.sources[i]? = some source →
    marking i source.isOpen

/-- A lawful session of sources that are all open. -/
def Ready : Session (Watched σ) (Watch γ) → Prop := Lawful fun _ mark => mark = true

/-- A lawful session, whatever sources are open. -/
def Accounted : Session (Watched σ) (Watch γ) → Prop := Lawful fun _ _ => True

theorem Lawful.weaken (h : Lawful marking session)
    (himp : ∀ (i : Nat) (source : Source (Watched σ)), session.sources[i]? = some source →
      marking i source.isOpen → marking' i source.isOpen) :
    Lawful marking' session :=
  { h with marked := fun i source hsource => himp i source hsource (h.marked i source hsource) }

theorem Lawful.accounted (h : Lawful marking session) : Accounted session :=
  h.weaken fun _ _ _ _ => trivial

theorem Ready.accounted (h : Ready session) : Accounted session := Lawful.accounted h

/-- A session without sources and exchanges is lawful. -/
theorem ready_start (world : γ) : Ready (σ := σ) ⟨[], Watch.start world⟩ where
  legal := trivial
  created _ _ h := nomatch h
  distinct _ _ _ _ h := nomatch h
  own _ _ h := nomatch h
  others _ _ := rfl
  marked _ _ h := nomatch h

/-- Of a lawful session that has no open source nothing is left open. -/
theorem Lawful.settled (h : Lawful (fun _ mark => mark = false) session) :
    Settled session.world.exchanges := by
  apply h.legal.settled
  intro n
  by_cases hn : ∃ (i : Nat) (source : Source (Watched σ)),
      session.sources[i]? = some source ∧ source.provider.number = n
  · obtain ⟨i, source, hsource, rfl⟩ := hn
    exact (h.own i source hsource).trans (h.marked i source hsource)
  · exact h.others n fun i source hsource heq => hn ⟨i, source, hsource, heq⟩

/-! ## One source of a session -/

/-- Each source of a lawful session is one to whose computations the rules of a source apply. -/
theorem Lawful.tracked (h : Lawful marking session) (hsource : session.sources[i]? = some source) :
    Source.Tracked source.provider.number session.world.created
      (fun m => isOpenAfter m session.world.exchanges) (source, session.world) where
  number_eq := rfl
  isOpen_eq := rfl
  created_eq := rfl
  legal := h.legal
  own := h.own i source hsource
  others_eq _ _ := rfl

/-- A source may be replaced by what it is after a computation. -/
theorem Lawful.set (h : Lawful marking session) (hsource : session.sources[i]? = some source)
    (hlater : Source.Tracked source.provider.number session.world.created
      (fun m => isOpenAfter m session.world.exchanges) (later, world))
    (hmark : marking' i later.isOpen) (hkeep : ∀ j mark, j ≠ i → marking j mark → marking' j mark) :
    Lawful marking' ⟨session.sources.set i later, world⟩ := by
  have hi : i < session.sources.length := (List.getElem?_eq_some_iff.mp hsource).1
  have hset : (session.sources.set i later)[i]? = some later := by
    rw [List.getElem?_set_self hi]
  have hne : ∀ {j : Nat}, j ≠ i → (session.sources.set i later)[j]? = session.sources[j]? :=
    fun hj => List.getElem?_set_ne hj.symm
  -- Whoever stands at a place of the new list has the number of the one who stood there.
  have hnumber : ∀ (j : Nat) (other : Source (Watched σ)),
      (session.sources.set i later)[j]? = some other → ∃ former : Source (Watched σ),
        session.sources[j]? = some former ∧ other.provider.number = former.provider.number := by
    intro j other hother
    by_cases hj : j = i
    · subst hj
      rw [hset] at hother
      cases hother
      exact ⟨source, hsource, hlater.number_eq⟩
    · rw [hne hj] at hother
      exact ⟨other, hother, rfl⟩
  constructor
  case legal => exact hlater.legal
  case created =>
    intro j other hother
    obtain ⟨former, hformer, heq⟩ := hnumber j other hother
    exact heq ▸ hlater.created_eq ▸ h.created j former hformer
  case distinct =>
    intro j k one other hone hother heq
    obtain ⟨formerOne, hformerOne, heqOne⟩ := hnumber j one hone
    obtain ⟨formerOther, hformerOther, heqOther⟩ := hnumber k other hother
    exact h.distinct j k _ _ hformerOne hformerOther (heqOne.symm.trans (heq.trans heqOther))
  case own =>
    intro j other hother
    by_cases hj : j = i
    · subst hj
      rw [hset] at hother
      cases hother
      rw [hlater.number_eq]
      exact hlater.own
    · rw [hne hj] at hother
      have hdiffer : other.provider.number ≠ source.provider.number :=
        fun heq => hj (h.distinct j i _ _ hother hsource heq)
      exact (hlater.others_eq _ hdiffer).trans (h.own j other hother)
  case others =>
    intro n hn
    have hown : n ≠ source.provider.number := by
      rintro rfl
      exact hn i later hset hlater.number_eq
    refine (hlater.others_eq n hown).trans (h.others n ?_)
    intro j other hother
    by_cases hj : j = i
    · subst hj
      rw [hsource] at hother
      cases hother
      exact hown.symm
    · exact hn j other ((hne hj).trans hother)
  case marked =>
    intro j other hother
    by_cases hj : j = i
    · subst hj
      rw [hset] at hother
      cases hother
      exact hmark
    · rw [hne hj] at hother
      exact hkeep j _ hj (h.marked j other hother)

/-- A computation on one source of a lawful session. -/
theorem leads_at {x : Run (Source (Watched σ) × Watch γ) α}
    (hx : ∀ n created others, Run.Leads
      (fun state => Source.Tracked n created others state ∧ marking i state.1.isOpen) x
      (fun _ state => Source.Tracked n created others state ∧ marking' i state.1.isOpen)
      (fun state => Source.Tracked n created others state ∧ failing i state.1.isOpen))
    (hkeep : ∀ j mark, j ≠ i → marking j mark → marking' j mark)
    (hfail : ∀ j mark, j ≠ i → marking j mark → failing j mark) :
    Run.Leads (Lawful marking) (at_ i x) (fun _ => Lawful marking') (Lawful failing) := by
  intro session h
  cases hsource : session.sources[i]? with
  | none =>
    rw [at_apply_none hsource]
    refine h.weaken fun j source hj => hfail j _ ?_
    rintro rfl
    cases hsource.symm.trans hj
  | some source =>
    have hstep := hx _ _ _ (source, session.world) ⟨h.tracked hsource, h.marked i source hsource⟩
    cases hrun : x (source, session.world) with
    | ok a state =>
      rw [hrun] at hstep
      rw [at_apply_ok hsource hrun]
      exact h.set hsource hstep.1 hstep.2 hkeep
    | error e state =>
      rw [hrun] at hstep
      rw [at_apply_error hsource hrun]
      exact h.set hsource hstep.1 hstep.2 hfail

/-- A computation on an open source that leaves it open unless it fails. -/
theorem leads_at_ready {x : Run (Source (Watched σ) × Watch γ) α}
    (hx : ∀ n created others, Run.Leads (Source.TrackedAs n created others true) x
      (fun _ => Source.TrackedAs n created others true)
      (fun state => Source.Tracked n created others state ∧ failing i state.1.isOpen))
    (hfail : ∀ j, j ≠ i → failing j true) :
    Run.Leads Ready (at_ i x) (fun _ => Ready) (Lawful failing) := by
  apply leads_at
  · intro n created others
    refine (hx n created others).weaken ?_ ?_ (fun _ h => h)
    · rintro state ⟨h, hmark⟩
      rwa [Source.Tracked, hmark] at h
    · intro a state h
      exact ⟨h.tracked, h.isOpen_eq⟩
  · exact fun _ _ _ h => h
  · rintro j mark hj rfl
    exact hfail j hj

/-- A computation that leaves an open source open leaves a ready session ready. -/
theorem leads_at_open {x : Run (Source (Watched σ) × Watch γ) α}
    (hx : ∀ n created others, Run.Leads (Source.TrackedAs n created others true) x
      (fun _ => Source.TrackedAs n created others true)
      (Source.TrackedAs n created others true)) :
    Run.Leads Ready (at_ i x) (fun _ => Ready) Ready := by
  apply leads_at_ready
  · intro n created others
    exact (hx n created others).weaken (fun _ h => h) (fun _ _ h => h)
      (fun _ h => ⟨h.tracked, h.isOpen_eq⟩)
  · exact fun _ _ => rfl

theorem leads_at_reset :
    Run.Leads Ready (at_ i (Source.reset B.watched)) (fun _ => Ready) Accounted := by
  have hreset : ∀ n created others, Run.Leads (Source.TrackedAs n created others true)
      (Source.reset B.watched) (fun _ => Source.TrackedAs n created others true)
      (Source.Tracked n created others) := fun _ _ _ => Source.leads_reset
  apply leads_at_ready
  · intro n created others
    exact (hreset n created others).weaken (fun _ h => h) (fun _ _ h => h) (fun _ h => ⟨h, trivial⟩)
  · exact fun _ _ => trivial

/-- A source is closed and the others stay as they are. -/
theorem leads_at_close (hclosed : marking' i false)
    (hkeep : ∀ j mark, j ≠ i → marking j mark → marking' j mark) :
    Run.Leads (Lawful marking) (at_ i (Source.close B.watched)) (fun _ => Lawful marking')
      (Lawful marking') := by
  have hclose : ∀ n created others, Run.Leads (Source.Tracked n created others)
      (Source.close B.watched) (fun _ => Source.TrackedAs n created others false)
      (Source.TrackedAs n created others false) := fun _ _ _ => Source.leads_close
  have hmark : ∀ {n created others} {state : Source (Watched σ) × Watch γ},
      Source.TrackedAs n created others false state →
        Source.Tracked n created others state ∧ marking' i state.1.isOpen :=
    fun h => ⟨h.tracked, h.isOpen_eq.symm ▸ hclosed⟩
  apply leads_at
  · intro n created others
    exact (hclose n created others).weaken (fun _ h => h.1) (fun _ _ => hmark) (fun _ => hmark)
  · exact hkeep
  · exact hkeep

/-! ## Opening -/

/-- A source that has been opened may be put behind the others. -/
theorem Ready.append (h : Ready session) {created : Nat} (hcreated : created = session.world.created)
    (hopened : Source.TrackedAs created (created + 1)
      (fun m => isOpenAfter m session.world.exchanges) true (source, world)) :
    Lawful (fun _ mark => mark = true) ⟨session.sources ++ [source], world⟩ := by
  have hsplit : ∀ (j : Nat) (other : Source (Watched σ)),
      (session.sources ++ [source])[j]? = some other →
      session.sources[j]? = some other ∧ other.provider.number < created ∨
        j = session.sources.length ∧ other = source := by
    intro j other hother
    rcases Nat.lt_trichotomy j session.sources.length with hlt | rfl | hgt
    · rw [List.getElem?_append_left hlt] at hother
      exact Or.inl ⟨hother, hcreated ▸ h.created j other hother⟩
    · rw [List.getElem?_concat_length] at hother
      cases hother
      exact Or.inr ⟨rfl, rfl⟩
    · rw [List.getElem?_eq_none (by rw [List.length_append, List.length_singleton]; omega)] at hother
      cases hother
  have hnumber : source.provider.number = created := hopened.number_eq
  constructor
  case legal => exact hopened.legal
  case created =>
    intro j other hother
    refine hopened.created_eq ▸ ?_
    rcases hsplit j other hother with ⟨-, hlt⟩ | ⟨-, rfl⟩
    · exact Nat.lt_succ_of_lt hlt
    · exact hnumber ▸ Nat.lt_succ_self _
  case distinct =>
    intro j k one other hone hother heq
    rcases hsplit j one hone with ⟨holdOne, hltOne⟩ | ⟨rfl, rfl⟩
    · rcases hsplit k other hother with ⟨holdOther, -⟩ | ⟨rfl, rfl⟩
      · exact h.distinct j k _ _ holdOne holdOther heq
      · omega
    · rcases hsplit k other hother with ⟨-, hltOther⟩ | ⟨rfl, rfl⟩
      · omega
      · rfl
  case own =>
    intro j other hother
    rcases hsplit j other hother with ⟨hold, hlt⟩ | ⟨-, rfl⟩
    · exact (hopened.others_eq _ (Nat.ne_of_lt hlt)).trans (h.own j other hold)
    · exact hnumber ▸ hopened.own.trans hopened.isOpen_eq.symm
  case others =>
    intro n hn
    have hne : n ≠ created := by
      rintro rfl
      exact hn _ source List.getElem?_concat_length hnumber
    refine (hopened.others_eq n hne).trans (h.others n fun j other hother => hn j other ?_)
    rw [List.getElem?_append_left (List.getElem?_eq_some_iff.mp hother).1]
    exact hother
  case marked =>
    intro j other hother
    rcases hsplit j other hother with ⟨hold, -⟩ | ⟨-, rfl⟩
    · exact h.marked j other hold
    · exact hopened.isOpen_eq

/-- A source that has not been opened may be dropped. -/
theorem Ready.drop (h : Ready session) {created : Nat} (hcreated : created = session.world.created)
    (hclosed : Source.TrackedAs created (created + 1)
      (fun m => isOpenAfter m session.world.exchanges) false (source, world)) :
    Lawful (fun _ mark => mark = true) { session with world } := by
  have hne : ∀ (j : Nat) (other : Source (Watched σ)), session.sources[j]? = some other →
      other.provider.number ≠ created :=
    fun j other hother => Nat.ne_of_lt (hcreated ▸ h.created j other hother)
  constructor
  case legal => exact hclosed.legal
  case created =>
    intro j other hother
    exact hclosed.created_eq ▸ Nat.lt_succ_of_lt (hcreated ▸ h.created j other hother)
  case distinct => exact h.distinct
  case own =>
    intro j other hother
    exact (hclosed.others_eq _ (hne j other hother)).trans (h.own j other hother)
  case others =>
    intro n hn
    by_cases hown : n = created
    · exact hown ▸ hclosed.own
    · exact (hclosed.others_eq n hown).trans (h.others n hn)
  case marked => exact h.marked

theorem leads_openSource (name : SourceName) :
    Run.Leads Ready (openSource B.watched name) (fun _ => Ready) Ready := by
  intro session h
  unfold openSource
  simp only [Backend.watched]
  cases hcreate : B.create name.table session.world.world with
  | mk made world =>
    cases made with
    | error e => exact { h with }
    | ok provider =>
      -- The new provider has the next number, which no exchange has seen.
      have hnew : Source.TrackedAs session.world.created (session.world.created + 1)
          (fun m => isOpenAfter m session.world.exchanges) false
          (Source.closed name.aliasName name.table ⟨session.world.created, provider⟩,
            ⟨world, session.world.created + 1, session.world.exchanges⟩) :=
        { number_eq := rfl
          isOpen_eq := rfl
          created_eq := rfl
          legal := h.legal
          own := h.others _ fun i source hsource => Nat.ne_of_lt (h.created i source hsource)
          others_eq := fun _ _ => rfl }
      have hopen := Source.leads_openTable (B := B) _ hnew
      simp only [Backend.watched] at hopen ⊢
      split at hopen
      · rename_i heq
        rw [heq]
        exact Ready.append h rfl hopen
      · rename_i heq
        rw [heq]
        exact Ready.drop h rfl hopen

theorem leads_openAll : ∀ names : List SourceName,
    Run.Leads Ready (openAll B.watched names) (fun _ => Ready) Ready
  | [] => Run.leads_pure fun _ h => h
  | name :: rest => Run.leads_bind (leads_openSource name) fun _ => leads_openAll rest

/-! ## Moving and reading -/

/-- What leaves a ready session ready even where it fails leaves it accounted for. -/
theorem leads_at_accounted {x : Run (Source (Watched σ) × Watch γ) α}
    (hx : ∀ n created others, Run.Leads (Source.TrackedAs n created others true) x
      (fun _ => Source.TrackedAs n created others true)
      (Source.TrackedAs n created others true)) :
    Run.Leads Ready (at_ i x) (fun _ => Ready) Accounted :=
  (leads_at_open hx).weaken (fun _ h => h) (fun _ _ h => h) (fun _ h => h.accounted)

/-- Only a source that starts again can be left closed, by the step that failed. -/
theorem driven_ready (B : Backend σ γ) : Driven B.watched Ready Accounted where
  first _ := leads_at_accounted fun _ _ _ => Source.leads_first
  next _ := leads_at_accounted fun _ _ _ => Source.leads_next
  eof _ := leads_at_accounted fun _ _ _ => Source.leads_eof
  reset _ := leads_at_reset
  column _ position := leads_at_open fun _ _ _ => Source.leads_column position
  fails _ h := h.accounted

/-! ## Asking for columns -/

/-- The questions that binding asks leave the session ready. -/
theorem scopes_preserving (names : List SourceName) :
    Correspondence.Scopes (Correspondence.preserving Ready) (scope B.watched names)
      (scope B.watched names) where
  sources := rfl
  columnCount _ := leads_at_open fun _ _ _ => Source.leads_columnCount
  columnId _ name := leads_at_open fun _ _ _ => Source.leads_columnId name
  describe _ position := leads_at_open fun _ _ _ => Source.leads_describe position

/-! ## Closing -/

/-- All sources are closed once those of a list are that holds all that are not yet closed. -/
theorem leads_closeEach : ∀ is : List Nat,
    Run.Leads (Lawful fun i mark => i ∉ is → mark = false) (closeEach B.watched is)
      (fun _ => Lawful fun _ mark => mark = false) (Lawful fun _ mark => mark = false)
  | [] => Run.leads_pure fun _ h => h.weaken fun _ _ _ hmark => hmark List.not_mem_nil
  | i :: rest => by
    have hclose : Run.Leads (Lawful fun j mark => j ∉ i :: rest → mark = false)
        (at_ i (Source.close B.watched)) (fun _ => Lawful fun j mark => j ∉ rest → mark = false)
        (Lawful fun j mark => j ∉ rest → mark = false) := by
      apply leads_at_close
      · exact fun _ => rfl
      · intro j mark hj hmark hrest
        exact hmark (List.not_mem_cons_of_ne_of_not_mem hj hrest)
    apply Run.leads_bind (Run.leads_attempt_both hclose)
    intro outcome
    apply Run.leads_bind (leads_closeEach rest)
    intro later
    cases outcome with
    | ok _ => exact Run.leads_pure fun _ h => h
    | error e => exact Run.leads_pure fun _ h => h

/-- Whatever a source answers when it is closed, all of them are closed. -/
theorem leads_closeAll : Run.Leads Accounted (closeAll B.watched)
    (fun _ => Lawful fun _ mark => mark = false) (Lawful fun _ mark => mark = false) := by
  have hcount : Run.Leads Accounted (count (σ := Watched σ) (γ := Watch γ))
      (fun n => Lawful fun i mark => i ∉ List.range n → mark = false)
      (Lawful fun _ mark => mark = false) := by
    apply Run.leads_get
    intro seen hseen
    apply Run.leads_pure
    rintro state rfl
    apply hseen.weaken
    intro i source hsource _ hi
    exact absurd (List.mem_range.mpr (List.getElem?_eq_some_iff.mp hsource).1) hi
  apply Run.leads_bind hcount
  intro n
  apply Run.leads_bind (leads_closeEach (List.range n))
  intro failure
  cases failure with
  | none => exact Run.leads_pure fun _ h => h
  | some e => exact Run.leads_throw fun _ h => h

/-- After its sources have been released nothing is left open. -/
theorem settled_release {session : Session (Watched σ) (Watch γ)} (h : Accounted session) :
    Settled (session.release B.watched).world.exchanges := by
  have hclosed := (leads_closeAll (B := B)).final_of_both h
  unfold release
  rw [Run.final] at hclosed
  split at hclosed
  · rename_i heq
    rw [heq]
    exact hclosed.settled
  · rename_i heq
    rw [heq]
    exact hclosed.settled

end Session

end SelectEngine
