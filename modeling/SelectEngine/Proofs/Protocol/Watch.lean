import SelectEngine.Proofs.Triple
import SelectEngine.Source

/-!
# Providers under watch

`Backend.watched` numbers the providers of another backend in the order of their creation and keeps
every exchange with them. It passes each call on and hands each answer back as it is, so that what
it keeps is what the providers see, whatever they answer.

`Legal` says of the exchanges that a provider is asked to open only while it is not open and for
anything else only while it is, and `Settled` that, in addition, each successful opening was followed
by exactly one close. The computations of a source keep them legal as long as the source is marked
as open exactly if its provider is (`Source.Tracked`).
-/

set_option autoImplicit false

namespace SelectEngine

variable {σ γ α : Type}

/-- A call that has reached a provider. -/
structure Exchange where
  /-- The number of the provider. -/
  provider : Nat
  call : Call
  /-- The provider did not answer with a failure. -/
  granted : Bool
deriving DecidableEq

/-- A provider with its number. -/
structure Watched (σ : Type) where
  number : Nat
  provider : σ

/-- What watched providers share: how many were created, and the exchanges with all of them, the
latest first. -/
structure Watch (γ : Type) where
  world : γ
  created : Nat
  exchanges : List Exchange

namespace Watch

/-- Nothing seen yet. -/
def start (world : γ) : Watch γ := ⟨world, 0, []⟩

end Watch

/-- The answer is no failure. -/
def Call.granted : (call : Call) → call.Answer → Bool
  | .openTable _ _, answer | .first, answer | .next, answer | .close, answer => answer.isOk
  | .column _, answer => answer.isOk
  | .describe _, answer => answer.isOk
  | .eof, _ | .columnCount, _ | .columnId _, _ => true

/-- The backend that keeps the exchanges with the providers of another one. -/
def Backend.watched (B : Backend σ γ) : Backend (Watched σ) (Watch γ) where
  create name w :=
    match B.create name w.world with
    | (.ok provider, world) => (.ok ⟨w.created, provider⟩, ⟨world, w.created + 1, w.exchanges⟩)
    | (.error e, world) => (.error e, { w with world })
  answer call p w :=
    let (a, provider, world) := B.answer call p.provider w.world
    (a, { p with provider }, ⟨world, w.created, ⟨p.number, call, call.granted a⟩ :: w.exchanges⟩)
  rowLimit := B.rowLimit

/-! ## Legal exchanges -/

/-- Whether a provider is open after a call, by whether the call was granted and the provider was
open before it. -/
def Call.leaves : (call : Call) → (granted opened : Bool) → Bool
  | .openTable _ _, granted, _ => granted
  | .close, _, _ => false
  | .first, _, opened | .next, _, opened | .eof, _, opened | .columnCount, _, opened
  | .columnId _, _, opened | .column _, _, opened | .describe _, _, opened => opened

/-- A provider's last opening succeeded, and no close was attempted since. The latest exchange comes
first. -/
def isOpenAfter (n : Nat) : List Exchange → Bool
  | [] => false
  | e :: earlier =>
    if e.provider = n then e.call.leaves e.granted (isOpenAfter n earlier)
    else isOpenAfter n earlier

/-- The call is one that opens its provider. -/
def Call.opens : Call → Bool
  | .openTable _ _ => true
  | .first | .next | .close | .eof | .columnCount | .columnId _ | .column _ | .describe _ => false

/-- A provider is asked to open only while it is not open, and for anything else only while it
is. -/
def Legal : List Exchange → Prop
  | [] => True
  | e :: earlier => isOpenAfter e.provider earlier = !e.call.opens ∧ Legal earlier

/-- An opening that succeeded, or an attempt to close. -/
inductive Turn where
  | opened
  | closed
deriving DecidableEq

/-- The turn that an exchange is, if it is one. -/
def Exchange.turn? (e : Exchange) : Option Turn :=
  match e.call with
  | .openTable _ _ => if e.granted then some .opened else none
  | .close => some .closed
  | _ => none

/-- The turns of a provider, the first one first. -/
def turnsOf (n : Nat) : List Exchange → List Turn
  | [] => []
  | e :: earlier =>
    if e.provider = n then turnsOf n earlier ++ e.turn?.toList else turnsOf n earlier

/-- So many openings, each with one close behind it. -/
def paired (count : Nat) : List Turn := (List.replicate count [.opened, .closed]).flatten

/-- All was legal, no provider is open, and each successful opening was followed by exactly one
close. -/
structure Settled (exchanges : List Exchange) : Prop where
  legal : Legal exchanges
  closed : ∀ n, isOpenAfter n exchanges = false
  paired : ∀ n, ∃ count, turnsOf n exchanges = paired count

theorem paired_succ (count : Nat) : paired (count + 1) = paired count ++ [.opened, .closed] := by
  simp [paired, List.replicate_succ']

/-- Openings and closes take turns, and the last opening has no close behind it if the provider is
open. -/
theorem Legal.turnsOf {exchanges : List Exchange} (h : Legal exchanges) (n : Nat) :
    ∃ count, turnsOf n exchanges =
      paired count ++ if isOpenAfter n exchanges then [.opened] else [] := by
  induction exchanges with
  | nil => exact ⟨0, rfl⟩
  | cons e earlier ih =>
    obtain ⟨provider, call, granted⟩ := e
    obtain ⟨hopen, hearlier⟩ := h
    obtain ⟨count, hcount⟩ := ih hearlier
    by_cases hn : provider = n
    · subst hn
      simp only [SelectEngine.turnsOf, isOpenAfter, if_true, hcount]
      cases call with
      | openTable mode name =>
        -- The provider was not open, so the turns before this one are paired.
        have hnot : isOpenAfter provider earlier = false := hopen
        refine ⟨count, ?_⟩
        rw [hnot]
        cases granted <;> simp [Exchange.turn?, Call.leaves]
      | close =>
        -- The close is the one that the last opening waited for.
        have hwas : isOpenAfter provider earlier = true := hopen
        refine ⟨count + 1, ?_⟩
        rw [hwas]
        simp [Exchange.turn?, Call.leaves, paired_succ]
      | first | next | eof | columnCount | columnId _ | column _ | describe _ =>
        exact ⟨count, List.append_nil _⟩
    · refine ⟨count, ?_⟩
      simp only [SelectEngine.turnsOf, isOpenAfter, hn, if_false, hcount]

theorem Legal.settled {exchanges : List Exchange} (h : Legal exchanges)
    (hclosed : ∀ n, isOpenAfter n exchanges = false) : Settled exchanges where
  legal := h
  closed := hclosed
  paired n := by
    obtain ⟨count, hcount⟩ := h.turnsOf n
    rw [hclosed n] at hcount
    exact ⟨count, by simpa using hcount⟩

/-! ## The computations of a source -/

namespace Source

/-- A source over the provider of number `n` whose exchanges so far are legal. The provider is open
or not as `opened` says, the source is marked so as `marked` says, and the other providers are open
as `others` says. -/
structure Standing (n created : Nat) (others : Nat → Bool) (opened marked : Bool)
    (state : Source (Watched σ) × Watch γ) : Prop where
  number_eq : state.1.provider.number = n
  isOpen_eq : state.1.isOpen = marked
  created_eq : state.2.created = created
  legal : Legal state.2.exchanges
  own : isOpenAfter n state.2.exchanges = opened
  others_eq : ∀ m, m ≠ n → isOpenAfter m state.2.exchanges = others m

/-- The source is marked as open exactly if its provider is, which `mark` says. -/
def TrackedAs (n created : Nat) (others : Nat → Bool) (mark : Bool)
    (state : Source (Watched σ) × Watch γ) : Prop :=
  Standing n created others mark mark state

/-- The source is marked as open exactly if its provider is. -/
def Tracked (n created : Nat) (others : Nat → Bool) (state : Source (Watched σ) × Watch γ) : Prop :=
  TrackedAs n created others state.1.isOpen state

variable {B : Backend σ γ} {n created : Nat} {others : Nat → Bool} {opened marked : Bool}
variable {state : Source (Watched σ) × Watch γ}

theorem TrackedAs.tracked (h : TrackedAs n created others marked state) :
    Tracked n created others state := by
  rw [Tracked, h.isOpen_eq]
  exact h

/-- A call that is legal leaves the provider as `Call.leaves` says, and all others as they were. -/
theorem leads_ask (call : Call) (hcall : opened = !call.opens)
    {F : Source (Watched σ) × Watch γ → Prop} :
    Run.Leads (Standing n created others opened marked) (ask B.watched call)
      (fun a => Standing n created others (call.leaves (call.granted a) opened) marked) F := by
  rintro ⟨source, w⟩ h
  obtain rfl : source.provider.number = n := h.number_eq
  refine ⟨rfl, h.isOpen_eq, h.created_eq, ⟨h.own.trans hcall, h.legal⟩, ?_, ?_⟩
  · refine (if_pos rfl).trans ?_
    rw [h.own]
    rfl
  · intro m hm
    exact (if_neg hm.symm).trans (h.others_eq m hm)

/-- A call that neither opens nor closes leaves an open source open. -/
theorem leads_ask_open {call : Call} (hopens : call.opens = false)
    (hleaves : ∀ granted, call.leaves granted true = true)
    {F : Source (Watched σ) × Watch γ → Prop} :
    Run.Leads (TrackedAs n created others true) (ask B.watched call)
      (fun _ => TrackedAs n created others true) F := by
  have hask : true = !call.opens := by rw [hopens]; rfl
  refine (leads_ask call hask).weaken (fun _ h => h) ?_ (fun _ h => h)
  intro a state h
  rwa [hleaves] at h

/-- So does one whose answer is passed on. -/
theorem leads_relay_ask {call : Call} {f : call.Answer → Except Error α}
    (hopens : call.opens = false) (hleaves : ∀ granted, call.leaves granted true = true) :
    Run.Leads (TrackedAs n created others true) (ask B.watched call >>= fun a => relay (f a))
      (fun _ => TrackedAs n created others true) (TrackedAs n created others true) := by
  apply Run.leads_bind (leads_ask_open hopens hleaves)
  intro a
  exact Run.leads_relay (fun _ _ _ h => h) (fun _ _ _ h => h)

theorem leads_first : Run.Leads (TrackedAs n created others true) (first B.watched)
    (fun _ => TrackedAs n created others true) (TrackedAs n created others true) :=
  leads_relay_ask rfl fun _ => rfl

theorem leads_next : Run.Leads (TrackedAs n created others true) (next B.watched)
    (fun _ => TrackedAs n created others true) (TrackedAs n created others true) :=
  leads_relay_ask rfl fun _ => rfl

theorem leads_column (position : Nat) :
    Run.Leads (TrackedAs n created others true) (column B.watched position)
      (fun _ => TrackedAs n created others true) (TrackedAs n created others true) :=
  leads_relay_ask rfl fun _ => rfl

theorem leads_describe (position : Nat) :
    Run.Leads (TrackedAs n created others true) (describe B.watched position)
      (fun _ => TrackedAs n created others true) (TrackedAs n created others true) :=
  leads_relay_ask rfl fun _ => rfl

theorem leads_eof : Run.Leads (TrackedAs n created others true) (eof B.watched)
    (fun _ => TrackedAs n created others true) (TrackedAs n created others true) :=
  leads_ask_open rfl fun _ => rfl

theorem leads_columnCount : Run.Leads (TrackedAs n created others true) (columnCount B.watched)
    (fun _ => TrackedAs n created others true) (TrackedAs n created others true) :=
  leads_ask_open rfl fun _ => rfl

theorem leads_columnId (name : String) :
    Run.Leads (TrackedAs n created others true) (columnId? B.watched name)
      (fun _ => TrackedAs n created others true) (TrackedAs n created others true) :=
  leads_ask_open rfl fun _ => rfl

/-- A source that is not open is opened, or stays as it is. -/
theorem leads_openTable : Run.Leads (TrackedAs n created others false) (openTable B.watched)
    (fun _ => TrackedAs n created others true) (TrackedAs n created others false) := by
  apply Run.leads_get
  intro seen hseen
  have hsame : ∀ state, state = seen → Standing n created others false false state := by
    rintro state rfl
    exact hseen
  apply Run.leads_bind ((leads_ask (.openTable .read seen.1.name) rfl).weaken hsame (fun _ _ h => h)
    fun _ h => h)
  intro outcome
  -- The provider is open exactly if it granted the call, and only then is the source marked so.
  apply Run.leads_bind (Q := fun _ => Standing n created others true false)
  · apply Run.leads_relay
    · rintro a rfl state h
      exact h
    · rintro e rfl state h
      exact h
  · intro _
    apply Run.leads_modify
    intro state h
    exact { h with isOpen_eq := rfl }

/-- A source is closed, even by a provider that fails to close. -/
theorem leads_close : Run.Leads (Tracked n created others) (close B.watched)
    (fun _ => TrackedAs n created others false) (TrackedAs n created others false) := by
  apply Run.leads_get
  rintro ⟨source, w⟩ hseen
  by_cases hopen : source.isOpen = true
  · have hown : Standing n created others true true (source, w) := by
      have h := hseen
      rwa [Tracked, hopen] at h
    simp only [if_pos hopen]
    apply Run.leads_bind (Q := fun _ => Standing n created others true false)
    · apply Run.leads_modify
      rintro state rfl
      exact { hown with isOpen_eq := rfl }
    · intro _
      have hask : Run.Leads (Standing n created others true false) (ask B.watched .close)
          (fun _ => TrackedAs n created others false) (TrackedAs n created others false) :=
        leads_ask .close rfl
      apply Run.leads_bind hask
      intro outcome
      exact Run.leads_relay (fun _ _ _ h => h) (fun _ _ _ h => h)
  · simp only [if_neg hopen]
    apply Run.leads_pure
    rintro state rfl
    have h := hseen
    rwa [Tracked, Bool.eq_false_iff.mpr hopen] at h

/-- A source starts again, or is left closed or open by the step that failed. -/
theorem leads_reset : Run.Leads (TrackedAs n created others true) (reset B.watched)
    (fun _ => TrackedAs n created others true) (Tracked n created others) := by
  have weaker : ∀ {mark : Bool} (state : Source (Watched σ) × Watch γ),
      TrackedAs n created others mark state → Tracked n created others state :=
    fun _ h => h.tracked
  apply Run.leads_bind (leads_close.weaken weaker (fun _ _ h => h) weaker)
  intro _
  apply Run.leads_bind (leads_openTable.weaken (fun _ h => h) (fun _ _ h => h) weaker)
  intro _
  exact leads_first.weaken (fun _ h => h) (fun _ _ h => h) weaker

end Source

end SelectEngine
