import SelectEngine.Proofs.Run
import SelectEngine.Proofs.Tree.Held

/-!
# Ordinary failures

A failure is ordinary if the statement, the tables or the values account for it. The others say that
a part of the engine broke what another part relies on: a state that no statement leads to, a
feature that is missing, a cursor or a provider used out of turn.

`Ordinarily x Q` says that an outcome is a value with the property `Q` or an ordinary failure, and
`Keeps` says so of computations with a state of their own and an invariant of it. The rules follow
the operations of the monad.

The first that fails ordinarily is reading: whatever the text, it gives a tree that holds a
statement, or a failure of the text (`ordinarily_parse`).
-/

set_option autoImplicit false

namespace SelectEngine

/-- The statement, the tables or the values account for the failure. -/
def Error.Ordinary : Error → Prop
  | .invalidCharacter .. | .unterminated .. | .tooLong .. | .unexpected .. | .duplicateAlias _
  | .noSuchTable _ | .noSuchColumn _ | .noSuchSource _ | .ambiguousColumn _ | .noSuchFunction ..
  | .typeMismatch .. | .nullValue _ | .divisionByZero | .integerOverflow | .tooDeep _ => True
  | .internal _ | .notImplemented _ | .cursorState .. | .columnOutOfRange .. | .provider _
  | .readOnly => False

variable {α β ρ : Type}

/-! ## Outcomes -/

/-- A value with the property, or an ordinary failure. -/
def Ordinarily (x : Except Error α) (Q : α → Prop) : Prop :=
  match x with
  | .ok a => Q a
  | .error e => e.Ordinary

section

variable {x : Except Error α} {f : α → Except Error β} {P Q : α → Prop} {R : β → Prop}

theorem ordinarily_ok {a : α} (h : Q a) : Ordinarily (.ok a) Q := h

theorem ordinarily_error {e : Error} (h : e.Ordinary) : Ordinarily (.error e) Q := h

theorem ordinarily_bind (hx : Ordinarily x P) (hf : ∀ a, P a → Ordinarily (f a) R) :
    Ordinarily (x >>= f) R := by
  cases x with
  | ok a => exact hf a hx
  | error e => exact hx

theorem Ordinarily.mono (h : Ordinarily x P) (hPQ : ∀ a, P a → Q a) : Ordinarily x Q := by
  cases x with
  | ok a => exact hPQ a h
  | error e => exact h

theorem ordinarily_map {g : α → β} (h : Ordinarily x fun a => R (g a)) :
    Ordinarily (x.map g) R := by
  cases x with
  | ok a => exact h
  | error e => exact h

theorem ordinarily_relay (h : Ordinarily x Q) : Ordinarily (relay x : Except Error α) Q := by
  cases x with
  | ok a => exact h
  | error e => exact h

/-- The value of an outcome, if it has one, is the one that it is found to have. -/
theorem Ordinarily.found (h : Ordinarily x P) : Ordinarily x fun a => P a ∧ x = .ok a := by
  cases x with
  | ok a => exact ⟨h, rfl⟩
  | error e => exact h

end

/-! ## Computations with a state -/

/-- From a state in which `holds` the computation returns a value with the property in a state in
which `holds` again, or fails ordinarily. -/
def Keeps (holds : ρ → Prop) (x : StateT ρ (Except Error) α) (Q : α → Prop) : Prop :=
  ∀ state, holds state → Ordinarily (x.run state) fun result => Q result.1 ∧ holds result.2

section

variable {holds : ρ → Prop} {x : StateT ρ (Except Error) α} {f : α → StateT ρ (Except Error) β}
variable {P Q : α → Prop} {R : β → Prop}

theorem keeps_pure {a : α} (h : Q a) : Keeps holds (pure a) Q :=
  fun _ hstate => ⟨h, hstate⟩

theorem keeps_throw {e : Error} (h : e.Ordinary) :
    Keeps holds (throw e : StateT ρ (Except Error) α) Q :=
  fun _ _ => h

theorem keeps_bind (hx : Keeps holds x P) (hf : ∀ a, P a → Keeps holds (f a) R) :
    Keeps holds (x >>= f) R := by
  intro state hstate
  rw [StateT.run_bind]
  apply ordinarily_bind (hx state hstate)
  rintro ⟨a, later⟩ ⟨ha, hlater⟩
  exact hf a ha later hlater

theorem keeps_lift {y : Except Error α} (h : Ordinarily y Q) :
    Keeps holds (liftM y : StateT ρ (Except Error) α) Q := by
  intro state hstate
  cases y with
  | ok a => exact ⟨h, hstate⟩
  | error e => exact h

theorem keeps_relay {y : Except Error α} (h : Ordinarily y Q) :
    Keeps holds (relay y : StateT ρ (Except Error) α) Q := by
  cases y with
  | ok a => exact keeps_pure h
  | error e => exact keeps_throw h

theorem keeps_modify {g : ρ → ρ} (h : ∀ state, holds state → holds (g state)) :
    Keeps holds (modify g) fun _ => True :=
  fun state hstate => ⟨trivial, h state hstate⟩

theorem keeps_get : Keeps holds (get : StateT ρ (Except Error) ρ) holds :=
  fun _ hstate => ⟨hstate, hstate⟩

theorem keeps_set {state : ρ} (h : holds state) :
    Keeps holds (set state : StateT ρ (Except Error) Unit) fun _ => True :=
  fun _ _ => ⟨trivial, h⟩

theorem Keeps.mono (h : Keeps holds x P) (hPQ : ∀ a, P a → Q a) : Keeps holds x Q :=
  fun state hstate => (h state hstate).mono fun result hresult =>
    ⟨hPQ result.1 hresult.1, hresult.2⟩

end

/-! ## Reading -/

namespace Scan

theorem ordinary_of_skipGap {source : String} {s past : Scan} {e : Error}
    (h : s.skipGap source = (some e, past)) : e.Ordinary := by
  fun_induction skipGap source s with
  | case1 s t hrest _ ih => exact ih h
  | case2 s t hrest _ ih => exact ih h
  | case3 s t hrest start body past hc _ ih => exact ih h
  | case4 s t hrest start body past hc =>
    cases h
    trivial
  | case5 => cases h

theorem ordinarily_quoted (source : String) (kind : TokenKind) (quote : Char) (what : String)
    (s : Scan) : Ordinarily (s.quoted source kind quote what).1 fun _ => True := by
  unfold quoted
  split <;> trivial

theorem ordinarily_bracketed (source : String) (s : Scan) :
    Ordinarily (s.bracketed source).1 fun _ => True := by
  unfold bracketed
  dsimp only
  split <;> trivial

theorem ordinarily_token (source : String) (s : Scan) :
    Ordinarily (s.token source).1 fun _ => True := by
  unfold token
  split
  · trivial
  split
  · exact ordinarily_quoted source _ _ _ s
  split
  · exact ordinarily_quoted source _ _ _ s
  split
  · exact ordinarily_bracketed source s
  split
  · trivial
  split
  · trivial
  -- What is left is a symbol, or a character that starts no token.
  split <;> trivial

theorem ordinarily_next (source : String) (s : Scan) :
    Ordinarily (s.next source).1 fun _ => True := by
  unfold next
  split
  · next e past hgap => exact ordinary_of_skipGap hgap
  · exact ordinarily_token source _

end Scan

theorem ordinarily_readStatement (source : String) (s : Scan) (stage : Grammar.Stage TokenId)
    (tokens : Array Token) :
    Ordinarily (readStatement source s stage tokens) fun _ => True := by
  fun_induction readStatement source s stage tokens with
  | case1 s stage tokens e past hnext =>
    have hfailed := Scan.ordinarily_next source s
    rw [hnext] at hfailed
    exact hfailed
  | case2 => trivial
  | case3 => trivial
  | case4 => trivial
  | case5 s stage tokens t past hnext later hfeed hne hshorter ih => exact ih

/-- A text that can be read has a statement. -/
theorem ordinarily_parse (settings : ReadSettings) (text : String) :
    Ordinarily (parse settings text) fun tree => ∃ s, tree.Holds s := by
  have hparse : Ordinarily (parse settings text) fun _ => True := by
    rw [parse_eq]
    split
    · trivial
    · exact ordinarily_map (ordinarily_readStatement _ _ _ _)
  exact hparse.found.mono fun tree htree => exists_holds_of_parse htree.2

end SelectEngine
