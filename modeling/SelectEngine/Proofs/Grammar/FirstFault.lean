import SelectEngine.Proofs.Automaton.Parse
import SelectEngine.Proofs.Grammar.Expected

/-!
# The first fault of a text

Parsing accepts the sentences of the grammar and nothing else. A text that is no sentence is refused
at its first fault: at the first token that no sentence goes on with, or at the place where no token
can be read if all tokens before it may start a sentence (`parse_first_fault`).
-/

set_option autoImplicit false

namespace SelectEngine

namespace Grammar

variable {τ : Type}

theorem Viable.of_append {front back : List TokenKind} (h : Viable (front ++ back)) :
    Viable front := by
  obtain ⟨w, hw⟩ := h
  exact ⟨back ++ w, by rwa [← List.append_assoc]⟩

theorem Sentence.viable {w : List TokenKind} (h : Sentence w) : Viable w :=
  ⟨[], by rwa [List.append_nil]⟩

namespace Stage

/-- Behind tokens stands what the reader expects there. -/
theorem spells_run {stage later : Stage τ} {ts : List (TokenKind × τ)}
    (h : stage.run ts = some (.more later)) (w : List TokenKind) :
    Spells stage.expects (ts.map Prod.fst ++ w) ↔ Spells later.expects w := by
  induction ts generalizing stage with
  | nil =>
    cases h
    rfl
  | cons token ts ih =>
    obtain ⟨kind, leaf⟩ := token
    rw [run] at h
    split at h
    · next next hfeed =>
      rw [List.map_cons, List.cons_append, spells_expects stage leaf, hfeed]
      exact ih h
    · cases h
    · cases h

/-- The end of the text leaves no statement unfinished. -/
theorem ne_eof_of_run {stage later : Stage τ} {ts : List (TokenKind × τ)}
    (h : stage.run ts = some (.more later)) : ∀ t ∈ ts, t.1 ≠ .eof := by
  induction ts generalizing stage with
  | nil => exact nofun
  | cons token ts ih =>
    obtain ⟨kind, leaf⟩ := token
    rw [run] at h
    split at h
    · next next hfeed =>
      refine List.forall_mem_cons.mpr ⟨?_, ih h⟩
      rintro rfl
      exact feed_eof_ne_more stage next leaf hfeed
    · cases h
    · cases h

end Stage

end Grammar

open Grammar

/-- Tokens are read to the last one, or up to one that ends the reading. -/
theorem Grammar.Stage.run_numbered_cases (stage : Stage TokenId) (n : Nat) (ts : List Token) :
    (∃ later, stage.run (numbered n ts) = some (.more later)) ∨
      ∃ front t back later, ts = front ++ t :: back ∧
        stage.run (numbered n front) = some (.more later) ∧
        ∀ next, later.feed t.kind (n + front.length) ≠ some (.more next) := by
  induction ts generalizing stage n with
  | nil => exact Or.inl ⟨stage, rfl⟩
  | cons t ts ih =>
    by_cases hmore : ∃ next, stage.feed t.kind n = some (.more next)
    · obtain ⟨next, hfeed⟩ := hmore
      have hrun : ∀ front,
          stage.run (numbered n (t :: front)) = next.run (numbered (n + 1) front) := by
        intro front
        rw [numbered, run, hfeed]
      rcases ih next (n + 1) with ⟨later, hlater⟩ | ⟨front, t', back, later, rfl, hfront, hends⟩
      · exact Or.inl ⟨later, (hrun ts).trans hlater⟩
      · refine Or.inr ⟨t :: front, t', back, later, rfl, (hrun front).trans hfront, ?_⟩
        rw [List.length_cons, Nat.add_comm front.length, ← Nat.add_assoc]
        exact hends
    · exact Or.inr ⟨[], t, ts, stage, rfl, rfl, fun next hnext => hmore ⟨next, hnext⟩⟩

/-- A sentence that starts with tokens which leave the reader at `later` goes on as `later`
expects. -/
theorem sentence_iff_of_run {front : List Token} {later : Stage TokenId}
    (h : Stage.start.run (numbered 0 front) = some (.more later)) (w : List TokenKind) :
    Sentence (front.map Token.kind ++ w) ↔ Spells later.expects w := by
  rw [← map_fst_numbered 0 front]
  exact Stage.spells_run h w

theorem viable_of_run {front : List Token} {later : Stage TokenId}
    (h : Stage.start.run (numbered 0 front) = some (.more later)) :
    Viable (front.map Token.kind) := by
  obtain ⟨w, hw⟩ := later.exists_spells
  exact ⟨w, (sentence_iff_of_run h w).mpr hw⟩

/-- With one more token a sentence goes on as the reader does. -/
theorem sentence_concat_iff_of_run {front : List Token} {later : Stage TokenId}
    (h : Stage.start.run (numbered 0 front) = some (.more later)) (t : Token) (leaf : TokenId)
    (w : List TokenKind) :
    Sentence ((front ++ [t]).map Token.kind ++ w) ↔
      Outcome.Leaves w (later.feed t.kind leaf) := by
  rw [← later.spells_expects leaf, ← sentence_iff_of_run h, List.map_append, List.append_assoc]
  rfl

section

variable {settings : ReadSettings} {text : String} {ts : List Token} {failure : Option Error}

theorem parse_of_readStatement (hlength : text.utf8ByteSize ≤ settings.maxLength)
    {outcome : Except Error (Statement TokenId × Array Token)}
    (h : readStatement settings.sourceName (Scan.ofText text) .start #[] = outcome) :
    parse settings text = outcome.map fun (statement, tokens) =>
      Tree.ofStatement settings.sourceName tokens statement := by
  rw [parse_eq, if_neg (Nat.not_lt.mpr hlength), h]

/-- How parsing ends: at a place where no token can be read, at a token that no sentence goes on
with, or behind a sentence. -/
theorem parse_cases (hlength : text.utf8ByteSize ≤ settings.maxLength)
    (hdrain : (Scan.ofText text).drain settings.sourceName = (ts, failure)) :
    (∃ e, failure = some e ∧ Viable (ts.map Token.kind) ∧ parse settings text = .error e) ∨
    (∃ front t back, ts = front ++ t :: back ∧ Viable (front.map Token.kind) ∧
      ¬Viable ((front ++ [t]).map Token.kind) ∧
      parse settings text = .error (t.refusal settings.sourceName)) ∨
    (failure = none ∧ Sentence (ts.map Token.kind) ∧ ∃ tree, parse settings text = .ok tree) := by
  rcases Stage.run_numbered_cases .start 0 ts with
    ⟨later, hrun⟩ | ⟨front, t, back, later, rfl, hrun, hends⟩
  · -- No token ended the reading, so the end of the text was never reached.
    refine Or.inl ?_
    cases failure with
    | none =>
      obtain ⟨t, ht, heof⟩ := Scan.exists_eof_of_drain hdrain
      have hmem : t.kind ∈ (numbered 0 ts).map Prod.fst := by
        rw [map_fst_numbered]
        exact List.mem_map_of_mem ht
      obtain ⟨token, htoken, hkind⟩ := List.mem_map.mp hmem
      exact absurd (hkind.trans heof) (Stage.ne_eof_of_run hrun token htoken)
    | some e =>
      have hall : (Scan.ofText text).drain settings.sourceName = (ts ++ [], some e) := by
        rw [List.append_nil]
        exact hdrain
      have hstart : Stage.start.run (numbered (#[] : Array Token).size ts) = some (.more later) :=
        hrun
      obtain ⟨past, hpast, hread⟩ := readStatement_append hall hstart
      rw [readStatement_of_error hpast] at hread
      exact ⟨e, rfl, viable_of_run hrun, parse_of_readStatement hlength hread⟩
  · have hstart : Stage.start.run (numbered (#[] : Array Token).size front) = some (.more later) :=
      hrun
    obtain ⟨past, hpast, hread⟩ := readStatement_append hdrain hstart
    have hsize : (#[] ++ front.toArray).size = 0 + front.length := by simp
    cases hfeed : later.feed t.kind (0 + front.length) with
    | none =>
      refine Or.inr (Or.inl ⟨front, t, back, rfl, viable_of_run hrun, ?_, ?_⟩)
      · rintro ⟨w, hw⟩
        rw [sentence_concat_iff_of_run hrun t (0 + front.length), hfeed] at hw
        exact hw
      · rw [readStatement_of_refused hpast (hsize ▸ hfeed)] at hread
        exact parse_of_readStatement hlength hread
    | some outcome =>
      cases outcome with
      | more next => exact absurd hfeed (hends next)
      | accepted statement =>
        -- A statement is accepted at the end of the text only, and nothing is read behind that.
        obtain ⟨rfl, rfl⟩ := Scan.drain_eof hdrain (Stage.eof_of_accepted hfeed)
        refine Or.inr (Or.inr ⟨rfl, ?_, ?_⟩)
        · have hsentence := (sentence_concat_iff_of_run hrun t (0 + front.length) []).mpr
            (by rw [hfeed]; exact .nil)
          rwa [List.append_nil] at hsentence
        · rw [readStatement_of_accepted hpast (hsize ▸ hfeed)] at hread
          exact ⟨_, parse_of_readStatement hlength hread⟩

/-- The end of the text is named as such. -/
theorem refusal_eq (t : Token) (source : String) :
    t.refusal source =
      .unexpected (if t.kind = .eof then "end of input" else t.text) (t.span.location source) := by
  rw [Token.refusal]
  split
  · next heof => rw [heof, TokenKind.label]
  · rfl

/-- Tokens have only one first fault. -/
theorem first_fault_unique {front front' back back' : List Token} {t t' : Token}
    (heq : front ++ t :: back = front' ++ t' :: back')
    (hfront : Viable (front.map Token.kind)) (ht : ¬Viable ((front ++ [t]).map Token.kind))
    (hfront' : Viable (front'.map Token.kind)) (ht' : ¬Viable ((front' ++ [t']).map Token.kind)) :
    t = t' := by
  -- Were the one fault behind the other, it would stand behind tokens that no sentence starts with.
  rcases List.append_eq_append_iff.mp heq with ⟨_ | ⟨next, others⟩, rfl, hback⟩ |
      ⟨_ | ⟨next, others⟩, rfl, hback⟩
  · exact (List.cons.inj hback).1
  · obtain ⟨rfl, -⟩ := List.cons.inj hback
    refine absurd ?_ ht
    rw [List.append_cons, List.map_append] at hfront'
    exact hfront'.of_append
  · exact (List.cons.inj hback).1.symm
  · obtain ⟨rfl, -⟩ := List.cons.inj hback
    refine absurd ?_ ht'
    rw [List.append_cons, List.map_append] at hfront
    exact hfront.of_append

/-- A token that no sentence goes on with is refused, the first one in a text; without one parsing
fails where no token can be read, and else succeeds. It succeeds on the sentences only. -/
theorem parse_first_fault (hlength : text.utf8ByteSize ≤ settings.maxLength)
    (hdrain : (Scan.ofText text).drain settings.sourceName = (ts, failure)) :
    (∀ front t back, ts = front ++ t :: back → Viable (front.map Token.kind) →
      ¬Viable ((front ++ [t]).map Token.kind) →
      parse settings text =
        .error (.unexpected (if t.kind = .eof then "end of input" else t.text)
          (t.span.location settings.sourceName))) ∧
    ((∀ front back, ts = front ++ back → Viable (front.map Token.kind)) →
      (∀ e, failure = some e → parse settings text = .error e) ∧
      (failure = none → ∃ tree, parse settings text = .ok tree)) ∧
    ((∃ tree, parse settings text = .ok tree) ↔
      failure = none ∧ Sentence (ts.map Token.kind)) := by
  -- What precedes tokens that a sentence starts with is such a start itself.
  have hearlier : ∀ {front back : List Token}, ts = front ++ back → Viable (ts.map Token.kind) →
      Viable (front.map Token.kind) := by
    intro front back hts hviable
    rw [hts, List.map_append] at hviable
    exact hviable.of_append
  rcases parse_cases hlength hdrain with ⟨e, rfl, hviable, hparse⟩ |
      ⟨front, t, back, hts, hfront, ht, hparse⟩ | ⟨rfl, hsentence, tree, hparse⟩
  · refine ⟨fun front t back hts _ ht => ?_, fun _ => ⟨fun e' he => ?_, nofun⟩, ?_⟩
    · rw [List.append_cons] at hts
      exact absurd (hearlier hts hviable) ht
    · cases he
      exact hparse
    · rw [hparse]
      exact ⟨nofun, nofun⟩
  · -- The tokens go on behind the fault, so no sentence starts with all of them.
    have hhopeless : ¬Viable (ts.map Token.kind) := fun hviable =>
      ht (hearlier (hts.trans (List.append_cons front t back)) hviable)
    refine ⟨fun front' t' back' hts' hfront' ht' => ?_, fun hall => ?_, ?_⟩
    · obtain rfl := first_fault_unique (hts.symm.trans hts') hfront ht hfront' ht'
      rw [hparse, refusal_eq]
    · exact absurd (hall ts [] (List.append_nil ts).symm) hhopeless
    · rw [hparse]
      exact ⟨nofun, fun h => absurd h.2.viable hhopeless⟩
  · refine ⟨fun front t back hts _ ht => ?_, fun _ => ⟨nofun, fun _ => ⟨tree, hparse⟩⟩, ?_⟩
    · rw [List.append_cons] at hts
      exact absurd (hearlier hts hsentence.viable) ht
    · exact ⟨fun _ => ⟨rfl, hsentence⟩, fun _ => ⟨tree, hparse⟩⟩

end

theorem parse_first_fault_select :
    "SELECT".utf8ByteSize ≤ ReadSettings.default.maxLength ∧
      (Scan.ofText "SELECT").drain "<sql>" =
        ([⟨.kwSelect, "SELECT", ⟨0, 6, 1⟩⟩, ⟨.eof, "", ⟨6, 0, 1⟩⟩], none) ∧
      Viable [.kwSelect] ∧ ¬Viable [.kwSelect, .eof] ∧
      parse .default "SELECT" = .error (.unexpected "end of input" ⟨"<sql>", 1, 6, 0⟩) := by
  have hlength : "SELECT".utf8ByteSize ≤ ReadSettings.default.maxLength := by decide
  have hdrain : (Scan.ofText "SELECT").drain ReadSettings.default.sourceName =
      ([⟨.kwSelect, "SELECT", ⟨0, 6, 1⟩⟩, ⟨.eof, "", ⟨6, 0, 1⟩⟩], none) := by decide +kernel
  have hrun : Stage.start.run (numbered 0 [⟨.kwSelect, "SELECT", ⟨0, 6, 1⟩⟩]) =
      some (.more (.attribute ⟨0, []⟩)) := rfl
  have hviable : Viable [.kwSelect] := viable_of_run hrun
  have hhopeless : ¬Viable [.kwSelect, .eof] := by
    rintro ⟨w, hw⟩
    exact (sentence_concat_iff_of_run hrun ⟨.eof, "", ⟨6, 0, 1⟩⟩ 1 w).mp hw
  exact ⟨hlength, hdrain, hviable, hhopeless,
    (parse_first_fault hlength hdrain).1 [⟨.kwSelect, "SELECT", ⟨0, 6, 1⟩⟩] ⟨.eof, "", ⟨6, 0, 1⟩⟩ []
      rfl hviable hhopeless⟩

end SelectEngine
