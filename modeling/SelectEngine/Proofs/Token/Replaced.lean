import SelectEngine.Proofs.Token.Tiling

/-!
# Tokens in place of a mark

Where a question mark of a text is replaced by the spelling of another token with a blank on both
sides, the text is read as before with that token in place of the mark (`Scan.drain_replaced`). No
token in front of the mark goes on into the blank, for a blank parts tokens at least as well as a
mark does.
-/

set_option autoImplicit false

namespace SelectEngine

variable {source : String} {s s' stop : Scan} {ts us : List Token} {t : Token}

/-- What the grammar and the binder see of a token. -/
def Token.content (t : Token) : TokenKind × String := (t.kind, t.text)

/-! ## A blank in place of a mark -/

namespace Scan

theorem symbol?_eq_none {c : Char} (h : c ∉ symbolStarts) (cs : List Char) :
    symbol? (c :: cs) = none :=
  Option.eq_none_iff_forall_ne_some.mpr fun _ hfound => h (mem_symbolStarts hfound)

/-- The second character counts for a symbol only where it may be part of one. -/
theorem symbol?_alone {c d : Char} {rest : List Char} (h : d ∉ ['=', '>', '|']) :
    symbol? (c :: d :: rest) = symbol? [c] := by
  simp only [List.mem_cons, List.not_mem_nil, or_false, not_or] at h
  obtain ⟨heq, hgt, hpipe⟩ := h
  by_cases hmem : c ∈ symbolStarts
  · simp only [symbolStarts, List.mem_cons, List.not_mem_nil, or_false] at hmem
    rcases hmem with rfl | rfl | rfl | rfl | rfl | rfl | rfl | rfl | rfl | rfl | rfl | rfl | rfl |
      rfl | rfl | rfl <;> simp [symbol?, heq, hgt, hpipe]
  · rw [symbol?_eq_none hmem, symbol?_eq_none hmem]

/-- No third character counts for a symbol. -/
theorem symbol?_pair (c d : Char) (rest : List Char) :
    symbol? (c :: d :: rest) = symbol? [c, d] := by
  by_cases hd : d ∈ ['=', '>', '|']
  · by_cases hmem : c ∈ symbolStarts
    · simp only [symbolStarts, List.mem_cons, List.not_mem_nil, or_false] at hmem hd
      rcases hd with rfl | rfl | rfl <;>
        rcases hmem with rfl | rfl | rfl | rfl | rfl | rfl | rfl | rfl | rfl | rfl | rfl | rfl |
          rfl | rfl | rfl | rfl <;> rfl
    · rw [symbol?_eq_none hmem, symbol?_eq_none hmem]
  · rw [symbol?_alone hd, symbol?_alone hd]

/-- A blank parts symbols as a mark does. -/
theorem symbol?_blank {cs front back back' : List Char} (hcs : cs ≠ []) :
    symbol? (cs ++ (front ++ '?' :: back)) = symbol? (cs ++ (front ++ ' ' :: back')) := by
  rcases cs with _ | ⟨c, _ | ⟨d, cs⟩⟩
  · exact absurd rfl hcs
  · rcases front with _ | ⟨d, front⟩
    · exact (symbol?_alone (by decide)).trans (symbol?_alone (by decide)).symm
    · exact (symbol?_pair c d _).trans (symbol?_pair c d _).symm
  · exact (symbol?_pair c d _).trans (symbol?_pair c d _).symm

/-- Neither a blank nor a mark opens a comment or goes on with its opening. -/
theorem NoGap.blank_for_mark {cs back : List Char} (h : NoGap (cs ++ '?' :: back)) (hcs : cs ≠ [])
    (back' : List Char) : NoGap (cs ++ ' ' :: back') := by
  obtain ⟨c, cs, rfl⟩ := List.exists_cons_of_ne_nil hcs
  cases cs with
  | nil => exact ⟨fun d hd => h.blank d hd, nofun, nofun, nofun⟩
  | cons d cs =>
    refine ⟨fun e he => h.blank e he, fun t ht => ?_, fun t ht => ?_, fun t ht => ?_⟩
    · cases ht
      exact h.dashes _ rfl
    · cases ht
      exact h.slashes _ rfl
    · cases ht
      exact h.opening _ rfl

end Scan

/-- A token in front of a mark is read in front of a blank as well. -/
theorem SpelledBefore.blank_for_mark {front back text cs : List Char} {kind : TokenKind}
    (h : SpelledBefore (front ++ '?' :: back) kind text cs) (back' : List Char) :
    SpelledBefore (front ++ ' ' :: back') kind text cs := by
  -- What the next character may not be, a blank is not either.
  have hhead : ∀ {p : Char → Prop}, p ' ' → (∀ c ∈ (front ++ '?' :: back).head?, p c) →
      ∀ c ∈ (front ++ ' ' :: back').head?, p c := by
    intro p hblank hall c hc
    cases front with
    | nil =>
      cases hc
      exact hblank
    | cons d front => exact hall c hc
  have hne : ∀ {quote : Char}, ' ' ≠ quote → (front ++ '?' :: back).head? ≠ some quote →
      (front ++ ' ' :: back').head? ≠ some quote := by
    intro quote hquote h hhas
    exact hhead (p := (· ≠ quote)) hquote (fun c hc heq => h (heq ▸ hc)) quote hhas rfl
  cases h with
  | word hc hcs hend => exact .word hc hcs (hhead rfl hend)
  | quoted hend => exact .quoted (hne (by decide) hend)
  | bracketed h => exact .bracketed h
  | string hend => exact .string (hne (by decide) hend)
  | whole h hend hpoint =>
    refine .whole h (hhead rfl hend) fun c t ht => ?_
    rcases front with _ | ⟨d, _ | ⟨e, front⟩⟩
    · cases ht
    · cases ht
      rfl
    · cases ht
      exact hpoint _ _ rfl
  | decimal h he hend => exact .decimal h he (hhead rfl hend)
  | symbol h =>
    rw [Scan.symbol?_blank (SpelledBefore.symbol h).ne_nil] at h
    exact .symbol h

namespace Scan

/-! ## In front of the mark -/

/-- The tokens in front of a mark are read in front of a blank. -/
theorem Reads.blank_for_mark {front back : List Char} (h : s.Reads ts stop)
    (hstop : stop.rest = front ++ '?' :: back) (back' : List Char) :
    ∃ cs, s.rest = cs ++ stop.rest ∧
      ∀ s' : Scan, s'.rest = cs ++ (front ++ ' ' :: back') →
        ∃ ts' stop', stop'.rest = front ++ ' ' :: back' ∧
          ts'.map Token.content = ts.map Token.content ∧ s'.Reads ts' stop' := by
  induction h with
  | refl s => exact ⟨[], rfl, fun s' hs' => ⟨[], s', hs', rfl, .refl s'⟩⟩
  | @step s start past stop g cs text kind ts hstart hg hno hpast hcs later ih =>
    obtain ⟨ds, hds, hlater⟩ := ih hstop
    have hrest : past.rest = (ds ++ front) ++ '?' :: back := by rw [hds, hstop, List.append_assoc]
    rw [hrest] at hcs
    rw [hpast.rest_eq, hrest] at hno
    have hlexeme := hcs.blank_for_mark back'
    have hnoGap : NoGap (cs ++ (ds ++ front ++ ' ' :: back')) := by
      rw [← List.append_assoc] at hno ⊢
      exact hno.blank_for_mark (by simp [hcs.ne_nil]) back'
    refine ⟨g ++ (cs ++ ds), ?_, fun s' hs' => ?_⟩
    · rw [hstart.rest_eq, hpast.rest_eq, hds]
      simp only [List.append_assoc]
    · have hs'' : s'.rest = g ++ (cs ++ (ds ++ front ++ ' ' :: back')) := by
        rw [hs']
        simp only [List.append_assoc]
      obtain ⟨t', past', hkind, htext, hpast', hreads⟩ :=
        reads_of_lexeme hs'' hg hnoGap hlexeme
      obtain ⟨ts', stop', hstop', hcontent, hts'⟩ :=
        hlater past' (by rw [hpast', List.append_assoc])
      refine ⟨t' :: ts', stop', hstop', ?_, hreads hts'⟩
      rw [List.map_cons, List.map_cons, hcontent, Token.content, hkind, htext]
      rfl

/-! ## Behind the mark -/

/-- Behind more of a gap the same tokens are read. -/
theorem Reads.behind_gap (h : s.Reads ts stop) {g : List Char} (hg : Gap False g)
    (hs' : s'.rest = g ++ s.rest) :
    ∃ ts' stop' g', Gap False g' ∧ stop'.rest = g' ++ stop.rest ∧
      ts'.map Token.content = ts.map Token.content ∧ s'.Reads ts' stop' := by
  induction h generalizing s' g with
  | refl s => exact ⟨[], s', g, hg, hs', rfl, .refl s'⟩
  | @step s start past stop g' cs text kind ts hstart hg' hno hpast hcs later ih =>
    rw [hstart.rest_eq, ← List.append_assoc, hpast.rest_eq] at hs'
    rw [hpast.rest_eq] at hno
    obtain ⟨t', past', hkind, htext, hpast', hreads⟩ :=
      reads_of_lexeme hs' (hg.append hg') hno hcs
    obtain ⟨ts', stop', g'', hg'', hstop', hcontent, hts'⟩ := ih .nil hpast'
    refine ⟨t' :: ts', stop', g'', hg'', hstop', ?_, hreads hts'⟩
    rw [List.map_cons, List.map_cons, hcontent, Token.content, hkind, htext]
    rfl

theorem Finishes.text_eq (h : s.Finishes t) : t.text = "" := by
  cases h
  rfl

theorem Finishes.gap (h : s.Finishes t) : Gap True s.rest := by
  obtain ⟨hstart, hg, hend⟩ := h
  rw [hstart.rest_eq, hend, List.append_nil]
  exact hg

/-! ## The mark -/

/-- A question mark is the only symbol of its kind. -/
theorem eq_of_symbol?_question {cs : List Char} {n : Nat} (h : symbol? cs = some (.question, n)) :
    n = 1 ∧ cs.head? = some '?' := by
  unfold symbol? at h
  split at h <;> cases h
  exact ⟨rfl, rfl⟩

end Scan

theorem SpelledBefore.eq_of_question {rest text cs : List Char} {kind : TokenKind}
    (h : SpelledBefore rest kind text cs) (hkind : kind = .question) : cs = ['?'] := by
  cases h with
  | @word c cs =>
    cases hkeyword : TokenKind.keyword? (String.ofList (c :: cs)) with
    | none =>
      rw [hkeyword] at hkind
      cases hkind
    | some kind =>
      rw [hkeyword, Option.getD_some] at hkind
      have hmem := TokenKind.keyword?_mem hkeyword
      rw [hkind] at hmem
      exact absurd hmem (by decide)
  | symbol h =>
    rw [hkind] at h
    obtain ⟨hlength, hhead⟩ := Scan.eq_of_symbol?_question h
    obtain ⟨c, rfl⟩ := List.length_eq_one_iff.mp hlength
    cases hhead
    rfl
  | quoted | bracketed | string | whole | decimal => cases hkind

namespace Scan

/-- A text that is read to its end has the end as its last token, behind the others. -/
theorem reads_of_drain_append {text : String}
    (h : (ofText text).drain source = (ts ++ t :: us, none)) (ht : t.kind ≠ .eof) :
    ∃ vs last stop, us = vs ++ [last] ∧ (ofText text).Reads (ts ++ t :: vs) stop ∧
      stop.Finishes last := by
  obtain ⟨front, stop, hreads, ⟨last, hfinishes, hall, -⟩ | ⟨e, -, -, hfailure⟩⟩ := reads_of_drain h
  · rcases List.eq_nil_or_concat us with rfl | ⟨vs, u, rfl⟩
    · cases (List.append_inj' hall rfl).2
      exact absurd (kind_of_finishes hfinishes) ht
    · rw [List.concat_eq_append, ← List.cons_append, ← List.append_assoc] at hall
      obtain ⟨rfl, hlast⟩ := List.append_inj' hall rfl
      cases hlast
      exact ⟨vs, _, stop, List.concat_eq_append, hreads, hfinishes⟩
  · cases hfailure

/-- A mark at the place of a token that is a mark has the tokens in front of this one in front of
it, up to a gap, and those behind this one behind it. -/
theorem Reads.around_mark {before after : List Char}
    (h : (ofText (String.ofList (before ++ '?' :: after))).Reads (ts ++ t :: us) stop)
    (ht : t.kind = .question) (hoffset : t.span.offset = byteLength before) :
    ∃ (g : List Char) (middle past : Scan),
      Gap False g ∧ middle.rest = g ++ '?' :: after ∧ past.rest = after ∧
        (ofText (String.ofList (before ++ '?' :: after))).Reads ts middle ∧
          past.Reads us stop := by
  obtain ⟨middle, hfront, hmark⟩ := h.split
  cases hmark with
  | @step _ start past _ g cs text' kind' _ hstart hg hno hpast hcs later =>
    obtain rfl := hcs.eq_of_question ht
    have hrest : start.rest = '?' :: past.rest := hpast.rest_eq
    obtain ⟨-, passed, hmiddle⟩ := hfront.tiles (Behind.ofText _)
    have hstart' := hmiddle.passes hstart
    have hplace := hstart'.toList_eq
    rw [String.toList_ofList, hrest] at hplace
    obtain ⟨-, hafter⟩ := prefix_of_byteLength_eq hplace (hoffset.symm.trans hstart'.offset_eq)
    obtain rfl : after = past.rest := (List.cons.inj hafter).2
    exact ⟨g, middle, past, hg, hstart.rest_eq.trans (congrArg (g ++ ·) hrest), rfl, hfront, later⟩

/-- Where a mark of a text is replaced by the spelling of a token with a blank on both sides, that
token is read in place of the mark, and the others are read as before. -/
theorem drain_replaced {before after spelled text : List Char} {kind : TokenKind}
    (h : (ofText (String.ofList (before ++ '?' :: after))).drain source = (ts ++ t :: us, none))
    (ht : t.kind = .question) (hoffset : t.span.offset = byteLength before)
    (hspelled : Spelling kind text spelled) :
    ∃ ts' t' us',
      (ofText (String.ofList (before ++ ' ' :: (spelled ++ ' ' :: after)))).drain source =
        (ts' ++ t' :: us', none) ∧
      t'.content = (kind, String.ofList text) ∧ ts'.map Token.content = ts.map Token.content ∧
      us'.map Token.content = us.map Token.content := by
  obtain ⟨vs, last, stop, rfl, hreads, hfinishes⟩ :=
    reads_of_drain_append h (by rw [ht]; decide)
  obtain ⟨g, middle, past, hg, hmiddle, rfl, hfront, hback⟩ := hreads.around_mark ht hoffset
  obtain ⟨cs, hcs, hreplaced⟩ := hfront.blank_for_mark hmiddle (spelled ++ ' ' :: past.rest)
  have hbefore : before = cs ++ g := by
    rw [hmiddle, ← List.append_assoc] at hcs
    exact List.append_cancel_right (String.toList_ofList.symm.trans hcs)
  -- In front of the literal, the literal itself, and what stands behind it.
  obtain ⟨ts', middle', hmiddle', hts', hfront'⟩ := hreplaced
    (ofText (String.ofList (before ++ ' ' :: (spelled ++ ' ' :: past.rest))))
    (by rw [hbefore, List.append_assoc]; exact String.toList_ofList)
  have happart : Apart (' ' :: past.rest) := by
    rintro c ⟨⟩
    rfl
  have hgap : middle'.rest = (g ++ [' ']) ++ (spelled ++ ' ' :: past.rest) := by
    rw [hmiddle', List.append_assoc, List.singleton_append]
  obtain ⟨t', past', hkind, htext, hpast', hliteral⟩ := reads_of_lexeme hgap
    (hg.append (.blank rfl .nil)) (hspelled.noGap happart) (hspelled.lexeme happart)
  obtain ⟨us', stop', g', hg', hstop', hus', hback'⟩ :=
    hback.behind_gap (.blank rfl .nil) (hpast'.trans List.singleton_append.symm)
  have hend : Gap True stop'.rest := hstop' ▸ hg'.append hfinishes.gap
  obtain ⟨last', hlast', hnone⟩ := finishes_of_gap hend
  refine ⟨ts', t', us' ++ [last'], ?_, ?_, hts', ?_⟩
  · have hdrain : drain source _ = _ := drain_of_reads (hfront'.append (hliteral hback')) hlast'
    rwa [List.append_assoc, List.cons_append] at hdrain
  · rw [Token.content, hkind, htext]
  · rw [List.map_append, List.map_append, hus', List.map_singleton, List.map_singleton,
      Token.content, Token.content, kind_of_finishes hlast', kind_of_finishes hfinishes, hnone,
      hfinishes.text_eq]

end Scan

end SelectEngine
