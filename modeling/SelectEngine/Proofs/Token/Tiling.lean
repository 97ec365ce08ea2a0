import SelectEngine.Proofs.Token.Reads
import SelectEngine.Token.Reader

/-!
# Where tokens and failures stand

`Tiles text start ts stop` says that the tokens tile the text from byte `start` to byte `stop`:
between one token and the next there is a gap, and the span of each covers exactly what its token is
written as. The tokens of a text tile it up to its end, or up to the failure; and the failure covers
what it reports (`Reader.faithful`).

A span can only be cut out of a text where both its ends lie between characters, so that a tile
never splits one.
-/

set_option autoImplicit false

namespace SelectEngine

variable {source text : String}

/-! ## Cutting -/

theorem Span.take_append {stop : Nat} (back : List Char) :
    ∀ (w : List Char) (place : Nat) (acc : List Char), stop = place + byteLength w →
      Span.cut.take stop (w ++ back) place acc = some (String.ofList (acc.reverse ++ w))
  | [], place, acc, h => by
    rw [byteLength_nil, Nat.add_zero] at h
    rw [Span.cut.take.eq_def]
    simp only [h, if_true, List.append_nil]
  | c :: w, place, acc, h => by
    have hc := c.utf8Size_pos
    rw [byteLength_cons] at h
    have hne : place ≠ stop := by omega
    have hlt : place < stop := by omega
    rw [List.cons_append, Span.cut.take.eq_def]
    simp only [hne, hlt, if_false, if_true]
    rw [Span.take_append back w _ _ (by omega), List.reverse_cons, List.append_assoc,
      List.singleton_append]

theorem Span.go_append {start stop : Nat} (cs : List Char) :
    ∀ (front : List Char) (place : Nat), start = place + byteLength front →
      Span.cut.go start stop (front ++ cs) place = Span.cut.take stop cs start []
  | [], place, h => by
    rw [byteLength_nil, Nat.add_zero] at h
    rw [List.nil_append, Span.cut.go.eq_def]
    simp only [h, if_true]
  | c :: front, place, h => by
    have hc := c.utf8Size_pos
    rw [byteLength_cons] at h
    have hne : place ≠ start := by omega
    have hlt : place < start := by omega
    rw [List.cons_append, Span.cut.go.eq_def]
    simp only [hne, hlt, if_false, if_true]
    exact Span.go_append cs front _ (by omega)

/-- What stands between two parts of a text is cut out by their lengths. -/
theorem Span.cut_append {front w back : List Char} (h : text.toList = front ++ (w ++ back)) :
    Span.cut (byteLength front) (byteLength front + byteLength w) text
      = some (String.ofList w) := by
  rw [Span.cut, h, Span.go_append _ front 0 (Nat.zero_add _).symm,
    Span.take_append back w _ [] rfl, List.reverse_nil, List.nil_append]

/-! ## What tokens cover -/

/-- What a token stands for in the text: its text, or a quoted form of it. -/
def Token.WrittenAs (t : Token) (w : String) : Prop :=
  match t.kind with
  | .string => w.toList = '\'' :: (doubled '\'' t.text.toList ++ ['\''])
  | .quotedIdent =>
    w.toList = '"' :: (doubled '"' t.text.toList ++ ['"']) ∨
      ']' ∉ t.text.toList ∧ w.toList = '[' :: (t.text.toList ++ [']'])
  | _ => w = t.text

/-- The token stands in the text behind a gap that starts at byte `start`. -/
structure Token.StandsIn (text : String) (start : Nat) (t : Token) : Prop where
  start_le : start ≤ t.span.offset
  gap : ∃ g, Span.cut start t.span.offset text = some g ∧ Gap (t.kind = .eof) g.toList
  written : ∃ w, t.span.slice text = some w ∧ t.WrittenAs w
  length_pos : t.kind ≠ .eof → 0 < t.span.length

/-- The tokens stand one behind the other from byte `start` to byte `stop`. -/
inductive Tiles (text : String) : Nat → List Token → Nat → Prop
  | nil (start : Nat) : Tiles text start [] start
  | cons {start stop : Nat} {t : Token} {ts : List Token} (ht : t.StandsIn text start)
      (hts : Tiles text t.span.stop ts stop) : Tiles text start (t :: ts) stop

/-- The spans grow and share no byte. -/
def Ascending (ts : List Token) : Prop :=
  ts.Pairwise fun t u => t.span.stop ≤ u.span.offset

theorem Tiles.append {start middle stop : Nat} {ts us : List Token}
    (hts : Tiles text start ts middle) (hus : Tiles text middle us stop) :
    Tiles text start (ts ++ us) stop := by
  induction hts with
  | nil start => exact hus
  | cons ht hts ih => exact .cons ht (ih hus)

theorem Tiles.start_le {start stop : Nat} {ts : List Token} (h : Tiles text start ts stop) :
    ∀ t ∈ ts, start ≤ t.span.offset := by
  induction h with
  | nil start => exact nofun
  | cons ht hts ih =>
    refine List.forall_mem_cons.mpr ⟨ht.start_le, fun u hu => ?_⟩
    have hstop := ih u hu
    have hstart := ht.start_le
    unfold Span.stop at hstop
    omega

theorem Tiles.ascending {start stop : Nat} {ts : List Token} (h : Tiles text start ts stop) :
    Ascending ts := by
  induction h with
  | nil start => exact .nil
  | cons ht hts ih => exact .cons hts.start_le ih

/-- The delimiters that may be left open, by the name that their failure gives them. -/
def delimiters : List (String × String) :=
  [("string literal", "'"), ("quoted identifier", "\""), ("bracketed identifier", "["),
    ("block comment", "/*")]

/-- The failure covers what it reports, behind a gap that starts at byte `start`: an open delimiter
and all behind it, or one character. -/
inductive Error.StandsIn (text : String) (start : Nat) : Error → Prop
  | unterminated {what opening : String} {l : Location} {g inside : String}
      (hwhat : (what, opening) ∈ delimiters) (hgap : Span.cut start l.offset text = some g)
      (hg : Gap False g.toList)
      (hcut : Span.cut l.offset text.utf8ByteSize text = some (opening ++ inside))
      (hend : l.offset + l.length = text.utf8ByteSize) :
      Error.StandsIn text start (.unterminated what l)
  | invalidCharacter {c : Char} {l : Location} {g : String}
      (hgap : Span.cut start l.offset text = some g) (hg : Gap False g.toList)
      (hcut : Span.cut l.offset (l.offset + l.length) text = some (String.singleton c)) :
      Error.StandsIn text start (.invalidCharacter c l)

/-! ## Places in a text -/

/-- The place stands in the text behind the characters. -/
structure Scan.Behind (text : String) (front : List Char) (s : Scan) : Prop where
  toList_eq : text.toList = front ++ s.rest
  offset_eq : s.offset = byteLength front

namespace Scan.Behind

variable {front g cs : List Char} {s start past : Scan}

theorem ofText (text : String) : Scan.Behind text [] (Scan.ofText text) := ⟨rfl, rfl⟩

theorem passes (h : s.Behind text front) (hpast : s.Passes cs past) :
    past.Behind text (front ++ cs) where
  toList_eq := by rw [h.toList_eq, hpast.rest_eq, List.append_assoc]
  offset_eq := by rw [hpast.offset_eq, h.offset_eq, byteLength_append]

/-- What is passed over is cut out of the text between the two places. -/
theorem cut (h : s.Behind text front) (hpast : s.Passes cs past) :
    Span.cut s.offset past.offset text = some (String.ofList cs) := by
  rw [hpast.offset_eq, h.offset_eq]
  exact Span.cut_append (by rw [h.toList_eq, hpast.rest_eq])

theorem slice (h : s.Behind text front) (hpast : s.Passes cs past) :
    (s.spanTo past).slice text = some (String.ofList cs) := by
  rw [hpast.spanTo_eq, Span.slice, Span.stop, ← hpast.offset_eq]
  exact h.cut hpast

theorem offset_add (h : s.Behind text front) :
    s.offset + byteLength s.rest = text.utf8ByteSize := by
  rw [h.offset_eq, ← byteLength_append, ← h.toList_eq, byteLength_toList]

end Scan.Behind

/-! ## Tiles -/

theorem SpelledBefore.writtenAs {rest text cs : List Char} {kind : TokenKind} (span : Span)
    (h : SpelledBefore rest kind text cs) :
    Token.WrittenAs ⟨kind, String.ofList text, span⟩ (String.ofList cs) := by
  have hself : ∀ {kind : TokenKind} {text : List Char}, kind ≠ .string → kind ≠ .quotedIdent →
      Token.WrittenAs ⟨kind, String.ofList text, span⟩ (String.ofList text) := by
    intro kind text hstring hquoted
    unfold Token.WrittenAs
    split
    · next heq => exact absurd heq hstring
    · next heq => exact absurd heq hquoted
    · rfl
  cases h with
  | @word c cs =>
    have hplain : (TokenKind.keyword? (String.ofList (c :: cs))).getD .ident ≠ .string ∧
        (TokenKind.keyword? (String.ofList (c :: cs))).getD .ident ≠ .quotedIdent := by
      cases hkeyword : TokenKind.keyword? (String.ofList (c :: cs)) with
      | none => exact ⟨nofun, nofun⟩
      | some kind =>
        have hall : ∀ kind ∈ TokenKind.keywords, kind ≠ .string ∧ kind ≠ .quotedIdent := by decide
        exact hall kind (TokenKind.keyword?_mem hkeyword)
    exact hself hplain.1 hplain.2
  | quoted => exact Or.inl (by simp)
  | bracketed h => exact Or.inr (by simpa using h)
  | string => show _ = _; simp
  | whole => exact hself nofun nofun
  | decimal => exact hself nofun nofun
  | symbol h =>
    obtain ⟨-, hstring, hquoted⟩ := Scan.symbol?_kind h
    exact hself hstring hquoted

/-- The tokens that are read tile what they are read from. -/
theorem Scan.Reads.tiles {s stop : Scan} {ts : List Token} (h : s.Reads ts stop) :
    ∀ {front : List Char}, s.Behind text front →
      Tiles text s.offset ts stop.offset ∧ ∃ front, stop.Behind text front := by
  induction h with
  | refl s => exact fun hs => ⟨.nil _, _, hs⟩
  | @step s start past stop g cs text' kind ts hstart hg hno hpast hcs later ih =>
    intro front hs
    have hstart' := hs.passes hstart
    obtain ⟨htiles, hstop⟩ := ih (hstart'.passes hpast)
    have hbytes := byteLength_pos hcs.ne_nil
    have hspan := hpast.spanTo_eq
    refine ⟨.cons ⟨?_, ⟨_, hs.cut hstart, ?_⟩, ?_, ?_⟩ ?_, hstop⟩
    · show s.offset ≤ (start.spanTo past).offset
      rw [hspan, hstart.offset_eq]
      exact Nat.le_add_right _ _
    · rw [String.toList_ofList]
      exact hg.mono False.elim
    · exact ⟨_, hstart'.slice hpast, hcs.writtenAs _⟩
    · intro _
      show 0 < (start.spanTo past).length
      rw [hspan]
      exact hbytes
    · show Tiles text (start.spanTo past).stop ts stop.offset
      rw [hspan, Span.stop, ← hpast.offset_eq]
      exact htiles

/-- The end of the text tiles what is left of it. -/
theorem Scan.Finishes.tiles {s : Scan} {t : Token} {front : List Char} (h : s.Finishes t)
    (hs : s.Behind text front) :
    Tiles text s.offset [t] text.utf8ByteSize ∧ t.span.offset = text.utf8ByteSize ∧
      t.span.length = 0 ∧ t.text = "" := by
  cases h with
  | @mk start g hstart hg hend =>
    have hstart' := hs.passes hstart
    have hoffset : start.offset = text.utf8ByteSize := by
      rw [← hstart'.offset_add, hend, byteLength_nil, Nat.add_zero]
    have hspan : start.spanTo start = ⟨start.offset, 0, start.line.toNat⟩ :=
      (Passes.refl start).spanTo_eq
    refine ⟨.cons ⟨?_, ⟨_, hs.cut hstart, ?_⟩, ⟨_, hstart'.slice (.refl start), rfl⟩, ?_⟩ ?_,
      hoffset, by show (start.spanTo start).length = 0; rw [hspan], rfl⟩
    · show s.offset ≤ start.offset
      rw [hstart.offset_eq]
      exact Nat.le_add_right _ _
    · rw [String.toList_ofList]
      exact hg.mono fun _ => rfl
    · exact fun hne => absurd rfl hne
    · show Tiles text (start.spanTo start).stop [] text.utf8ByteSize
      rw [hspan, Span.stop, hoffset]
      exact .nil _

/-- The failure that is met covers what it reports. -/
theorem Scan.Fails.standsIn {s : Scan} {e : Error} {front : List Char} (h : s.Fails source e)
    (hs : s.Behind text front) : e.StandsIn text s.offset := by
  cases h with
  | @mk start g _ hstart hg hfault =>
    have hstart' := hs.passes hstart
    have hgap := hs.cut hstart
    have hg' : Gap False (String.ofList g).toList := String.toList_ofList ▸ hg
    -- An open delimiter is covered together with all that is left of the text.
    have hopen : ∀ opening {inside : List Char}, start.rest = opening ++ inside →
        Span.cut start.offset text.utf8ByteSize text =
          some (String.ofList opening ++ String.ofList inside) := by
      intro opening inside hrest
      have hall : start.rest = start.rest ++ [] := (List.append_nil _).symm
      obtain ⟨past, hpast, hnil⟩ := Passes.exists_of_rest start.rest hall
      have hcut := hstart'.cut hpast
      rw [hpast.offset_eq, hstart'.offset_add] at hcut
      rw [hcut, hrest, String.ofList_append]
    cases hfault with
    | @string inside hrest =>
      have hwhat : ("string literal", "'") ∈ delimiters := by decide
      exact .unterminated hwhat hgap hg' (hopen ['\''] hrest) hstart'.offset_add
    | @quoted inside hrest =>
      have hwhat : ("quoted identifier", "\"") ∈ delimiters := by decide
      exact .unterminated hwhat hgap hg' (hopen ['"'] hrest) hstart'.offset_add
    | @bracketed inside hrest =>
      have hwhat : ("bracketed identifier", "[") ∈ delimiters := by decide
      exact .unterminated hwhat hgap hg' (hopen ['['] hrest) hstart'.offset_add
    | @comment inside hrest =>
      have hwhat : ("block comment", "/*") ∈ delimiters := by decide
      exact .unterminated hwhat hgap hg' (hopen ['/', '*'] hrest) hstart'.offset_add
    | @character c inside hrest =>
      have hone := hstart'.cut (.single hrest)
      rw [(Passes.single hrest).offset_eq, byteLength_cons, byteLength_nil, Nat.add_zero,
        ← String.singleton_eq_ofList] at hone
      exact .invalidCharacter hgap hg' hone

/-! ## Handing out -/

namespace Reader

theorem after_finished {r : Reader} (h : r.finished = true) : ∀ n, r.after source n = r
  | 0 => rfl
  | n + 1 => by
    have hstay : (r.next? source).2 = r := by rw [next?, if_pos h]
    rw [after, hstay, after_finished h n]

theorem next?_finished {r : Reader} (h : r.finished = true) : (r.next? source).1 = none := by
  rw [next?, if_pos h]

/-- The reader hands out the tokens, then the failure if there is one, then nothing. -/
theorem next?_after {s : Scan} {ts : List Token} {failure : Option Error}
    (h : s.drain source = (ts, failure)) (n : Nat) :
    (((⟨s, false⟩ : Reader).after source n).next? source).1 =
      (ts.map Except.ok ++ failure.toList.map Except.error)[n]? := by
  -- A reader that is finished answers nothing from then on.
  have hdone : ∀ (past : Scan) (n : Nat),
      (((⟨past, true⟩ : Reader).after source n).next? source).1 = none := by
    intro past n
    rw [after_finished rfl n]
    exact next?_finished rfl
  induction ts generalizing s n with
  | nil =>
    obtain ⟨e, past, hnext, rfl⟩ := Scan.next_of_drain_nil h
    have hfirst : (⟨s, false⟩ : Reader).next? source = (some (.error e), ⟨past, true⟩) := by
      simp only [next?, hnext, Bool.false_eq_true, if_false]
    cases n with
    | zero => rw [after, hfirst]; rfl
    | succ n => rw [after, hfirst, hdone]; rfl
  | cons t ts ih =>
    obtain ⟨past, hnext, ⟨heof, rfl, rfl⟩ | ⟨hne, hpast⟩⟩ := Scan.next_of_drain_cons h
    · have hfirst : (⟨s, false⟩ : Reader).next? source = (some (.ok t), ⟨past, true⟩) := by
        simp only [next?, hnext, Bool.false_eq_true, if_false, heof, beq_self_eq_true]
      cases n with
      | zero => rw [after, hfirst]; rfl
      | succ n => rw [after, hfirst, hdone]; rfl
    · have hfirst : (⟨s, false⟩ : Reader).next? source = (some (.ok t), ⟨past, false⟩) := by
        simp only [next?, hnext, Bool.false_eq_true, if_false, beq_eq_false_iff_ne.mpr hne]
      cases n with
      | zero => rw [after, hfirst]; rfl
      | succ n => rw [after, hfirst, ih hpast n]; rfl

/-- The reader's tokens tile the text. Where all of it is read, the last token and no other is its
end, with an empty span. Otherwise the failure is handed out last, and it covers what it reports. -/
theorem faithful (source text : String) :
    ∃ ts stop, Tiles text 0 ts stop ∧ Ascending ts ∧ (∀ t ∈ ts, t.kind ≠ .eof) ∧
      ((∃ t, tokenize source text = .ok (ts ++ [t]) ∧ Tiles text stop [t] text.utf8ByteSize ∧
          Ascending (ts ++ [t]) ∧ t.kind = .eof ∧ t.span.offset = text.utf8ByteSize ∧
          t.span.length = 0 ∧
          ∀ n, (((ofText text).after source n).next? source).1 = ((ts ++ [t]).map .ok)[n]?) ∨
        ∃ e, tokenize source text = .error e ∧ e.StandsIn text stop ∧
          ∀ n, (((ofText text).after source n).next? source).1 =
            (ts.map .ok ++ [.error e])[n]?) := by
  obtain ⟨all, failure, hdrain⟩ :
      ∃ all failure, (Scan.ofText text).drain source = (all, failure) := ⟨_, _, rfl⟩
  obtain ⟨ts, stop, hreads, houtcome⟩ := Scan.reads_of_drain hdrain
  obtain ⟨htiles, front, hstop⟩ := hreads.tiles (Scan.Behind.ofText text)
  have hanswers := next?_after hdrain
  refine ⟨ts, stop.offset, htiles, htiles.ascending, hreads.kind_ne, ?_⟩
  obtain ⟨t, hfinishes, rfl, rfl⟩ | ⟨e, hfails, rfl, rfl⟩ := houtcome
  · obtain ⟨hlast, hoffset, hlength, -⟩ := hfinishes.tiles hstop
    refine Or.inl ⟨t, ?_, hlast, (htiles.append hlast).ascending, Scan.kind_of_finishes hfinishes,
      hoffset, hlength, fun n => ?_⟩
    · rw [tokenize, hdrain]
    · rw [List.map_append]
      exact (hanswers n).trans (by simp)
  · refine Or.inr ⟨e, ?_, hfails.standsIn hstop, hanswers⟩
    rw [tokenize, hdrain]

end Reader

end SelectEngine
