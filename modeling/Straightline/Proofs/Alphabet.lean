/-
  Where a scan fails.

  Letters, digits, blanks and marks make up the alphabet of texts.  A scan fails
  at the first character outside of it, and for no other reason.  Such a
  character ends whatever blanks, word or number stand before it; so up to
  there the scan has found what it finds in the text before the character.

  * `InAlphabet`: the characters that a text may have;
  * `Cursor.followedBy`: a cursor with more text behind;
  * `Cursor.scan_followedBy`: what a scan does if a foreign character follows;
  * `Symbols.registerTokens_eq`: the symbol table that comes of some tokens;
  * `scan_fails_at_first_foreign_character`: whole texts.
-/
import Straightline.Proofs.Occurrences
import Straightline.Proofs.Segmentation

namespace Straightline

/-! ## The alphabet -/

/-- The characters that a text may have: letters, digits, blanks and marks. -/
def InAlphabet (c : Char) : Prop :=
  IsLetterOrDigit c ∨ IsBlank c ∨ c ∈ marks.map Prod.fst

instance (c : Char) : Decidable (IsBlank c) :=
  inferInstanceAs (Decidable (c = ' ' ∨ c = '\t' ∨ c = '\r' ∨ c = '\n'))

instance (c : Char) : Decidable (InAlphabet c) :=
  inferInstanceAs (Decidable (IsLetterOrDigit c ∨ IsBlank c ∨ c ∈ marks.map Prod.fst))

theorem mem_map_fst_marks {c : Char} : c ∈ marks.map Prod.fst ↔ ∃ kind, markOf? c = some kind := by
  simp only [List.mem_map, Prod.exists, exists_and_right, exists_eq_right, markOf?_iff]

/-- Lexemes are made of characters of the alphabet. -/
theorem Denotes.inAlphabet {l : List Char} {kind : Terminal} {value : String}
    (h : Denotes l kind value) : ∀ b ∈ l, InAlphabet b := by
  rcases denotes_iff.1 h with ⟨hword, -⟩ | ⟨hnumber, -⟩ | ⟨d, rfl, hmark, -⟩
  · exact fun b hb => .inl (hword.isLetterOrDigit b hb)
  · exact fun b hb => .inl (.inr (hnumber.2 b hb))
  · intro b hb
    rw [List.mem_singleton.1 hb]
    exact .inr (.inr (mem_map_fst_marks.2 ⟨kind, hmark⟩))

namespace Cursor

/-- A character outside of the alphabet starts no token. -/
theorem token?_of_foreign {c : Cursor} {a : Char} {rest : List Char} (hrest : c.rest = a :: rest)
    (ha : ¬ InAlphabet a) : c.token? = none := by
  simp only [InAlphabet, not_or, mem_map_fst_marks, not_exists] at ha
  obtain ⟨hword, -, hmark⟩ := ha
  have hstart : ¬ isWordStart a = true := fun h => hword (.inl (isWordStart_iff.1 h))
  have hdigit : ¬ a.isDigit = true := fun h => hword (.inr (isDigit_iff.1 h))
  simp only [token?, hrest, hstart, hdigit, Option.eq_none_iff_forall_ne_some.2 hmark]
  rfl

/-- Every other character but a blank starts one. -/
theorem exists_token?_of_inAlphabet {c : Cursor} {a : Char} {rest : List Char}
    (hrest : c.rest = a :: rest) (ha : InAlphabet a) (hblank : ¬ IsBlank a) :
    ∃ found, c.token? = some found := by
  rcases ha with hletter | hblank' | hmark
  · by_cases hstart : isWordStart a = true
    · simp [token?, hrest, hstart]
    · have hdigit : a.isDigit = true :=
        isDigit_iff.2 (hletter.resolve_left fun h => hstart (isWordStart_iff.2 h))
      simp [token?, hrest, hstart, hdigit]
  · exact absurd hblank' hblank
  · obtain ⟨kind, hkind⟩ := mem_map_fst_marks.1 hmark
    have hnot := (not_isLetterOrDigit_of_markOf? hkind).1
    have hstart : ¬ isWordStart a = true := fun h => hnot (.inl (isWordStart_iff.1 h))
    have hdigit : ¬ a.isDigit = true := fun h => hnot (.inr (isDigit_iff.1 h))
    simp [token?, hrest, hstart, hdigit, hkind]

/-- Where blanks have been skipped and no token starts, there is a foreign
    character or nothing: a character of the alphabet would be a blank. -/
theorem not_inAlphabet_of_token?_eq_none {c : Cursor} {b : Char} {rest : List Char}
    (htoken : c.skipBlanks.token? = none) (hrest : c.skipBlanks.rest = b :: rest) :
    ¬ InAlphabet b := by
  intro hb
  have hblank : isBlank b = false :=
    eq_false_of_mem_head?_dropWhile (l := c.rest) (congrArg List.head? hrest)
  obtain ⟨found, hfound⟩ := exists_token?_of_inAlphabet hrest hb
    (fun h => Bool.eq_false_iff.1 hblank (isBlank_iff.2 h))
  cases htoken.symm.trans hfound

/-! ## Text behind a cursor -/

/-- A cursor with more text behind. -/
def followedBy (c : Cursor) (tail : List Char) : Cursor :=
  { c with rest := c.rest ++ tail }

variable {c : Cursor} {a : Char} {tail : List Char}

/-- A run of characters ends where the text did, if the next character does not
    belong to it. -/
theorem takeWhile_followedBy {p : Char → Bool} (ha : p a = false) :
    (c.followedBy (a :: tail)).takeWhile p =
      ((c.takeWhile p).1, (c.takeWhile p).2.followedBy (a :: tail)) := by
  have hrest : (c.followedBy (a :: tail)).rest =
      c.rest.takeWhile p ++ (c.rest.dropWhile p ++ a :: tail) := by
    rw [← List.append_assoc, List.takeWhile_append_dropWhile]
    rfl
  have hend : ∀ b ∈ (c.rest.dropWhile p ++ a :: tail).head?, p b = false := by
    intro b hb
    rcases hdrop : c.rest.dropWhile p with _ | ⟨d, rest⟩
    · rw [hdrop] at hb
      cases hb
      exact ha
    · rw [hdrop] at hb
      cases hb
      exact eq_false_of_mem_head?_dropWhile (l := c.rest) (by rw [hdrop]; rfl)
  exact takeWhile_of_append hrest (fun b hb => List.mem_takeWhile_imp hb) hend

variable (ha : ¬ InAlphabet a)
include ha

theorem skipBlanks_followedBy :
    (c.followedBy (a :: tail)).skipBlanks = c.skipBlanks.followedBy (a :: tail) := by
  have hblank : isBlank a = false :=
    Bool.eq_false_iff.2 fun h => ha (.inr (.inl (isBlank_iff.1 h)))
  rw [skipBlanks, takeWhile_followedBy hblank, skipBlanks]

/-- The token at a cursor does not change if a foreign character follows. -/
theorem token?_followedBy :
    (c.followedBy (a :: tail)).token? =
      c.token?.map fun found => (found.1, found.2.followedBy (a :: tail)) := by
  have hword : isWordChar a = false :=
    Bool.eq_false_iff.2 fun h => ha (.inl (isWordChar_iff.1 h))
  have hdigit : a.isDigit = false :=
    Bool.eq_false_iff.2 fun h => ha (.inl (.inr (isDigit_iff.1 h)))
  rcases hrest : c.rest with _ | ⟨b, rest⟩
  · have hnone : c.token? = none := by rw [token?, hrest]
    have hrest' : (c.followedBy (a :: tail)).rest = a :: tail := by
      rw [followedBy, hrest]
      rfl
    rw [hnone, token?_of_foreign hrest' ha]
    rfl
  · have hrest' : (c.followedBy (a :: tail)).rest = b :: (rest ++ a :: tail) := by
      rw [followedBy, hrest]
      rfl
    have hplace : (c.followedBy (a :: tail)).place = c.place := rfl
    simp only [token?, hrest, hrest', takeWord, takeDigits, takeWhile_followedBy hword,
      takeWhile_followedBy hdigit, hplace]
    split
    · rfl
    · split
      · rfl
      · cases markOf? b with
        | none => rfl
        | some kind => simp [followedBy]

omit ha in
theorem scan_of_token?_eq_none {rest : List Char} (hrest : c.skipBlanks.rest = a :: rest)
    (htoken : c.skipBlanks.token? = none) :
    c.scan = ⟨[], c.skipBlanks, some ⟨a, c.skipBlanks.place⟩⟩ := by
  rw [scan]
  split
  · next h => cases htoken.symm.trans h
  · rw [hrest]

omit ha in
/-- A token leads past its characters. -/
theorem eq_past_of_token? {c' : Cursor} {t : Token} (h : c.token? = some (t, c')) :
    ∃ l, c.rest = l ++ c'.rest ∧ Denotes l t.kind t.value ∧ c' = c.past l c'.rest := by
  obtain ⟨l, hrest, hlexeme, hstops⟩ := stops_of_token? h
  have htoken := token?_of_stops hrest hlexeme hstops
  rw [h, Option.some.injEq, Prod.mk.injEq] at htoken
  exact ⟨l, hrest, hlexeme, htoken.2⟩

omit ha in
theorem mem_of_mem_skipBlanks {b : Char} (h : b ∈ c.skipBlanks.rest) : b ∈ c.rest :=
  (List.dropWhile_sublist isBlank).mem h

omit ha in
theorem foldl_after_skipBlanks :
    c.skipBlanks.rest.foldl Place.after c.skipBlanks.place = c.rest.foldl Place.after c.place := by
  show (c.rest.dropWhile isBlank).foldl _ ((c.rest.takeWhile isBlank).foldl _ c.place) = _
  rw [← List.foldl_append, List.takeWhile_append_dropWhile]

/-- **A foreign character ends the scan** of the text before it: that text is
    scanned without a failure, and the tokens found are its tokens, all but the
    end mark. -/
theorem scan_followedBy (hc : ∀ b ∈ c.rest, InAlphabet b) :
    c.scan.error? = none ∧
      (c.followedBy (a :: tail)).scan.error? = some ⟨a, c.rest.foldl Place.after c.place⟩ ∧
      c.scan.tokens = (c.followedBy (a :: tail)).scan.tokens ++
        [⟨.endMark, "", c.rest.foldl Place.after c.place⟩] := by
  fun_induction scan c with
  | case1 c t c' htoken found ih =>
    obtain ⟨l, hrest, -, hpast⟩ := eq_past_of_token? htoken
    have hmem : ∀ b ∈ c'.rest, InAlphabet b := fun b hb =>
      hc b (mem_of_mem_skipBlanks (hrest ▸ List.mem_append_right l hb))
    have hplace : c'.rest.foldl Place.after c'.place = c.rest.foldl Place.after c.place := by
      rw [← foldl_after_skipBlanks (c := c), hrest, List.foldl_append, hpast]
      rfl
    have hfollowed : (c.followedBy (a :: tail)).skipBlanks.token? =
        some (t, c'.followedBy (a :: tail)) := by
      rw [skipBlanks_followedBy ha, token?_followedBy ha, htoken]
      rfl
    obtain ⟨hnone, hsome, htokens⟩ := ih hmem
    rw [scan_of_token? hfollowed, ← hplace]
    exact ⟨hnone, hsome, congrArg (t :: ·) htokens⟩
  | case2 c htoken hrest =>
    have hplace : c.skipBlanks.place = c.rest.foldl Place.after c.place := by
      rw [← foldl_after_skipBlanks (c := c), hrest, List.foldl_nil]
    have hskip : (c.followedBy (a :: tail)).skipBlanks = c.skipBlanks.followedBy (a :: tail) :=
      skipBlanks_followedBy ha
    have hrest' : (c.followedBy (a :: tail)).skipBlanks.rest = a :: tail := by
      rw [hskip, followedBy, hrest]
      rfl
    rw [scan_of_token?_eq_none hrest' (token?_of_foreign hrest' ha), hskip, ← hplace]
    exact ⟨rfl, rfl, rfl⟩
  | case3 c htoken b rest hrest =>
    have hmem : InAlphabet b := hc b (mem_of_mem_skipBlanks (hrest ▸ List.mem_cons_self))
    exact absurd hmem (not_inAlphabet_of_token?_eq_none htoken hrest)

omit ha in
/-- Without foreign characters a scan does not fail. -/
theorem scan_error?_eq_none (hc : ∀ b ∈ c.rest, InAlphabet b) : c.scan.error? = none := by
  -- The same is true if one follows, whichever it is.
  obtain ⟨hnone, -⟩ : _ ∧ (c.followedBy ['%']).scan.error? = _ ∧ _ :=
    scan_followedBy (by decide) hc
  exact hnone

end Cursor

/-! ## Symbol tables -/

/-- The names that are new to a symbol table, each once, in the order in which
    they first occur. -/
def Symbols.newNames (s : Symbols) (names : List String) : List String :=
  names.eraseDups.filter fun x => !s.contains x

theorem Symbols.newNames_concat (s : Symbols) (front : List String) (last : String) :
    s.newNames (front ++ [last]) =
      if s.contains last = true ∨ last ∈ front then s.newNames front
      else s.newNames front ++ [last] := by
  rw [newNames, List.eraseDups_append, List.filter_append]
  by_cases hlast : last ∈ front
  · simp [newNames, List.removeAll, hlast]
  · by_cases hold : s.contains last = true
    · simp [newNames, List.removeAll, hlast, hold, List.eraseDups_cons]
    · simp [newNames, List.removeAll, hlast, hold, List.eraseDups_cons]

theorem Symbols.foldl_register_eq (s : Symbols) (names : List String) :
    names.foldl register s = ⟨s.entries ++ (s.newNames names).map fun x => ⟨x, none⟩⟩ := by
  -- From the end, since a name is new or not by those before it.
  induction names using List.reverseRecOn with
  | nil => simp [newNames]
  | append_singleton front last ih =>
    have hcontains : contains ⟨s.entries ++ (s.newNames front).map fun x => ⟨x, none⟩⟩ last = true ↔
        s.contains last = true ∨ last ∈ front := by
      have hnew : last ∈ s.newNames front ↔ last ∈ front ∧ ¬ s.contains last = true := by
        simp [newNames]
      have hor : contains ⟨s.entries ++ (s.newNames front).map fun x => ⟨x, none⟩⟩ last = true ↔
          s.contains last = true ∨ last ∈ s.newNames front := by
        simp [contains]
      rw [hor, hnew]
      tauto
    rw [List.foldl_append, ih, newNames_concat, List.foldl_cons, List.foldl_nil, register]
    by_cases hold : s.contains last = true ∨ last ∈ front
    · rw [if_pos (hcontains.2 hold), if_pos hold]
    · rw [if_neg (hcontains.not.2 hold), if_neg hold]
      simp [append]

/-- **The table that comes of some tokens**: the entries that were there, and
    behind them the new identifiers, without types. -/
theorem Symbols.registerTokens_eq (s : Symbols) (tokens : List Token) :
    s.registerTokens tokens = ⟨s.entries ++
      (s.newNames ((identifiers tokens).map Token.value)).map fun x => ⟨x, none⟩⟩ := by
  rw [← foldl_register_eq, List.foldl_map]
  rfl

/-! ## Whole texts -/

theorem Scanner.tokenize_of_error? {s : Scanner} {e : ScanError}
    (h : s.cursor.scan.error? = some e) : s.tokenize.2 = .error e := by
  simp only [tokenize, h]

/-- The scanner after a scan, whether it has failed or not. -/
theorem Scanner.fst_tokenize (s : Scanner) :
    s.tokenize.1 = ⟨s.cursor.scan.cursor, s.cursor.scan.tokens,
      s.symbols.map (·.registerTokens s.cursor.scan.tokens)⟩ := by
  unfold tokenize
  dsimp only
  split <;> rfl

theorem Scanner.tokens_tokenize (s : Scanner) : s.tokenize.1.tokens = s.cursor.scan.tokens := by
  rw [fst_tokenize]

theorem Scanner.symbols_tokenize (s : Scanner) :
    s.tokenize.1.symbols = s.symbols.map (·.registerTokens s.cursor.scan.tokens) := by
  rw [fst_tokenize]

/-- The scan of a text whose first foreign character is `c`. -/
theorem Scanner.scan_of_first_foreign {text : String} {before after : List Char} {c : Char}
    (symbols : Option Symbols) (htext : text.toList = before ++ c :: after)
    (hbefore : ∀ b ∈ before, InAlphabet b) (hc : ¬ InAlphabet c) :
    let found := (start text symbols).cursor.scan
    let prior := (start (String.ofList before) symbols).cursor.scan
    found.error? = some ⟨c, .behind before⟩ ∧ prior.error? = none ∧
      prior.tokens = found.tokens ++ [⟨.endMark, "", .behind before⟩] := by
  let prior := (start (String.ofList before) symbols).cursor
  have hrest : prior.rest = before := String.toList_ofList
  have hcursor : (start text symbols).cursor = prior.followedBy (c :: after) := by
    rw [Cursor.followedBy, hrest, ← htext]
    rfl
  have hplace : prior.rest.foldl Place.after prior.place = .behind before := by
    rw [hrest]
    exact Place.foldl_after_behind [] before
  obtain ⟨hnone, hsome, htokens⟩ : _ ∧ (prior.followedBy (c :: after)).scan.error? = _ ∧ _ :=
    Cursor.scan_followedBy hc (hrest ▸ hbefore)
  rw [← hcursor, hplace] at hsome htokens
  exact ⟨hsome, hnone, htokens⟩

/-- **A scan fails at the first character outside of the alphabet.**  For every
    text and every symbol table, it fails if and only if there is such a
    character.  Let `c` be the first one, behind the characters `before`.  Then:

    * the error names `c` and its line and column;
    * the tokens found are those of the text `before` without its end mark;
    * the symbol table is the one that scanning `before` leaves: the entries
      that were there, and behind them the new identifiers, without types, in
      the order in which they first occur. -/
theorem scan_fails_at_first_foreign_character (text : String) (symbols : Option Symbols) :
    let scanner := Scanner.start text symbols
    ((∃ e, scanner.tokenize.2 = .error e) ↔ ∃ c ∈ text.toList, ¬ InAlphabet c) ∧
    ∀ before c after, text.toList = before ++ c :: after → (∀ b ∈ before, InAlphabet b) →
      ¬ InAlphabet c →
      let prior := Scanner.start (String.ofList before) symbols
      scanner.tokenize.2 = .error ⟨c, .behind before⟩ ∧
      prior.tokenize.2 = .ok (scanner.tokenize.1.tokens ++ [⟨.endMark, "", .behind before⟩]) ∧
      scanner.tokenize.1.symbols = prior.tokenize.1.symbols ∧
      scanner.tokenize.1.symbols = symbols.map fun s =>
        ⟨s.entries ++ (s.newNames ((identifiers scanner.tokenize.1.tokens).map Token.value)).map
          fun x => ⟨x, none⟩⟩ := by
  intro scanner
  refine ⟨⟨?_, ?_⟩, ?_⟩
  · rintro ⟨e, he⟩
    by_contra hforeign
    have hnone : scanner.cursor.scan.error? = none :=
      Cursor.scan_error?_eq_none fun b hb => by
        by_contra hb'
        exact hforeign ⟨b, hb, hb'⟩
    cases he.symm.trans (Scanner.tokenize_eq_ok_iff.2 ⟨hnone, rfl⟩)
  · rintro ⟨c, hmem, hc⟩
    obtain ⟨first, hfirst⟩ := Option.isSome_iff_exists.1
      (List.find?_isSome (p := fun c => !decide (InAlphabet c)).2 ⟨c, hmem, by simpa using hc⟩)
    obtain ⟨hfirst, before, after, htext, hbefore⟩ := List.find?_eq_some_iff_append.1 hfirst
    have hscan := Scanner.scan_of_first_foreign symbols htext
      (fun b hb => by simpa using hbefore b hb) (by simpa using hfirst)
    exact ⟨_, Scanner.tokenize_of_error? hscan.1⟩
  · intro before c after htext hbefore hc prior
    obtain ⟨hsome, hnone, htokens⟩ := Scanner.scan_of_first_foreign symbols htext hbefore hc
    -- The end mark is no identifier.
    have hidentifiers : identifiers prior.cursor.scan.tokens =
        identifiers scanner.cursor.scan.tokens := by
      rw [htokens]
      simp [identifiers, scanner]
    refine ⟨Scanner.tokenize_of_error? hsome, ?_, ?_, ?_⟩
    · rw [Scanner.tokens_tokenize, ← htokens]
      exact Scanner.tokenize_eq_ok_iff.2 ⟨hnone, rfl⟩
    · simp only [Scanner.symbols_tokenize, Symbols.registerTokens_eq, hidentifiers]
      rfl
    · simp only [Scanner.symbols_tokenize, Scanner.tokens_tokenize, Symbols.registerTokens_eq]
      rfl

/-- An accented letter right behind an identifier; one name is in the table
    already. -/
theorem scan_fails_at_first_foreign_character_accent :
    let scanner := Scanner.start "b = ab;\n  a12é a" (some ⟨[⟨"b", some .int⟩]⟩)
    scanner.tokenize.2 = .error ⟨'é', ⟨2, 6⟩⟩ ∧
      scanner.tokenize.1.symbols = some ⟨[⟨"b", some .int⟩, ⟨"ab", none⟩, ⟨"a12", none⟩]⟩ := by
  intro scanner
  have hbefore : ∀ b ∈ "b = ab;\n  a12".toList, InAlphabet b := by
    simp [InAlphabet, IsLetterOrDigit, IsLetter, IsDigit, IsBlank, marks]
  obtain ⟨herror, -, -, hsymbols⟩ := (scan_fails_at_first_foreign_character _ _).2
    "b = ab;\n  a12".toList 'é' " a".toList (show "b = ab;\n  a12é a".toList = _ by decide)
    hbefore (by decide)
  have hnames : (identifiers scanner.tokenize.1.tokens).map Token.value = ["b", "ab", "a12"] := by
    decide +kernel
  rw [hnames] at hsymbols
  exact ⟨herror, hsymbols⟩

end Straightline
