/-
  Where a cursor stands.

  A cursor counts the characters that it passes, and lines and columns along
  with them.  All of this is done by single advances: skipping blanks, reading
  a word or a number and scanning to the end of the text are nothing but many
  advances, one after the other.  So the counts are right after any calls of a
  scanner, in whatever order they come, also if one of them starts in the
  middle of a word or follows a scan that has failed.

  * `Cursor.Advances`: from one cursor to another by single advances;
  * `Cursor.Behind`: a cursor that stands behind some characters of a text, and
    has counted them;
  * `Cursor.Behind.advance?`, `Cursor.Behind.advances`: what one advance and a
    sequence of advances preserve;
  * `Cursor.advances_scan`: a scan advances to the first foreign character;
  * `Scanner.Call`, `Scanner.respond`: the calls that a scanner answers;
  * `Scanner.Call.span`, `Scanner.advances_after`: what each call moves over;
  * `Scanner.cursor_keeps_count`: what can be seen of it after any calls.
-/
import Straightline.Proofs.Alphabet

namespace Straightline

namespace Cursor

/-! ## Single advances -/

/-- From one cursor to another by single advances, over the characters that
    stand between them. -/
inductive Advances : Cursor → List Char → Cursor → Prop where
  | refl (c : Cursor) : Advances c [] c
  | step {c c' c'' : Cursor} {a : Char} {run : List Char} :
      c.advance? = some (a, c') → Advances c' run c'' → Advances c (a :: run) c''

/-- A cursor that stands in a text behind the characters `before`: the others
    are left, and those passed are counted, in all and by lines and columns. -/
structure Behind (c : Cursor) (text before : List Char) : Prop where
  text_eq : text = before ++ c.rest
  offset_eq : c.offset = before.length
  place_eq : c.place = .behind before

variable {c c' c'' : Cursor} {a : Char} {run run' text before : List Char}

theorem Advances.trans (h : c.Advances run c') (h' : c'.Advances run' c'') :
    c.Advances (run ++ run') c'' := by
  induction h with
  | refl c => exact h'
  | step hadvance _ ih => exact .step hadvance (ih h')

/-- **What one advance preserves.** -/
theorem Behind.advance? (h : c.Behind text before) (hadvance : c.advance? = some (a, c')) :
    c'.Behind text (before ++ [a]) := by
  unfold Cursor.advance? at hadvance
  split at hadvance
  · cases hadvance
  · next b rest hrest =>
    cases hadvance
    refine ⟨?_, ?_, ?_⟩
    · rw [h.text_eq, hrest, List.append_assoc, List.singleton_append]
    · rw [h.offset_eq, List.length_append, List.length_singleton]
    · rw [h.place_eq, Place.behind_append_singleton]

/-- **What a sequence of advances preserves.** -/
theorem Behind.advances (h : c.Behind text before) (hrun : c.Advances run c') :
    c'.Behind text (before ++ run) := by
  induction hrun generalizing before with
  | refl c => rwa [List.append_nil]
  | step hadvance _ ih =>
    rw [← List.singleton_append, ← List.append_assoc]
    exact ih (h.advance? hadvance)

/-! ## Slices of the text -/

namespace Behind

variable (h : c.Behind text before)
include h

theorem take_offset : text.take c.offset = before := by
  rw [h.text_eq, h.offset_eq, List.take_left]

theorem drop_offset : text.drop c.offset = c.rest := by
  rw [h.text_eq, h.offset_eq, List.drop_left]

theorem getElem?_offset : text[c.offset]? = c.current? := by
  rw [current?, ← h.drop_offset, List.head?_drop]

theorem offset_le : c.offset ≤ text.length := by
  rw [h.text_eq, h.offset_eq, List.length_append]
  exact Nat.le_add_right _ _

theorem offset_lt_iff : c.offset < text.length ↔ c.rest ≠ [] := by
  rw [h.text_eq, h.offset_eq, List.length_append, Nat.lt_add_right_iff_pos, List.length_pos_iff]

theorem offset_of_advances (hrun : c.Advances run c') : c'.offset = c.offset + run.length := by
  rw [(h.advances hrun).offset_eq, h.offset_eq, List.length_append]

/-- What was passed is the slice of the text between the two cursors. -/
theorem extract_of_advances (hrun : c.Advances run c') : text.extract c.offset c'.offset = run := by
  have hrest : c.rest = run ++ c'.rest := by
    have htext := (h.advances hrun).text_eq
    rw [h.text_eq, List.append_assoc] at htext
    exact List.append_cancel_left htext
  rw [List.extract_eq_take_drop, h.offset_of_advances hrun, Nat.add_sub_cancel_left,
    h.drop_offset, hrest, List.take_left]

end Behind

/-! ## Loops of advances -/

theorem advances_past {after : List Char} (hrest : c.rest = run ++ after) :
    c.Advances run (c.past run after) := by
  induction run generalizing c with
  | nil =>
    have hpast : c.past [] after = c := by
      rw [past, ← List.nil_append after, ← hrest]
      rfl
    rw [hpast]
    exact .refl c
  | cons a run ih =>
    let next : Cursor := ⟨run ++ after, c.offset + 1, c.place.after a⟩
    have hadvance : c.advance? = some (a, next) := by
      rw [advance?, hrest]
      rfl
    have hpast : c.past (a :: run) after = next.past run after := by
      rw [past, List.length_cons, Nat.add_comm run.length, ← Nat.add_assoc]
      rfl
    rw [hpast]
    exact .step hadvance (ih rfl)

theorem advances_takeWhile (c : Cursor) (p : Char → Bool) :
    c.Advances (c.rest.takeWhile p) (c.takeWhile p).2 :=
  advances_past List.takeWhile_append_dropWhile.symm

theorem advances_token? {t : Token} (h : c.token? = some (t, c')) :
    ∃ l, c.rest = l ++ c'.rest ∧ Denotes l t.kind t.value ∧ c.Advances l c' := by
  obtain ⟨l, hrest, hlexeme, hpast⟩ := eq_past_of_token? h
  refine ⟨l, hrest, hlexeme, ?_⟩
  rw [hpast]
  exact advances_past hrest

/-- Blanks belong to the alphabet. -/
theorem takeWhile_inAlphabet (c : Cursor) :
    c.rest.takeWhile (fun b => InAlphabet b) =
      c.rest.takeWhile isBlank ++ c.skipBlanks.rest.takeWhile fun b => InAlphabet b := by
  have hblanks : ∀ b ∈ c.rest.takeWhile isBlank, decide (InAlphabet b) = true :=
    fun b hb => decide_eq_true (.inr (.inl (isBlank_iff.1 (List.mem_takeWhile_imp hb))))
  rw [← List.takeWhile_append_of_pos hblanks]
  exact congrArg _ List.takeWhile_append_dropWhile.symm

/-- **A scan advances to the first foreign character**, or to the end of the
    text: over blanks and tokens, as long as there are any. -/
theorem advances_scan (c : Cursor) :
    c.Advances (c.rest.takeWhile fun b => InAlphabet b) c.scan.cursor := by
  have hblanks : ∀ c : Cursor, c.Advances (c.rest.takeWhile isBlank) c.skipBlanks :=
    fun c => c.advances_takeWhile isBlank
  fun_induction scan c with
  | case1 c t c' htoken found ih =>
    obtain ⟨l, hrest, hlexeme, hadvances⟩ := advances_token? htoken
    have hl : ∀ b ∈ l, decide (InAlphabet b) = true :=
      fun b hb => decide_eq_true (hlexeme.inAlphabet b hb)
    rw [takeWhile_inAlphabet, hrest, List.takeWhile_append_of_pos hl]
    exact (hblanks c).trans (hadvances.trans ih)
  | case2 c htoken hrest =>
    rw [takeWhile_inAlphabet, hrest, List.takeWhile_nil, List.append_nil]
    exact hblanks c
  | case3 c htoken b rest hrest =>
    have hb := not_inAlphabet_of_token?_eq_none htoken hrest
    rw [takeWhile_inAlphabet, hrest, List.takeWhile_cons_of_neg (by simpa using hb),
      List.append_nil]
    exact hblanks c

/-- A scan fails at the character where it ends, if there is one. -/
theorem scan_error?_eq (c : Cursor) :
    c.scan.error? = c.scan.cursor.current?.map fun b => ⟨b, c.scan.cursor.place⟩ := by
  fun_induction scan c with
  | case1 c t c' htoken found ih => exact ih
  | case2 c htoken hrest =>
    rw [current?, hrest]
    rfl
  | case3 c htoken b rest hrest =>
    rw [current?, hrest]
    rfl

end Cursor

/-! ## Calls -/

namespace Scanner

/-- The calls that a scanner answers. -/
inductive Call where
  | current
  | advance
  | skipBlanks
  | takeDigits
  | takeWord
  | tokenize
  deriving DecidableEq, Repr

/-- What a scanner gives back. -/
inductive Answer where
  | nothing
  /-- The character at the cursor, if there is one. -/
  | seen (char : Option Char)
  /-- What the cursor has moved over. -/
  | passed (run : String)
  | tokens (found : List Token)
  | refused (e : ScanError)
  deriving DecidableEq, Repr

/-- The answer to a call, and the scanner after it. -/
def respond (s : Scanner) : Call → Answer × Scanner
  | .current => (.seen s.cursor.current?, s)
  | .advance =>
    match s.cursor.advance? with
    | none => (.nothing, s)
    | some (a, cursor) => (.passed (String.singleton a), { s with cursor })
  | .skipBlanks => (.nothing, { s with cursor := s.cursor.skipBlanks })
  | .takeDigits =>
    let (digits, cursor) := s.cursor.takeDigits
    (.passed digits, { s with cursor })
  | .takeWord =>
    let (word, cursor) := s.cursor.takeWord
    (.passed word, { s with cursor })
  | .tokenize =>
    let (next, result) := s.tokenize
    match result with
    | .ok found => (.tokens found, next)
    | .error e => (.refused e, next)

/-- The answer to a call. -/
def answer (s : Scanner) (call : Call) : Answer :=
  (s.respond call).1

/-- A scanner after a call.  One whose scan has failed can be called again. -/
def after (s : Scanner) (call : Call) : Scanner :=
  (s.respond call).2

/-- A scanner after some calls. -/
def afterAll (s : Scanner) (calls : List Call) : Scanner :=
  calls.foldl after s

/-- What a call moves over, of the characters that are left: nothing, one
    character, or all of some sort up to the first of another. -/
def Call.span (ahead : List Char) : Call → List Char
  | .current => []
  | .advance => ahead.take 1
  | .skipBlanks => ahead.takeWhile fun b => IsBlank b
  | .takeDigits => ahead.takeWhile fun b => IsDigit b
  | .takeWord => ahead.takeWhile fun b => IsLetterOrDigit b
  | .tokenize => ahead.takeWhile fun b => InAlphabet b

theorem takeWhile_decide {p : Char → Bool} {P : Char → Prop} [DecidablePred P]
    (h : ∀ {b}, p b = true ↔ P b) (l : List Char) :
    l.takeWhile (fun b => P b) = l.takeWhile p := by
  have hp : (fun b => decide (P b)) = p :=
    funext fun b => Bool.eq_iff_iff.2 (decide_eq_true_iff.trans h.symm)
  rw [hp]

theorem after_tokenize (s : Scanner) : s.after .tokenize = s.tokenize.1 := by
  unfold after respond
  dsimp only
  split <;> rfl

theorem answer_tokenize (s : Scanner) :
    s.answer .tokenize = s.cursor.scan.error?.elim (.tokens s.cursor.scan.tokens) .refused := by
  cases herror : s.cursor.scan.error? <;> simp [answer, respond, tokenize, herror]

/-- One character is passed, unless there is none. -/
theorem answer_advance (s : Scanner) :
    s.answer .advance =
      if s.cursor.rest = [] then .nothing else .passed (String.ofList (s.cursor.rest.take 1)) := by
  cases hrest : s.cursor.rest <;> simp [answer, respond, Cursor.advance?, hrest]

/-- **A call does nothing but advance**, over the characters of its span. -/
theorem advances_after (s : Scanner) (call : Call) :
    s.cursor.Advances (call.span s.cursor.rest) (s.after call).cursor := by
  cases call with
  | current => exact .refl s.cursor
  | advance =>
    rcases hrest : s.cursor.rest with _ | ⟨a, rest⟩
    · have hafter : s.after .advance = s := by
        simp [after, respond, Cursor.advance?, hrest]
      rw [hafter]
      exact .refl s.cursor
    · have hadvance : s.cursor.advance? = some (a, (s.after .advance).cursor) := by
        simp [after, respond, Cursor.advance?, hrest]
      exact .step hadvance (.refl _)
  | skipBlanks =>
    rw [Call.span, takeWhile_decide isBlank_iff]
    exact s.cursor.advances_takeWhile isBlank
  | takeDigits =>
    rw [Call.span, takeWhile_decide isDigit_iff]
    exact s.cursor.advances_takeWhile Char.isDigit
  | takeWord =>
    rw [Call.span, takeWhile_decide isWordChar_iff]
    exact s.cursor.advances_takeWhile isWordChar
  | tokenize =>
    rw [after_tokenize, fst_tokenize]
    exact s.cursor.advances_scan

theorem advances_afterAll (s : Scanner) (calls : List Call) :
    ∃ run, s.cursor.Advances run (s.afterAll calls).cursor := by
  induction calls generalizing s with
  | nil => exact ⟨[], .refl _⟩
  | cons call calls ih =>
    obtain ⟨run, hrun⟩ := ih (s.after call)
    exact ⟨_, (s.advances_after call).trans hrun⟩

theorem afterAll_append (s : Scanner) (calls more : List Call) :
    s.afterAll (calls ++ more) = (s.afterAll calls).afterAll more :=
  List.foldl_append

/-- After any calls, a scanner has counted the characters that it has passed. -/
theorem exists_behind_afterAll (text : String) (symbols : Option Symbols) (calls : List Call) :
    ∃ before, ((start text symbols).afterAll calls).cursor.Behind text.toList before := by
  obtain ⟨run, hrun⟩ := advances_afterAll (start text symbols) calls
  have hstart : (start text symbols).cursor.Behind text.toList [] := ⟨rfl, rfl, rfl⟩
  exact ⟨_, hstart.advances hrun⟩

/-- **The cursor keeps count.**  Take a scanner at the start of any text, and
    any calls, in any order, those included that follow a scan that has failed.
    After them:

    * the position is not behind the end of the text, what is left is the text
      from there on, and the place is the one behind the characters before it:
      the line is one more than the line ends among them, the column one more
      than the characters behind the last line end;
    * whatever calls follow, the position does not go back;
    * the next call moves over its span;
    * looking shows the character at the position; an advance, if it is not at
      the end of the text, and the reading of a number or a word return the
      slice of the text that they have moved over;
    * a scan that does not reach the end of the text names the character at
      which it stops, and its place. -/
theorem cursor_keeps_count (text : String) (symbols : Option Symbols) (calls : List Call) :
    let s := (start text symbols).afterAll calls
    let position := s.cursor.offset
    let next call := (s.after call).cursor.offset
    let slice call := text.toList.extract position (next call)
    (position ≤ text.toList.length ∧ s.cursor.rest = text.toList.drop position ∧
      s.cursor.place = .behind (text.toList.take position)) ∧
    (∀ more, position ≤ ((start text symbols).afterAll (calls ++ more)).cursor.offset) ∧
    (∀ call, slice call = call.span (text.toList.drop position)) ∧
    s.answer .current = .seen text.toList[position]? ∧
    s.answer .advance =
      (if position < text.toList.length then .passed (String.ofList (slice .advance))
        else .nothing) ∧
    s.answer .takeDigits = .passed (String.ofList (slice .takeDigits)) ∧
    s.answer .takeWord = .passed (String.ofList (slice .takeWord)) ∧
    s.answer .tokenize = text.toList[next .tokenize]?.elim (.tokens (s.after .tokenize).tokens)
      fun c => .refused ⟨c, .behind (text.toList.take (next .tokenize))⟩ := by
  intro s position next slice
  obtain ⟨before, h⟩ := exists_behind_afterAll text symbols calls
  have hslice : ∀ call : Call, slice call = call.span s.cursor.rest :=
    fun call => h.extract_of_advances (s.advances_after call)
  refine ⟨⟨h.offset_le, h.drop_offset.symm, ?_⟩, fun more => ?_, fun call => ?_, ?_, ?_, ?_, ?_, ?_⟩
  · rw [h.take_offset]
    exact h.place_eq
  · obtain ⟨run, hrun⟩ := advances_afterAll s more
    rw [afterAll_append, h.offset_of_advances hrun]
    exact Nat.le_add_right _ _
  · rw [hslice, h.drop_offset]
  · rw [h.getElem?_offset]
    rfl
  · rw [answer_advance, hslice]
    by_cases hrest : s.cursor.rest = []
    · rw [if_pos hrest, if_neg (h.offset_lt_iff.not.2 (not_not.2 hrest))]
    · rw [if_neg hrest, if_pos (h.offset_lt_iff.2 hrest), Call.span]
  · rw [hslice, Call.span, takeWhile_decide isDigit_iff]
    rfl
  · rw [hslice, Call.span, takeWhile_decide isWordChar_iff]
    rfl
  · have hnext := h.advances (s.advances_after .tokenize)
    rw [hnext.getElem?_offset, hnext.take_offset, ← hnext.place_eq, answer_tokenize,
      Cursor.scan_error?_eq, Option.elim_map, after_tokenize, fst_tokenize]
    rfl

/-- A number is read in the middle of a word; the first scan fails, and the
    next one starts in front of the same character. -/
example :
    let s := (start "a1\n b é9" none).afterAll [.advance, .takeDigits, .tokenize, .tokenize]
    ((start "a1\n b é9" none).after .advance).answer .takeDigits = .passed "1" ∧
      s.cursor = ⟨"é9".toList, 6, ⟨2, 4⟩⟩ ∧ s.answer .tokenize = .refused ⟨'é', ⟨2, 4⟩⟩ ∧
      (s.after .advance).answer .takeWord = .passed "9" := by
  decide +kernel

end Scanner

end Straightline
