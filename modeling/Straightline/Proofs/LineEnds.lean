/-
  Files and their texts.

  Reading a file turns each line end into LF; a text that is given as it is
  keeps its line ends.  To the scanner CR and LF are both blanks, so both ways
  lead to the same tokens.  Only their places can differ: a CR that stands
  alone ends no line for the scanner, while a CR before an LF is the end of a
  line that the LF ends anyway.

  * `Text.PairsLineEnds`: every CR stands before an LF;
  * `Cursor.Matches`: cursors in a text and in the text of its file;
  * `Cursor.Matches.scan`: what they scan;
  * `compileFile_agrees_with_compileText`: compiling a file and its text.
-/
import Straightline.Proofs.Alphabet
import Straightline.Proofs.Places

namespace Straightline

/-! ## Line ends -/

namespace Text

/-- Every CR stands right before an LF. -/
def PairsLineEnds (l : List Char) : Prop :=
  ∀ before after, l = before ++ '\r' :: after → after.head? = some '\n'

variable {l l' : List Char} {p : Char → Bool}

theorem PairsLineEnds.of_suffix (h : PairsLineEnds l) (hl : l' <:+ l) : PairsLineEnds l' := by
  obtain ⟨front, rfl⟩ := hl
  rintro before after rfl
  exact h (front ++ before) after (List.append_assoc front before _).symm

theorem PairsLineEnds.tail {c : Char} (h : PairsLineEnds (c :: l)) : PairsLineEnds l :=
  h.of_suffix (List.suffix_cons c l)

theorem unifyLineEnds_cons {c : Char} (hc : c ≠ '\r') (l : List Char) :
    unifyLineEnds (c :: l) = c :: unifyLineEnds l := by
  rw [unifyLineEnds, if_neg hc]
  rintro rest rfl
  exact absurd rfl hc

/-- A run of characters that has CR and LF in it or neither ends at the same
    place after line ends are unified. -/
theorem dropWhile_unifyLineEnds (hp : p '\r' = p '\n') (l : List Char) :
    (unifyLineEnds l).dropWhile p = unifyLineEnds (l.dropWhile p) := by
  fun_induction unifyLineEnds l with
  | case1 => rfl
  | case2 rest ih =>
    cases hn : p '\n' with
    | true => simp [hp, hn, ih]
    | false => simp [hp, hn, unifyLineEnds]
  | case3 c rest hpair ih =>
    have hsame : p (if c = '\r' then '\n' else c) = p c := by
      split
      · next hc => rw [hc, hp]
      · rfl
    cases hc : p c with
    | true => simp [hsame, hc, ih]
    | false => simp [hsame, hc, unifyLineEnds]

/-- A run without CR and LF is left alone. -/
theorem takeWhile_unifyLineEnds (hr : p '\r' = false) (hn : p '\n' = false) (l : List Char) :
    (unifyLineEnds l).takeWhile p = l.takeWhile p := by
  fun_induction unifyLineEnds l with
  | case1 => rfl
  | case2 rest ih => simp [hr, hn]
  | case3 c rest hpair ih =>
    by_cases hc : c = '\r'
    · simp [hc, hr, hn]
    · simp [hc, List.takeWhile_cons, ih]

/-- Unifying paired line ends does not change the place behind a run. -/
theorem foldl_after_unifyLineEnds (hp : p '\r' = p '\n') (hl : PairsLineEnds l) (place : Place) :
    ((unifyLineEnds l).takeWhile p).foldl Place.after place =
      (l.takeWhile p).foldl Place.after place := by
  fun_induction unifyLineEnds l generalizing place with
  | case1 => rfl
  | case2 rest ih =>
    cases hn : p '\n' with
    | true =>
      have hplace : (place.after '\r').after '\n' = place.after '\n' := rfl
      simp [hp, hn, hplace, ih hl.tail.tail]
    | false => simp [hp, hn]
  | case3 c rest hpair ih =>
    have hc : c ≠ '\r' := by
      rintro rfl
      obtain ⟨after, hafter⟩ := List.head?_eq_some_iff.1 (hl [] rest rfl)
      exact hpair after rfl hafter
    rw [if_neg hc]
    cases hcp : p c with
    | true => simp [hcp, ih hl.tail]
    | false => simp [hcp]

end Text

/-! ## Cursors -/

open Text (unifyLineEnds PairsLineEnds)

namespace Cursor

/-- A cursor in a text, and one in the text of its file.  Under the condition
    `paired` they are at the same place, and line ends are paired from there
    on. -/
structure Matches (paired : Prop) (c c' : Cursor) : Prop where
  rest : c'.rest = unifyLineEnds c.rest
  ends : paired → PairsLineEnds c.rest
  place : paired → c'.place = c.place

variable {paired : Prop} {c c' : Cursor}

theorem Matches.takeWhile (h : Matches paired c c') {p : Char → Bool} (hp : p '\r' = p '\n') :
    Matches paired (c.takeWhile p).2 (c'.takeWhile p).2 where
  rest := by
    show c'.rest.dropWhile p = unifyLineEnds (c.rest.dropWhile p)
    rw [h.rest, Text.dropWhile_unifyLineEnds hp]
  ends hpaired := (h.ends hpaired).of_suffix (List.dropWhile_suffix p)
  place hpaired := by
    show (c'.rest.takeWhile p).foldl Place.after c'.place =
      (c.rest.takeWhile p).foldl Place.after c.place
    rw [h.rest, h.place hpaired, Text.foldl_after_unifyLineEnds hp (h.ends hpaired)]

theorem Matches.skipBlanks (h : Matches paired c c') :
    Matches paired c.skipBlanks c'.skipBlanks :=
  h.takeWhile rfl

theorem Matches.rest_eq_cons (h : Matches paired c c') {a : Char} {rest : List Char}
    (hrest : c.rest = a :: rest) (ha : isBlank a = false) :
    c'.rest = a :: unifyLineEnds rest := by
  rw [h.rest, hrest, Text.unifyLineEnds_cons]
  rintro rfl
  cases ha

/-- Two tokens with the same kind and value, and under the condition `paired`
    with the same place. -/
structure SameToken (paired : Prop) (t t' : Token) : Prop where
  unplaced : t'.unplaced = t.unplaced
  eq : paired → t' = t

theorem sameToken_of_place (h : paired → c'.place = c.place) (kind : Terminal) (value : String) :
    SameToken paired ⟨kind, value, c.place⟩ ⟨kind, value, c'.place⟩ where
  unplaced := rfl
  eq hpaired := by rw [h hpaired]

theorem sameToken_wordToken (h : paired → c'.place = c.place) (word : String) :
    SameToken paired (wordToken word c.place) (wordToken word c'.place) := by
  unfold wordToken
  split_ifs <;> exact sameToken_of_place h _ _

/-- Two cursors find nothing, or the same token with matching cursors behind. -/
inductive SameFind (paired : Prop) : Option (Token × Cursor) → Option (Token × Cursor) → Prop where
  | nothing : SameFind paired none none
  | token {t t' : Token} {d d' : Cursor} : SameToken paired t t' → Matches paired d d' →
      SameFind paired (some (t, d)) (some (t', d'))

/-- A run without CR and LF is the same for matching cursors. -/
theorem Matches.run_eq (h : Matches paired c c') {p : Char → Bool} (hr : p '\r' = false)
    (hn : p '\n' = false) : (c'.takeWhile p).1 = (c.takeWhile p).1 := by
  show c'.rest.takeWhile p = c.rest.takeWhile p
  rw [h.rest, Text.takeWhile_unifyLineEnds hr hn]

theorem Matches.next (h : Matches paired c c') {a : Char} {rest : List Char}
    (hrest : c.rest = a :: rest) : Matches paired ⟨rest, c.offset + 1, c.place.after a⟩
      ⟨unifyLineEnds rest, c'.offset + 1, c'.place.after a⟩ where
  rest := rfl
  ends hpaired := by
    have hends := h.ends hpaired
    rw [hrest] at hends
    exact hends.tail
  place hpaired := by
    show c'.place.after a = c.place.after a
    rw [h.place hpaired]

/-- **Matching cursors find the same token,** if they do not stand before a
    blank. -/
theorem Matches.token? (h : Matches paired c c')
    (hblank : ∀ a ∈ c.rest.head?, isBlank a = false) : SameFind paired c.token? c'.token? := by
  rcases hrest : c.rest with _ | ⟨a, rest⟩
  · have hrest' : c'.rest = [] := by
      rw [h.rest, hrest]
      rfl
    simp only [Cursor.token?, hrest, hrest']
    exact .nothing
  · have hrest' : c'.rest = a :: unifyLineEnds rest :=
      h.rest_eq_cons hrest (hblank a (by rw [hrest]; rfl))
    simp only [Cursor.token?, takeWord, takeDigits, hrest, hrest']
    split_ifs
    · rw [h.run_eq rfl rfl]
      exact .token (sameToken_wordToken h.place _) (h.takeWhile rfl)
    · rw [h.run_eq rfl rfl]
      exact .token (sameToken_of_place h.place _ _) (h.takeWhile rfl)
    · cases markOf? a with
      | none => exact .nothing
      | some kind => exact .token (sameToken_of_place h.place _ _) (h.next hrest)

theorem head?_skipBlanks (c : Cursor) : ∀ a ∈ c.skipBlanks.rest.head?, isBlank a = false :=
  fun _ ha => eq_false_of_mem_head?_dropWhile (l := c.rest) ha

/-- **Matching cursors scan the same tokens,** and fail at the same character
    if at all. -/
theorem Matches.scan (h : Matches paired c c') :
    c'.scan.tokens.map Token.unplaced = c.scan.tokens.map Token.unplaced ∧
      c'.scan.error?.map ScanError.unplaced = c.scan.error?.map ScanError.unplaced ∧
      (paired → c'.scan.tokens = c.scan.tokens ∧ c'.scan.error? = c.scan.error?) := by
  induction c using Cursor.scan.induct generalizing c' with
  | case1 c t d htoken ih =>
    have hfind := h.skipBlanks.token? c.head?_skipBlanks
    rw [htoken] at hfind
    rcases htoken' : c'.skipBlanks.token? with _ | ⟨t', d'⟩
    · rw [htoken'] at hfind
      cases hfind
    · rw [htoken'] at hfind
      cases hfind with
      | token hsame hd =>
        obtain ⟨htokens, herror, heq⟩ := ih hd
        rw [scan_of_token? htoken, scan_of_token? htoken']
        refine ⟨congrArg₂ List.cons hsame.unplaced htokens, herror, fun hpaired => ?_⟩
        exact ⟨congrArg₂ List.cons (hsame.eq hpaired) (heq hpaired).1, (heq hpaired).2⟩
  | case2 c htoken hrest =>
    have hrest' : c'.skipBlanks.rest = [] := by
      rw [h.skipBlanks.rest, hrest]
      rfl
    have hsame : SameToken paired ⟨.endMark, "", c.skipBlanks.place⟩
        ⟨.endMark, "", c'.skipBlanks.place⟩ := sameToken_of_place h.skipBlanks.place _ _
    rw [scan_of_rest_eq_nil hrest, scan_of_rest_eq_nil hrest']
    refine ⟨congrArg (fun t => [t]) hsame.unplaced, rfl, fun hpaired => ⟨?_, rfl⟩⟩
    exact congrArg (fun t => [t]) (hsame.eq hpaired)
  | case3 c htoken a rest hrest =>
    have hrest' : c'.skipBlanks.rest = a :: unifyLineEnds rest :=
      h.skipBlanks.rest_eq_cons hrest (c.head?_skipBlanks a (by rw [hrest]; rfl))
    have htoken' : c'.skipBlanks.token? = none := by
      have hfind := h.skipBlanks.token? c.head?_skipBlanks
      rw [htoken] at hfind
      generalize c'.skipBlanks.token? = found' at hfind ⊢
      cases hfind
      rfl
    rw [scan_of_token?_eq_none hrest htoken, scan_of_token?_eq_none hrest' htoken']
    refine ⟨rfl, rfl, fun hpaired => ⟨rfl, ?_⟩⟩
    rw [h.skipBlanks.place hpaired]

end Cursor

/-! ## Texts -/

/-- The text that is read from a file with a given text. -/
def Text.asRead (source : String) : String :=
  String.ofList (unifyLineEnds source.toList)

theorem Text.decode?_encode (source : String) : decode? (encode source) = some (asRead source) := by
  have hbytes : String.fromUTF8? source.toUTF8 = some source := dif_pos source.isValidUTF8
  rw [decode?, encode, hbytes]
  rfl

theorem Symbols.registerTokens_unplaced (s : Symbols) (tokens : List Token) :
    s.registerTokens (tokens.map Token.unplaced) = s.registerTokens tokens := by
  rw [registerTokens, registerTokens, List.filter_map, List.foldl_map]
  rfl

/-- **Reading a text from a file changes places at most,** and none if line
    ends are paired. -/
theorem scanText_asRead (source : String) :
    unplacedScan (scanText (Text.asRead source)) = unplacedScan (scanText source) ∧
      (PairsLineEnds source.toList → scanText (Text.asRead source) = scanText source) := by
  have hmatches : Cursor.Matches (PairsLineEnds source.toList) ⟨source.toList, 0, ⟨1, 1⟩⟩
      ⟨(Text.asRead source).toList, 0, ⟨1, 1⟩⟩ :=
    ⟨String.toList_ofList, fun h => h, fun _ => rfl⟩
  obtain ⟨htokens, herror, heq⟩ := hmatches.scan
  unfold scanText
  generalize Cursor.scan ⟨source.toList, 0, ⟨1, 1⟩⟩ = found at htokens herror heq ⊢
  generalize Cursor.scan ⟨(Text.asRead source).toList, 0, ⟨1, 1⟩⟩ = found' at htokens herror heq ⊢
  constructor
  · have hsymbols : Symbols.registerTokens {} found'.tokens =
        Symbols.registerTokens {} found.tokens := by
      rw [← Symbols.registerTokens_unplaced, htokens, Symbols.registerTokens_unplaced]
    rcases he : found.error? with _ | e <;> rcases he' : found'.error? with _ | e' <;>
      rw [he, he'] at herror <;> simp only [he, he']
    · show Except.ok (found'.tokens.map Token.unplaced, Symbols.registerTokens {} found'.tokens) = _
      rw [htokens, hsymbols]
      rfl
    · cases herror
    · cases herror
    · exact congrArg Except.error (Option.some.inj herror)
  · intro hpaired
    dsimp only
    rw [(heq hpaired).1, (heq hpaired).2]

/-! ## Sessions -/

section

variable {options : CompileOptions} {output : Option String} {session : Session}

theorem Session.exec_follow {dumpTo : Option String} (hdump : chosen? dumpTo = none)
    (trail : List Trace) (session : Session) :
    ∃ session', (follow dumpTo trail).exec session = (.ok (), session') := by
  induction trail generalizing session with
  | nil => exact ⟨session, rfl⟩
  | cons trace trail ih =>
    have hleave : ∃ session', (leave dumpTo trace).exec session = (.ok (), session') := by
      cases trace with
      | log entry => exact ⟨_, rfl⟩
      | artefact name text logged =>
        simp only [leave, hdump]
        exact ⟨session, rfl⟩
    obtain ⟨session₁, hleave⟩ := hleave
    obtain ⟨session₂, htrail⟩ := ih session₁
    refine ⟨session₂, ?_⟩
    rw [follow, List.forM_eq_forM, List.forM_cons, Attempt.exec_bind, hleave]
    exact htrail

/-- Without a file to write, compiling a text gives the result for it and
    leaves its trail behind. -/
theorem exec_compileText (hdump : chosen? options.dumpTo = none) (houtput : chosen? output = none)
    (source : String) : (compileText options source output).exec session =
      (.ok (compile options.loadRight source).1,
        ((Session.follow options.dumpTo (compile options.loadRight source).2).exec session).2) := by
  obtain ⟨session', hfollow⟩ :=
    Session.exec_follow hdump (compile options.loadRight source).2 session
  simp only [compileText, houtput, Attempt.exec_bind, hfollow]
  cases (compile options.loadRight source).1.assembly <;> rfl

theorem exec_compileFile {path source : String}
    (hread : session.directory.read path = .ok (Text.encode source)) :
    (compileFile options path output).exec session =
      (compileText options (Text.asRead source) output).exec session := by
  simp only [compileFile, Attempt.exec_bind, Attempt.exec_get, hread, Text.decode?_encode]

/-- **Compiling a file agrees with compiling its text.**  Let a file hold the
    UTF-8 encoding of a text, and let there be neither a directory for
    artefacts nor a file for the assembly.  Compiling the file and compiling
    the text both end with a result, and leave the same log behind.  The
    results agree on whether they succeeded, on the kinds and values of tokens,
    on the instructions and on the assembly; if every CR in the text stands
    right before an LF they are the same, with all places and messages. -/
theorem compileFile_agrees_with_compileText (options : CompileOptions) (output : Option String)
    (session : Session) (path source : String) (hdump : chosen? options.dumpTo = none)
    (houtput : chosen? output = none)
    (hread : session.directory.read path = .ok (Text.encode source)) :
    ∃ fromFile fromText session',
      (compileFile options path output).exec session = (.ok fromFile, session') ∧
      (compileText options source output).exec session = (.ok fromText, session') ∧
      fromFile.succeeded = fromText.succeeded ∧
      fromFile.tokens.map (fun t => (t.kind, t.value)) =
        fromText.tokens.map (fun t => (t.kind, t.value)) ∧
      fromFile.code = fromText.code ∧ fromFile.assembly = fromText.assembly ∧
      ((∀ before after, source.toList = before ++ '\r' :: after → after.head? = some '\n') →
        fromFile = fromText) := by
  obtain ⟨hscan, hpaired⟩ := scanText_asRead source
  obtain ⟨hresult, htrail⟩ := compile_unplaced options.loadRight hscan
  obtain ⟨hsucceeded, htokens, hcode, hassembly⟩ := Compilation.agree_of_unplaced hresult
  refine ⟨(compile options.loadRight (Text.asRead source)).1, (compile options.loadRight source).1,
    _, ?_, exec_compileText hdump houtput source, hsucceeded, htokens, hcode, hassembly, ?_⟩
  · rw [exec_compileFile hread, exec_compileText hdump houtput, htrail]
  · intro hends
    simp only [compile, hpaired hends]

end

/-- A line that ends in CR and LF, and an undeclared name on the next one. -/
theorem compileFile_agrees_with_compileText_undeclared :
    let source := "int a;\r\n  b = 1;"
    let session : Session := ⟨⟨[(⟨.above 0, ["p"]⟩, .file (Text.encode source))]⟩, []⟩
    ∃ result session', (compileFile {} "p" none).exec session = (.ok result, session') ∧
      (compileText {} source none).exec session = (.ok result, session') ∧
      result.error? = some (.frontEnd (.check (.undeclared ⟨.identifier, "b", ⟨2, 3⟩⟩))) := by
  intro source session
  have hread : session.directory.read "p" = .ok (Text.encode source) := rfl
  have hends : ∀ before after, source.toList = before ++ '\r' :: after →
      after.head? = some '\n' := by
    intro before after h
    have hlist : source.toList = ['i', 'n', 't', ' ', 'a', ';', '\r', '\n', ' ', ' ', 'b', ' ', '=',
      ' ', '1', ';'] := by decide
    rw [hlist] at h
    simp only [List.cons_eq_append_iff] at h
    obtain ⟨-, rfl⟩ : before = ['i', 'n', 't', ' ', 'a', ';'] ∧ after = _ := by simpa using h
    rfl
  have herror : (compile false source).1.error? =
      some (.frontEnd (.check (.undeclared ⟨.identifier, "b", ⟨2, 3⟩⟩))) := by
    decide +kernel
  obtain ⟨fromFile, fromText, session', hfile, htext, -, -, -, -, hsame⟩ :=
    compileFile_agrees_with_compileText {} none session "p" source rfl rfl hread
  cases hsame hends
  refine ⟨fromFile, session', hfile, htext, ?_⟩
  rw [exec_compileText rfl rfl] at htext
  cases htext
  exact herror

end Straightline
