/-
  Longest matches.

  A text is cut into lexemes with blanks between them, so that no lexeme could
  have been longer: behind an identifier there is no character that could
  belong to it, and behind a number no other number.  There is at most one way
  to do this.  The scanner finds it if there is one, and fails otherwise.

  * `Denotes`: the lexemes, with the kinds and values of their tokens;
  * `IsSegmentation`: a text is cut into lexemes and blanks;
  * `Place.behind`: the place behind some characters;
  * `Piece.ReadAs`: the tokens of a segmentation;
  * `Cursor.token?_of_stops`, `Cursor.stops_of_token?`: a token is found
    exactly for a lexeme that cannot be longer;
  * `scan_finds_longest_matches`: whole texts.
-/
import Mathlib.Data.List.Chain
import Mathlib.Data.List.DropRight
import Straightline.Proofs.Scanning

namespace Straightline

/-! ## Lexemes -/

/-- The characters between lexemes. -/
def IsBlank (c : Char) : Prop :=
  c = ' ' ∨ c = '\t' ∨ c = '\r' ∨ c = '\n'

/-- The characters that an identifier starts with. -/
def IsLetter (c : Char) : Prop :=
  ('A'.toNat ≤ c.toNat ∧ c.toNat ≤ 'Z'.toNat) ∨ ('a'.toNat ≤ c.toNat ∧ c.toNat ≤ 'z'.toNat) ∨ c = '_'

/-- The characters of a number. -/
def IsDigit (c : Char) : Prop :=
  '0'.toNat ≤ c.toNat ∧ c.toNat ≤ '9'.toNat

/-- The characters of an identifier. -/
def IsLetterOrDigit (c : Char) : Prop :=
  IsLetter c ∨ IsDigit c

instance (c : Char) : Decidable (IsLetter c) :=
  inferInstanceAs (Decidable (('A'.toNat ≤ c.toNat ∧ c.toNat ≤ 'Z'.toNat) ∨
    ('a'.toNat ≤ c.toNat ∧ c.toNat ≤ 'z'.toNat) ∨ c = '_'))

instance (c : Char) : Decidable (IsDigit c) :=
  inferInstanceAs (Decidable ('0'.toNat ≤ c.toNat ∧ c.toNat ≤ '9'.toNat))

instance (c : Char) : Decidable (IsLetterOrDigit c) :=
  inferInstanceAs (Decidable (IsLetter c ∨ IsDigit c))

/-- A letter, and then letters and digits. -/
def IsWord : List Char → Prop
  | [] => False
  | a :: rest => IsLetter a ∧ ∀ c ∈ rest, IsLetterOrDigit c

/-- One digit or more. -/
def IsNumber (l : List Char) : Prop :=
  l ≠ [] ∧ ∀ c ∈ l, IsDigit c

instance : DecidablePred IsWord
  | [] => .isFalse id
  | a :: rest =>
    have := List.decidableBAll IsLetterOrDigit rest
    inferInstanceAs (Decidable (IsLetter a ∧ ∀ c ∈ rest, IsLetterOrDigit c))

instance (l : List Char) : Decidable (IsNumber l) :=
  have := List.decidableBAll IsDigit l
  inferInstanceAs (Decidable (l ≠ [] ∧ ∀ c ∈ l, IsDigit c))

/-- The characters that are lexemes by themselves, with their terminals. -/
def marks : List (Char × Terminal) :=
  [('=', .assign), ('+', .plus), ('-', .minus), ('*', .star), ('/', .slash), ('(', .openParen),
    (')', .closeParen), (',', .comma), (';', .semicolon)]

/-- The lexemes, each with the kind and the value of its token. -/
inductive Denotes : List Char → Terminal → String → Prop where
  | intWord : Denotes "int".toList .intWord ""
  | returnWord : Denotes "return".toList .returnWord ""
  | identifier {l : List Char} : IsWord l → l ≠ "int".toList → l ≠ "return".toList →
      Denotes l .identifier (String.ofList l)
  | constant {l : List Char} : IsNumber l → Denotes l .constant (String.ofList l)
  | mark {c : Char} {kind : Terminal} : (c, kind) ∈ marks → Denotes [c] kind ""

/-- Whether one lexeme may directly follow another: no identifier could go on
    with its first character, and two numbers are kept apart. -/
def MayTouch (l l' : List Char) : Prop :=
  (IsWord l → ∀ c ∈ l'.head?, ¬ IsLetterOrDigit c) ∧ (IsNumber l → ¬ IsNumber l')

instance (l l' : List Char) : Decidable (MayTouch l l') :=
  have : Decidable (∀ c ∈ l'.head?, ¬ IsLetterOrDigit c) := Option.decidableForallMem _
  inferInstanceAs (Decidable
    ((IsWord l → ∀ c ∈ l'.head?, ¬ IsLetterOrDigit c) ∧ (IsNumber l → ¬ IsNumber l')))

/-! ## Segmentations -/

/-- A lexeme of a text, and the blanks behind it. -/
@[ext]
structure Piece where
  lexeme : List Char
  gap : List Char
  deriving DecidableEq, Repr

/-- The characters of a piece. -/
def Piece.chars (p : Piece) : List Char :=
  p.lexeme ++ p.gap

/-- A text is some blanks, and then pieces.  Lexemes without a blank between
    them may touch. -/
structure IsSegmentation (text lead : List Char) (pieces : List Piece) : Prop where
  text_eq : text = lead ++ pieces.flatMap Piece.chars
  lead : ∀ c ∈ lead, IsBlank c
  gaps : ∀ p ∈ pieces, ∀ c ∈ p.gap, IsBlank c
  lexemes : ∀ p ∈ pieces, ∃ kind value, Denotes p.lexeme kind value
  touch : pieces.IsChain fun p q => p.gap = [] → MayTouch p.lexeme q.lexeme

/-- The place behind some characters: the line is one more than the line ends
    among them, the column one more than the characters behind the last line
    end. -/
def Place.behind (before : List Char) : Place :=
  ⟨1 + before.count '\n', 1 + (before.rtakeWhile (· ≠ '\n')).length⟩

/-- The tokens of some pieces that stand behind the characters `before`, and an
    end mark behind them. -/
inductive Piece.ReadAs : (before : List Char) → List Piece → List Token → Prop where
  | nil {before : List Char} : ReadAs before [] [⟨.endMark, "", .behind before⟩]
  | cons {before : List Char} {p : Piece} {rest : List Piece} {kind : Terminal} {value : String}
      {tokens : List Token} : Denotes p.lexeme kind value → ReadAs (before ++ p.chars) rest tokens →
      ReadAs before (p :: rest) (⟨kind, value, .behind before⟩ :: tokens)

/-! ## Characters -/

theorem isBlank_iff {c : Char} : isBlank c = true ↔ IsBlank c := by
  simp [isBlank, IsBlank, or_assoc]

theorem isDigit_iff {c : Char} : c.isDigit = true ↔ IsDigit c := by
  simp [Char.isDigit, IsDigit, UInt32.le_iff_toNat_le]

theorem isWordChar_iff {c : Char} : isWordChar c = true ↔ IsLetterOrDigit c := by
  have hupper : c.isUpper = decide (c.val ≥ 'A'.val ∧ c.val ≤ 'Z'.val) := rfl
  have hlower : c.isLower = (decide (c.val ≥ 'a'.val) && decide (c.val ≤ 'z'.val)) := rfl
  have halpha : c.isAlpha = (c.isUpper || c.isLower) := rfl
  have hletter : c.isAlpha = true ∨ c = '_' ↔ IsLetter c := by
    simp [halpha, hupper, hlower, IsLetter, UInt32.le_iff_toNat_le, or_assoc]
  simp only [isWordChar, Char.isAlphanum, Bool.or_eq_true, isDigit_iff, decide_eq_true_eq,
    IsLetterOrDigit, ← hletter]
  exact or_right_comm

theorem IsDigit.not_isLetter {c : Char} (h : IsDigit c) : ¬ IsLetter c := by
  have hnine : '9'.toNat < 'A'.toNat ∧ '9'.toNat < 'a'.toNat ∧ '9'.toNat < '_'.toNat := by decide
  rintro (⟨ha, -⟩ | ⟨ha, -⟩ | rfl)
  · exact absurd (h.2.trans_lt hnine.1) (Nat.not_lt.2 ha)
  · exact absurd (h.2.trans_lt hnine.2.1) (Nat.not_lt.2 ha)
  · exact absurd h.2 (Nat.not_le.2 hnine.2.2)

theorem isWordStart_iff {c : Char} : isWordStart c = true ↔ IsLetter c := by
  simp only [isWordStart, Bool.and_eq_true, isWordChar_iff, Bool.not_eq_true', ← Bool.not_eq_true,
    isDigit_iff, IsLetterOrDigit]
  constructor
  · rintro ⟨hletter | hdigit, hnot⟩
    · exact hletter
    · exact absurd hdigit hnot
  · intro hletter
    exact ⟨.inl hletter, fun hdigit => hdigit.not_isLetter hletter⟩

theorem markOf?_iff {c : Char} {kind : Terminal} : markOf? c = some kind ↔ (c, kind) ∈ marks := by
  constructor
  · intro h
    unfold markOf? at h
    split at h <;> cases h <;> decide
  · intro h
    simp only [marks, List.mem_cons, Prod.mk.injEq, List.not_mem_nil, or_false] at h
    rcases h with h | h | h | h | h | h | h | h | h <;> rw [h.1, h.2] <;> rfl

/-- A mark is no part of a word or a number, and no blank. -/
theorem not_isLetterOrDigit_of_markOf? {c : Char} {kind : Terminal} (h : markOf? c = some kind) :
    ¬ IsLetterOrDigit c ∧ ¬ IsBlank c := by
  rw [← isWordChar_iff, ← isBlank_iff]
  unfold markOf? at h
  split at h <;> cases h <;> decide

theorem IsLetterOrDigit.not_isBlank {c : Char} (h : IsLetterOrDigit c) : ¬ IsBlank c := by
  rw [← isWordChar_iff] at h
  rintro (rfl | rfl | rfl | rfl) <;> exact absurd h (by decide)

/-! ## Places -/

namespace Place

theorem behind_append_singleton (before : List Char) (c : Char) :
    behind (before ++ [c]) = (behind before).after c := by
  by_cases hc : c = '\n'
  · simp [behind, after, hc, Int.add_assoc]
  · simp [behind, after, hc, Int.add_assoc]

/-- The place is counted along with the characters. -/
theorem foldl_after_behind (before run : List Char) :
    run.foldl after (behind before) = behind (before ++ run) := by
  induction run generalizing before with
  | nil => rw [List.foldl_nil, List.append_nil]
  | cons c run ih =>
    rw [List.foldl_cons, ← behind_append_singleton, ih, List.append_assoc, List.singleton_append]

end Place

/-! ## Single lexemes -/

/-- No character that could belong to the lexeme stands behind it. -/
def Stops (l after : List Char) : Prop :=
  ∀ b ∈ after.head?, (IsWord l → ¬ IsLetterOrDigit b) ∧ (IsNumber l → ¬ IsDigit b)

theorem IsWord.exists_cons {l : List Char} (h : IsWord l) :
    ∃ a rest, l = a :: rest ∧ IsLetter a := by
  cases l with
  | nil => exact h.elim
  | cons a rest => exact ⟨a, rest, rfl, h.1⟩

theorem IsWord.isLetterOrDigit {l : List Char} (h : IsWord l) : ∀ c ∈ l, IsLetterOrDigit c := by
  cases l with
  | nil => exact h.elim
  | cons a rest => exact List.forall_mem_cons.2 ⟨.inl h.1, h.2⟩

theorem IsWord.not_isNumber {l : List Char} (h : IsWord l) : ¬ IsNumber l := by
  obtain ⟨a, rest, rfl, ha⟩ := h.exists_cons
  intro hnumber
  exact (hnumber.2 a List.mem_cons_self).not_isLetter ha

/-- The three kinds of lexemes: words, keywords among them, numbers and marks. -/
theorem denotes_iff {l : List Char} {kind : Terminal} {value : String} :
    Denotes l kind value ↔
      (IsWord l ∧ ∀ place, Cursor.wordToken (String.ofList l) place = ⟨kind, value, place⟩) ∨
      (IsNumber l ∧ kind = .constant ∧ value = String.ofList l) ∨
      ∃ c, l = [c] ∧ markOf? c = some kind ∧ value = "" := by
  constructor
  · rintro (_ | _ | ⟨hword, hint, hreturn⟩ | hnumber | hmark)
    · exact .inl ⟨by decide, fun _ => rfl⟩
    · exact .inl ⟨by decide, fun _ => rfl⟩
    · have hint' : String.ofList l ≠ "int" := fun h => hint (by rw [← h, String.toList_ofList])
      have hreturn' : String.ofList l ≠ "return" :=
        fun h => hreturn (by rw [← h, String.toList_ofList])
      exact .inl ⟨hword, fun _ => by rw [Cursor.wordToken, if_neg hint', if_neg hreturn']⟩
    · exact .inr (.inl ⟨hnumber, rfl, rfl⟩)
    · exact .inr (.inr ⟨_, rfl, markOf?_iff.2 hmark, rfl⟩)
  · rintro (⟨hword, htoken⟩ | ⟨hnumber, rfl, rfl⟩ | ⟨c, rfl, hmark, rfl⟩)
    · have htoken := htoken ⟨1, 1⟩
      unfold Cursor.wordToken at htoken
      split at htoken
      · next hint =>
        cases htoken
        rw [← String.toList_ofList (l := l), hint]
        exact .intWord
      · next hint =>
        split at htoken
        · next hreturn =>
          cases htoken
          rw [← String.toList_ofList (l := l), hreturn]
          exact .returnWord
        · next hreturn =>
          cases htoken
          exact .identifier hword (fun h => hint (by rw [h, String.ofList_toList]))
            fun h => hreturn (by rw [h, String.ofList_toList])
    · exact .constant hnumber
    · exact .mark (markOf?_iff.1 hmark)

/-- A lexeme is not empty and starts with no blank, and a number with a digit. -/
theorem Denotes.exists_cons {l : List Char} {kind : Terminal} {value : String}
    (h : Denotes l kind value) :
    ∃ a rest, l = a :: rest ∧ ¬ IsBlank a ∧ (IsDigit a ↔ IsNumber l) := by
  rcases denotes_iff.1 h with ⟨hword, -⟩ | ⟨hnumber, -, -⟩ | ⟨c, rfl, hmark, -⟩
  · obtain ⟨a, rest, rfl, ha⟩ := hword.exists_cons
    refine ⟨a, rest, rfl, IsLetterOrDigit.not_isBlank (.inl ha), ?_⟩
    exact iff_of_false (fun hdigit => hdigit.not_isLetter ha) hword.not_isNumber
  · obtain ⟨a, rest, rfl⟩ := List.exists_cons_of_ne_nil hnumber.1
    have ha : IsDigit a := hnumber.2 a List.mem_cons_self
    exact ⟨a, rest, rfl, IsLetterOrDigit.not_isBlank (.inr ha), iff_of_true ha hnumber⟩
  · obtain ⟨hletter, hblank⟩ := not_isLetterOrDigit_of_markOf? hmark
    refine ⟨c, [], rfl, hblank, ?_⟩
    exact iff_of_false (fun hdigit => hletter (.inr hdigit))
      fun hnumber => hletter (.inr (hnumber.2 c List.mem_cons_self))

theorem Denotes.not_isBlank_head? {l after : List Char} {kind : Terminal} {value : String}
    (h : Denotes l kind value) : ∀ b ∈ (l ++ after).head?, ¬ IsBlank b := by
  obtain ⟨a, rest, rfl, ha, -⟩ := h.exists_cons
  simpa using ha

namespace Cursor

/-- The cursor behind the characters `l`, with `after` left. -/
def past (c : Cursor) (l after : List Char) : Cursor :=
  ⟨after, c.offset + l.length, l.foldl Place.after c.place⟩

theorem takeWhile_of_append {c : Cursor} {p : Char → Bool} {l after : List Char}
    (hrest : c.rest = l ++ after) (hl : ∀ a ∈ l, p a = true)
    (hafter : ∀ b ∈ after.head?, p b = false) : c.takeWhile p = (l, c.past l after) := by
  have hend : after.takeWhile p = [] ∧ after.dropWhile p = after := by
    cases after with
    | nil => exact ⟨rfl, rfl⟩
    | cons b after =>
      have hb : p b = false := hafter b rfl
      exact ⟨by simp [hb], by simp [hb]⟩
  have htake : c.rest.takeWhile p = l := by
    rw [hrest, List.takeWhile_append_of_pos hl, hend.1, List.append_nil]
  have hdrop : c.rest.dropWhile p = after := by
    rw [hrest, List.dropWhile_append_of_pos hl, hend.2]
  simp only [takeWhile, htake, hdrop, past]

/-- What `takeWhile` leaves starts with no such character. -/
theorem eq_false_of_mem_head?_dropWhile {p : Char → Bool} {l : List Char} {b : Char}
    (h : b ∈ (l.dropWhile p).head?) : p b = false := by
  have hnot := List.head?_dropWhile_not p l
  rw [Option.mem_def.1 h] at hnot
  exact hnot

/-- **A lexeme that stops is a token.** -/
theorem token?_of_stops {c : Cursor} {l after : List Char} {kind : Terminal} {value : String}
    (hrest : c.rest = l ++ after) (h : Denotes l kind value) (hstops : Stops l after) :
    c.token? = some (⟨kind, value, c.place⟩, c.past l after) := by
  rcases denotes_iff.1 h with ⟨hword, htoken⟩ | ⟨hnumber, rfl, rfl⟩ | ⟨a, rfl, hmark, rfl⟩
  · have hrun : c.takeWhile isWordChar = (l, c.past l after) :=
      takeWhile_of_append hrest (fun a ha => isWordChar_iff.2 (hword.isLetterOrDigit a ha))
        fun b hb => Bool.eq_false_iff.2 fun hchar => (hstops b hb).1 hword (isWordChar_iff.1 hchar)
    obtain ⟨a, rest, rfl, ha⟩ := hword.exists_cons
    simp only [token?, hrest, List.cons_append, isWordStart_iff.2 ha, if_true, takeWord, hrun,
      htoken]
  · have hrun : c.takeWhile Char.isDigit = (l, c.past l after) :=
      takeWhile_of_append hrest (fun a ha => isDigit_iff.2 (hnumber.2 a ha))
        fun b hb => Bool.eq_false_iff.2 fun hdigit => (hstops b hb).2 hnumber (isDigit_iff.1 hdigit)
    obtain ⟨a, rest, rfl⟩ := List.exists_cons_of_ne_nil hnumber.1
    have ha : IsDigit a := hnumber.2 a List.mem_cons_self
    have hstart : ¬ isWordStart a = true := fun h => ha.not_isLetter (isWordStart_iff.1 h)
    simp only [token?, hrest, List.cons_append, hstart, isDigit_iff.2 ha, if_true, takeDigits, hrun]
    rfl
  · have hnot := (not_isLetterOrDigit_of_markOf? hmark).1
    have hstart : ¬ isWordStart a = true := fun h => hnot (.inl (isWordStart_iff.1 h))
    have hdigit : ¬ a.isDigit = true := fun h => hnot (.inr (isDigit_iff.1 h))
    simp only [token?, hrest, List.singleton_append, hstart, hdigit, hmark]
    rfl

/-- The kind and the value of a word's token do not depend on its place. -/
theorem wordToken_eq (word : String) (place place' : Place) :
    wordToken word place' = ⟨(wordToken word place).kind, (wordToken word place).value, place'⟩ := by
  unfold wordToken
  split_ifs <;> rfl

/-- **Every token is a lexeme that stops.** -/
theorem stops_of_token? {c c' : Cursor} {t : Token} (h : c.token? = some (t, c')) :
    ∃ l, c.rest = l ++ c'.rest ∧ Denotes l t.kind t.value ∧ Stops l c'.rest := by
  unfold token? at h
  split at h
  · cases h
  · next a rest hrest =>
    split at h
    · next ha =>
      have hword : IsWord (c.rest.takeWhile isWordChar) := by
        have hchar : isWordChar a = true := by
          simp only [isWordStart, Bool.and_eq_true] at ha
          exact ha.1
        rw [hrest, List.takeWhile_cons, if_pos hchar]
        exact ⟨isWordStart_iff.1 ha, fun b hb => isWordChar_iff.1 (List.mem_takeWhile_imp hb)⟩
      cases h
      refine ⟨_, List.takeWhile_append_dropWhile.symm,
        denotes_iff.2 (.inl ⟨hword, wordToken_eq _ _⟩), fun b hb => ⟨fun _ hb' => ?_, ?_⟩⟩
      · exact Bool.eq_false_iff.1 (eq_false_of_mem_head?_dropWhile hb) (isWordChar_iff.2 hb')
      · exact fun hnumber => absurd hnumber hword.not_isNumber
    · split at h
      · next hdigit =>
        have hnumber : IsNumber (c.rest.takeWhile Char.isDigit) := by
          rw [hrest, List.takeWhile_cons, if_pos hdigit]
          exact ⟨List.cons_ne_nil _ _, List.forall_mem_cons.2 ⟨isDigit_iff.1 hdigit,
            fun b hb => isDigit_iff.1 (List.mem_takeWhile_imp hb)⟩⟩
        cases h
        refine ⟨_, List.takeWhile_append_dropWhile.symm, .constant hnumber,
          fun b hb => ⟨fun hword => absurd hnumber hword.not_isNumber, fun _ hb' => ?_⟩⟩
        exact Bool.eq_false_iff.1 (eq_false_of_mem_head?_dropWhile hb) (isDigit_iff.2 hb')
      · obtain ⟨kind, hmark, heq⟩ := Option.map_eq_some_iff.1 h
        cases heq
        have hnot := (not_isLetterOrDigit_of_markOf? hmark).1
        refine ⟨[a], hrest, .mark (markOf?_iff.1 hmark), fun b hb => ⟨fun hword => ?_, ?_⟩⟩
        · exact absurd (hword.isLetterOrDigit a List.mem_cons_self) hnot
        · exact fun hnumber => absurd (.inr (hnumber.2 a List.mem_cons_self)) hnot

end Cursor

/-! ## Whole texts -/

namespace IsSegmentation

variable {text lead rest : List Char} {p : Piece} {pieces : List Piece}

theorem nil_iff : IsSegmentation text lead [] ↔ text = lead ∧ ∀ c ∈ lead, IsBlank c := by
  constructor
  · intro h
    exact ⟨by simpa using h.text_eq, h.lead⟩
  · rintro ⟨rfl, hlead⟩
    exact ⟨by simp, hlead, by simp, by simp, .nil⟩

/-- Whether a lexeme stops is seen at the next piece. -/
theorem stops_iff (h : IsSegmentation rest p.gap pieces) :
    Stops p.lexeme rest ↔
      ∀ q ∈ pieces.head?, p.gap = [] → MayTouch p.lexeme q.lexeme := by
  rw [h.text_eq]
  cases hgap : p.gap with
  | cons b gap =>
    have hb : ¬ IsLetterOrDigit b := fun hb =>
      hb.not_isBlank (h.lead b (by rw [hgap]; exact List.mem_cons_self))
    simp only [Stops, List.cons_append, List.head?_cons, Option.mem_def, Option.some.injEq,
      forall_eq', reduceCtorEq, false_implies, implies_true, iff_true]
    exact ⟨fun _ => hb, fun _ hdigit => hb (.inr hdigit)⟩
  | nil =>
    cases pieces with
    | nil => simp [Stops]
    | cons q pieces =>
      obtain ⟨kind, value, hq⟩ := h.lexemes q List.mem_cons_self
      obtain ⟨a, l, hl, -, ha⟩ := hq.exists_cons
      rw [hl] at ha
      simp [Stops, MayTouch, Piece.chars, hl, ← ha]

/-- A segmentation goes on behind its first lexeme. -/
theorem cons_iff :
    IsSegmentation text lead (p :: pieces) ↔
      ∃ rest, text = lead ++ (p.lexeme ++ rest) ∧ (∀ c ∈ lead, IsBlank c) ∧
        (∃ kind value, Denotes p.lexeme kind value) ∧ Stops p.lexeme rest ∧
        IsSegmentation rest p.gap pieces := by
  constructor
  · intro h
    have hrest : IsSegmentation (p.gap ++ pieces.flatMap Piece.chars) p.gap pieces :=
      ⟨rfl, h.gaps p List.mem_cons_self, fun q hq => h.gaps q (List.mem_cons_of_mem p hq),
        fun q hq => h.lexemes q (List.mem_cons_of_mem p hq), (List.isChain_cons.1 h.touch).2⟩
    refine ⟨_, ?_, h.lead, h.lexemes p List.mem_cons_self, ?_, hrest⟩
    · rw [h.text_eq, List.flatMap_cons, Piece.chars, List.append_assoc]
    · exact hrest.stops_iff.2 (List.isChain_cons.1 h.touch).1
  · rintro ⟨rest, rfl, hlead, hlexeme, hstops, hrest⟩
    refine ⟨?_, hlead, List.forall_mem_cons.2 ⟨hrest.lead, hrest.gaps⟩,
      List.forall_mem_cons.2 ⟨hlexeme, hrest.lexemes⟩,
      List.isChain_cons.2 ⟨hrest.stops_iff.1 hstops, hrest.touch⟩⟩
    rw [List.flatMap_cons, Piece.chars, hrest.text_eq, List.append_assoc]

end IsSegmentation

namespace Cursor

theorem takeWhile_isBlank_of_append {c : Cursor} {lead rest : List Char}
    (hrest : c.rest = lead ++ rest)
    (hlead : ∀ a ∈ lead, IsBlank a) (hhead : ∀ b ∈ rest.head?, ¬ IsBlank b) :
    c.takeWhile isBlank = (lead, c.past lead rest) :=
  takeWhile_of_append hrest (fun a ha => isBlank_iff.2 (hlead a ha))
    fun b hb => Bool.eq_false_iff.2 fun hblank => hhead b hb (isBlank_iff.1 hblank)

theorem scan_of_token? {c c' : Cursor} {t : Token} (h : c.skipBlanks.token? = some (t, c')) :
    c.scan = { c'.scan with tokens := t :: c'.scan.tokens } := by
  rw [scan]
  split
  · next h' =>
    cases h.symm.trans h'
    rfl
  · next h' => cases h.symm.trans h'

theorem scan_of_rest_eq_nil {c : Cursor} (h : c.skipBlanks.rest = []) :
    c.scan = ⟨[⟨.endMark, "", c.skipBlanks.place⟩], c.skipBlanks, none⟩ := by
  have htoken : c.skipBlanks.token? = none := by
    rw [token?, h]
  rw [scan]
  split
  · next h' => cases htoken.symm.trans h'
  · rw [h]

/-- **A segmentation is scanned** into its tokens: what stands behind each
    lexeme is scanned like a text of its own, from the place reached there. -/
theorem scan_of_isSegmentation {c : Cursor} {before lead : List Char} {pieces : List Piece}
    (h : IsSegmentation c.rest lead pieces) (hplace : c.place = .behind before) :
    c.scan.error? = none ∧ Piece.ReadAs (before ++ lead) pieces c.scan.tokens := by
  induction pieces generalizing c before lead with
  | nil =>
    obtain ⟨hrest, hlead⟩ := IsSegmentation.nil_iff.1 h
    have hskip : c.skipBlanks = c.past lead [] := by
      rw [skipBlanks, takeWhile_isBlank_of_append (by rw [hrest, List.append_nil]) hlead (by simp)]
    have hscan := scan_of_rest_eq_nil (c := c) (by rw [hskip]; rfl)
    have hend : c.skipBlanks.place = .behind (before ++ lead) := by
      rw [hskip, past, hplace, Place.foldl_after_behind]
    rw [hscan, hend]
    exact ⟨rfl, .nil⟩
  | cons p pieces ih =>
    obtain ⟨rest, hrest, hlead, ⟨kind, value, hlexeme⟩, hstops, htail⟩ := IsSegmentation.cons_iff.1 h
    have hskip : c.skipBlanks = c.past lead (p.lexeme ++ rest) := by
      rw [skipBlanks, takeWhile_isBlank_of_append hrest hlead hlexeme.not_isBlank_head?]
    have hstart : (c.past lead (p.lexeme ++ rest)).place = .behind (before ++ lead) := by
      rw [past, hplace, Place.foldl_after_behind]
    have htoken := token?_of_stops (c := c.past lead (p.lexeme ++ rest)) rfl hlexeme hstops
    rw [← hskip] at htoken hstart
    have hnext : (c.skipBlanks.past p.lexeme rest).place = .behind (before ++ lead ++ p.lexeme) := by
      rw [past, hstart, Place.foldl_after_behind]
    obtain ⟨herror, htokens⟩ := ih htail hnext
    rw [scan_of_token? htoken, hstart]
    refine ⟨herror, .cons hlexeme ?_⟩
    rwa [Piece.chars, ← List.append_assoc]

/-- **A scan that does not fail** has found a segmentation. -/
theorem isSegmentation_of_scan {c : Cursor} (h : c.scan.error? = none) :
    ∃ lead pieces, IsSegmentation c.rest lead pieces := by
  fun_induction scan c with
  | case1 c t c' htoken found ih =>
    obtain ⟨gap, pieces, htail⟩ := ih h
    obtain ⟨l, hrest, hlexeme, hstops⟩ := stops_of_token? htoken
    refine ⟨c.rest.takeWhile isBlank, ⟨l, gap⟩ :: pieces, IsSegmentation.cons_iff.2
      ⟨c'.rest, ?_, fun b hb => isBlank_iff.1 (List.mem_takeWhile_imp hb), ⟨_, _, hlexeme⟩,
        hstops, htail⟩⟩
    rw [← hrest]
    exact List.takeWhile_append_dropWhile.symm
  | case2 c htoken hrest =>
    have hblank : ∀ b ∈ c.rest, IsBlank b := fun b hb =>
      isBlank_iff.1 (List.dropWhile_eq_nil_iff.1 hrest b hb)
    exact ⟨c.rest, [], IsSegmentation.nil_iff.2 ⟨rfl, hblank⟩⟩
  | case3 c htoken a rest hrest => cases h

end Cursor

/-! ## Uniqueness -/

theorem leading_blanks_unique {lead rest lead' rest' : List Char}
    (h : lead ++ rest = lead' ++ rest') (hlead : ∀ a ∈ lead, IsBlank a)
    (hrest : ∀ b ∈ rest.head?, ¬ IsBlank b) (hlead' : ∀ a ∈ lead', IsBlank a)
    (hrest' : ∀ b ∈ rest'.head?, ¬ IsBlank b) : lead = lead' ∧ rest = rest' := by
  let c : Cursor := ⟨lead ++ rest, 0, ⟨1, 1⟩⟩
  have hrun : c.takeWhile isBlank = (lead, c.past lead rest) :=
    Cursor.takeWhile_isBlank_of_append rfl hlead hrest
  have hrun' : c.takeWhile isBlank = (lead', c.past lead' rest') :=
    Cursor.takeWhile_isBlank_of_append h hlead' hrest'
  obtain ⟨hfirst, hpast⟩ := Prod.mk.inj (hrun.symm.trans hrun')
  exact ⟨hfirst, congrArg Cursor.rest hpast⟩

/-- Two lexemes that stop, at the start of one text, are the same, and so are
    their kinds and values. -/
theorem Denotes.unique {l after l' after' : List Char} {kind kind' : Terminal}
    {value value' : String} (heq : l ++ after = l' ++ after') (h : Denotes l kind value)
    (hstops : Stops l after) (h' : Denotes l' kind' value') (hstops' : Stops l' after') :
    (l = l' ∧ after = after') ∧ kind = kind' ∧ value = value' := by
  let c : Cursor := ⟨l ++ after, 0, ⟨1, 1⟩⟩
  have htoken := Cursor.token?_of_stops (c := c) rfl h hstops
  have htoken' := Cursor.token?_of_stops (c := c) heq h' hstops'
  obtain ⟨htokens, hpast⟩ := Prod.mk.inj (Option.some.inj (htoken.symm.trans htoken'))
  have hafter : after = after' := congrArg Cursor.rest hpast
  subst hafter
  exact ⟨⟨List.append_cancel_right heq, rfl⟩, congrArg Token.kind htokens,
    congrArg Token.value htokens⟩

/-- A text of blanks has no lexeme. -/
theorem IsSegmentation.not_cons_of_nil {text lead lead' : List Char} {p : Piece}
    {pieces : List Piece} (h : IsSegmentation text lead []) :
    ¬ IsSegmentation text lead' (p :: pieces) := by
  intro h'
  obtain ⟨rfl, hlead⟩ := nil_iff.1 h
  obtain ⟨rest, hrest, hlead', ⟨kind, value, hlexeme⟩, -, -⟩ := cons_iff.1 h'
  have heq : text ++ [] = lead' ++ (p.lexeme ++ rest) := by rw [List.append_nil, ← hrest]
  obtain ⟨-, hend⟩ :=
    leading_blanks_unique heq hlead (by simp) hlead' hlexeme.not_isBlank_head?
  obtain ⟨a, l, hl, -⟩ := hlexeme.exists_cons
  rw [hl] at hend
  cases hend

/-- **There is one segmentation at most.** -/
theorem IsSegmentation.unique {text lead lead' : List Char} {pieces pieces' : List Piece}
    (h : IsSegmentation text lead pieces) (h' : IsSegmentation text lead' pieces') :
    lead = lead' ∧ pieces = pieces' := by
  induction pieces generalizing text lead lead' pieces' with
  | nil =>
    cases pieces' with
    | nil => exact ⟨(nil_iff.1 h).1.symm.trans (nil_iff.1 h').1, rfl⟩
    | cons p' pieces' => exact absurd h' h.not_cons_of_nil
  | cons p pieces ih =>
    cases pieces' with
    | nil => exact absurd h h'.not_cons_of_nil
    | cons p' pieces' =>
      obtain ⟨rest, hrest, hlead, ⟨kind, value, hlexeme⟩, hstops, htail⟩ := cons_iff.1 h
      obtain ⟨rest', hrest', hlead', ⟨kind', value', hlexeme'⟩, hstops', htail'⟩ := cons_iff.1 h'
      obtain ⟨hleads, hrests⟩ := leading_blanks_unique (hrest.symm.trans hrest') hlead
        hlexeme.not_isBlank_head? hlead' hlexeme'.not_isBlank_head?
      obtain ⟨⟨hlexemes, rfl⟩, -⟩ := hlexeme.unique hrests hstops hlexeme' hstops'
      obtain ⟨hgaps, rfl⟩ := ih htail htail'
      exact ⟨hleads, by rw [Piece.ext hlexemes hgaps]⟩

theorem stops_nil (l : List Char) : Stops l [] := by
  simp [Stops]

theorem Piece.ReadAs.unique {before : List Char} {pieces : List Piece} {tokens tokens' : List Token}
    (h : Piece.ReadAs before pieces tokens) (h' : Piece.ReadAs before pieces tokens') :
    tokens = tokens' := by
  induction h generalizing tokens' with
  | nil =>
    cases h'
    rfl
  | cons hlexeme _ ih =>
    obtain _ | ⟨hlexeme', hrest'⟩ := h'
    obtain ⟨-, rfl, rfl⟩ := hlexeme.unique rfl (stops_nil _) hlexeme' (stops_nil _)
    rw [ih hrest']

/-! ## The scanner -/

theorem Scanner.tokenize_eq_ok_iff {s : Scanner} {tokens : List Token} :
    s.tokenize.2 = .ok tokens ↔ s.cursor.scan.error? = none ∧ s.cursor.scan.tokens = tokens := by
  unfold Scanner.tokenize
  dsimp only
  split
  · next herror => simp [herror]
  · next e herror => simp [herror]

/-- **The scanner finds the longest matches.**  For every text and every symbol
    table, it returns tokens if and only if the text has a segmentation; there
    is one segmentation at most; and what it returns are the tokens of the
    segmentation: one for each lexeme, with the kind and value that the lexeme
    denotes and the place where it starts, and an end mark at the end of the
    text. -/
theorem scan_finds_longest_matches (text : String) (symbols : Option Symbols) :
    ((∃ tokens, (Scanner.start text symbols).tokenize.2 = .ok tokens) ↔
      ∃ lead pieces, IsSegmentation text.toList lead pieces) ∧
    (∀ lead pieces lead' pieces', IsSegmentation text.toList lead pieces →
      IsSegmentation text.toList lead' pieces' → lead = lead' ∧ pieces = pieces') ∧
    ∀ lead pieces, IsSegmentation text.toList lead pieces → ∀ tokens,
      ((Scanner.start text symbols).tokenize.2 = .ok tokens ↔ Piece.ReadAs lead pieces tokens) := by
  have hscan : ∀ lead pieces, IsSegmentation text.toList lead pieces →
      (Scanner.start text symbols).cursor.scan.error? = none ∧
        Piece.ReadAs lead pieces (Scanner.start text symbols).cursor.scan.tokens :=
    fun lead pieces h => Cursor.scan_of_isSegmentation h (show _ = Place.behind [] from rfl)
  refine ⟨⟨?_, ?_⟩, fun _ _ _ _ h h' => h.unique h', fun lead pieces h tokens => ⟨?_, ?_⟩⟩
  · rintro ⟨tokens, htokens⟩
    exact Cursor.isSegmentation_of_scan (Scanner.tokenize_eq_ok_iff.1 htokens).1
  · rintro ⟨lead, pieces, h⟩
    exact ⟨_, Scanner.tokenize_eq_ok_iff.2 ⟨(hscan lead pieces h).1, rfl⟩⟩
  · intro htokens
    rw [← (Scanner.tokenize_eq_ok_iff.1 htokens).2]
    exact (hscan lead pieces h).2
  · intro hread
    exact Scanner.tokenize_eq_ok_iff.2
      ⟨(hscan lead pieces h).1, (hscan lead pieces h).2.unique hread⟩

/-- The theorem at a text where lexemes touch and lines end in two ways. -/
theorem scan_finds_longest_matches_touching :
    let pieces : List Piece :=
      [⟨"12".toList, []⟩, ⟨"ab12".toList, "\t".toList⟩, ⟨"int9".toList, "\r\n".toList⟩,
        ⟨['('], []⟩, ⟨"int".toList, []⟩, ⟨['*'], "\n ".toList⟩, ⟨"07".toList, []⟩]
    IsSegmentation " 12ab12\tint9\r\n(int*\n 07".toList " ".toList pieces ∧
      (Scanner.start " 12ab12\tint9\r\n(int*\n 07" none).tokenize.2 =
        .ok [⟨.constant, "12", ⟨1, 2⟩⟩, ⟨.identifier, "ab12", ⟨1, 4⟩⟩,
          ⟨.identifier, "int9", ⟨1, 9⟩⟩, ⟨.openParen, "", ⟨2, 1⟩⟩, ⟨.intWord, "", ⟨2, 2⟩⟩,
          ⟨.star, "", ⟨2, 5⟩⟩, ⟨.constant, "07", ⟨3, 2⟩⟩, ⟨.endMark, "", ⟨3, 4⟩⟩] := by
  intro pieces
  have hsegmentation :
      IsSegmentation " 12ab12\tint9\r\n(int*\n 07".toList " ".toList pieces := by
    refine ⟨by decide, by simp [IsBlank], by simp [pieces, IsBlank], ?_, by decide⟩
    simp only [pieces, List.forall_mem_cons]
    exact ⟨⟨_, _, .constant (by decide)⟩, ⟨_, _, .identifier (by decide) (by decide) (by decide)⟩,
      ⟨_, _, .identifier (by decide) (by decide) (by decide)⟩, ⟨.openParen, _, .mark (by decide)⟩,
      ⟨_, _, .intWord⟩, ⟨.star, _, .mark (by decide)⟩, ⟨_, _, .constant (by decide)⟩, by simp⟩
  refine ⟨hsegmentation, ((scan_finds_longest_matches _ _).2.2 _ _ hsegmentation _).2 ?_⟩
  exact .cons (.constant (by decide)) <| .cons (.identifier (by decide) (by decide) (by decide)) <|
    .cons (.identifier (by decide) (by decide) (by decide)) <| .cons (.mark (by decide)) <|
    .cons .intWord <| .cons (.mark (by decide)) <| .cons (.constant (by decide)) .nil

end Straightline
