/-
  Assembly text read back.

  Whoever gets an assembly text knows nothing of how it was made.  It has a
  heading and lines below it, each closed by a line end.  A line starts with
  four blanks and has a mnemonic and operands; an operand is the name of a
  register, or a number in decimal digits, and all but the last have a comma
  behind them.  This is enough to read the text, and so to run it.

  * `Assembly.IsLine`: the texts that a line can have;
  * `Assembly.readLine?`, `Assembly.readListing?`: the line that a text stands
    for, and the lines of a whole listing;
  * `Assembly.readLine?_text`, `Assembly.readListing?_listing`: what was written
    is read back;
  * `Assembly.run?`: the registers after a text has been run.
-/
import Straightline.Proofs.Execution

namespace Straightline

/-- The register of a given name. -/
def Register.ofName? : String → Option Register
  | "t0" => some .t0
  | "t1" => some .t1
  | "t2" => some .t2
  | "t3" => some .t3
  | "t4" => some .t4
  | "t5" => some .t5
  | "t6" => some .t6
  | "a0" => some .a0
  | "a1" => some .a1
  | "a2" => some .a2
  | "a3" => some .a3
  | "a4" => some .a4
  | "a5" => some .a5
  | "a6" => some .a6
  | "a7" => some .a7
  | _ => none

theorem Register.ofName?_eq_some_iff {name : String} {r : Register} :
    ofName? name = some r ↔ name = r.name := by
  constructor
  · intro h
    unfold ofName? at h
    split at h
    all_goals
      cases h
      try rfl
  · rintro rfl
    cases r <;> rfl

namespace Assembly

/-! ## The form of a line -/

/-- The names that stand for registers. -/
def registerNames : List String :=
  ["t0", "t1", "t2", "t3", "t4", "t5", "t6", "a0", "a1", "a2", "a3", "a4", "a5", "a6", "a7"]

/-- Whether a text is a number: digits, and possibly a minus sign before
    them. -/
def isNumeral : List Char → Bool
  | '-' :: digits => Text.isDecimal digits
  | digits => Text.isDecimal digits

/-- The texts that a line can have: operations on registers, the addition of a
    number, a number or a register that is copied to another, and if constants
    are not loaded, differences and products with a number in the last
    place. -/
inductive IsLine (loadRight : Bool) : String → Prop where
  | operate {op d r s : String} : op ∈ ["add", "sub", "mul"] → d ∈ registerNames →
      r ∈ registerNames → s ∈ registerNames →
      IsLine loadRight ("    " ++ op ++ " " ++ d ++ ", " ++ r ++ ", " ++ s)
  | operateLiteral {op d r n : String} : loadRight = false → op ∈ ["sub", "mul"] →
      d ∈ registerNames → r ∈ registerNames → isNumeral n.toList = true →
      IsLine loadRight ("    " ++ op ++ " " ++ d ++ ", " ++ r ++ ", " ++ n)
  | addImmediate {d r n : String} : d ∈ registerNames → r ∈ registerNames →
      isNumeral n.toList = true → IsLine loadRight ("    addi " ++ d ++ ", " ++ r ++ ", " ++ n)
  | loadImmediate {d n : String} : d ∈ registerNames → isNumeral n.toList = true →
      IsLine loadRight ("    li " ++ d ++ ", " ++ n)
  | move {d r : String} : d ∈ registerNames → r ∈ registerNames →
      IsLine loadRight ("    mv " ++ d ++ ", " ++ r)

/-- Whether a number stands only where it may: in the last place of a
    subtraction or multiplication, if constants are not loaded. -/
def Line.IsProper (loadRight : Bool) : Line → Prop
  | .operate op _ _ (.literal _) => loadRight = false ∧ op ≠ .add
  | _ => True

/-! ## Reading -/

/-- The number that a text stands for. -/
def readNumber? : List Char → Option Int
  | '-' :: digits => if Text.isDecimal digits then some (-Text.decimalValue digits) else none
  | digits => if Text.isDecimal digits then some (Text.decimalValue digits) else none

/-- The register that a text names. -/
def readRegister? (text : List Char) : Option Register :=
  Register.ofName? (String.ofList text)

/-- The register that a text names, with a comma behind the name. -/
def readRegisterComma? (text : List Char) : Option Register :=
  if text.getLast? = some ',' then readRegister? text.dropLast else none

/-- The last operand of an operation: a register or a number. -/
def readSource? (text : List Char) : Option Source :=
  (readRegister? text).map Source.register <|> (readNumber? text).map Source.literal

/-- The operation of a given name. -/
def Operation.ofName? : String → Option Operation
  | "add" => some .add
  | "sub" => some .sub
  | "mul" => some .mul
  | _ => none

/-- The line that a text stands for: four blanks, and words with a blank between
    two of them. -/
def readLine? (text : List Char) : Option Line :=
  match text.splitOn ' ' with
  | [[], [], [], [], name, d, r, s] => do
    let dest ← readRegisterComma? d
    let lhs ← readRegisterComma? r
    if name = ['a', 'd', 'd', 'i'] then return .addImmediate dest lhs (← readNumber? s)
    else return .operate (← Operation.ofName? (String.ofList name)) dest lhs (← readSource? s)
  | [[], [], [], [], name, d, s] => do
    let dest ← readRegisterComma? d
    if name = ['l', 'i'] then return .loadImmediate dest (← readNumber? s)
    else if name = ['m', 'v'] then return .move dest (← readRegister? s)
    else none
  | _ => none

/-- The lines of a text, if each of them is closed by a line end. -/
def closedLines? (text : List Char) : Option (List (List Char)) :=
  let parts := text.splitOn '\n'
  if parts.getLast? = some [] then some parts.dropLast else none

/-- The lines that a text holds below its heading. -/
def readListing? (text : String) : Option (List Line) := do
  match ← closedLines? text.toList with
  | ['.', 't', 'e', 'x', 't'] :: lines => lines.mapM readLine?
  | _ => none

section

variable {digits : List Char} {value : Int}

theorem toList_toString (value : Int) : (toString value).toList =
    if 0 ≤ value then Nat.toDigits 10 value.toNat else '-' :: Nat.toDigits 10 (-value).toNat := by
  rw [Int.toString_eq_repr, Int.repr_eq_if]
  split
  · rw [Nat.repr_eq_ofList_toDigits, String.toList_ofList]
  · simp [Nat.repr_eq_ofList_toDigits]

theorem isDecimal_toDigits (n : Nat) : Text.isDecimal (Nat.toDigits 10 n) = true := by
  have hdigits : ∀ c ∈ Nat.toDigits 10 n, c.isDigit = true := fun c hc =>
    Nat.isDigit_of_mem_toDigits (by decide) (by decide) hc
  simpa [Text.isDecimal, Nat.toDigits_ne_nil] using hdigits

theorem decimalValue_toDigits (n : Nat) : Text.decimalValue (Nat.toDigits 10 n) = n :=
  Nat.ofDigitChars_ten_toDigits

/-- Digits do not start with a sign. -/
theorem ne_minus_cons_of_isDecimal (h : Text.isDecimal digits = true) (rest : List Char) :
    digits ≠ '-' :: rest := by
  rintro rfl
  simp [Text.isDecimal] at h

theorem isNumeral_of_isDecimal (h : Text.isDecimal digits = true) : isNumeral digits = true := by
  unfold isNumeral
  split
  · exact absurd rfl (ne_minus_cons_of_isDecimal h _)
  · exact h

theorem readNumber?_of_isDecimal (h : Text.isDecimal digits = true) :
    readNumber? digits = some (Text.decimalValue digits : Int) := by
  unfold readNumber?
  split
  · exact absurd rfl (ne_minus_cons_of_isDecimal h _)
  · exact if_pos h

theorem isNumeral_toString (value : Int) : isNumeral (toString value).toList = true := by
  rw [toList_toString]
  split
  · exact isNumeral_of_isDecimal (isDecimal_toDigits _)
  · exact isDecimal_toDigits _

/-- **A number that was written is read back.** -/
theorem readNumber?_toString (value : Int) : readNumber? (toString value).toList = some value := by
  rw [toList_toString]
  split
  · next hvalue =>
    rw [readNumber?_of_isDecimal (isDecimal_toDigits _), decimalValue_toDigits,
      Int.toNat_of_nonneg hvalue]
  · next hvalue =>
    rw [readNumber?, if_pos (isDecimal_toDigits _), decimalValue_toDigits,
      Int.toNat_of_nonneg (by omega), Int.neg_neg]

end

/-! ## Lines -/

theorem readRegister?_name (r : Register) : readRegister? r.name.toList = some r := by
  rw [readRegister?, String.ofList_toList]
  exact Register.ofName?_eq_some_iff.2 rfl

theorem readRegisterComma?_name (r : Register) :
    readRegisterComma? (r.name.toList ++ [',']) = some r := by
  rw [readRegisterComma?, List.getLast?_concat, if_pos rfl, List.dropLast_concat]
  exact readRegister?_name r

/-- A number is not the name of a register. -/
theorem readRegister?_toString (value : Int) : readRegister? (toString value).toList = none := by
  rw [readRegister?, String.ofList_toList, Option.eq_none_iff_forall_ne_some]
  intro r hr
  have hnumeral := isNumeral_toString value
  rw [Register.ofName?_eq_some_iff.1 hr] at hnumeral
  revert hnumeral
  cases r <;> decide

theorem readSource?_text (s : Source) : readSource? s.text.toList = some s := by
  cases s with
  | register r =>
    rw [readSource?, Source.text, readRegister?_name]
    rfl
  | literal value =>
    rw [readSource?, Source.text, readRegister?_toString, readNumber?_toString]
    rfl

theorem Operation.ofName?_name (op : Operation) : ofName? op.name = some op := by
  cases op <;> rfl

/-- The words of a line. -/
def Line.words : Line → List (List Char)
  | .operate op dest lhs rhs => [[], [], [], [], op.name.toList, dest.name.toList ++ [','],
      lhs.name.toList ++ [','], rhs.text.toList]
  | .addImmediate dest source value => [[], [], [], [], ['a', 'd', 'd', 'i'],
      dest.name.toList ++ [','], source.name.toList ++ [','], (toString value).toList]
  | .loadImmediate dest value => [[], [], [], [], ['l', 'i'], dest.name.toList ++ [','],
      (toString value).toList]
  | .move dest source => [[], [], [], [], ['m', 'v'], dest.name.toList ++ [','],
      source.name.toList]

theorem Line.toList_text (line : Line) : line.text.toList = [' '].intercalate line.words := by
  have htoString : ∀ s : String, toString s = s := fun _ => rfl
  cases line <;>
    simp [Line.text, Line.words, List.intercalate, htoString]

/-- There is neither a blank nor a line end in a text. -/
def IsWord (text : List Char) : Prop :=
  ' ' ∉ text ∧ '\n' ∉ text

instance : DecidablePred IsWord := fun text =>
  inferInstanceAs (Decidable (' ' ∉ text ∧ '\n' ∉ text))

theorem isWord_name (r : Register) : IsWord r.name.toList := by
  cases r <;> decide

theorem isWord_name_comma (r : Register) : IsWord (r.name.toList ++ [',']) := by
  cases r <;> decide

theorem isWord_toString (value : Int) : IsWord (toString value).toList := by
  have hdigits : ∀ n c, c ∈ Nat.toDigits 10 n → c.isDigit = true := fun n c hc =>
    Nat.isDigit_of_mem_toDigits (by decide) (by decide) hc
  have hblank : ∀ n, ' ' ∉ Nat.toDigits 10 n := fun n hc => absurd (hdigits n _ hc) (by decide)
  have hend : ∀ n, '\n' ∉ Nat.toDigits 10 n := fun n hc => absurd (hdigits n _ hc) (by decide)
  rw [toList_toString]
  split
  · exact ⟨hblank _, hend _⟩
  · exact ⟨by simp [hblank], by simp [hend]⟩

theorem Line.isWord_of_mem_words {line : Line} {w : List Char} (hw : w ∈ line.words) :
    IsWord w := by
  have hnil : IsWord [] := ⟨List.not_mem_nil, List.not_mem_nil⟩
  have hsource : ∀ s : Source, IsWord s.text.toList := by
    rintro (r | value)
    · exact isWord_name r
    · exact isWord_toString value
  have hop : ∀ op : Operation, IsWord op.name.toList := by
    intro op
    cases op <;> decide
  cases line <;> simp only [words, List.mem_cons, List.not_mem_nil, or_false] at hw
  case operate op dest lhs rhs =>
    rcases hw with rfl | rfl | rfl | rfl | rfl | rfl | rfl | rfl
    exacts [hnil, hnil, hnil, hnil, hop op, isWord_name_comma _, isWord_name_comma _, hsource rhs]
  case addImmediate dest source value =>
    rcases hw with rfl | rfl | rfl | rfl | rfl | rfl | rfl | rfl
    exacts [hnil, hnil, hnil, hnil, by decide, isWord_name_comma _, isWord_name_comma _,
      isWord_toString value]
  case loadImmediate dest value =>
    rcases hw with rfl | rfl | rfl | rfl | rfl | rfl | rfl
    exacts [hnil, hnil, hnil, hnil, by decide, isWord_name_comma _, isWord_toString value]
  case move dest source =>
    rcases hw with rfl | rfl | rfl | rfl | rfl | rfl | rfl
    exacts [hnil, hnil, hnil, hnil, by decide, isWord_name_comma _, isWord_name source]

/-- **A line that was written is read back.** -/
theorem readLine?_text (line : Line) : readLine? line.text.toList = some line := by
  have hwords : line.text.toList.splitOn ' ' = line.words := by
    rw [line.toList_text]
    refine List.splitOn_intercalate ' ' (fun w hw => (Line.isWord_of_mem_words hw).1) ?_
    cases line <;> simp [Line.words]
  rw [readLine?, hwords]
  cases line with
  | operate op dest lhs rhs =>
    have hname : op.name.toList ≠ ['a', 'd', 'd', 'i'] := by cases op <;> decide
    simp [Line.words, readRegisterComma?_name, readSource?_text, hname, Operation.ofName?_name]
  | addImmediate dest source value =>
    simp [Line.words, readRegisterComma?_name, readNumber?_toString, -Int.toString_eq_repr]
  | loadImmediate dest value =>
    simp [Line.words, readRegisterComma?_name, readNumber?_toString, -Int.toString_eq_repr]
  | move dest source => simp [Line.words, readRegisterComma?_name, readRegister?_name]

/-! ## Listings -/

theorem notMem_intercalate {c : Char} {words : List (List Char)} (hc : c ≠ ' ')
    (hwords : ∀ w ∈ words, c ∉ w) : c ∉ [' '].intercalate words := by
  induction words with
  | nil => simp
  | cons w words ih =>
    obtain ⟨hw, hwords⟩ := List.forall_mem_cons.1 hwords
    cases words with
    | nil => simpa using hw
    | cons next words =>
      rw [List.intercalate_cons_cons]
      simp [hw, hc, ih hwords]

theorem Line.lineEnd_notMem_text (line : Line) : '\n' ∉ line.text.toList := by
  rw [line.toList_text]
  exact notMem_intercalate (by decide) fun w hw => (isWord_of_mem_words hw).2

/-- A listing is its lines, each with a line end behind it. -/
theorem listing_cons (text : String) (texts : List String) :
    listing (text :: texts) = String.join ((text :: texts).map (· ++ "\n")) := by
  induction texts generalizing text with
  | nil => simp [listing]
  | cons next texts ih =>
    have hnext := ih next
    rw [listing] at hnext ⊢
    rw [String.intercalate_cons_cons, String.append_assoc, hnext]
    exact String.join_cons.symm

theorem splitOn_toList_join {texts : List String} (h : ∀ t ∈ texts, '\n' ∉ t.toList) :
    (String.join (texts.map (· ++ "\n"))).toList.splitOn '\n' =
      texts.map String.toList ++ [[]] := by
  induction texts with
  | nil => rfl
  | cons t texts ih =>
    obtain ⟨ht, htexts⟩ := List.forall_mem_cons.1 h
    have hsplit : (String.join ((t :: texts).map (· ++ "\n"))).toList =
        t.toList ++ '\n' :: (String.join (texts.map (· ++ "\n"))).toList := by
      simp
    rw [hsplit, List.splitOn_append_cons_self_of_not_mem ht, ih htexts]
    rfl

theorem mapM_readLine? (lines : List Line) :
    (lines.map fun line => line.text.toList).mapM readLine? = some lines := by
  induction lines with
  | nil => rfl
  | cons line lines ih =>
    rw [List.map_cons, List.mapM_cons, readLine?_text, ih]
    rfl

/-- **A listing that was written is read back.** -/
theorem readListing?_listing (lines : List Line) :
    readListing? (listing (sectionTexts lines)) = some lines := by
  have hends : ∀ t ∈ sectionTexts lines, '\n' ∉ t.toList := by
    refine List.forall_mem_cons.2 ⟨by decide, fun t ht => ?_⟩
    obtain ⟨line, -, rfl⟩ := List.mem_map.1 ht
    exact line.lineEnd_notMem_text
  have hclosed : closedLines? (listing (sectionTexts lines)).toList =
      some (".text".toList :: lines.map fun line => line.text.toList) := by
    rw [sectionTexts, listing_cons, ← sectionTexts, closedLines?, splitOn_toList_join hends,
      List.getLast?_concat, List.dropLast_concat, if_pos rfl]
    simp [sectionTexts]
  rw [readListing?, hclosed]
  exact mapM_readLine? lines

theorem name_mem_registerNames (r : Register) : r.name ∈ registerNames := by
  cases r <;> decide

/-- **What is written for a line has one of the forms of a line.** -/
theorem Line.IsProper.isLine_text {loadRight : Bool} {line : Line} (h : line.IsProper loadRight) :
    IsLine loadRight line.text := by
  have hname := name_mem_registerNames
  have hnumeral := isNumeral_toString
  cases line with
  | operate op dest lhs rhs =>
    cases rhs with
    | register r =>
      exact .operate (by cases op <;> decide) (hname dest) (hname lhs) (hname r)
    | literal value =>
      refine .operateLiteral h.1 ?_ (hname dest) (hname lhs) (hnumeral value)
      cases op with
      | add => exact absurd rfl h.2
      | sub | mul => decide
  | addImmediate dest source value =>
    exact .addImmediate (hname dest) (hname source) (hnumeral value)
  | loadImmediate dest value => exact .loadImmediate (hname dest) (hnumeral value)
  | move dest source => exact .move (hname dest) (hname source)

/-- A section is the heading and its lines, in their forms. -/
theorem listing_sectionTexts {loadRight : Bool} {lines : List Line}
    (h : ∀ line ∈ lines, line.IsProper loadRight) :
    ∃ texts : List String,
      listing (sectionTexts lines) = ".text\n" ++ String.join (texts.map (· ++ "\n")) ∧
        ∀ t ∈ texts, IsLine loadRight t := by
  refine ⟨lines.map Line.text, ?_, fun t ht => ?_⟩
  · rw [sectionTexts, listing_cons, List.map_cons, String.join_cons]
    rfl
  · obtain ⟨line, hline, rfl⟩ := List.mem_map.1 ht
    exact (h line hline).isLine_text

end Assembly

end Straightline
