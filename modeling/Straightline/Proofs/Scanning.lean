/-
  What a scan finds.

  * `Token.Lexical`: what holds of the tokens that a text is made of;
  * `Cursor.lexical_of_token?`: it holds of every token that starts somewhere;
  * `Cursor.scan_tokens`: a scan that does not fail finds such tokens, and an
    end mark behind them;
  * `scanText_tokens`: the same of a whole text, whose symbol table has no
    types.
-/
import Straightline.Scanner
import Straightline.Instruction
import Straightline.Proofs.Scope

namespace Straightline

/-! ## Single tokens -/

/-- A token that stands in a text: no end mark, if it is an identifier, its
    first character may start one, and if it is a constant, it is a run of
    digits. -/
structure Token.Lexical (t : Token) : Prop where
  kind_ne_endMark : t.kind ≠ .endMark
  isWordStart_head : t.kind = .identifier → ∃ a word, t.value.toList = a :: word ∧ isWordStart a = true
  isDecimal_value : t.kind = .constant → Text.isDecimal t.value.toList = true

/-- An identifier is no temporary. -/
theorem Token.Lexical.not_isTemporary {t : Token} (h : t.Lexical) (hkind : t.kind = .identifier) :
    isTemporary t.value = false := by
  obtain ⟨a, word, hvalue, ha⟩ := h.isWordStart_head hkind
  have hne : a ≠ '%' := by
    rintro rfl
    exact absurd ha (by decide)
  simp [isTemporary, hvalue, hne]

theorem markOf?_lexical {a : Char} {kind : Terminal} (h : markOf? a = some kind) :
    kind ≠ .endMark ∧ kind ≠ .identifier ∧ kind ≠ .constant := by
  unfold markOf? at h
  split at h <;> cases h <;> decide

namespace Cursor

theorem lexical_wordToken {word : String} {a : Char} {rest : List Char}
    (hword : word.toList = a :: rest) (ha : isWordStart a = true) (place : Place) :
    (wordToken word place).Lexical := by
  unfold wordToken
  split
  · exact ⟨by simp, by simp, by simp⟩
  · split
    · exact ⟨by simp, by simp, by simp⟩
    · exact ⟨by simp, fun _ => ⟨a, rest, hword, ha⟩, by simp⟩

theorem lexical_of_token? {c c' : Cursor} {t : Token} (h : c.token? = some (t, c')) :
    t.Lexical := by
  unfold token? at h
  split at h
  · cases h
  · next a rest hrest =>
    split at h
    · next ha =>
      have hchar : isWordChar a = true := by
        simp only [isWordStart, Bool.and_eq_true] at ha
        exact ha.1
      have hword : c.takeWord.1.toList = a :: rest.takeWhile isWordChar := by
        simp [takeWord, takeWhile, hrest, hchar]
      cases h
      exact lexical_wordToken hword ha c.place
    · split at h
      · next hdigit =>
        have hdecimal : Text.isDecimal c.takeDigits.1.toList = true := by
          simp [takeDigits, takeWhile, hrest, hdigit, Text.isDecimal]
        cases h
        exact ⟨by simp, by simp, fun _ => hdecimal⟩
      · obtain ⟨kind, hkind, heq⟩ := Option.map_eq_some_iff.1 h
        cases heq
        obtain ⟨hend, hname, hconstant⟩ := markOf?_lexical hkind
        exact ⟨hend, fun h => absurd h hname, fun h => absurd h hconstant⟩

/-! ## Scans -/

/-- **A scan that does not fail** finds the tokens of the text and an end mark
    behind them. -/
theorem scan_tokens (c : Cursor) (h : c.scan.error? = none) :
    ∃ body last, c.scan.tokens = body ++ [last] ∧ last.kind = .endMark ∧ ∀ t ∈ body, t.Lexical := by
  fun_induction scan c with
  | case1 c t c' htoken found ih =>
    obtain ⟨body, last, hbody, hlast, hlexical⟩ := ih h
    refine ⟨t :: body, last, congrArg (t :: ·) hbody, hlast, ?_⟩
    exact List.forall_mem_cons.2 ⟨lexical_of_token? htoken, hlexical⟩
  | case2 c htoken hrest => exact ⟨[], _, rfl, rfl, List.forall_mem_nil _⟩
  | case3 c htoken a rest hrest => cases h

end Cursor

/-! ## Texts -/

theorem Symbols.not_typed_registerTokens (tokens : List Token) (x : String) :
    ¬ (Symbols.registerTokens {} tokens).Typed x := by
  have hfold : ∀ (names : List Token) (s : Symbols),
      (names.foldl (fun s t => s.register t.value) s).typeOf? x = s.typeOf? x := by
    intro names
    induction names with
    | nil => exact fun s => rfl
    | cons t names ih => exact fun s => (ih _).trans (typeOf?_register s t.value x)
  rw [Typed, registerTokens, hfold]
  simp [typeOf?, get?]

/-- What a whole text gives. -/
theorem scanText_tokens {text : String} {tokens : List Token} {symbols : Symbols}
    (h : scanText text = .ok (tokens, symbols)) :
    (∃ body last, tokens = body ++ [last] ∧ last.kind = .endMark ∧ ∀ t ∈ body, t.Lexical) ∧
      ∀ x, ¬ symbols.Typed x := by
  unfold scanText at h
  dsimp only at h
  split at h
  · next hscan =>
    cases h
    exact ⟨Cursor.scan_tokens _ hscan, Symbols.not_typed_registerTokens _⟩
  · cases h

end Straightline
