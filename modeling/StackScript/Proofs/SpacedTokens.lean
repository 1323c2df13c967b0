import Mathlib.Data.List.Basic
import StackScript.Token.Stream

/-!
# Tokens with blanks between them

The texts of tokens, with a blank between each two, are read back as these
tokens: a token ends at the blank, and the blank is part of none.
-/

namespace StackScript

theorem Cursor.token_of_first {c : Cursor} {first : Char} {more : List Char}
    (h : c.rest = first :: more) (hnewline : first ≠ '\n')
    (hcomment : ¬ ['/', '/'] <+: c.rest) (hquote : first ≠ '"') :
    c.token =
      if first.isDigit then c.number
      else if first.isAlpha || first = '_' then c.word
      else c.symbol first := by
  unfold token
  rw [h] at hcomment ⊢
  split
  · next heq => cases heq
  · next heq => exact absurd (List.cons.inj heq).1 hnewline
  · next tail heq => exact absurd ⟨tail, heq.symm⟩ hcomment
  · next heq => exact absurd (List.cons.inj heq).1 hquote
  · next heq =>
      cases heq
      rfl

def AtBlank (rest : List Char) : Prop :=
  rest = [] ∨ ∃ more, rest = ' ' :: more

/-- The token is read back from its own text, as far as the next blank. -/
structure Token.Legible (t : Token) : Prop where
  start : ∃ first more, t.text.toList = first :: more ∧ Cursor.isGap first = false
  read : ∀ (rest : List Char) (span : Span), AtBlank rest ->
    ∃ span', Cursor.token { rest := t.text.toList ++ rest, span } =
      { outcome := .ok t, cursor := { rest, span := span' } }

namespace Token

theorem legible_symbol (symbol : Symbol) : (Token.symbol symbol).Legible := by
  have htext : (Token.symbol symbol).text.toList = symbol.chars := String.toList_ofList
  constructor
  · rw [htext]
    cases symbol <;> exact ⟨_, _, rfl, by decide⟩
  · intro rest span hrest
    rw [htext]
    rcases hrest with rfl | ⟨more, rfl⟩
    · cases symbol <;> exact ⟨_, rfl⟩
    · cases symbol <;> exact ⟨_, rfl⟩

structure IsWord (word : String) (t : Token) : Prop where
  first : ∃ first more, word.toList = first :: more ∧ (first.isAlpha || first = '_') = true
  chars : ∀ c ∈ word.toList, Cursor.isWordChar c = true
  token : Cursor.wordToken word = t

theorem not_isDigit_of_isAlpha {c : Char} (h : c.isAlpha = true) : c.isDigit = false := by
  rw [Bool.eq_false_iff]
  intro hdigit
  -- The digits end in front of the letters.
  have hhigh : c.val.toNat ≤ 57 := of_decide_eq_true ((Bool.and_eq_true _ _).mp hdigit).2
  rcases (Bool.or_eq_true _ _).mp h with hupper | hlower
  · have hlow : 65 ≤ c.val.toNat := (of_decide_eq_true hupper).1
    exact absurd (Nat.le_trans hlow hhigh) (by decide)
  · have hlow : 97 ≤ c.val.toNat := of_decide_eq_true ((Bool.and_eq_true _ _).mp hlower).1
    exact absurd (Nat.le_trans hlow hhigh) (by decide)

theorem ne_of_class {p : Char -> Bool} {c other : Char} (hc : p c = true)
    (hother : p other = false) : c ≠ other := by
  intro heq
  rw [heq, hother] at hc
  cases hc

theorem not_isGap_of_class {p : Char -> Bool} {c : Char} (hc : p c = true)
    (hblank : p ' ' = false) (htab : p '\t' = false) (hreturn : p '\r' = false) :
    Cursor.isGap c = false := by
  simp only [Cursor.isGap, Bool.or_eq_false_iff, decide_eq_false_iff_not]
  exact ⟨⟨ne_of_class hc hblank, ne_of_class hc htab⟩, ne_of_class hc hreturn⟩

theorem token_of_class {p : Char -> Bool} {c : Cursor} {first : Char} {more : List Char}
    (h : c.rest = first :: more) (hfirst : p first = true) (hnewline : p '\n' = false)
    (hslash : p '/' = false) (hquote : p '"' = false) :
    c.token =
      if first.isDigit then c.number
      else if first.isAlpha || first = '_' then c.word
      else c.symbol first := by
  apply Cursor.token_of_first h (ne_of_class hfirst hnewline) _ (ne_of_class hfirst hquote)
  rw [h, List.cons_prefix_cons]
  exact fun hcomment => ne_of_class hfirst hslash hcomment.1.symm

theorem token_of_letter {c : Cursor} {first : Char} {more : List Char}
    (h : c.rest = first :: more) (hfirst : (first.isAlpha || first = '_') = true) :
    c.token = c.word := by
  have hdigit : first.isDigit = false := by
    rcases (Bool.or_eq_true _ _).mp hfirst with halpha | hunderscore
    · exact not_isDigit_of_isAlpha halpha
    · rw [of_decide_eq_true hunderscore]
      rfl
  rw [token_of_class (p := fun c => c.isAlpha || c = '_') h hfirst rfl rfl rfl,
    if_neg (by rw [hdigit]; decide), if_pos hfirst]

theorem legible_word {t : Token} (h : IsWord t.text t) : t.Legible := by
  rcases h.first with ⟨first, more, htext, hfirst⟩
  constructor
  · exact ⟨first, more, htext,
      not_isGap_of_class (p := fun c => c.isAlpha || c = '_') hfirst rfl rfl rfl⟩
  · intro rest span hrest
    have hstop : rest.takeWhile Cursor.isWordChar = [] ∧
        rest.dropWhile Cursor.isWordChar = rest := by
      rcases hrest with rfl | ⟨more, rfl⟩
      · exact ⟨rfl, rfl⟩
      · exact ⟨rfl, rfl⟩
    have hfront : t.text.toList ++ rest = first :: (more ++ rest) := by
      rw [htext]
      rfl
    refine ⟨span.after t.text.toList, ?_⟩
    rw [token_of_letter hfront hfirst, Cursor.word, Cursor.splitWhile]
    simp only [List.takeWhile_append_of_pos h.chars, List.dropWhile_append_of_pos h.chars, hstop,
      List.append_nil, String.ofList_toList, h.token]

end Token

def spaced (ts : List Token) : String :=
  " ".intercalate (ts.map Token.text)

namespace Cursor

theorem toList_spaced_cons (t : Token) (ts : List Token) :
    ∃ rest, (spaced (t :: ts)).toList = t.text.toList ++ rest ∧ AtBlank rest ∧
      (rest = (spaced ts).toList ∨ rest = ' ' :: (spaced ts).toList) := by
  cases ts with
  | nil =>
      refine ⟨[], ?_, Or.inl rfl, Or.inl rfl⟩
      simp [spaced]
  | cons t' ts =>
      refine ⟨' ' :: (spaced (t' :: ts)).toList, ?_, Or.inr ⟨_, rfl⟩, Or.inr rfl⟩
      simp [spaced, String.toList_intercalate, List.intercalate]

/-- Reading goes on in front of the next token, whether or not a blank comes
first. -/
theorem rest_skipGap {c : Cursor} {text : List Char} (hc : c.rest = text ∨ c.rest = ' ' :: text)
    (htext : text = [] ∨ ∃ first more, text = first :: more ∧ isGap first = false) :
    c.skipGap.rest = text := by
  have hstop : text.dropWhile isGap = text := by
    rcases htext with rfl | ⟨first, more, rfl, hfirst⟩
    · rfl
    · rw [List.dropWhile_cons_of_neg]
      rw [hfirst]
      decide
  show c.rest.dropWhile isGap = text
  rcases hc with hc | hc
  · rw [hc, hstop]
  · rw [hc, List.dropWhile_cons_of_pos rfl, hstop]

theorem tokensFrom_of_token {c next : Cursor} {t : Token} (hrest : c.skipGap.rest ≠ [])
    (h : c.skipGap.token = { outcome := .ok t, cursor := next }) (read : List Located) :
    tokensFrom read c = tokensFrom ({ token := t, span := c.skipGap.span } :: read) next := by
  rw [tokensFrom]
  simp only [if_neg hrest]
  split
  · next heq =>
      cases h.symm.trans heq
      rfl
  · next heq => cases h.symm.trans heq

/-- Legible tokens are read one by one, as far as the end. -/
theorem tokensFrom_spaced {ts : List Token} (hts : ∀ t ∈ ts, t.Legible) (read : List Located)
    {c : Cursor} (hc : c.rest = (spaced ts).toList ∨ c.rest = ' ' :: (spaced ts).toList) :
    ∃ located, (tokensFrom read c).outcome = .ok (read.reverse ++ located) ∧
      located.map (·.token) = ts ++ [.endOfInput] := by
  induction ts generalizing read c with
  | nil =>
      have hrest : c.skipGap.rest = [] := rest_skipGap hc (Or.inl rfl)
      rw [tokensFrom]
      simp only [hrest, if_true]
      exact ⟨[{ token := .endOfInput, span := c.skipGap.span }], by simp, rfl⟩
  | cons t ts ih =>
      rw [List.forall_mem_cons] at hts
      rcases toList_spaced_cons t ts with ⟨rest, htext, hblank, hnext⟩
      rcases hts.1.start with ⟨first, more, hfirst, hgap⟩
      have hfront : (spaced (t :: ts)).toList = first :: (more ++ rest) := by
        rw [htext, hfirst]
        rfl
      have hrest : c.skipGap.rest = t.text.toList ++ rest := by
        rw [← htext]
        exact rest_skipGap hc (Or.inr ⟨first, more ++ rest, hfront, hgap⟩)
      rcases hts.1.read rest c.skipGap.span hblank with ⟨span', hread⟩
      rw [← hrest] at hread
      have hsome : c.skipGap.rest ≠ [] := by
        rw [hrest, hfirst]
        exact List.cons_ne_nil _ _
      rcases ih hts.2 ({ token := t, span := c.skipGap.span } :: read)
        (c := { rest, span := span' }) hnext with ⟨located, hlocated, htokens⟩
      refine ⟨{ token := t, span := c.skipGap.span } :: located, ?_, ?_⟩
      · rw [tokensFrom_of_token hsome hread, hlocated, List.reverse_cons, List.append_assoc]
        rfl
      · rw [List.map_cons, htokens]
        rfl

end Cursor

theorem tokenize_spaced {ts : List Token} (hts : ∀ t ∈ ts, t.Legible) :
    ∃ located, tokenize (spaced ts) = .ok located ∧
      located.map (·.token) = ts ++ [.endOfInput] :=
  Cursor.tokensFrom_spaced hts [] (Or.inl rfl)

end StackScript
