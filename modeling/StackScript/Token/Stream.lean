import StackScript.Token.Cursor

/-!
# The tokens of a text

All tokens from a cursor to the end of the text, the end of the input being
the last of them.  Every token that is read leaves a shorter text, which is why
the reading ends.
-/

namespace StackScript
namespace Cursor

/-!
## Reading makes progress
-/

theorem rest_length_skip (c : Cursor) (count : Nat) :
    (c.skip count).rest.length = c.rest.length - count := by
  simp [skip]

theorem rest_length_splitWhile_le (c : Cursor) (p : Char -> Bool) :
    (c.splitWhile p).2.rest.length ≤ c.rest.length := by
  exact (List.dropWhile_suffix p).length_le

theorem rest_length_splitWhile_lt {c : Cursor} {p : Char -> Bool} {first : Char}
    {rest : List Char} (h : c.rest = first :: rest) (hp : p first = true) :
    (c.splitWhile p).2.rest.length < c.rest.length := by
  have hle : (rest.dropWhile p).length ≤ rest.length :=
    (List.dropWhile_suffix p).length_le
  simp [splitWhile, h, hp]
  omega

theorem rest_length_stringBody_le (opening : Span) (decoded : List Char) (span : Span)
    (text : List Char) :
    (stringBody opening decoded span text).cursor.rest.length ≤ text.length := by
  fun_induction stringBody opening decoded span text <;> simp_all <;> omega

theorem symbol_length_pos (s : Symbol) : 0 < s.chars.length := by
  cases s <;> decide

theorem rest_length_number_lt {c : Cursor} {first : Char} {rest : List Char}
    (h : c.rest = first :: rest) (hd : first.isDigit = true) :
    c.number.cursor.rest.length < c.rest.length := by
  have hlt := rest_length_splitWhile_lt (p := Char.isDigit) h hd
  have hcursor : c.number.cursor = (c.splitWhile Char.isDigit).2 := by
    unfold number
    dsimp only
    split
    · split <;> rfl
    · split
      · rfl
      · split <;> rfl
  rw [hcursor]
  exact hlt

/-- A token that is read leaves a shorter text, unless the text was at its
end. -/
theorem rest_length_token_lt {c : Cursor} {t : Token} (hrest : c.rest ≠ [])
    (h : c.token.outcome = .ok t) :
    c.token.cursor.rest.length < c.rest.length := by
  unfold token at h ⊢
  split
  · next heq => exact absurd heq hrest
  · next heq =>
      rw [rest_length_skip, heq]
      simp
  · next heq =>
      have hle := rest_length_splitWhile_le (c.skip 2) (· != '\n')
      rw [rest_length_skip] at hle
      simp only [comment]
      rw [heq] at hle ⊢
      simp only [List.length_cons] at hle ⊢
      omega
  · next rest heq =>
      have hle := rest_length_stringBody_le c.span [] (c.span.next '"') rest
      rw [heq]
      simp only [List.length_cons]
      omega
  · next first rest hnl hcomment hquote heq =>
      simp only [heq] at h
      split
      · next hdigit => exact rest_length_number_lt heq hdigit
      · next hdigit =>
          split
          · next hword =>
              apply rest_length_splitWhile_lt heq
              simp only [isWordChar, Char.isAlphanum, Bool.or_eq_true] at hword ⊢
              rcases hword with hword | hword
              · exact Or.inl (Or.inl hword)
              · exact Or.inr hword
          · next hword =>
              simp only [hdigit, hword, Bool.false_eq_true, ↓reduceIte] at h
              unfold symbol at h ⊢
              split at h
              · next s hs =>
                  rw [rest_length_skip, heq]
                  have hpos := symbol_length_pos s
                  simp only [List.length_cons]
                  omega
              · simp at h

/-!
## All tokens
-/

def skipGap (c : Cursor) : Cursor :=
  (c.splitWhile isGap).2

/-- The tokens from the cursor on, behind those read before, which are held in
reverse.  At a fault the tokens read are given up. -/
def tokensFrom (read : List Located) (c : Cursor) : Reading (List Located) :=
  let here := c.skipGap
  if here.rest = [] then
    { outcome := .ok ({ token := .endOfInput, span := here.span } :: read).reverse
      cursor := here }
  else
    match _ : here.token with
    | { outcome := .ok t, cursor := next } =>
        tokensFrom ({ token := t, span := here.span } :: read) next
    | { outcome := .error e, cursor := next } =>
        { outcome := .error e, cursor := next }
termination_by c.rest.length
decreasing_by
  next hrest heq =>
    have hle : c.skipGap.rest.length ≤ c.rest.length := rest_length_splitWhile_le c isGap
    have hlt : c.skipGap.token.cursor.rest.length < c.skipGap.rest.length :=
      rest_length_token_lt hrest (t := t) (by rw [heq])
    rw [heq] at hlt
    exact Nat.lt_of_lt_of_le hlt hle

def tokens (c : Cursor) : Reading (List Located) :=
  tokensFrom [] c

def significantTokens (c : Cursor) : Reading (List Located) :=
  let reading := c.tokens
  { outcome := reading.outcome.map (List.filter (·.token.isSignificant))
    cursor := reading.cursor }

end Cursor

def tokenize (source : String) : Except LexError (List Located) :=
  (Cursor.ofSource source).tokens.outcome

end StackScript
