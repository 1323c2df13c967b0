import StackScript.Proofs.Lexemes

/-!
# Reading the texts of tokens

The text of a token is made for messages: it escapes nothing and keeps no sign
apart.  For the tokens that a source can hold as they stand, the texts with a blank
between each two are nevertheless a source of these tokens, in their order.
-/

namespace StackScript

/-- A letter or an underscore comes first, all characters are letters, digits or
underscores, and the whole is no reserved word. -/
def IsName (name : String) : Prop :=
  name.toList.head?.any (fun c => c.isAlpha || c = '_') = true ∧
    name.toList.all (fun c => c.isAlphanum || c = '_') = true ∧
    name ∉ reserved.map (·.1)

instance (name : String) : Decidable (IsName name) :=
  inferInstanceAs (Decidable (_ ∧ _ ∧ _))

/-- The token can stand in a source as its text: a number has no sign, a string
needs no escape, a name is one, and the marks of the layout are left out. -/
def Token.Shown : Token -> Prop
  | integer n => 0 ≤ n.toInt
  | string s => ∀ c ∈ s.toList, c ≠ '"' ∧ c ≠ '\\' ∧ c ≠ '\n'
  | ident name => IsName name
  | bool _ | null | keyword _ | symbol _ => True
  | comment _ | newline | endOfInput => False

instance : DecidablePred Token.Shown
  | .integer n => inferInstanceAs (Decidable (0 ≤ n.toInt))
  | .string s => List.decidableBAll _ s.toList
  | .ident name => inferInstanceAs (Decidable (IsName name))
  | .bool _ | .null | .keyword _ | .symbol _ => isTrue trivial
  | .comment _ | .newline | .endOfInput => isFalse id

theorem AtBlank.endsRun {p : Char -> Bool} {rest : List Char} (h : AtBlank rest)
    (hblank : p ' ' = false) : EndsRun p rest := by
  intro c hc
  cases h with
  | inl hnil =>
      rw [hnil] at hc
      cases hc
  | inr hmore =>
      rcases hmore with ⟨more, hmore⟩
      rw [hmore] at hc
      cases hc
      exact hblank

namespace Token

theorem legible_of_lexeme {t : Token}
    (h : ∀ rest, AtBlank rest -> Lexeme t t.text.toList rest) : t.Legible where
  start := (h [] (Or.inl rfl)).not_isGap
  read := by
    intro rest span hrest
    exists span.after t.text.toList
    apply Cursor.token_of_readsLexeme
    exact ⟨t.text.toList, rfl, h rest hrest, rfl⟩

/-!
## Numbers
-/

theorem digitsValue_toDigits (n : Nat) : digitsValue (Nat.toDigits 10 n) = n := by
  rw [← Cursor.decimalValue_eq]
  exact Nat.ofDigitChars_toDigits (by decide) (by decide)

theorem toList_integerText {value : Int32} {n : Nat} (h : value.toInt = n) :
    (integerText value).toList = Nat.toDigits 10 n := by
  have htext : toString (n : Int) = String.ofList (Nat.toDigits 10 n) :=
    Nat.repr_eq_ofList_toDigits
  rw [integerText, h, htext, String.toList_ofList]

theorem legible_integer {value : Int32} (h : 0 ≤ value.toInt) :
    (Token.integer value).Legible := by
  rcases Int.eq_ofNat_of_zero_le h with ⟨n, hn⟩
  have hmax : n ≤ 2147483647 := by
    have hlt := value.toInt_lt
    omega
  apply legible_of_lexeme
  intro rest hrest
  show Lexeme _ (integerText value).toList rest
  rw [toList_integerText hn]
  have hvalue := digitsValue_toDigits n
  apply Lexeme.integer
  case hsome => exact Nat.toDigits_ne_nil
  case hdigits => exact fun d hd => Nat.isDigit_of_mem_toDigits (by decide) (by decide) hd
  case hvalue => rw [hvalue, hn]
  case hmax => rw [hvalue]; exact hmax
  case hends => exact hrest.endsRun (by decide +kernel)

/-!
## Strings
-/

theorem spells_self {text : List Char} (h : ∀ c ∈ text, c ≠ '"' ∧ c ≠ '\\' ∧ c ≠ '\n') :
    Spells text text := by
  induction text with
  | nil => exact .nil
  | cons c text ih =>
      rw [List.forall_mem_cons] at h
      exact .plain h.1 (ih h.2)

theorem legible_string {s : String} (h : ∀ c ∈ s.toList, c ≠ '"' ∧ c ≠ '\\' ∧ c ≠ '\n') :
    (Token.string s).Legible := by
  apply legible_of_lexeme
  intro rest hrest
  have htext : (Token.string s).text.toList = '"' :: (s.toList ++ ['"']) := by
    simp [Token.text, String.toList_append]
  have hlexeme : Lexeme (.string (String.ofList s.toList)) ('"' :: (s.toList ++ ['"'])) rest :=
    .string (spells_self h)
  rw [String.ofList_toList] at hlexeme
  rw [htext]
  exact hlexeme

/-!
## Words
-/

theorem exists_first {word : String}
    (h : word.toList.head?.any (fun c => c.isAlpha || c = '_') = true) :
    ∃ first more, word.toList = first :: more ∧ (first.isAlpha || first = '_') = true := by
  cases hlist : word.toList with
  | nil => simp [hlist] at h
  | cons first more =>
      rw [hlist] at h
      exact ⟨first, more, rfl, h⟩

theorem isWord_of_reserved {word : String} {t : Token} (h : (word, t) ∈ reserved) :
    IsWord word t where
  first := by
    have hall : ∀ entry ∈ reserved,
        entry.1.toList.head?.any (fun c => c.isAlpha || c = '_') = true := by decide
    exact exists_first (hall _ h)
  chars := by
    have hall : ∀ entry ∈ reserved, entry.1.toList.all Cursor.isWordChar = true := by decide
    exact List.all_eq_true.mp (hall _ h)
  token := (Cursor.wordToken_of_mem_reserved _ h).1

theorem isWord_of_isName {name : String} (h : IsName name) : IsWord name (.ident name) where
  first := exists_first h.1
  chars := List.all_eq_true.mp h.2.1
  token := by
    apply Cursor.wordToken_eq_iff.mpr
    apply WordMeans.name
    intro t ht
    exact h.2.2 (List.mem_map_of_mem ht)

/-!
## All tokens
-/

theorem legible_of_shown {t : Token} (h : t.Shown) : t.Legible := by
  cases t with
  | integer value => exact legible_integer h
  | string s => exact legible_string h
  | bool b =>
      apply legible_word
      apply isWord_of_reserved
      cases b <;> decide
  | null =>
      apply legible_word
      apply isWord_of_reserved
      decide
  | keyword k =>
      apply legible_word
      apply isWord_of_reserved
      cases k <;> decide
  | symbol s => exact legible_symbol s
  | ident name => exact legible_word (isWord_of_isName h)
  | comment text => exact h.elim
  | newline => exact h.elim
  | endOfInput => exact h.elim

theorem isSignificant_of_shown {t : Token} (h : t.Shown) : t.isSignificant = true := by
  cases t with
  | comment text => exact h.elim
  | newline => exact h.elim
  | _ => rfl

end Token

/-- The texts of tokens with a blank between each two are read as these tokens and
the end of the input. -/
theorem significantTokens_spaced {ts : List Token} (h : ∀ t ∈ ts, t.Shown) :
    ∃ located, (Cursor.ofSource (spaced ts)).significantTokens.outcome = .ok located ∧
      located.map (·.token) = ts ++ [.endOfInput] := by
  rcases tokenize_spaced (fun t ht => Token.legible_of_shown (h t ht)) with
    ⟨located, hread, htokens⟩
  have hall : ∀ x ∈ located, x.token.isSignificant = true := by
    intro x hx
    have hmem : x.token ∈ ts ++ [.endOfInput] := by
      rw [← htokens]
      exact List.mem_map_of_mem hx
    cases List.mem_append.mp hmem with
    | inl hts => exact Token.isSignificant_of_shown (h _ hts)
    | inr hend =>
        rw [List.mem_singleton.mp hend]
        rfl
  have hkept : located.filter (·.token.isSignificant) = located := List.filter_eq_self.mpr hall
  exists located
  constructor
  · show (tokenize (spaced ts)).map (List.filter (·.token.isSignificant)) = .ok located
    rw [hread]
    show Except.ok (located.filter (·.token.isSignificant)) = .ok located
    rw [hkept]
  · exact htokens

/-- Tokens that would run into each other without the blanks: two slashes, signs of
equality, a keyword in front of a name, a string with a comment in it. -/
theorem significantTokens_spaced_neighbours :
    let ts : List Token :=
      [.symbol .slash, .symbol .slash, .symbol .assign, .symbol .eqEq, .symbol .bang,
        .symbol .assign, .keyword .ifWord, .ident "iff", .ident "_", .integer (.ofNat 0),
        .integer .maxValue, .string "a // b", .string "", .bool true, .ident "nulls", .null]
    (∀ t ∈ ts, t.Shown) ∧
      ∃ located, (Cursor.ofSource (spaced ts)).significantTokens.outcome = .ok located ∧
        located.map (·.token) = ts ++ [.endOfInput] := by
  intro ts
  have hts : ∀ t ∈ ts, t.Shown := by decide
  exact ⟨hts, significantTokens_spaced hts⟩

end StackScript
