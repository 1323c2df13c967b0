import Mathlib.Data.List.Induction
import Mathlib.Data.Nat.Digits.Defs
import StackScript.Proofs.SpacedTokens

/-!
# Lexemes

The tokens of a text, described without the reader: what a token looks like, what
may come behind it, and where it stands.  A text is read exactly when it can be
cut into gaps and lexemes, and the cuts give the tokens and their positions.
-/

namespace StackScript

/-!
## Runs of characters
-/

/-- The text ends, or goes on with a character outside of the class. -/
def EndsRun (p : Char -> Bool) (rest : List Char) : Prop :=
  ∀ c ∈ rest.head?, p c = false

namespace EndsRun

variable {p : Char -> Bool} {rest : List Char}

theorem takeWhile (h : EndsRun p rest) : rest.takeWhile p = [] := by
  cases rest with
  | nil => rfl
  | cons c more => exact List.takeWhile_cons_of_neg (by rw [h c rfl]; decide)

theorem dropWhile (h : EndsRun p rest) : rest.dropWhile p = rest := by
  cases rest with
  | nil => rfl
  | cons c more => exact List.dropWhile_cons_of_neg (by rw [h c rfl]; decide)

theorem of_dropWhile (p : Char -> Bool) (text : List Char) : EndsRun p (text.dropWhile p) := by
  intro c hc
  have hhead := List.head?_dropWhile_not p text
  rw [Option.mem_def.mp hc] at hhead
  exact hhead

theorem of_append {more : List Char} (h : EndsRun p (rest ++ more)) : EndsRun p rest := by
  cases rest with
  | nil => intro c hc; cases hc
  | cons c rest => exact h

theorem eq_cons {run more : List Char} {first : Char} (h : EndsRun p rest)
    (hfirst : p first = true) (hsplit : first :: more = run ++ rest) :
    ∃ letters, run = first :: letters := by
  cases run with
  | nil =>
      rw [List.nil_append] at hsplit
      cases hfirst.symm.trans (h first (by rw [← hsplit]; rfl))
  | cons c letters => exact ⟨letters, by rw [(List.cons.inj hsplit).1]⟩

end EndsRun

theorem Cursor.splitWhile_eq_iff {p : Char -> Bool} {c next : Cursor} {run : List Char} :
    c.splitWhile p = (run, next) ↔
      c.rest = run ++ next.rest ∧ (∀ x ∈ run, p x = true) ∧ EndsRun p next.rest ∧
        next.span = c.span.after run := by
  rw [splitWhile, Prod.mk.injEq]
  constructor
  · rintro ⟨rfl, rfl⟩
    exact ⟨List.takeWhile_append_dropWhile.symm, List.all_eq_true.mp List.all_takeWhile,
      .of_dropWhile p c.rest, rfl⟩
  · rintro ⟨hrest, hrun, hends, hspan⟩
    have htake : c.rest.takeWhile p = run := by
      rw [hrest, List.takeWhile_append_of_pos hrun, hends.takeWhile, List.append_nil]
    rw [htake, hrest, List.dropWhile_append_of_pos hrun, hends.dropWhile, ← hspan]
    exact ⟨rfl, rfl⟩

/-!
## Parts of lexemes
-/

/-- The text is blank at its ends around the trimmed text, which is not. -/
structure Trims (text trimmed : List Char) : Prop where
  split : ∃ front back, text = front ++ (trimmed ++ back) ∧
    (∀ c ∈ front, Text.isBlank c = true) ∧ ∀ c ∈ back, Text.isBlank c = true
  first : EndsRun Text.isBlank trimmed
  last : EndsRun Text.isBlank trimmed.reverse

def escapes : List (Char × Char) :=
  [('n', '\n'), ('t', '\t'), ('r', '\r'), ('\\', '\\'), ('"', '"'), ('0', '\x00')]

/-- What stands between the quotes of a string, and the text that it means. -/
inductive Spells : List Char -> List Char -> Prop where
  | nil : Spells [] []
  | plain {c : Char} {written text : List Char} (hc : c ≠ '"' ∧ c ≠ '\\' ∧ c ≠ '\n') :
      Spells written text -> Spells (c :: written) (c :: text)
  | escape {c d : Char} {written text : List Char} (hc : (c, d) ∈ escapes) :
      Spells written text -> Spells ('\\' :: c :: written) (d :: text)

def digitsValue (digits : List Char) : Nat :=
  Nat.ofDigits 10 (digits.reverse.map fun d => d.toNat - '0'.toNat)

def reserved : List (String × Token) :=
  [("true", .bool true), ("false", .bool false), ("null", .null)] ++
    Keyword.all.map fun k => (k.text, .keyword k)

/-- The token of a word: names are all words that are not reserved. -/
inductive WordMeans : String -> Token -> Prop where
  | reserved {word : String} {t : Token} (h : (word, t) ∈ reserved) : WordMeans word t
  | name {word : String} (h : ∀ t, (word, t) ∉ StackScript.reserved) : WordMeans word (.ident word)

/-!
## Lexemes
-/

inductive Lexeme : Token -> List Char -> List Char -> Prop where
  | newline {rest : List Char} : Lexeme .newline ['\n'] rest
  | comment {text trimmed rest : List Char} (hline : '\n' ∉ text) (htrims : Trims text trimmed)
      (hends : EndsRun (· != '\n') rest) :
      Lexeme (.comment (String.ofList trimmed)) ('/' :: '/' :: text) rest
  | string {written text rest : List Char} (hspells : Spells written text) :
      Lexeme (.string (String.ofList text)) ('"' :: (written ++ ['"'])) rest
  | integer {digits rest : List Char} {value : Int32} (hsome : digits ≠ [])
      (hdigits : ∀ d ∈ digits, d.isDigit = true) (hvalue : value.toInt = digitsValue digits)
      (hmax : digitsValue digits ≤ 2147483647)
      (hends : EndsRun (fun c => c.isDigit || Text.isAlphabetic c || c = '_') rest) :
      Lexeme (.integer value) digits rest
  | word {first : Char} {letters rest : List Char} {t : Token}
      (hfirst : (first.isAlpha || first = '_') = true)
      (hletters : ∀ c ∈ letters, (c.isAlphanum || c = '_') = true)
      (hmeans : WordMeans (String.ofList (first :: letters)) t)
      (hends : EndsRun (fun c => c.isAlphanum || c = '_') rest) :
      Lexeme t (first :: letters) rest
  | symbol {s : Symbol} {rest : List Char}
      (hlongest : ∀ s' : Symbol, s'.chars <+: s.chars ++ rest -> s'.chars.length ≤ s.chars.length)
      (hcomment : ¬ ['/', '/'] <+: s.chars ++ rest) : Lexeme (.symbol s) s.chars rest

/-!
## The readers of the parts
-/

namespace Text

theorem trim_eq_iff {text trimmed : List Char} : trim text = trimmed ↔ Trims text trimmed := by
  constructor
  · rintro rfl
    have hback : text.dropWhile isBlank =
        trim text ++ ((text.dropWhile isBlank).reverse.takeWhile isBlank).reverse := by
      rw [trim, ← List.reverse_append, List.takeWhile_append_dropWhile, List.reverse_reverse]
    refine ⟨⟨text.takeWhile isBlank, ((text.dropWhile isBlank).reverse.takeWhile isBlank).reverse,
      ?_, List.all_eq_true.mp List.all_takeWhile, ?_⟩, ?_, ?_⟩
    · rw [← hback, List.takeWhile_append_dropWhile]
    · intro c hc
      exact List.all_eq_true.mp List.all_takeWhile c (List.mem_reverse.mp hc)
    · apply EndsRun.of_append
      rw [← hback]
      exact .of_dropWhile _ _
    · rw [trim, List.reverse_reverse]
      exact .of_dropWhile _ _
  · rintro ⟨⟨front, back, rfl, hfront, hback⟩, hfirst, hlast⟩
    have hback' : ∀ c ∈ back.reverse, isBlank c = true :=
      fun c hc => hback c (List.mem_reverse.mp hc)
    rw [trim, List.dropWhile_append_of_pos hfront]
    cases trimmed with
    | nil =>
        have hnone : back.dropWhile isBlank = [] := by
          rw [← List.append_nil back, List.dropWhile_append_of_pos hback, List.dropWhile_nil]
        rw [List.nil_append, hnone]
        rfl
    | cons c more =>
        have hends : EndsRun isBlank (c :: more ++ back) := hfirst
        rw [hends.dropWhile, List.reverse_append, List.dropWhile_append_of_pos hback',
          hlast.dropWhile, List.reverse_reverse]

end Text

namespace Cursor

theorem escaped?_eq_some_iff {c d : Char} : escaped? c = some d ↔ (c, d) ∈ escapes := by
  unfold escaped?
  split <;> simp_all [escapes, eq_comm]

theorem decimalValue_eq (digits : List Char) : decimalValue digits = digitsValue digits := by
  rw [digitsValue, Nat.ofDigits_eq_foldr, List.foldr_map, List.foldr_reverse, decimalValue]
  simp only [Nat.cast_id, Nat.add_comm]

theorem wordToken_of_mem_reserved :
    ∀ entry ∈ reserved, wordToken entry.1 = entry.2 ∧ entry.2 ≠ .ident entry.1 := by
  decide

theorem wordToken_cases (word : String) :
    wordToken word = .ident word ∨ (word, wordToken word) ∈ reserved := by
  unfold wordToken
  split
  · exact Or.inr (by decide)
  · exact Or.inr (by decide)
  · exact Or.inr (by decide)
  · cases hfind : Keyword.all.find? fun k => k.text == word with
    | none => exact Or.inl rfl
    | some k =>
        have htext : k.text = word := by simpa using List.find?_some hfind
        rw [← htext]
        exact Or.inr (List.mem_append_right _ (List.mem_map.mpr
          ⟨k, List.mem_of_find?_eq_some hfind, rfl⟩))

theorem wordToken_eq_iff {word : String} {t : Token} : wordToken word = t ↔ WordMeans word t := by
  constructor
  · rintro rfl
    rcases wordToken_cases word with hname | hmem
    · rw [hname]
      refine .name fun t ht => ?_
      have hread := wordToken_of_mem_reserved _ ht
      exact hread.2 (hread.1.symm.trans hname)
    · exact .reserved hmem
  · intro h
    cases h with
    | reserved h => exact (wordToken_of_mem_reserved _ h).1
    | name h => exact (wordToken_cases word).resolve_right (h _)

theorem pairSymbol?_eq_some_iff {c d : Char} {s : Symbol} :
    pairSymbol? c d = some s ↔ s.chars = [c, d] := by
  constructor
  · intro h
    unfold pairSymbol? at h
    split at h <;> cases h <;> rfl
  · intro h
    cases s <;> cases h <;> rfl

theorem singleSymbol?_eq_some_iff {c : Char} {s : Symbol} :
    singleSymbol? c = some s ↔ s.chars = [c] := by
  constructor
  · intro h
    unfold singleSymbol? at h
    split at h <;> cases h <;> rfl
  · intro h
    cases s <;> cases h <;> rfl

/-- A symbol in front of a text has its first character, or its first two. -/
theorem symbol_in_front {s : Symbol} {c : Char} {text : List Char} (h : s.chars <+: c :: text) :
    s.chars = [c] ∨ ∃ d rest, text = d :: rest ∧ s.chars = [c, d] := by
  have hlength : s.chars.length = 1 ∨ s.chars.length = 2 := by
    cases s <;> decide
  rcases hlength with hlength | hlength
  · rcases List.length_eq_one_iff.mp hlength with ⟨x, hx⟩
    rw [hx, List.cons_prefix_cons] at h
    exact Or.inl (by rw [hx, h.1])
  · rcases List.length_eq_two.mp hlength with ⟨x, y, hxy⟩
    rw [hxy, List.cons_prefix_cons] at h
    rcases h with ⟨rfl, rest, rfl⟩
    exact Or.inr ⟨y, rest, rfl, hxy⟩

theorem symbol?_eq_some_iff {text : List Char} {s : Symbol} :
    symbol? text = some s ↔
      s.chars <+: text ∧ ∀ s' : Symbol, s'.chars <+: text -> s'.chars.length ≤ s.chars.length := by
  match text with
  | [] =>
      constructor
      · intro h
        cases h
      · rintro ⟨h, _⟩
        have hpos := symbol_length_pos s
        rw [List.prefix_nil.mp h] at hpos
        exact absurd hpos (by decide)
  | [c] =>
      rw [symbol?, singleSymbol?_eq_some_iff]
      constructor
      · intro h
        rw [h]
        exact ⟨List.prefix_rfl, fun _ => List.IsPrefix.length_le⟩
      · rintro ⟨h, _⟩
        rcases symbol_in_front h with hone | ⟨_, _, hrest, _⟩
        · exact hone
        · cases hrest
  | c :: d :: rest =>
      rw [symbol?]
      cases hpair : pairSymbol? c d with
      | some pair =>
          have hchars := pairSymbol?_eq_some_iff.mp hpair
          constructor
          · intro h
            cases h
            refine ⟨⟨rest, by rw [hchars]; rfl⟩, fun s' hs' => ?_⟩
            rcases symbol_in_front hs' with hone | ⟨_, _, _, htwo⟩
            · rw [hone, hchars]
              exact Nat.le_succ 1
            · rw [htwo, hchars]
              exact Nat.le_refl 2
          · rintro ⟨h, hlongest⟩
            have hlength := hlongest pair ⟨rest, by rw [hchars]; rfl⟩
            rcases symbol_in_front h with hone | ⟨_, _, hrest, htwo⟩
            · rw [hone, hchars] at hlength
              exact absurd hlength (Nat.not_succ_le_self 1)
            · cases hrest
              exact hpair.symm.trans (pairSymbol?_eq_some_iff.mpr htwo)
      | none =>
          have hnone : ∀ s' : Symbol, s'.chars <+: c :: d :: rest -> s'.chars = [c] := by
            intro s' hs'
            rcases symbol_in_front hs' with hone | ⟨_, _, hrest, htwo⟩
            · exact hone
            · cases hrest
              cases hpair.symm.trans (pairSymbol?_eq_some_iff.mpr htwo)
          rw [Option.none_or, singleSymbol?_eq_some_iff]
          constructor
          · intro h
            refine ⟨⟨d :: rest, by rw [h]; rfl⟩, fun s' hs' => ?_⟩
            rw [hnone s' hs', h]
          · rintro ⟨h, _⟩
            exact hnone s h

theorem stringBody_eq_ok_iff {opening span : Span} {decoded text : List Char} {t : Token}
    {next : Cursor} :
    stringBody opening decoded span text = { outcome := .ok t, cursor := next } ↔
      ∃ written spelled, text = written ++ '"' :: next.rest ∧ Spells written spelled ∧
        t = .string (String.ofList (decoded.reverse ++ spelled)) ∧
        next.span = span.after (written ++ ['"']) := by
  constructor
  · intro h
    fun_induction stringBody opening decoded span text with
    | case1 => cases h
    | case2 decoded span rest =>
        cases h
        exact ⟨[], [], rfl, .nil, by rw [List.append_nil], rfl⟩
    | case3 => cases h
    | case4 => cases h
    | case5 decoded span c rest d hescape ih =>
        rcases ih h with ⟨written, spelled, rfl, hspells, rfl, hspan⟩
        refine ⟨'\\' :: c :: written, d :: spelled, rfl,
          .escape (escaped?_eq_some_iff.mp hescape) hspells, ?_, hspan⟩
        rw [List.reverse_cons, List.append_assoc]
        rfl
    | case6 => cases h
    | case7 decoded span c rest hquote hnewline hlone hescape ih =>
        rcases ih h with ⟨written, spelled, rfl, hspells, rfl, hspan⟩
        refine ⟨c :: written, c :: spelled, rfl, .plain ⟨hquote, ?_, hnewline⟩ hspells, ?_, hspan⟩
        · intro hc
          -- a backslash would stand in front of the quote at least
          cases written with
          | nil => exact hescape _ _ hc rfl
          | cons d more => exact hescape _ _ hc rfl
        · rw [List.reverse_cons, List.append_assoc]
          rfl
  · rintro ⟨written, spelled, rfl, hspells, rfl, hspan⟩
    induction hspells generalizing decoded span with
    | nil =>
        rcases next with ⟨rest, behind⟩
        cases hspan
        rw [List.append_nil]
        rfl
    | plain hc _ ih =>
        rw [List.cons_append, stringBody, ih hspan, List.reverse_cons, List.append_assoc]
        · rfl
        · exact hc.1
        · exact hc.2.2
        · exact fun h _ => hc.2.1 h
        · exact fun _ _ h _ => hc.2.1 h
    | escape hc _ ih =>
        rw [List.cons_append, List.cons_append, stringBody, escaped?_eq_some_iff.mpr hc]
        dsimp only
        rw [ih hspan, List.reverse_cons, List.append_assoc]
        rfl

/-!
## The readers of tokens
-/

variable {c next : Cursor} {t : Token}

theorem skip_append {front behind : List Char} (h : c.rest = front ++ behind) :
    c.skip front.length = { rest := behind, span := c.span.after front } := by
  rw [skip, h, List.drop_left, List.take_left]

def ReadsLexeme (c : Cursor) (t : Token) (next : Cursor) : Prop :=
  ∃ lexeme, c.rest = lexeme ++ next.rest ∧ Lexeme t lexeme next.rest ∧
    next.span = c.span.after lexeme

theorem number_of_splitWhile {digits : List Char} {behind : Cursor}
    (hsplit : c.splitWhile Char.isDigit = (digits, behind)) :
    c.number = { outcome := .ok t, cursor := next } ↔
      EndsRun (fun c => Text.isAlphabetic c || c = '_') behind.rest ∧
        decimalValue digits ≤ maxInteger ∧
        t = .integer (Int32.ofNat (decimalValue digits)) ∧ next = behind := by
  have hvalued {fault : LexError} :
      (if decimalValue digits ≤ maxInteger then
          { outcome := .ok (.integer (Int32.ofNat (decimalValue digits))), cursor := behind }
        else { outcome := .error fault, cursor := behind } : Reading Token) =
          { outcome := .ok t, cursor := next } ↔
        decimalValue digits ≤ maxInteger ∧
          t = .integer (Int32.ofNat (decimalValue digits)) ∧ next = behind := by
    split
    · next hmax =>
        rw [Reading.mk.injEq, Except.ok.injEq, eq_comm, eq_comm (a := behind)]
        exact (and_iff_right hmax).symm
    · next hmax =>
        constructor
        · intro h
          cases h
        · exact fun h => absurd h.1 hmax
  unfold number
  rw [hsplit]
  rcases behind with ⟨rest, span⟩
  cases rest with
  | nil =>
      have hends : EndsRun (fun c => Text.isAlphabetic c || c = '_') [] := fun _ h => by cases h
      exact hvalued.trans (and_iff_right hends).symm
  | cons x more =>
      dsimp only
      split
      · next hx =>
          constructor
          · intro h
            cases h
          · rintro ⟨hends, _⟩
            cases hx.symm.trans (hends x rfl)
      · next hx =>
          have hends : EndsRun (fun c => Text.isAlphabetic c || c = '_') (x :: more) := by
            intro y hy
            cases hy
            exact Bool.eq_false_iff.mpr hx
          exact hvalued.trans (and_iff_right hends).symm

theorem endsRun_or_iff {p q : Char -> Bool} {rest : List Char} :
    EndsRun (fun c => p c || q c) rest ↔ EndsRun p rest ∧ EndsRun q rest := by
  simp only [EndsRun, Bool.or_eq_false_iff, imp_and, forall_and]

theorem number_eq_ok_iff :
    c.number = { outcome := .ok t, cursor := next } ↔
      ∃ digits value, c.rest = digits ++ next.rest ∧ (∀ d ∈ digits, d.isDigit = true) ∧
        EndsRun (fun c => c.isDigit || Text.isAlphabetic c || c = '_') next.rest ∧
        t = .integer value ∧ value.toInt = digitsValue digits ∧
        digitsValue digits ≤ 2147483647 ∧ next.span = c.span.after digits := by
  rcases hsplit : c.splitWhile Char.isDigit with ⟨digits, behind⟩
  rw [number_of_splitWhile hsplit]
  simp only [Bool.or_assoc, endsRun_or_iff (p := Char.isDigit), decimalValue_eq]
  constructor
  · rintro ⟨hends, hmax, rfl, rfl⟩
    rcases splitWhile_eq_iff.mp hsplit with ⟨hrest, hdigits, hstop, hspan⟩
    exact ⟨digits, _, hrest, hdigits, ⟨hstop, hends⟩, rfl,
      Int32.toInt_ofNat_of_lt (Nat.lt_succ_of_le hmax), hmax, hspan⟩
  · rintro ⟨digits', value, hrest, hdigits, ⟨hstop, hends⟩, rfl, hvalue, hmax, hspan⟩
    cases hsplit.symm.trans (splitWhile_eq_iff.mpr ⟨hrest, hdigits, hstop, hspan⟩)
    refine ⟨hends, hmax, ?_, rfl⟩
    rw [← Int32.toInt_ofNat_of_lt (Nat.lt_succ_of_le hmax)] at hvalue
    rw [Int32.toInt_inj.mp hvalue]

theorem word_eq_ok_iff :
    c.word = { outcome := .ok t, cursor := next } ↔
      ∃ letters, c.rest = letters ++ next.rest ∧ (∀ x ∈ letters, isWordChar x = true) ∧
        EndsRun isWordChar next.rest ∧ WordMeans (String.ofList letters) t ∧
        next.span = c.span.after letters := by
  rcases hsplit : c.splitWhile isWordChar with ⟨letters, behind⟩
  have hword : c.word =
      { outcome := .ok (wordToken (String.ofList letters)), cursor := behind } := by
    rw [word, hsplit]
  rw [hword, Reading.mk.injEq, Except.ok.injEq, wordToken_eq_iff]
  constructor
  · rintro ⟨hmeans, rfl⟩
    rcases splitWhile_eq_iff.mp hsplit with ⟨hrest, hletters, hends, hspan⟩
    exact ⟨letters, hrest, hletters, hends, hmeans, hspan⟩
  · rintro ⟨letters', hrest, hletters, hends, hmeans, hspan⟩
    cases hsplit.symm.trans (splitWhile_eq_iff.mpr ⟨hrest, hletters, hends, hspan⟩)
    exact ⟨hmeans, rfl⟩

theorem comment_eq_ok_iff {text : List Char} (h : c.rest = '/' :: '/' :: text) :
    c.comment = { outcome := .ok t, cursor := next } ↔
      ∃ line trimmed, text = line ++ next.rest ∧ '\n' ∉ line ∧ Trims line trimmed ∧
        EndsRun (· != '\n') next.rest ∧ t = .comment (String.ofList trimmed) ∧
        next.span = c.span.after ('/' :: '/' :: line) := by
  have hskip : c.skip 2 = { rest := text, span := c.span.after ['/', '/'] } :=
    skip_append (show c.rest = ['/', '/'] ++ text from h)
  rcases hsplit : (c.skip 2).splitWhile (· != '\n') with ⟨line, behind⟩
  have hcomment : c.comment =
      { outcome := .ok (.comment (String.ofList (Text.trim line))), cursor := behind } := by
    rw [comment, hsplit]
  rw [hcomment, Reading.mk.injEq, Except.ok.injEq]
  rw [hskip] at hsplit
  constructor
  · rintro ⟨rfl, rfl⟩
    rcases splitWhile_eq_iff.mp hsplit with ⟨hrest, hline, hends, hspan⟩
    refine ⟨line, _, hrest, ?_, Text.trim_eq_iff.mp rfl, hends, rfl, hspan⟩
    intro hmem
    exact absurd (hline _ hmem) (by decide)
  · rintro ⟨line', trimmed, hrest, hnewline, htrims, hends, rfl, hspan⟩
    have hline : ∀ x ∈ line', (x != '\n') = true := by
      intro x hx
      rw [bne_iff_ne]
      rintro rfl
      exact hnewline hx
    have hsplit' := splitWhile_eq_iff (c := { rest := text, span := c.span.after ['/', '/'] }).mpr
      ⟨hrest, hline, hends, hspan⟩
    cases hsplit.symm.trans hsplit'
    rw [Text.trim_eq_iff.mpr htrims]
    exact ⟨rfl, rfl⟩

theorem symbol_eq_ok_iff {first : Char} :
    c.symbol first = { outcome := .ok t, cursor := next } ↔
      ∃ s, c.rest = s.chars ++ next.rest ∧
        (∀ s' : Symbol, s'.chars <+: c.rest -> s'.chars.length ≤ s.chars.length) ∧
        t = .symbol s ∧ next.span = c.span.after s.chars := by
  unfold symbol
  constructor
  · intro h
    cases hs : symbol? c.rest with
    | none => simp [hs] at h
    | some s =>
        rw [hs, Reading.mk.injEq, Except.ok.injEq] at h
        rcases h with ⟨rfl, rfl⟩
        rcases symbol?_eq_some_iff.mp hs with ⟨⟨behind, hrest⟩, hlongest⟩
        rw [skip_append hrest.symm]
        exact ⟨s, hrest.symm, hlongest, rfl, rfl⟩
  · rintro ⟨s, hrest, hlongest, rfl, hspan⟩
    rw [symbol?_eq_some_iff.mpr ⟨⟨next.rest, hrest.symm⟩, hlongest⟩]
    dsimp only
    rw [skip_append hrest, ← hspan]

theorem isWordChar_of_first {first : Char} (h : (first.isAlpha || first = '_') = true) :
    isWordChar first = true := by
  rw [isWordChar, Char.isAlphanum, Bool.or_right_comm, h, Bool.true_or]

theorem readsLexeme_of_token (hsome : c.rest ≠ [])
    (h : c.token = { outcome := .ok t, cursor := next }) : c.ReadsLexeme t next := by
  unfold token at h
  split at h
  · next hnil => exact absurd hnil hsome
  · next more hrest =>
      have hskip : c.skip 1 = { rest := more, span := c.span.after ['\n'] } :=
        skip_append (show c.rest = ['\n'] ++ more from hrest)
      rw [hskip] at h
      cases h
      exact ⟨['\n'], hrest, .newline, rfl⟩
  · next text hrest =>
      rcases (comment_eq_ok_iff hrest).mp h with
        ⟨line, trimmed, rfl, hnewline, htrims, hends, rfl, hspan⟩
      exact ⟨'/' :: '/' :: line, hrest, .comment hnewline htrims hends, hspan⟩
  · next text hrest =>
      rcases stringBody_eq_ok_iff.mp h with ⟨written, spelled, rfl, hspells, rfl, hspan⟩
      refine ⟨'"' :: (written ++ ['"']), ?_, .string hspells, hspan⟩
      rw [hrest, List.cons_append, List.append_assoc]
      rfl
  · next first more hnewline hcomment hquote hrest =>
      split at h
      · next hdigit =>
          rcases number_eq_ok_iff.mp h with
            ⟨digits, value, hsplit, hdigits, hends, rfl, hvalue, hmax, hspan⟩
          rcases hends.eq_cons (by simp [hdigit]) (hrest.symm.trans hsplit) with ⟨more, rfl⟩
          exact ⟨_, hsplit, .integer (List.cons_ne_nil _ _) hdigits hvalue hmax hends, hspan⟩
      · next hdigit =>
          split at h
          · next hfirst =>
              rcases word_eq_ok_iff.mp h with ⟨letters, hsplit, hletters, hends, hmeans, hspan⟩
              rcases hends.eq_cons (isWordChar_of_first hfirst) (hrest.symm.trans hsplit) with
                ⟨more, rfl⟩
              rw [List.forall_mem_cons] at hletters
              exact ⟨_, hsplit, .word hfirst hletters.2 hmeans hends, hspan⟩
          · next hfirst =>
              rcases symbol_eq_ok_iff.mp h with ⟨s, hsplit, hlongest, rfl, hspan⟩
              rw [hsplit] at hlongest
              refine ⟨s.chars, hsplit, .symbol hlongest ?_, hspan⟩
              -- two slashes have been taken for a comment
              rw [← hsplit, hrest]
              rintro ⟨tail, htail⟩
              cases htail
              exact hcomment tail rfl rfl

theorem token_of_readsLexeme (h : c.ReadsLexeme t next) :
    c.token = { outcome := .ok t, cursor := next } := by
  rcases h with ⟨lexeme, hrest, hlexeme, hspan⟩
  cases hlexeme with
  | newline =>
      have hskip : c.skip 1 = _ := skip_append hrest
      unfold token
      rw [hrest]
      dsimp only [List.cons_append]
      rw [hskip, ← hspan]
      rfl
  | @comment line _ _ hnewline htrims hends =>
      unfold token
      rw [hrest]
      exact (comment_eq_ok_iff hrest).mpr ⟨_, _, rfl, hnewline, htrims, hends, rfl, hspan⟩
  | string hspells =>
      unfold token
      rw [hrest, List.cons_append, List.append_assoc]
      exact stringBody_eq_ok_iff.mpr ⟨_, _, rfl, hspells, rfl, hspan⟩
  | integer hsome hdigits hvalue hmax hends =>
      rcases List.exists_cons_of_ne_nil hsome with ⟨first, more, rfl⟩
      have hfirst := hdigits first List.mem_cons_self
      rw [Token.token_of_class hrest hfirst rfl rfl rfl, if_pos hfirst]
      exact number_eq_ok_iff.mpr ⟨_, _, hrest, hdigits, hends, rfl, hvalue, hmax, hspan⟩
  | word hfirst hletters hmeans hends =>
      rw [Token.token_of_letter hrest hfirst]
      refine word_eq_ok_iff.mpr ⟨_, hrest, ?_, hends, hmeans, hspan⟩
      rw [List.forall_mem_cons]
      exact ⟨isWordChar_of_first hfirst, hletters⟩
  | @symbol s _ hlongest hcomment =>
      have hstart : ∃ first more, s.chars = first :: more ∧ first ≠ '\n' ∧ first ≠ '"' ∧
          first.isDigit = false ∧ (first.isAlpha || first = '_') = false := by
        cases s <;> exact ⟨_, _, rfl, by decide⟩
      rcases hstart with ⟨first, more, hfirst, hnewline, hquote, hdigit, hletter⟩
      rw [← hrest] at hlongest hcomment
      have hcons : c.rest = first :: (more ++ next.rest) := by
        rw [hrest, hfirst]
        rfl
      rw [token_of_first hcons hnewline hcomment hquote, hdigit, hletter]
      exact symbol_eq_ok_iff.mpr ⟨s, hrest, hlongest, rfl, hspan⟩

theorem token_eq_ok_iff (hsome : c.rest ≠ []) :
    c.token = { outcome := .ok t, cursor := next } ↔ c.ReadsLexeme t next :=
  ⟨readsLexeme_of_token hsome, token_of_readsLexeme⟩

end Cursor

/-!
## Positions
-/

namespace Span

def behind (before : List Char) : Span where
  line := 1 + before.count '\n'
  column := 1 + (before.reverse.takeWhile (· != '\n')).length

theorem start_after (before : List Char) : start.after before = behind before := by
  induction before using List.reverseRecOn with
  | nil => rfl
  | append_singleton before c ih =>
      rw [after_append, ih, after_cons, after_nil]
      by_cases hc : c = '\n'
      · simp [behind, next, hc, Nat.add_assoc]
      · simp [behind, next, hc, Nat.add_assoc]

theorem behind_append (before text : List Char) :
    behind (before ++ text) = (behind before).after text := by
  rw [← start_after, ← start_after, after_append]

end Span

/-!
## Partitions
-/

/-- The text behind `before`, cut into gaps and lexemes, and the tokens of the
lexemes with their positions. -/
inductive Partition : List Char -> List Char -> List Located -> Prop where
  | done {before gap : List Char} (hgap : ∀ c ∈ gap, c = ' ' ∨ c = '\t' ∨ c = '\r') :
      Partition before gap [{ token := .endOfInput, span := .behind (before ++ gap) }]
  | token {before gap lexeme rest : List Char} {t : Token} {tokens : List Located}
      (hgap : ∀ c ∈ gap, c = ' ' ∨ c = '\t' ∨ c = '\r') (hlexeme : Lexeme t lexeme rest)
      (hrest : Partition (before ++ gap ++ lexeme) rest tokens) :
      Partition before (gap ++ (lexeme ++ rest))
        ({ token := t, span := .behind (before ++ gap) } :: tokens)

theorem Lexeme.not_isGap {t : Token} {lexeme rest : List Char} (h : Lexeme t lexeme rest) :
    ∃ first more, lexeme = first :: more ∧ Cursor.isGap first = false := by
  cases h with
  | newline => exact ⟨_, _, rfl, by decide⟩
  | comment => exact ⟨_, _, rfl, by decide⟩
  | string => exact ⟨_, _, rfl, by decide⟩
  | integer hsome hdigits =>
      rcases List.exists_cons_of_ne_nil hsome with ⟨first, more, rfl⟩
      exact ⟨first, more, rfl,
        Token.not_isGap_of_class (hdigits first List.mem_cons_self) rfl rfl rfl⟩
  | word hfirst =>
      exact ⟨_, _, rfl,
        Token.not_isGap_of_class (p := fun c => c.isAlpha || c = '_') hfirst rfl rfl rfl⟩
  | @symbol s => cases s <;> exact ⟨_, _, rfl, by decide⟩

theorem Lexeme.ne_endOfInput {t : Token} {lexeme rest : List Char} (h : Lexeme t lexeme rest) :
    t ≠ .endOfInput := by
  cases h with
  | word _ _ hmeans =>
      cases hmeans with
      | reserved hmem =>
          have hall : ∀ entry ∈ reserved, entry.2 ≠ .endOfInput := by decide
          exact hall _ hmem
      | name => exact Token.noConfusion
  | _ => exact Token.noConfusion

/-- The end of the input comes once, behind all other tokens. -/
theorem Partition.ends {before text : List Char} {tokens : List Located}
    (h : Partition before text tokens) :
    ∃ body last, tokens = body ++ [last] ∧ last.token = .endOfInput ∧
      ∀ t ∈ body, t.token ≠ .endOfInput := by
  induction h with
  | done => exact ⟨[], _, rfl, rfl, List.forall_mem_nil _⟩
  | token _ hlexeme _ ih =>
      rcases ih with ⟨body, last, rfl, hlast, hbody⟩
      exact ⟨_ :: body, last, rfl, hlast, List.forall_mem_cons.mpr ⟨hlexeme.ne_endOfInput, hbody⟩⟩

namespace Cursor

theorem isGap_iff {c : Char} : isGap c = true ↔ c = ' ' ∨ c = '\t' ∨ c = '\r' := by
  simp [isGap, or_assoc]

theorem skipGap_eq_iff {c here : Cursor} :
    c.skipGap = here ↔
      ∃ gap, c.rest = gap ++ here.rest ∧ (∀ x ∈ gap, x = ' ' ∨ x = '\t' ∨ x = '\r') ∧
        EndsRun isGap here.rest ∧ here.span = c.span.after gap := by
  simp only [← isGap_iff, ← splitWhile_eq_iff]
  constructor
  · rintro rfl
    exact ⟨_, rfl⟩
  · rintro ⟨gap, hgap⟩
    rw [skipGap, hgap]

theorem partition_of_tokensFrom {before : List Char} {read tokens : List Located} {c : Cursor}
    (hspan : c.span = .behind before) (h : (tokensFrom read c).outcome = .ok tokens) :
    ∃ located, tokens = read.reverse ++ located ∧ Partition before c.rest located := by
  revert before
  fun_induction tokensFrom read c with
  | case1 read c here hnil =>
      intro before hspan
      rcases skipGap_eq_iff.mp (rfl : c.skipGap = here) with ⟨gap, hrest, hgap, _, hhere⟩
      rw [hnil, List.append_nil] at hrest
      rw [hspan, ← Span.behind_append] at hhere
      cases h
      refine ⟨[{ token := .endOfInput, span := here.span }], List.reverse_cons, ?_⟩
      rw [hrest, hhere]
      exact .done hgap
  | case2 read c here hsome t next htoken ih =>
      intro before hspan
      rcases skipGap_eq_iff.mp (rfl : c.skipGap = here) with ⟨gap, hrest, hgap, _, hhere⟩
      rw [hspan, ← Span.behind_append] at hhere
      rcases (token_eq_ok_iff hsome).mp htoken with ⟨lexeme, hsplit, hlexeme, hnext⟩
      rw [hhere, ← Span.behind_append] at hnext
      rcases ih h hnext with ⟨located, rfl, hpartition⟩
      refine ⟨{ token := t, span := here.span } :: located, ?_, ?_⟩
      · rw [List.reverse_cons, List.append_assoc]
        rfl
      · rw [hrest, hsplit, hhere]
        exact .token hgap hlexeme hpartition
  | case3 read c here hsome e next htoken => cases h

theorem tokensFrom_of_partition {before text : List Char} {located : List Located}
    (h : Partition before text located) (read : List Located) {c : Cursor} (hrest : c.rest = text)
    (hspan : c.span = .behind before) :
    (tokensFrom read c).outcome = .ok (read.reverse ++ located) := by
  induction h generalizing read c with
  | @done before gap hgap =>
      have hskip : c.skipGap = { rest := [], span := .behind (before ++ gap) } := by
        refine skipGap_eq_iff.mpr ⟨gap, ?_, hgap, ?_, ?_⟩
        · rw [hrest, List.append_nil]
        · intro x hx
          cases hx
        · rw [hspan, Span.behind_append]
      rw [tokensFrom, hskip]
      simp
  | @token before gap lexeme rest t tokens hgap hlexeme _ ih =>
      -- the gap is as long as it can be, since no lexeme starts with a character of gaps
      rcases hlexeme.not_isGap with ⟨first, more, rfl, hfirst⟩
      have hskip : c.skipGap =
          { rest := first :: more ++ rest, span := .behind (before ++ gap) } := by
        refine skipGap_eq_iff.mpr ⟨gap, hrest, hgap, ?_, ?_⟩
        · intro x hx
          cases hx
          exact hfirst
        · rw [hspan, Span.behind_append]
      have hsome : c.skipGap.rest ≠ [] := by
        rw [hskip]
        exact List.cons_ne_nil _ _
      have htoken : c.skipGap.token =
          { outcome := .ok t
            cursor := { rest, span := .behind (before ++ gap ++ (first :: more)) } } := by
        rw [hskip]
        exact token_of_readsLexeme ⟨first :: more, rfl, hlexeme, Span.behind_append _ _⟩
      rw [tokensFrom_of_token hsome htoken, ih _ rfl rfl, hskip, List.reverse_cons,
        List.append_assoc]
      rfl

end Cursor

theorem partition_of_tokenize {source : String} {tokens : List Located}
    (h : tokenize source = .ok tokens) : Partition [] source.toList tokens := by
  have hstart : (Cursor.ofSource source).span = .behind [] := rfl
  rcases Cursor.partition_of_tokensFrom hstart h with ⟨located, rfl, hpartition⟩
  exact hpartition

/-- Reading is a partition of the source: it gives the tokens of gaps and lexemes
into which the source can be cut, and fails when there is no such cut. -/
theorem tokenize_eq_ok_iff_partition {source : String} {tokens : List Located} :
    tokenize source = .ok tokens ↔ Partition [] source.toList tokens :=
  ⟨partition_of_tokenize, fun h => Cursor.tokensFrom_of_partition h [] rfl rfl⟩

end StackScript
