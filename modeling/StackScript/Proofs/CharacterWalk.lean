import StackScript.Proofs.RepeatedReading

/-!
# Walking through characters

A cursor keeps the text that is left, so that it cannot pass the end of it.  Here
the same tokens are read the way a machine does it: by an index into a text that
stays where it is, and by a line and a column that are counted along.  A step moves
all three, also where no character is left.  The walk agrees with the cursor all the
same; so its index keeps to the text, and its line and column are those of its index.
-/

namespace StackScript

structure CharWalk where
  text : List Char
  /-- The index of the next character. -/
  position : Nat := 0
  line : Nat := 1
  column : Nat := 1

namespace CharWalk

def ofSource (source : String) : CharWalk where
  text := source.toList

def current? (w : CharWalk) : Option Char :=
  w.text[w.position]?

def peek? (w : CharWalk) : Option Char :=
  w.text[w.position + 1]?

def span (w : CharWalk) : Span where
  line := w.line
  column := w.column

/-- One step further.  The counters go up even where no character is left. -/
def advance (w : CharWalk) : CharWalk :=
  if w.current? = some '\n' then
    { w with position := w.position + 1, line := w.line + 1, column := 1 }
  else
    { w with position := w.position + 1, column := w.column + 1 }

def advanceBy (w : CharWalk) : Nat -> CharWalk
  | 0 => w
  | count + 1 => w.advance.advanceBy count

@[simp] theorem text_advance (w : CharWalk) : w.advance.text = w.text := by
  unfold advance
  split <;> rfl

@[simp] theorem position_advance (w : CharWalk) : w.advance.position = w.position + 1 := by
  unfold advance
  split <;> rfl

theorem position_lt_of_current? {w : CharWalk} {c : Char} (h : w.current? = some c) :
    w.position < w.text.length :=
  (List.getElem?_eq_some_iff.mp h).1

/-!
## Reading by index
-/

def takeRun (p : Char -> Bool) (w : CharWalk) : List Char × CharWalk :=
  match _ : w.current? with
  | none => ([], w)
  | some c =>
      if p c then
        let (run, behind) := takeRun p w.advance
        (c :: run, behind)
      else
        ([], w)
termination_by w.text.length - w.position
decreasing_by
  next hc _ =>
    have hlt := position_lt_of_current? hc
    rw [text_advance, position_advance]
    omega

def stringBody (opening : Span) (decoded : List Char) (w : CharWalk) :
    Except LexError Token × CharWalk :=
  match _ : w.current? with
  | none => (.error { span := opening, fault := .unterminatedString }, w)
  | some '"' => (.ok (.string (String.ofList decoded.reverse)), w.advance)
  | some '\n' => (.error { span := opening, fault := .newlineInString }, w)
  | some '\\' =>
      match w.advance.current? with
      | none => (.error { span := w.advance.span, fault := .escapeAtEnd }, w.advance)
      | some c =>
          match Cursor.escaped? c with
          | some d => stringBody opening (d :: decoded) w.advance.advance
          | none => (.error { span := w.advance.span, fault := .unknownEscape c }, w.advance)
  | some c => stringBody opening (c :: decoded) w.advance
termination_by w.text.length - w.position
decreasing_by
  · next hc =>
      have hlt := position_lt_of_current? hc
      rw [text_advance, text_advance, position_advance, position_advance]
      omega
  · next hc =>
      have hlt := position_lt_of_current? hc
      rw [text_advance, position_advance]
      omega

def number (w : CharWalk) : Except LexError Token × CharWalk :=
  let (digits, behind) := w.takeRun Char.isDigit
  let valued :=
    if Cursor.decimalValue digits ≤ Cursor.maxInteger then
      (.ok (.integer (Int32.ofNat (Cursor.decimalValue digits))), behind)
    else
      (.error { span := w.span, fault := .numberTooLarge digits }, behind)
  match behind.current? with
  | none => valued
  | some next =>
      if Text.isAlphabetic next || next = '_' then
        (.error { span := w.span, fault := .malformedNumber digits next }, behind)
      else
        valued

def word (w : CharWalk) : Except LexError Token × CharWalk :=
  let (letters, behind) := w.takeRun Cursor.isWordChar
  (.ok (Cursor.wordToken (String.ofList letters)), behind)

def comment (w : CharWalk) : Except LexError Token × CharWalk :=
  let (text, behind) := (w.advanceBy 2).takeRun (· != '\n')
  (.ok (.comment (String.ofList (Text.trim text))), behind)

def symbol? (w : CharWalk) (first : Char) : Option Symbol :=
  match w.peek? with
  | none => Cursor.singleSymbol? first
  | some second => (Cursor.pairSymbol? first second).or (Cursor.singleSymbol? first)

def symbol (w : CharWalk) (first : Char) : Except LexError Token × CharWalk :=
  match w.symbol? first with
  | some s => (.ok (.symbol s), w.advanceBy s.chars.length)
  | none => (.error { span := w.span, fault := .unexpectedChar first }, w)

def token (w : CharWalk) : Except LexError Token × CharWalk :=
  match w.current? with
  | none => (.ok .endOfInput, w)
  | some first =>
      if first = '\n' then
        (.ok .newline, w.advance)
      else if first = '/' ∧ w.peek? = some '/' then
        w.comment
      else if first = '"' then
        stringBody w.span [] w.advance
      else if first.isDigit then
        w.number
      else if first.isAlpha || first = '_' then
        w.word
      else
        w.symbol first

/-!
## Agreement with the cursor
-/

/-- The walk is in this text, and where the cursor is. -/
structure Shows (w : CharWalk) (text : List Char) (c : Cursor) : Prop where
  text_eq : w.text = text
  within : w.position ≤ text.length
  rest_eq : text.drop w.position = c.rest
  span_eq : w.span = c.span

/-- The walk comes to the same result as the cursor, at the same place. -/
def Agrees {α : Type} (text : List Char) (result : Except LexError α × CharWalk)
    (reading : Reading α) : Prop :=
  result.1 = reading.outcome ∧ result.2.Shows text reading.cursor

variable {w : CharWalk} {c : Cursor} {text rest : List Char} {first : Char}

theorem shows_of_le (h : w.position ≤ w.text.length) :
    w.Shows w.text { rest := w.text.drop w.position, span := w.span } :=
  ⟨rfl, h, rfl, rfl⟩

theorem shows_ofSource (source : String) :
    (ofSource source).Shows source.toList (.ofSource source) :=
  ⟨rfl, Nat.zero_le _, rfl, rfl⟩

namespace Shows

theorem current? (h : w.Shows text c) : w.current? = c.rest.head? := by
  rw [CharWalk.current?, h.text_eq, ← h.rest_eq, List.head?_drop]

theorem rest_of_current?_none (h : w.Shows text c) (hnone : w.current? = none) :
    c.rest = [] := by
  rw [h.current?] at hnone
  exact List.head?_eq_none_iff.mp hnone

theorem rest_of_current? (h : w.Shows text c) (hfirst : w.current? = some first) :
    ∃ rest, c.rest = first :: rest := by
  rw [h.current?] at hfirst
  exact List.head?_eq_some_iff.mp hfirst

theorem current?_of_cons (h : w.Shows text c) (hrest : c.rest = first :: rest) :
    w.current? = some first := by
  rw [h.current?, hrest, List.head?_cons]

theorem peek? (h : w.Shows text c) (hrest : c.rest = first :: rest) : w.peek? = rest.head? := by
  have hdrop : text.drop (w.position + 1) = rest := by
    rw [← List.drop_drop, h.rest_eq, hrest, List.drop_one, List.tail_cons]
  rw [CharWalk.peek?, h.text_eq, ← List.head?_drop, hdrop]

theorem length_eq (h : w.Shows text c) : w.position + c.rest.length = text.length := by
  have hwithin := h.within
  rw [← h.rest_eq, List.length_drop]
  omega

theorem position_lt {next : CharWalk} {here : Cursor} (h : w.Shows text c)
    (hnext : next.Shows text here) (hlt : here.rest.length < c.rest.length) :
    w.position < next.position := by
  have hlength := h.length_eq
  have hlength' := hnext.length_eq
  omega

/-- A step keeps to the text as long as a character is left. -/
theorem advance (h : w.Shows text c) (hrest : c.rest = first :: rest) :
    w.advance.Shows text { rest := rest, span := c.span.next first } := by
  have hlength := h.length_eq
  rw [hrest, List.length_cons] at hlength
  constructor
  · rw [text_advance, h.text_eq]
  · rw [position_advance]
    omega
  · rw [position_advance, ← List.drop_drop, h.rest_eq, hrest, List.drop_one, List.tail_cons]
  · rw [← h.span_eq]
    unfold CharWalk.advance Span.next
    rw [h.current?_of_cons hrest]
    by_cases hfirst : first = '\n'
    · rw [if_pos hfirst, if_pos (congrArg some hfirst)]
      rfl
    · rw [if_neg hfirst, if_neg (fun heq => hfirst (Option.some.inj heq))]
      rfl

theorem advanceBy {count : Nat} (h : w.Shows text c) (hcount : count ≤ c.rest.length) :
    (w.advanceBy count).Shows text (c.skip count) := by
  induction count generalizing w c with
  | zero => exact h
  | succ count ih =>
      cases hrest : c.rest with
      | nil =>
          rw [hrest] at hcount
          cases hcount
      | cons first rest =>
          rw [hrest] at hcount
          have hskip : c.skip (count + 1) =
              Cursor.skip { rest := rest, span := c.span.next first } count := by
            rw [Cursor.skip, hrest]
            rfl
          rw [hskip]
          exact ih (h.advance hrest) (Nat.le_of_succ_le_succ hcount)

theorem splitWhile_of_current? {p : Char -> Bool} (h : w.Shows text c)
    (hends : ∀ x ∈ w.current?, p x = false) : c.splitWhile p = ([], c) := by
  rw [h.current?] at hends
  exact Cursor.splitWhile_eq_iff.mpr ⟨rfl, List.forall_mem_nil _, hends, rfl⟩

theorem takeRun (p : Char -> Bool) (h : w.Shows text c) :
    (w.takeRun p).1 = (c.splitWhile p).1 ∧ (w.takeRun p).2.Shows text (c.splitWhile p).2 := by
  fun_induction CharWalk.takeRun p w generalizing c with
  | case1 w hnone =>
      have hsplit : c.splitWhile p = ([], c) := by
        apply h.splitWhile_of_current?
        intro x hx
        cases hnone.symm.trans hx
      rw [hsplit]
      exact ⟨rfl, h⟩
  | case2 w x hx hp run behind hbehind ih =>
      rcases h.rest_of_current? hx with ⟨rest, hrest⟩
      have hsplit : c.splitWhile p =
          (x :: (Cursor.splitWhile ⟨rest, c.span.next x⟩ p).1,
            (Cursor.splitWhile ⟨rest, c.span.next x⟩ p).2) := by
        unfold Cursor.splitWhile
        rw [hrest, List.takeWhile_cons_of_pos hp, List.dropWhile_cons_of_pos hp]
        rfl
      rw [hbehind] at ih
      rcases ih (h.advance hrest) with ⟨hrun, hshows⟩
      rw [hsplit]
      exact ⟨congrArg (x :: ·) hrun, hshows⟩
  | case3 w x hx hp =>
      have hsplit : c.splitWhile p = ([], c) := by
        apply h.splitWhile_of_current?
        intro y hy
        cases hx.symm.trans hy
        exact Bool.eq_false_iff.mpr hp
      rw [hsplit]
      exact ⟨rfl, h⟩

end Shows

theorem agrees_stringBody {opening : Span} {decoded : List Char} (h : w.Shows text c) :
    Agrees text (w.stringBody opening decoded)
      (Cursor.stringBody opening decoded c.span c.rest) := by
  fun_induction CharWalk.stringBody opening decoded w generalizing c with
  | case1 decoded w hnone =>
      rcases c with ⟨rest, span⟩
      cases h.rest_of_current?_none hnone
      exact ⟨rfl, h⟩
  | case2 decoded w hquote =>
      rcases c with ⟨_, span⟩
      rcases h.rest_of_current? hquote with ⟨rest, rfl⟩
      exact ⟨rfl, h.advance rfl⟩
  | case3 decoded w hnewline =>
      rcases c with ⟨_, span⟩
      rcases h.rest_of_current? hnewline with ⟨rest, rfl⟩
      exact ⟨rfl, h⟩
  | case4 decoded w hslash hnone =>
      rcases c with ⟨_, span⟩
      rcases h.rest_of_current? hslash with ⟨rest, rfl⟩
      have hbehind := h.advance rfl
      cases hbehind.rest_of_current?_none hnone
      rw [hbehind.span_eq]
      exact ⟨rfl, hbehind⟩
  | case5 decoded w hslash x hx d hescape ih =>
      rcases c with ⟨_, span⟩
      rcases h.rest_of_current? hslash with ⟨_, rfl⟩
      have hbehind := h.advance rfl
      rcases hbehind.rest_of_current? hx with ⟨rest, rfl⟩
      rw [Cursor.stringBody, hescape]
      exact ih (hbehind.advance rfl)
  | case6 decoded w hslash x hx hescape =>
      rcases c with ⟨_, span⟩
      rcases h.rest_of_current? hslash with ⟨_, rfl⟩
      have hbehind := h.advance rfl
      rcases hbehind.rest_of_current? hx with ⟨rest, rfl⟩
      rw [Cursor.stringBody, hescape, hbehind.span_eq]
      exact ⟨rfl, hbehind⟩
  | case7 decoded w x hquote hnewline hslash hx ih =>
      rcases h.rest_of_current? hx with ⟨rest, hrest⟩
      rw [hrest, Cursor.stringBody]
      · exact ih (h.advance hrest)
      · exact hquote
      · exact hnewline
      · exact fun heq _ => hslash heq
      · exact fun _ _ heq _ => hslash heq

theorem agrees_number (h : w.Shows text c) : Agrees text w.number c.number := by
  rcases hrun : w.takeRun Char.isDigit with ⟨digits, behind⟩
  rcases hsplit : c.splitWhile Char.isDigit with ⟨digits', rest, span⟩
  have hagree := h.takeRun Char.isDigit
  rw [hrun, hsplit] at hagree
  rcases hagree with ⟨hdigits, hbehind⟩
  cases hdigits
  unfold CharWalk.number Cursor.number
  rw [hrun, hsplit]
  dsimp only
  rw [hbehind.current?, h.span_eq]
  cases rest with
  | nil =>
      dsimp only [List.head?_nil]
      split <;> exact ⟨rfl, hbehind⟩
  | cons next more =>
      dsimp only [List.head?_cons]
      split
      · exact ⟨rfl, hbehind⟩
      · split <;> exact ⟨rfl, hbehind⟩

theorem agrees_word (h : w.Shows text c) : Agrees text w.word c.word := by
  rcases h.takeRun Cursor.isWordChar with ⟨hletters, hbehind⟩
  constructor
  · show Except.ok (Cursor.wordToken (String.ofList (w.takeRun _).1)) = _
    rw [hletters]
    rfl
  · exact hbehind

theorem agrees_comment (h : w.Shows text c) (hrest : c.rest = '/' :: '/' :: rest) :
    Agrees text w.comment c.comment := by
  have hskip : (w.advanceBy 2).Shows text (c.skip 2) := by
    apply h.advanceBy
    rw [hrest]
    exact Nat.le_add_left 2 rest.length
  rcases hskip.takeRun (· != '\n') with ⟨hline, hbehind⟩
  constructor
  · show Except.ok (Token.comment (String.ofList (Text.trim ((w.advanceBy 2).takeRun _).1))) = _
    rw [hline]
    rfl
  · exact hbehind

theorem symbol?_of_shows (h : w.Shows text c) (hrest : c.rest = first :: rest) :
    w.symbol? first = Cursor.symbol? c.rest := by
  rw [symbol?, h.peek? hrest, hrest]
  cases rest with
  | nil => rfl
  | cons second more => rfl

theorem agrees_symbol (h : w.Shows text c) (hrest : c.rest = first :: rest) :
    Agrees text (w.symbol first) (c.symbol first) := by
  unfold CharWalk.symbol Cursor.symbol
  rw [symbol?_of_shows h hrest, h.span_eq]
  cases hs : Cursor.symbol? c.rest with
  | none => exact ⟨rfl, h⟩
  | some s =>
      have hfront : s.chars <+: c.rest := (Cursor.symbol?_eq_some_iff.mp hs).1
      exact ⟨rfl, h.advanceBy hfront.length_le⟩

theorem agrees_token (h : w.Shows text c) : Agrees text w.token c.token := by
  unfold Cursor.token
  split
  · next hrest =>
      rw [token, h.current?, hrest]
      exact ⟨rfl, h⟩
  · next rest hrest =>
      rw [token, h.current?_of_cons hrest]
      have hskip : (w.advanceBy 1).Shows text (c.skip 1) := by
        apply h.advanceBy
        rw [hrest]
        exact Nat.le_add_left 1 rest.length
      exact ⟨rfl, hskip⟩
  · next rest hrest =>
      have hpeek : w.peek? = some '/' := h.peek? hrest
      rw [token, h.current?_of_cons hrest]
      dsimp only
      rw [if_neg (by decide), if_pos ⟨rfl, hpeek⟩]
      exact agrees_comment h hrest
  · next rest hrest =>
      rw [token, h.current?_of_cons hrest]
      dsimp only
      rw [if_neg (by decide), if_neg (fun hslash => absurd hslash.1 (by decide)), if_pos rfl,
        h.span_eq]
      exact agrees_stringBody (h.advance hrest)
  · next first rest hnewline hcomment hquote hrest =>
      have hslash : ¬ (first = '/' ∧ w.peek? = some '/') := by
        intro ⟨hfirst, hpeek⟩
        rw [h.peek? hrest] at hpeek
        rcases List.head?_eq_some_iff.mp hpeek with ⟨more, hmore⟩
        exact hcomment more hfirst hmore
      rw [token, h.current?_of_cons hrest]
      dsimp only
      rw [if_neg hnewline, if_neg hslash, if_neg hquote]
      split
      · exact agrees_number h
      · split
        · exact agrees_word h
        · exact agrees_symbol h hrest

theorem cursor_token {outcome : Except LexError Token} {next : CharWalk} (h : w.Shows text c)
    (hfirst : w.current? = some first) (htoken : w.token = (outcome, next)) :
    ∃ here, c.rest ≠ [] ∧ c.token = { outcome := outcome, cursor := here } ∧
      next.Shows text here := by
  rcases h.rest_of_current? hfirst with ⟨rest, hrest⟩
  have hagrees := agrees_token h
  rw [htoken] at hagrees
  rcases hread : c.token with ⟨outcome', here⟩
  rw [hread] at hagrees
  rcases hagrees with ⟨houtcome, hnext⟩
  cases houtcome
  exact ⟨here, hrest ▸ List.cons_ne_nil first rest, rfl, hnext⟩

/-!
## All tokens by index
-/

theorem takeRun_forward (p : Char -> Bool) (w : CharWalk) :
    (w.takeRun p).2.text = w.text ∧ w.position ≤ (w.takeRun p).2.position := by
  fun_induction takeRun p w with
  | case1 w hnone => exact ⟨rfl, Nat.le_refl _⟩
  | case2 w x hx hp run behind hbehind ih =>
      rw [hbehind, text_advance, position_advance] at ih
      exact ⟨ih.1, Nat.le_of_succ_le ih.2⟩
  | case3 w x hx hp => exact ⟨rfl, Nat.le_refl _⟩

theorem token_forward {t : Token} {next : CharWalk} (hfirst : w.current? = some first)
    (htoken : w.token = (.ok t, next)) : next.text = w.text ∧ w.position < next.position := by
  have hshows := shows_of_le (Nat.le_of_lt (position_lt_of_current? hfirst))
  rcases cursor_token hshows hfirst htoken with ⟨here, hsome, hread, hnext⟩
  have hlt := Cursor.rest_length_token_lt hsome (congrArg Reading.outcome hread)
  rw [hread] at hlt
  exact ⟨hnext.text_eq, hshows.position_lt hnext hlt⟩

def skipGap (w : CharWalk) : CharWalk :=
  (w.takeRun Cursor.isGap).2

def tokensFrom (read : List Located) (w : CharWalk) : Except LexError (List Located) × CharWalk :=
  match _ : w.skipGap.current? with
  | none => (.ok ({ token := .endOfInput, span := w.skipGap.span } :: read).reverse, w.skipGap)
  | some _ =>
      match _ : w.skipGap.token with
      | (.ok t, next) => tokensFrom ({ token := t, span := w.skipGap.span } :: read) next
      | (.error e, next) => (.error e, next)
termination_by w.text.length - w.position
decreasing_by
  next hfirst htoken =>
    rcases takeRun_forward Cursor.isGap w with ⟨htext, hposition⟩
    rcases token_forward hfirst htoken with ⟨htext', hposition'⟩
    have hlt := position_lt_of_current? hfirst
    rw [skipGap, htext] at hlt
    rw [htext', skipGap, htext]
    rw [skipGap] at hposition'
    omega

theorem Shows.skipGap (h : w.Shows text c) : w.skipGap.Shows text c.skipGap :=
  (h.takeRun Cursor.isGap).2

theorem agrees_tokensFrom {read : List Located} (h : w.Shows text c) :
    Agrees text (tokensFrom read w) (Cursor.tokensFrom read c) := by
  fun_induction CharWalk.tokensFrom read w generalizing c with
  | case1 read w hnone =>
      have hhere := h.skipGap
      rw [Cursor.tokensFrom_of_end read (hhere.rest_of_current?_none hnone), hhere.span_eq]
      exact ⟨rfl, hhere⟩
  | case2 read w x hx t next htoken ih =>
      rcases cursor_token h.skipGap hx htoken with ⟨here, hsome, hread, hnext⟩
      rw [Cursor.tokensFrom_of_token hsome hread, ← h.skipGap.span_eq]
      exact ih hnext
  | case3 read w x hx e next htoken =>
      rcases cursor_token h.skipGap hx htoken with ⟨here, hsome, hread, hnext⟩
      rw [Cursor.tokensFrom_of_fault read hsome hread]
      exact ⟨rfl, hnext⟩

/-!
## Call after call
-/

def call (w : CharWalk) (call : LexCall) : Except LexError (List Located) × CharWalk :=
  let (outcome, behind) := tokensFrom [] w
  (outcome.map call.select, behind)

def after (w : CharWalk) (calls : List LexCall) : CharWalk :=
  calls.foldl (fun w call => (w.call call).2) w

theorem agrees_call (h : w.Shows text c) (call : LexCall) :
    Agrees text (w.call call) (c.call call) := by
  have hagrees : Agrees text (tokensFrom [] w) c.tokens := agrees_tokensFrom h
  rcases hagrees with ⟨houtcome, hcursor⟩
  rw [Cursor.call_eq]
  constructor
  · show (tokensFrom [] w).1.map _ = _
    rw [houtcome]
  · exact hcursor

theorem Shows.after (h : w.Shows text c) (calls : List LexCall) :
    (w.after calls).Shows text (c.after calls) := by
  induction calls generalizing w c with
  | nil => exact h
  | cons call calls ih => exact ih (agrees_call h call).2

/-- The line and the column of a walk are those of its index. -/
theorem span_after (source : String) (calls : List LexCall) :
    ((ofSource source).after calls).span =
      .behind (source.toList.take ((ofSource source).after calls).position) := by
  have hshows := (shows_ofSource source).after calls
  rcases Cursor.split_after source calls with ⟨before, hsource, hspan⟩
  have hposition : ((ofSource source).after calls).position = before.length := by
    have hlength := hshows.length_eq
    have hsplit := congrArg List.length hsource
    rw [List.length_append] at hsplit
    omega
  rw [hshows.span_eq, hspan, hposition, hsource, List.take_left]

/-- However often tokens are asked for, and whatever came of it before, the index of
the walk keeps to the text, and its line and column are those of the index.  It comes
to what the cursor comes to: every error points to a place of the text; behind a
success there is only the end of the input; and an unexpected character stays. -/
theorem calls_keep_place (source : String) (calls : List LexCall) (call : LexCall) :
    let w := (ofSource source).after calls
    let c := (Cursor.ofSource source).after calls
    let eof : Located := { token := .endOfInput, span := .behind source.toList }
    w.position ≤ source.toList.length ∧
      w.span = .behind (source.toList.take w.position) ∧
      c = { rest := source.toList.drop w.position, span := w.span } ∧
      (w.call call).1 = (c.call call).outcome ∧
      (∀ e, (c.call call).outcome = .error e -> e.PointsInto source.toList) ∧
      (∀ tokens, (c.call call).outcome = .ok tokens ->
        (∃ body, tokens = body ++ [eof]) ∧
          ∀ later again, (((c.call call).cursor.after later).call again).outcome = .ok [eof]) ∧
      ∀ e x, (c.call call).outcome = .error e -> e.fault = .unexpectedChar x ->
        ∀ later again, (((c.call call).cursor.after later).call again).outcome = .error e := by
  intro w c eof
  have hshows : w.Shows source.toList c := (shows_ofSource source).after calls
  rcases Cursor.split_after source calls with ⟨before, hsource, hspan⟩
  refine ⟨hshows.within, span_after source calls, ?_, (agrees_call hshows call).1, ?_, ?_, ?_⟩
  · rw [hshows.rest_eq, hshows.span_eq]
  · intro e he
    exact Cursor.pointsInto_of_call hsource hspan he
  · intro tokens hok
    rcases Cursor.stays_of_ok hok with ⟨hnil, body, last, htokens, hlast, hstays⟩
    -- the whole text stands before the end
    have heof : last = eof := by
      rcases Cursor.split_after source (calls ++ [call]) with ⟨whole, hwhole, hend⟩
      rw [Cursor.after_concat] at hwhole hend
      rw [hnil, List.append_nil] at hwhole
      rw [hlast, hend, ← hwhole]
    rw [heof] at htokens hstays
    exact ⟨⟨body, htokens⟩, hstays.outcome⟩
  · intro e x he hfault
    exact (Cursor.stays_of_unexpectedChar he hfault).outcome

end CharWalk
end StackScript
