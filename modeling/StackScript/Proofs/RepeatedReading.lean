import StackScript.Proofs.Lexemes

/-!
# Reading on behind a fault

Reading a text stops at its end or at a fault, and may be taken up again where it
stopped.  What is no lexeme is described here as lexemes are: the fault that it is,
where its error points, and where the reader stops.  However often a text is read,
the cursor keeps to the text and its position says how much of it was read.
-/

namespace StackScript

/-!
## Where errors point
-/

/-- What stands at the place of a fault: `before` ends there, and `behind` starts
there. -/
def LexFault.StandsAt (before behind : List Char) : LexFault -> Prop
  | unexpectedChar c =>
      behind.head? = some c ∧
        ∀ t lexeme rest, behind = lexeme ++ rest -> ¬ Lexeme t lexeme rest
  | unknownEscape c =>
      behind.head? = some c ∧ before.getLast? = some '\\' ∧ ∀ d, (c, d) ∉ escapes
  | escapeAtEnd => behind = [] ∧ before.getLast? = some '\\'
  | newlineInString =>
      ∃ written text rest, Spells written text ∧ behind = '"' :: (written ++ '\n' :: rest)
  | unterminatedString => ∃ written text, Spells written text ∧ behind = '"' :: written
  | malformedNumber digits next =>
      digits ≠ [] ∧ (∀ d ∈ digits, d.isDigit = true) ∧
        (Text.isAlphabetic next || next = '_') = true ∧ digits ++ [next] <+: behind
  | numberTooLarge digits =>
      digits ≠ [] ∧ (∀ d ∈ digits, d.isDigit = true) ∧ 2147483647 < digitsValue digits ∧
        digits <+: behind

/-- The error points to a place of the text, and what stands there is its fault. -/
def LexError.PointsInto (text : List Char) (e : LexError) : Prop :=
  ∃ before behind, text = before ++ behind ∧ e.span = .behind before ∧
    e.fault.StandsAt before behind

/-!
## Asking for tokens
-/

inductive LexCall where
  | all
  | significant

def LexCall.select (call : LexCall) (tokens : List Located) : List Located :=
  match call with
  | all => tokens
  | significant => tokens.filter (·.token.isSignificant)

theorem LexCall.select_concat (call : LexCall) (body : List Located) (span : Span) :
    call.select (body ++ [{ token := .endOfInput, span := span }]) =
      call.select body ++ [{ token := .endOfInput, span := span }] := by
  cases call with
  | all => rfl
  | significant => exact List.filter_append ..

namespace Cursor

variable {c here next last : Cursor} {e : LexError}

/-!
## Places in one text
-/

/-- The second cursor stands in the text of the first, at its place or behind it. -/
def Reaches (c next : Cursor) : Prop :=
  ∃ read, c.rest = read ++ next.rest ∧ next.span = c.span.after read

theorem Reaches.refl (c : Cursor) : c.Reaches c :=
  ⟨[], rfl, rfl⟩

theorem Reaches.trans (h : c.Reaches next) (h' : next.Reaches last) : c.Reaches last := by
  rcases h with ⟨read, hrest, hspan⟩
  rcases h' with ⟨more, hrest', hspan'⟩
  exists read ++ more
  constructor
  · rw [hrest, hrest', List.append_assoc]
  · rw [hspan', hspan, Span.after_append]

theorem reaches_skipGap (c : Cursor) : c.Reaches c.skipGap := by
  rcases skipGap_eq_iff.mp (rfl : c.skipGap = c.skipGap) with ⟨gap, hrest, _, _, hspan⟩
  exact ⟨gap, hrest, hspan⟩

theorem endsRun_skipGap (c : Cursor) : EndsRun isGap c.skipGap.rest := by
  rcases skipGap_eq_iff.mp (rfl : c.skipGap = c.skipGap) with ⟨_, _, _, hends, _⟩
  exact hends

theorem skipGap_of_endsRun (h : EndsRun isGap c.rest) : c.skipGap = c :=
  skipGap_eq_iff.mpr ⟨[], rfl, List.forall_mem_nil _, h, rfl⟩

theorem reaches_of_readsLexeme {t : Token} (h : c.ReadsLexeme t next) : c.Reaches next := by
  rcases h with ⟨lexeme, hrest, _, hspan⟩
  exact ⟨lexeme, hrest, hspan⟩

/-!
## What is no lexeme
-/

/-- What keeps a string from going on, with the error and the cursor.  The literal
starts at the first position, and is well spelled as far as the second. -/
inductive StringStops (opening behind : Span) : List Char -> LexError -> Cursor -> Prop where
  | unterminated : StringStops opening behind [] ⟨opening, .unterminatedString⟩ ⟨[], behind⟩
  | newline {rest : List Char} :
      StringStops opening behind ('\n' :: rest) ⟨opening, .newlineInString⟩ ⟨'\n' :: rest, behind⟩
  | escapeAtEnd :
      StringStops opening behind ['\\'] ⟨behind.next '\\', .escapeAtEnd⟩ ⟨[], behind.next '\\'⟩
  | unknownEscape {x : Char} {rest : List Char} (hx : ∀ d, (x, d) ∉ escapes) :
      StringStops opening behind ('\\' :: x :: rest) ⟨behind.next '\\', .unknownEscape x⟩
        ⟨x :: rest, behind.next '\\'⟩

/-- No token can be read at the cursor: the error, and the cursor where the reader
stops. -/
inductive Misreads (c : Cursor) : LexError -> Cursor -> Prop where
  | unexpectedChar {first : Char} {rest : List Char} (hrest : c.rest = first :: rest)
      (hnone : ∀ t next, ¬ c.ReadsLexeme t next) :
      Misreads c ⟨c.span, .unexpectedChar first⟩ c
  | string {written text rest : List Char} {e : LexError} {next : Cursor}
      (hrest : c.rest = '"' :: (written ++ rest)) (hspells : Spells written text)
      (hstops : StringStops c.span (c.span.after ('"' :: written)) rest e next) :
      Misreads c e next
  | malformedNumber {digits rest : List Char} {x : Char} (hrest : c.rest = digits ++ x :: rest)
      (hsome : digits ≠ []) (hdigits : ∀ d ∈ digits, d.isDigit = true)
      (hx : (Text.isAlphabetic x || x = '_') = true) :
      Misreads c ⟨c.span, .malformedNumber digits x⟩ ⟨x :: rest, c.span.after digits⟩
  | numberTooLarge {digits rest : List Char} (hrest : c.rest = digits ++ rest)
      (hsome : digits ≠ []) (hdigits : ∀ d ∈ digits, d.isDigit = true)
      (hlarge : 2147483647 < digitsValue digits) :
      Misreads c ⟨c.span, .numberTooLarge digits⟩ ⟨rest, c.span.after digits⟩

theorem stringBody_eq_error {opening span : Span} {decoded text : List Char}
    (h : stringBody opening decoded span text = { outcome := .error e, cursor := next }) :
    ∃ written spelled rest, text = written ++ rest ∧ Spells written spelled ∧
      StringStops opening (span.after written) rest e next := by
  fun_induction stringBody opening decoded span text with
  | case1 =>
      cases h
      exact ⟨[], [], [], rfl, .nil, .unterminated⟩
  | case2 => cases h
  | case3 decoded span rest =>
      cases h
      exact ⟨[], [], '\n' :: rest, rfl, .nil, .newline⟩
  | case4 =>
      cases h
      exact ⟨[], [], ['\\'], rfl, .nil, .escapeAtEnd⟩
  | case5 decoded span x rest d hescape ih =>
      rcases ih h with ⟨written, spelled, more, hrest, hspells, hstops⟩
      rw [hrest]
      exact ⟨'\\' :: x :: written, d :: spelled, more, rfl,
        .escape (escaped?_eq_some_iff.mp hescape) hspells, hstops⟩
  | case6 decoded span x rest hescape =>
      cases h
      refine ⟨[], [], '\\' :: x :: rest, rfl, .nil, .unknownEscape ?_⟩
      intro d hd
      cases (escaped?_eq_some_iff.mpr hd).symm.trans hescape
  | case7 decoded span x rest hquote hnewline hlone hescape ih =>
      rcases ih h with ⟨written, spelled, more, hrest, hspells, hstops⟩
      rw [hrest] at hlone hescape ⊢
      refine ⟨x :: written, x :: spelled, more, rfl, .plain ⟨hquote, ?_, hnewline⟩ hspells, hstops⟩
      intro hx
      -- a backslash is alone at the end, or in front of another character
      cases hbehind : written ++ more with
      | nil => exact hlone hx hbehind
      | cons d tail => exact hescape d tail hx hbehind

theorem number_eq_error (h : c.number = { outcome := .error e, cursor := next })
    (hfirst : ∃ first more, c.rest = first :: more ∧ first.isDigit = true) : c.Misreads e next := by
  rcases hsplit : c.splitWhile Char.isDigit with ⟨digits, behind⟩
  rcases splitWhile_eq_iff.mp hsplit with ⟨hrest, hdigits, hends, hspan⟩
  have hsome : digits ≠ [] := by
    rcases hfirst with ⟨first, more, hfront, hdigit⟩
    rcases hends.eq_cons hdigit (hfront.symm.trans hrest) with ⟨letters, hletters⟩
    rw [hletters]
    exact List.cons_ne_nil _ _
  rcases behind with ⟨rest, span⟩
  cases hspan
  have htooLarge (hmax : ¬ decimalValue digits ≤ maxInteger) :
      c.Misreads ⟨c.span, .numberTooLarge digits⟩ ⟨rest, c.span.after digits⟩ := by
    rw [decimalValue_eq] at hmax
    exact .numberTooLarge hrest hsome hdigits (Nat.lt_of_not_le hmax)
  unfold number at h
  rw [hsplit] at h
  cases rest with
  | nil =>
      dsimp only at h
      split at h
      · cases h
      · next hmax =>
          cases h
          exact htooLarge hmax
  | cons x more =>
      dsimp only at h
      split at h
      · next hx =>
          cases h
          exact .malformedNumber hrest hsome hdigits hx
      · split at h
        · cases h
        · next hmax =>
            cases h
            exact htooLarge hmax

theorem misreads_of_token (hsome : c.rest ≠ [])
    (h : c.token = { outcome := .error e, cursor := next }) : c.Misreads e next := by
  have hnone : ∀ t next, ¬ c.ReadsLexeme t next := by
    intro t next' hreads
    cases (token_of_readsLexeme hreads).symm.trans h
  unfold token at h
  split at h
  · next hnil => exact absurd hnil hsome
  · cases h
  · cases h
  · next text hrest =>
      rcases stringBody_eq_error h with ⟨written, spelled, rest, htext, hspells, hstops⟩
      rw [htext] at hrest
      exact .string hrest hspells hstops
  · next first more hnewline hcomment hquote hrest =>
      split at h
      · next hdigit => exact number_eq_error h ⟨first, more, hrest, hdigit⟩
      · split at h
        · cases h
        · unfold symbol at h
          split at h
          · cases h
          · cases h
            exact .unexpectedChar hrest hnone

namespace Misreads

theorem reaches (h : c.Misreads e next) : c.Reaches next := by
  cases h with
  | unexpectedChar => exact .refl c
  | @string written text rest _ _ hrest hspells hstops =>
      cases hstops with
      | unterminated => exact ⟨'"' :: written, hrest, rfl⟩
      | newline => exact ⟨'"' :: written, hrest, rfl⟩
      | escapeAtEnd =>
          refine ⟨'"' :: written ++ ['\\'], ?_, ?_⟩
          · rw [hrest, List.append_nil]
            rfl
          · rw [Span.after_append]
            rfl
      | unknownEscape =>
          refine ⟨'"' :: written ++ ['\\'], ?_, ?_⟩
          · rw [hrest, List.append_assoc]
            rfl
          · rw [Span.after_append]
            rfl
  | malformedNumber hrest => exact ⟨_, hrest, rfl⟩
  | numberTooLarge hrest => exact ⟨_, hrest, rfl⟩

theorem cursor_eq (h : c.Misreads e next) {x : Char} (hfault : e.fault = .unexpectedChar x) :
    next = c := by
  cases h with
  | unexpectedChar => rfl
  | string _ _ hstops => cases hstops <;> cases hfault
  | malformedNumber => cases hfault
  | numberTooLarge => cases hfault

theorem pointsInto {text before : List Char} (h : c.Misreads e next)
    (htext : text = before ++ c.rest) (hspan : c.span = .behind before) :
    e.PointsInto text := by
  cases h with
  | unexpectedChar hrest hnone =>
      refine ⟨before, c.rest, htext, hspan, ?_, ?_⟩
      · rw [hrest, List.head?_cons]
      · intro t lexeme rest hsplit hlexeme
        exact hnone t ⟨rest, c.span.after lexeme⟩ ⟨lexeme, hsplit, hlexeme, rfl⟩
  | malformedNumber hrest hsome hdigits hx =>
      refine ⟨before, c.rest, htext, hspan, hsome, hdigits, hx, ?_⟩
      rw [hrest]
      exact ⟨_, List.append_assoc _ _ _⟩
  | numberTooLarge hrest hsome hdigits hlarge =>
      refine ⟨before, c.rest, htext, hspan, hsome, hdigits, hlarge, ?_⟩
      rw [hrest]
      exact List.prefix_append _ _
  | @string written spelled rest _ _ hrest hspells hstops =>
      have hbehind : (c.span.after ('"' :: written)).next '\\' =
          .behind (before ++ ('"' :: written) ++ ['\\']) := by
        rw [Span.behind_append, Span.behind_append, ← hspan]
        rfl
      cases hstops with
      | unterminated =>
          refine ⟨before, c.rest, htext, hspan, written, spelled, hspells, ?_⟩
          rw [hrest, List.append_nil]
      | newline => exact ⟨before, c.rest, htext, hspan, written, spelled, _, hspells, hrest⟩
      | escapeAtEnd =>
          refine ⟨before ++ ('"' :: written) ++ ['\\'], [], ?_, hbehind, rfl,
            List.getLast?_concat⟩
          rw [htext, hrest]
          simp
      | @unknownEscape x more hx =>
          refine ⟨before ++ ('"' :: written) ++ ['\\'], x :: more, ?_, hbehind, rfl,
            List.getLast?_concat, hx⟩
          rw [htext, hrest]
          simp

end Misreads

/-!
## One call
-/

/-- Reading stops at the end of the text, with the end of the input as the last
token, or at the first thing that is no lexeme. -/
theorem tokensFrom_stops (read : List Located) (c : Cursor) :
    ∃ here, c.Reaches here ∧ EndsRun isGap here.rest ∧
      ((here.rest = [] ∧ ∃ body, tokensFrom read c =
          { outcome := .ok (body ++ [{ token := .endOfInput, span := here.span }])
            cursor := here }) ∨
        here.rest ≠ [] ∧ ∃ e next, here.token = { outcome := .error e, cursor := next } ∧
          tokensFrom read c = { outcome := .error e, cursor := next }) := by
  fun_induction tokensFrom read c with
  | case1 read c here hnil =>
      refine ⟨here, reaches_skipGap c, endsRun_skipGap c, Or.inl ⟨hnil, read.reverse, ?_⟩⟩
      rw [List.reverse_cons]
  | case2 read c here hsome t next htoken ih =>
      rcases ih with ⟨last, hreaches, hends, hstops⟩
      have hnext : c.Reaches next :=
        (reaches_skipGap c).trans (reaches_of_readsLexeme (readsLexeme_of_token hsome htoken))
      exact ⟨last, hnext.trans hreaches, hends, hstops⟩
  | case3 read c here hsome e next htoken =>
      exact ⟨here, reaches_skipGap c, endsRun_skipGap c, Or.inr ⟨hsome, e, next, htoken, rfl⟩⟩

theorem tokensFrom_of_end (read : List Located) (h : c.skipGap.rest = []) :
    tokensFrom read c =
      { outcome := .ok ({ token := .endOfInput, span := c.skipGap.span } :: read).reverse
        cursor := c.skipGap } := by
  rw [tokensFrom, if_pos h]

theorem tokensFrom_of_fault (read : List Located) (hsome : c.skipGap.rest ≠ [])
    (htoken : c.skipGap.token = { outcome := .error e, cursor := next }) :
    tokensFrom read c = { outcome := .error e, cursor := next } := by
  rw [tokensFrom, if_neg hsome]
  split
  · next heq => cases heq.symm.trans htoken
  · next heq =>
      cases heq.symm.trans htoken
      rfl

/-- What was no lexeme when the reader came to it is none when reading starts there. -/
theorem tokens_eq_error (hends : EndsRun isGap c.rest) (hsome : c.rest ≠ [])
    (htoken : c.token = { outcome := .error e, cursor := next }) :
    c.tokens = { outcome := .error e, cursor := next } := by
  have hgap : c.skipGap = c := skipGap_of_endsRun hends
  apply tokensFrom_of_fault
  · rw [hgap]
    exact hsome
  · rw [hgap]
    exact htoken

def call (c : Cursor) : LexCall -> Reading (List Located)
  | .all => c.tokens
  | .significant => c.significantTokens

theorem call_eq (c : Cursor) (call : LexCall) :
    c.call call =
      { outcome := c.tokens.outcome.map call.select, cursor := c.tokens.cursor } := by
  cases call with
  | all =>
      rw [Cursor.call]
      rcases c.tokens with ⟨outcome, next⟩
      cases outcome with
      | error e => rfl
      | ok tokens => rfl
  | significant => rfl

theorem call_cases (c : Cursor) (call : LexCall) :
    ∃ here, c.Reaches here ∧
      ((here.rest = [] ∧ ∃ body, c.call call =
          { outcome := .ok (body ++ [{ token := .endOfInput, span := here.span }])
            cursor := here }) ∨
        ∃ e next, here.Misreads e next ∧ here.tokens = { outcome := .error e, cursor := next } ∧
          c.call call = { outcome := .error e, cursor := next }) := by
  rcases tokensFrom_stops [] c with ⟨here, hreaches, hends, hstops⟩
  refine ⟨here, hreaches, ?_⟩
  rw [call_eq, tokens]
  rcases hstops with ⟨hnil, body, hread⟩ | ⟨hsome, e, next, htoken, hread⟩
  · refine Or.inl ⟨hnil, call.select body, ?_⟩
    rw [hread, Except.map, call.select_concat]
  · refine Or.inr ⟨e, next, misreads_of_token hsome htoken, tokens_eq_error hends hsome htoken, ?_⟩
    rw [hread, Except.map]

theorem reaches_call (c : Cursor) (call : LexCall) : c.Reaches (c.call call).cursor := by
  rcases call_cases c call with ⟨here, hreaches, ⟨_, body, hcall⟩ | ⟨e, next, hmisreads, _, hcall⟩⟩
  · rw [hcall]
    exact hreaches
  · rw [hcall]
    exact hreaches.trans hmisreads.reaches

/-- Every error of a call points into the text, whose part before the cursor was read. -/
theorem pointsInto_of_call {text before : List Char} {call : LexCall}
    (htext : text = before ++ c.rest) (hspan : c.span = .behind before)
    (h : (c.call call).outcome = .error e) : e.PointsInto text := by
  rcases call_cases c call with ⟨here, hreaches, ⟨_, body, hcall⟩ | ⟨e', next, hmisreads, _, hcall⟩⟩
  · rw [hcall] at h
    cases h
  · rw [hcall] at h
    cases h
    rcases hreaches with ⟨read, hrest, hspan'⟩
    have htext' : text = (before ++ read) ++ here.rest := by
      rw [htext, hrest, List.append_assoc]
    apply hmisreads.pointsInto htext'
    rw [hspan', hspan, Span.behind_append]

/-!
## Call after call
-/

def Stays (c : Cursor) (outcome : Except LexError (List Located)) : Prop :=
  ∀ call, c.call call = { outcome := outcome, cursor := c }

theorem stays_at_end (h : c.rest = []) :
    c.Stays (.ok [{ token := .endOfInput, span := c.span }]) := by
  have hgap : c.skipGap = c := by
    apply skipGap_of_endsRun
    rw [h]
    exact fun x hx => nomatch hx
  have htokens : c.tokens =
      { outcome := .ok [{ token := .endOfInput, span := c.span }], cursor := c } := by
    rw [tokens, tokensFrom_of_end [] (hgap.symm ▸ h), hgap]
    rfl
  intro call
  rw [call_eq, htokens]
  cases call <;> rfl

theorem stays_at_fault (h : c.tokens = { outcome := .error e, cursor := c }) :
    c.Stays (.error e) := by
  intro call
  rw [call_eq, h]
  rfl

theorem stays_of_ok {call : LexCall} {tokens : List Located}
    (h : (c.call call).outcome = .ok tokens) :
    (c.call call).cursor.rest = [] ∧ ∃ body eof, tokens = body ++ [eof] ∧
      eof = { token := .endOfInput, span := (c.call call).cursor.span } ∧
        (c.call call).cursor.Stays (.ok [eof]) := by
  rcases call_cases c call with ⟨here, _, ⟨hnil, body, hcall⟩ | ⟨e, next, _, _, hcall⟩⟩
  · rw [hcall] at h ⊢
    cases h
    exact ⟨hnil, body, _, rfl, rfl, stays_at_end hnil⟩
  · rw [hcall] at h
    cases h

/-- Nothing gets the reader past an unexpected character. -/
theorem stays_of_unexpectedChar {call : LexCall} {x : Char}
    (h : (c.call call).outcome = .error e) (hfault : e.fault = .unexpectedChar x) :
    (c.call call).cursor.Stays (.error e) := by
  rcases call_cases c call with
    ⟨here, _, ⟨_, body, hcall⟩ | ⟨e', next, hmisreads, htokens, hcall⟩⟩
  · rw [hcall] at h
    cases h
  · rw [hcall] at h ⊢
    cases h
    cases hmisreads.cursor_eq hfault
    exact stays_at_fault htokens

def after (c : Cursor) (calls : List LexCall) : Cursor :=
  calls.foldl (fun c call => (c.call call).cursor) c

@[simp] theorem after_cons (c : Cursor) (call : LexCall) (calls : List LexCall) :
    c.after (call :: calls) = (c.call call).cursor.after calls := rfl

theorem reaches_after (c : Cursor) (calls : List LexCall) : c.Reaches (c.after calls) := by
  induction calls generalizing c with
  | nil => exact .refl c
  | cons call calls ih => exact (reaches_call c call).trans (ih _)

theorem after_concat (c : Cursor) (calls : List LexCall) (call : LexCall) :
    c.after (calls ++ [call]) = ((c.after calls).call call).cursor :=
  List.foldl_concat ..

theorem Stays.after {outcome : Except LexError (List Located)} (h : c.Stays outcome)
    (calls : List LexCall) : c.after calls = c := by
  induction calls with
  | nil => rfl
  | cons call calls ih => rw [after_cons, h call, ih]

theorem Stays.outcome {outcome : Except LexError (List Located)} (h : c.Stays outcome)
    (calls : List LexCall) (call : LexCall) : ((c.after calls).call call).outcome = outcome := by
  rw [h.after, h call]

theorem split_after (source : String) (calls : List LexCall) :
    ∃ before, source.toList = before ++ ((ofSource source).after calls).rest ∧
      ((ofSource source).after calls).span = .behind before := by
  rcases reaches_after (ofSource source) calls with ⟨before, hrest, hspan⟩
  exact ⟨before, hrest, hspan.trans (Span.start_after before)⟩

end Cursor
end StackScript
