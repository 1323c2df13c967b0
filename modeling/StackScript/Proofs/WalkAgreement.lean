import StackScript.Proofs.ParserProgress
import StackScript.Proofs.TokenWalk

/-!
# Walks agree with the parser

Where the parser keeps the tokens that are left, a walk keeps an index; where it
is told how many levels may still be opened, a walk counts the open ones; where
it goes through a loop once for every token at most, a walk needs fuel.  Every
part of a walk ends all the same, with the result of the parser; it passes no
token that is not there, and none that is the end of the input; and it leaves as
many levels open as it found.
-/

namespace StackScript

/-!
## What a walk shows
-/

namespace Walk

variable {w w' w'' : Walk}

def view (w : Walk) : ParseState where
  rest := w.tokens.drop w.position
  last := w.last.getD .start
  errors := w.errors
  nextBlock := w.nextBlock
  nextIdent := w.nextIdent

theorem current?_eq (w : Walk) : w.current? = w.view.rest.head? :=
  List.head?_drop.symm

@[simp] theorem token?_view (w : Walk) : w.view.token? = w.token? := by
  rw [ParseState.token?, token?, current?_eq]

@[simp] theorem span_view (w : Walk) : w.view.span = w.span := by
  rw [span, current?_eq, ParseState.span]
  cases w.view.rest with
  | nil => rfl
  | cons t rest => rfl

@[simp] theorem atEnd_view (w : Walk) : w.view.atEnd = w.atEnd := by
  rw [ParseState.atEnd, token?_view]
  rfl

@[simp] theorem isAt_view (w : Walk) (t : Token) : w.view.isAt t = w.isAt t := by
  rw [ParseState.isAt, token?_view, isAt]

@[simp] theorem found_view (w : Walk) : w.view.found = w.found := by
  rw [ParseState.found, token?_view, found]

theorem atEnd_of_token? {t : Token} (h : w.token? = some t) :
    w.atEnd = decide (t = .endOfInput) := by
  rw [atEnd, h]

theorem token?_of_length (h : w.view.rest.length ≤ 0) : w.token? = none := by
  have hnil := List.length_eq_zero_iff.mp (Nat.le_zero.mp h)
  rw [token?, current?_eq, hnil]
  rfl

theorem atEnd_of_length (h : w.view.rest.length ≤ 0) : w.atEnd = true := by
  rw [atEnd, token?_of_length h]

theorem exists_of_not_atEnd (h : w.atEnd = false) :
    ∃ t, w.tokens[w.position]? = some t ∧ t.token ≠ .endOfInput := by
  rw [atEnd, token?, current?] at h
  cases ht : w.tokens[w.position]? with
  | none =>
      rw [ht] at h
      cases h
  | some t =>
      rw [ht] at h
      exact ⟨t, rfl, of_decide_eq_false h⟩

theorem view_advance (h : w.atEnd = false) : w.advance.view = w.view.advance := by
  rcases exists_of_not_atEnd h with ⟨t, ht, _⟩
  rcases List.getElem?_eq_some_iff.mp ht with ⟨hlt, rfl⟩
  have hrest : w.view.rest = w.tokens[w.position] :: w.tokens.drop (w.position + 1) :=
    List.drop_eq_getElem_cons hlt
  rw [ParseState.advance, hrest]
  simp only [view, advance, current?, ht]
  rfl

/-- The second walk is further, and no token between them is missing or the end
of the input. -/
structure Passes (w w' : Walk) : Prop where
  tokens : w'.tokens = w.tokens
  le : w.position ≤ w'.position
  between : ∀ i, w.position ≤ i -> i < w'.position ->
    ∃ t, w.tokens[i]? = some t ∧ t.token ≠ .endOfInput

theorem Passes.of_eq (htokens : w'.tokens = w.tokens) (hposition : w'.position = w.position) :
    w.Passes w' where
  tokens := htokens
  le := Nat.le_of_eq hposition.symm
  between := fun _ hle hlt => absurd (hposition ▸ hlt) (Nat.not_lt.mpr hle)

theorem Passes.refl (w : Walk) : w.Passes w :=
  .of_eq rfl rfl

theorem Passes.trans (h : w.Passes w') (h' : w'.Passes w'') : w.Passes w'' where
  tokens := h'.tokens.trans h.tokens
  le := Nat.le_trans h.le h'.le
  between := by
    intro i hle hlt
    rcases Nat.lt_or_ge i w'.position with hbefore | hbehind
    · exact h.between i hle hbefore
    · rw [← h.tokens]
      exact h'.between i hbehind hlt

theorem passes_advance (h : w.atEnd = false) : w.Passes w.advance where
  tokens := rfl
  le := Nat.le_succ w.position
  between := by
    intro i hle hlt
    obtain rfl : i = w.position := Nat.le_antisymm (Nat.le_of_lt_succ hlt) hle
    exact exists_of_not_atEnd h

/-- How much shorter the rest is says how much further the walk is. -/
theorem Passes.length_rest (h : w.Passes w') :
    w'.view.rest.length + w'.position = w.view.rest.length + w.position := by
  have hinside : w'.position = w.position ∨ w'.position ≤ w.tokens.length := by
    rcases Nat.eq_or_lt_of_le h.le with heq | hlt
    · exact Or.inl heq.symm
    · rcases h.between (w'.position - 1) (by omega) (by omega) with ⟨t, ht, _⟩
      have hlast := (List.getElem?_eq_some_iff.mp ht).1
      exact Or.inr (by omega)
  have hle := h.le
  simp only [view, List.length_drop, h.tokens]
  omega

theorem Passes.position_eq_iff (h : w.Passes w') :
    w'.position = w.position ↔ w'.view.rest = w.view.rest := by
  constructor
  · intro hposition
    rw [view, view, hposition, h.tokens]
  · intro hrest
    have hlength := h.length_rest
    rw [hrest] at hlength
    exact Nat.add_left_cancel hlength

/-- The walk has not passed the end of its tokens, nor the end of the input if
that is one of them. -/
structure InBounds (w : Walk) : Prop where
  length : w.position ≤ w.tokens.length
  endOfInput : ∀ i t, w.tokens[i]? = some t -> t.token = .endOfInput -> w.position ≤ i

theorem Passes.inBounds (h : w.Passes w') (hstart : w.position = 0) : w'.InBounds where
  length := by
    have hlength := h.length_rest
    simp only [view, List.length_drop, h.tokens] at hlength ⊢
    omega
  endOfInput := by
    intro i t ht hend
    rw [h.tokens] at ht
    rcases Nat.lt_or_ge i w'.position with hbefore | hbehind
    · rcases h.between i (hstart ▸ Nat.zero_le i) hbefore with ⟨t', ht', hother⟩
      rw [ht] at ht'
      cases ht'
      exact absurd hend hother
    · exact hbehind

end Walk

/-!
## Runs
-/

namespace Walker

variable {α β : Type} {w w' : Walk}

theorem from?_bind_of_ok {step : Walker α} {x : α} (h : step.from? w = some (.ok x, w'))
    (next : α -> Walker β) : (step >>= next).from? w = (next x).from? w' := by
  show (step.from? w).bind (fun p => ExceptT.bindCont next p.1 p.2) = _
  rw [h]
  rfl

theorem from?_bind_of_error {step : Walker α} {e : SyntaxError}
    (h : step.from? w = some (.error e, w')) (next : α -> Walker β) :
    (step >>= next).from? w = some (.error e, w') := by
  show (step.from? w).bind (fun p => ExceptT.bindCont next p.1 p.2) = _
  rw [h]
  rfl

theorem from?_observed {step : Walker α} {outcome : Except SyntaxError α}
    (h : step.from? w = some (outcome, w')) (next : Except SyntaxError α -> Walker β) :
    (observed step next).from? w = (next outcome).from? w' := by
  show (step.from? w).bind (fun p => next p.1 p.2) = _
  rw [h]
  rfl

theorem from?_get_bind (next : Walk -> Walker α) : (get >>= next).from? w = (next w).from? w :=
  rfl

theorem from?_modify_bind (f : Walk -> Walk) (next : Unit -> Walker α) :
    ((modify f : Walker Unit) >>= next).from? w = (next ()).from? (f w) :=
  rfl

theorem from?_liftExcept (outcome : Except SyntaxError α) :
    (liftExcept outcome : Walker α).from? w = some (outcome, w) := by
  cases outcome with
  | ok x => rfl
  | error e => rfl

theorem from?_restoring {step : Walker α} {outcome : Except SyntaxError α}
    (h : step.from? w = some (outcome, w')) :
    (restoring step).from? w = some (outcome, { w' with depth := w.depth }) := by
  rw [restoring, from?_get_bind, from?_observed h, from?_modify_bind, from?_liftExcept]

theorem from?_eat_of_not_isAt {t : Token} (h : w.isAt t = false) :
    (eat t).from? w = some (.ok false, w) := by
  show (if w.isAt t = true then advance >>= fun _ => pure true else pure false : Walker Bool).from?
    w = _
  rw [h]
  rfl

/-- With enough fuel, and with any more, the walk ends so. -/
def Ends (step : Nat -> Walker α) (w : Walk) (outcome : Except SyntaxError α) (w' : Walk) :
    Prop :=
  ∃ enough, ∀ fuel, enough ≤ fuel -> (step fuel).from? w = some (outcome, w')

namespace Ends

variable {step : Nat -> Walker α} {next : α -> Nat -> Walker β} {outcome : Except SyntaxError α}
  {result : Except SyntaxError β} {w'' : Walk}

theorem of_eq {step : Walker α} (h : step.from? w = some (outcome, w')) :
    Ends (fun _ => step) w outcome w' :=
  ⟨0, fun _ _ => h⟩

theorem succ (h : Ends (fun fuel => step (fuel + 1)) w outcome w') : Ends step w outcome w' := by
  rcases h with ⟨enough, h⟩
  refine ⟨enough + 1, fun fuel hle => ?_⟩
  cases fuel with
  | zero => exact absurd hle (Nat.not_succ_le_zero enough)
  | succ fuel => exact h fuel (Nat.le_of_succ_le_succ hle)

theorem congr {step' : Nat -> Walker α} (h : Ends step w' outcome w'')
    (heq : ∀ fuel, (step' fuel).from? w = (step fuel).from? w') : Ends step' w outcome w'' := by
  rcases h with ⟨enough, h⟩
  exact ⟨enough, fun fuel hle => (heq fuel).trans (h fuel hle)⟩

theorem bind_ok {x : α} (h : Ends step w (.ok x) w') (hnext : Ends (next x) w' result w'') :
    Ends (fun fuel => step fuel >>= fun x => next x fuel) w result w'' := by
  rcases h with ⟨enough, h⟩
  rcases hnext with ⟨enough', hnext⟩
  refine ⟨max enough enough', fun fuel hle => ?_⟩
  rw [from?_bind_of_ok (h fuel (Nat.le_trans (Nat.le_max_left _ _) hle))]
  exact hnext fuel (Nat.le_trans (Nat.le_max_right _ _) hle)

theorem bind_error {e : SyntaxError} (h : Ends step w (.error e) w') :
    Ends (fun fuel => step fuel >>= fun x => next x fuel) w (.error e) w' := by
  rcases h with ⟨enough, h⟩
  exact ⟨enough, fun fuel hle => from?_bind_of_error (h fuel hle) _⟩

theorem observed {next : Except SyntaxError α -> Nat -> Walker β} (h : Ends step w outcome w')
    (hnext : Ends (next outcome) w' result w'') :
    Ends (fun fuel => observed (step fuel) fun outcome => next outcome fuel) w result w'' := by
  rcases h with ⟨enough, h⟩
  rcases hnext with ⟨enough', hnext⟩
  refine ⟨max enough enough', fun fuel hle => ?_⟩
  rw [from?_observed (h fuel (Nat.le_trans (Nat.le_max_left _ _) hle))]
  exact hnext fuel (Nat.le_trans (Nat.le_max_right _ _) hle)

end Ends

/-!
## Agreement
-/

def outcome : EStateM.Result SyntaxError ParseState α -> Except SyntaxError α
  | .ok x _ => .ok x
  | .error e _ => .error e

/-- From here the step ends, with what the parser gives and at what it leaves.
If `kept` holds it also leaves as many levels open as there were. -/
def AgreesAt (kept : Bool) (w : Walk) (step : Nat -> Walker α) (parse : Parser α) : Prop :=
  ∃ w', Ends step w (outcome (parse w.view)) w' ∧ w'.view = Parser.finalState (parse w.view) ∧
    w.Passes w' ∧ (kept = true -> w'.depth = w.depth)

/-- The step agrees with the parser wherever so many more levels may be opened. -/
def Agrees (kept : Bool) (room : Nat) (step : Nat -> Walker α) (parse : Parser α) : Prop :=
  ∀ w : Walk, maxNesting - w.depth = room -> AgreesAt kept w step parse

section Rules

variable {kept : Bool} {room : Nat} {step : Nat -> Walker α} {parse : Parser α}
  {next : α -> Nat -> Walker β} {parseNext : α -> Parser β}

theorem AgreesAt.succ (h : AgreesAt kept w (fun fuel => step (fuel + 1)) parse) :
    AgreesAt kept w step parse := by
  rcases h with ⟨w', hends, hrest⟩
  exact ⟨w', hends.succ, hrest⟩

/-- Agreement further on is agreement here, if only steps of a walk are between. -/
theorem AgreesAt.behind {step' : Nat -> Walker α} {parse' : Parser α}
    (h : AgreesAt kept w' step parse) (hpasses : w.Passes w') (hdepth : w'.depth = w.depth)
    (hstep : ∀ fuel, (step' fuel).from? w = (step fuel).from? w')
    (hparse : parse' w.view = parse w'.view) : AgreesAt kept w step' parse' := by
  rcases h with ⟨w'', hends, hview, hpasses', hkept⟩
  rw [← hparse] at hends hview
  exact ⟨w'', hends.congr hstep, hview, hpasses.trans hpasses', fun h => (hkept h).trans hdepth⟩

theorem AgreesAt.congr {step' : Nat -> Walker α} {parse' : Parser α}
    (h : AgreesAt kept w step parse) (hstep : ∀ fuel, (step' fuel).from? w = (step fuel).from? w)
    (hparse : parse' w.view = parse w.view) : AgreesAt kept w step' parse' :=
  h.behind (.refl w) rfl hstep hparse

theorem AgreesAt.weaken (h : AgreesAt true w step parse) : AgreesAt false w step parse := by
  rcases h with ⟨w', hends, hview, hpasses, hdepth⟩
  exact ⟨w', hends, hview, hpasses, fun _ => hdepth rfl⟩

theorem agreesAt_pure (x : α) : AgreesAt kept w (fun _ => pure x) (pure x) :=
  ⟨w, .of_eq rfl, rfl, .refl w, fun _ => rfl⟩

theorem agreesAt_throw (e : SyntaxError) :
    AgreesAt kept w (fun _ => (throw e : Walker α)) (throw e) :=
  ⟨w, .of_eq rfl, rfl, .refl w, fun _ => rfl⟩

/-- Steps one after the other: the second one starts where the parser is. -/
theorem agreesAt_bind (h : AgreesAt true w step parse)
    (hnext : ∀ x w', parse w.view = .ok x w'.view -> w'.depth = w.depth ->
      AgreesAt kept w' (next x) (parseNext x)) :
    AgreesAt kept w (fun fuel => step fuel >>= fun x => next x fuel) (parse >>= parseNext) := by
  rcases h with ⟨w', hends, hview, hpasses, hdepth⟩
  unfold AgreesAt
  cases hparse : parse w.view with
  | ok x s =>
      rw [hparse] at hends hview
      obtain rfl : w'.view = s := hview
      rcases hnext x w' hparse (hdepth rfl) with ⟨w'', hrest, hview', hpasses', hdepth'⟩
      rw [Parser.bind_of_ok hparse]
      exact ⟨w'', hends.bind_ok hrest, hview', hpasses.trans hpasses',
        fun hkept => (hdepth' hkept).trans (hdepth rfl)⟩
  | error e s =>
      rw [hparse] at hends hview
      rw [Parser.bind_of_error hparse]
      exact ⟨w', hends.bind_error, hview, hpasses, fun _ => hdepth rfl⟩

theorem agrees_bind (h : Agrees true room step parse)
    (hnext : ∀ x, Agrees kept room (next x) (parseNext x)) :
    Agrees kept room (fun fuel => step fuel >>= fun x => next x fuel) (parse >>= parseNext) :=
  fun w hroom => agreesAt_bind (h w hroom) fun x w' _ hdepth => hnext x w' (hdepth ▸ hroom)

theorem agreesAt_get {next : Walk -> Nat -> Walker α} {parseNext : ParseState -> Parser α}
    (h : AgreesAt kept w (next w) (parseNext w.view)) :
    AgreesAt kept w (fun fuel => get >>= fun w => next w fuel) (get >>= parseNext) :=
  h

theorem agreesAt_advance (h : w.atEnd = false) :
    AgreesAt kept w (fun _ => advance) Parser.advance :=
  ⟨w.advance, .of_eq rfl, Walk.view_advance h, Walk.passes_advance h, fun _ => rfl⟩

theorem agreesAt_advance_bind {next : Nat -> Walker α} {parseNext : Unit -> Parser α}
    (hend : w.atEnd = false) (h : AgreesAt kept w.advance next (parseNext ())) :
    AgreesAt kept w (fun fuel => advance >>= fun _ => next fuel)
      (Parser.advance >>= parseNext) := by
  refine h.behind (Walk.passes_advance hend) rfl (fun _ => rfl) ?_
  rw [Parser.advance_bind, Walk.view_advance hend]

theorem agreesAt_fail (fault : Option Token -> SyntaxFault) :
    AgreesAt kept w (fun _ => (fail fault : Walker α)) (Parser.fail fault) := by
  apply agreesAt_get
  rw [Walk.span_view, Walk.found_view]
  exact agreesAt_throw _

theorem agreesAt_isAt_bind {t : Token} {next : Bool -> Nat -> Walker α}
    {parseNext : Bool -> Parser α} (h : AgreesAt kept w (next (w.isAt t)) (parseNext (w.isAt t))) :
    AgreesAt kept w (fun fuel => isAt t >>= fun found => next found fuel)
      (Parser.isAt t >>= parseNext) := by
  refine h.congr (fun _ => rfl) ?_
  rw [Parser.isAt_bind, Walk.isAt_view]

theorem agrees_eat {t : Token} (ht : decide (t = .endOfInput) = false) :
    Agrees kept room (fun _ => eat t) (Parser.eat t) := by
  intro w _
  apply agreesAt_isAt_bind
  cases hat : w.isAt t with
  | true =>
      have hend := (Walk.atEnd_of_token? (of_decide_eq_true hat)).trans ht
      exact agreesAt_advance_bind hend (agreesAt_pure true)
  | false => exact agreesAt_pure false

theorem agrees_expect (symbol : Symbol) (what : String) :
    Agrees kept room (fun _ => expect symbol what) (Parser.expect symbol what) := by
  intro w _
  apply agreesAt_isAt_bind
  cases hat : w.isAt (.symbol symbol) with
  | true => exact agreesAt_advance (Walk.atEnd_of_token? (of_decide_eq_true hat))
  | false => exact agreesAt_fail _

theorem agrees_freshBlock : Agrees kept room (fun _ => freshBlock) Parser.freshBlock :=
  fun w _ => ⟨{ w with nextBlock := w.nextBlock + 1 }, .of_eq rfl, rfl, .of_eq rfl rfl,
    fun _ => rfl⟩

theorem agreesAt_freshIdentifier (name : String) (span : Span) :
    AgreesAt kept w (fun _ => freshIdentifier name span) (Parser.freshIdentifier name span) :=
  ⟨{ w with nextIdent := w.nextIdent + 1 }, .of_eq rfl, rfl, .of_eq rfl rfl, fun _ => rfl⟩

theorem agrees_identifier (what : String) :
    Agrees kept room (fun _ => identifier what) (Parser.identifier what) := by
  intro w _
  apply agreesAt_get
  rw [Walk.token?_view, Walk.span_view]
  cases htoken : w.token? with
  | none => exact agreesAt_fail _
  | some t =>
      cases t with
      | ident name =>
          exact agreesAt_advance_bind (Walk.atEnd_of_token? htoken)
            (agreesAt_freshIdentifier name w.span)
      | _ => exact agreesAt_fail _

/-!
### Levels
-/

theorem AgreesAt.restoring (h : AgreesAt kept w step parse) :
    AgreesAt true w (fun fuel => restoring (step fuel)) parse := by
  rcases h with ⟨w', ⟨enough, hends⟩, hview, hpasses, _⟩
  exact ⟨{ w' with depth := w.depth }, ⟨enough, fun fuel hle => from?_restoring (hends fuel hle)⟩,
    hview, hpasses.trans (.of_eq rfl rfl), fun _ => rfl⟩

theorem AgreesAt.failTooDeep_bind {what : String}
    (h : AgreesAt true w step (Parser.failTooDeep what)) (next : α -> Nat -> Walker β) :
    AgreesAt kept w (fun fuel => step fuel >>= fun x => next x fuel)
      (Parser.failTooDeep what) := by
  show AgreesAt kept w _ (Parser.failTooDeep what >>= fun _ : α => Parser.failTooDeep what)
  exact agreesAt_bind h fun _ _ hok _ => by cases hok

theorem agreesAt_deepen_zero (h : maxNesting - w.depth = 0) (what : String)
    (step : Nat -> Walker α) :
    AgreesAt kept w (fun fuel => deepen what >>= fun _ => step fuel)
      (Parser.failTooDeep what) := by
  have hfail : AgreesAt true w (fun _ => deepen what) (Parser.failTooDeep what) := by
    refine (agreesAt_fail (.tooDeep what)).congr (fun _ => ?_) rfl
    rw [deepen, from?_get_bind, if_pos (Nat.sub_eq_zero_iff_le.mp h)]
  exact hfail.failTooDeep_bind _

theorem agreesAt_deepen_succ (h : maxNesting - w.depth = room + 1) (what : String)
    (hstep : maxNesting - w.deeper.depth = room -> AgreesAt false w.deeper step parse) :
    AgreesAt false w (fun fuel => deepen what >>= fun _ => step fuel) parse := by
  have hrun : (deepen what).from? w = some (.ok (), w.deeper) := by
    rw [deepen, from?_get_bind, if_neg (by omega)]
    rfl
  have hroom : maxNesting - w.deeper.depth = room := by
    show maxNesting - (w.depth + 1) = room
    omega
  have hpasses : w.Passes w.deeper := .of_eq rfl rfl
  rcases hstep hroom with ⟨w', hends, hview, hpasses', _⟩
  exact ⟨w', (Ends.of_eq hrun).bind_ok hends, hview, hpasses.trans hpasses',
    fun hkept => absurd hkept Bool.false_ne_true⟩

theorem agreesAt_nested_zero (h : maxNesting - w.depth = 0) (what : String)
    (step : Nat -> Walker α) :
    AgreesAt true w (fun fuel => nested what (step fuel)) (Parser.failTooDeep what) := by
  have hdeeper : AgreesAt true w (fun fuel => deepen what >>= fun _ => step fuel)
      (Parser.failTooDeep what) := agreesAt_deepen_zero h what step
  exact hdeeper.restoring

theorem agreesAt_nested_succ (h : maxNesting - w.depth = room + 1) (what : String)
    (hstep : Agrees true room step parse) :
    AgreesAt true w (fun fuel => nested what (step fuel)) parse :=
  (agreesAt_deepen_succ h what fun hroom => (hstep w.deeper hroom).weaken).restoring

/-!
### Lists
-/

/-- A loop over items agrees with the parser if there is a round for every token:
a comma uses one up. -/
theorem agreesAt_commaItems {item : Nat -> Walker α} {parseItem : Parser α}
    {more : Nat -> List α -> Walker (List α)}
    (hmore : ∀ fuel read, more (fuel + 1) read =
      commaItem (item fuel) (fun x => more fuel (x :: read)) read)
    (hitem : Agrees true room item parseItem) (hgrows : Parser.Grows parseItem)
    {rounds : List Located} {read : List α} {w : Walk} (hroom : maxNesting - w.depth = room)
    (hrounds : w.view.rest.length ≤ rounds.length) :
    AgreesAt true w (fun fuel => more fuel read) (Parser.commaItems parseItem rounds read) := by
  induction rounds generalizing read w with
  | nil =>
      have hat : w.isAt (.symbol .comma) = false := by
        rw [Walk.isAt, Walk.token?_of_length hrounds]
        rfl
      refine AgreesAt.succ ((agreesAt_pure read.reverse).congr (fun fuel => ?_) rfl)
      rw [hmore, commaItem, from?_bind_of_ok (from?_eat_of_not_isAt hat)]
      rfl
  | cons _ rounds ih =>
      apply AgreesAt.succ
      simp only [hmore, commaItem]
      refine agreesAt_bind (agrees_eat rfl w hroom) fun found w1 heaten hdepth => ?_
      rcases Parser.eat_eq_ok heaten with ⟨rfl, htokens, _⟩ | ⟨rfl, _, _⟩
      · refine agreesAt_bind (hitem w1 (hdepth ▸ hroom)) fun x w2 hread hdepth' => ?_
        have hcomma := Parser.length_rest_of_tokens htokens
        have hshorter := (hgrows.of_ok hread).rest.length_le
        rw [List.length_cons] at hrounds
        exact ih (hdepth' ▸ hdepth ▸ hroom) (by omega)
      · exact agreesAt_pure _

theorem agrees_parenthesized {item : Nat -> Walker α} {parseItem : Parser α}
    {more : Nat -> List α -> Walker (List α)}
    (hmore : ∀ fuel read, more (fuel + 1) read =
      commaItem (item fuel) (fun x => more fuel (x :: read)) read)
    (hitem : Agrees true room item parseItem) (hgrows : Parser.Grows parseItem)
    (closing : String) :
    Agrees true room
      (fun fuel => parenthesized (item fuel >>= fun first => more fuel [first]) closing)
      (Parser.parenthesized parseItem closing) := by
  intro w hroom
  have hclose : ∀ read : List α,
      Agrees true room (fun _ => expect .rightParen closing >>= fun _ => pure read)
        (Parser.expect .rightParen closing >>= fun _ => pure read) :=
    fun read => agrees_bind (agrees_expect _ _) fun _ _ _ => agreesAt_pure read
  apply agreesAt_isAt_bind
  cases w.isAt (.symbol .rightParen) with
  | true =>
      exact agreesAt_bind (agreesAt_pure _) fun read w' _ hdepth =>
        hclose read w' (hdepth ▸ hroom)
  | false =>
      refine agreesAt_bind ?_ fun read w' _ hdepth => hclose read w' (hdepth ▸ hroom)
      refine agreesAt_bind (hitem w hroom) fun first w1 _ hdepth => ?_
      exact agreesAt_commaItems hmore hitem hgrows (hdepth ▸ hroom) (Nat.le_refl _)

end Rules

/-!
## Expressions
-/

theorem exists_symbol_of_operator? {level : Parser.Level} {t? : Option Token} {op : BinaryOp}
    (h : level.operator? t? = some op) : ∃ s, t? = some (.symbol s) := by
  unfold Parser.Level.operator? at h
  split at h
  · next s => exact ⟨s, rfl⟩
  · cases h

theorem exists_symbol_of_unaryOperator? {t? : Option Token} {op : UnaryOp}
    (h : Parser.unaryOperator? t? = some op) : ∃ s, t? = some (.symbol s) := by
  unfold Parser.unaryOperator? at h
  split at h
  · exact ⟨_, rfl⟩
  · exact ⟨_, rfl⟩
  · cases h

theorem agrees_arguments {room : Nat}
    (h : Agrees true room expression (Parser.expression room)) :
    Agrees true room arguments (Parser.arguments room) := by
  intro w hroom
  have hmore : ∀ fuel read, moreArguments (fuel + 1) read =
      commaItem (expression fuel) (fun x => moreArguments fuel (x :: read)) read :=
    fun _ _ => rfl
  have hlist := agrees_parenthesized hmore h (Parser.grows_expression room)
    "')' after arguments"
  rw [Parser.arguments]
  apply AgreesAt.succ
  apply agreesAt_get
  rw [Walk.span_view]
  refine agreesAt_bind (hlist w hroom) fun args w' _ _ => ?_
  split
  · exact agreesAt_pure _
  · exact agreesAt_throw _

mutual

theorem agrees_expression : ∀ room : Nat, Agrees true room expression (Parser.expression room)
  | 0 => by
      intro w hroom
      rw [Parser.expression]
      exact (agreesAt_nested_zero hroom _ _).succ
  | room + 1 => by
      intro w hroom
      rw [Parser.expression]
      exact (agreesAt_nested_succ hroom _ (agrees_operand Parser.precedence room)).succ
termination_by room => (room, 0)

theorem agrees_operand : ∀ (levels : List Parser.Level) (room : Nat),
    Agrees true room (fun fuel => operand fuel levels) (Parser.operand levels room)
  | [], room => by
      intro w hroom
      rw [Parser.operand]
      exact (agrees_unary room w hroom).succ
  | level :: tighter, room => by
      intro w hroom
      rw [Parser.operand]
      have hchain := agrees_bind (agrees_operand tighter room)
        (fun left => agrees_chain level tighter room left) w hroom
      exact hchain.restoring.succ
termination_by levels room => (room, 4 + levels.length)

theorem agrees_chain (level : Parser.Level) (tighter : List Parser.Level) (room : Nat)
    (left : Expr) :
    Agrees false room (fun fuel => chain fuel level tighter left)
      (Parser.chain level tighter room left) := by
  intro w hroom
  rw [Parser.chain]
  apply AgreesAt.succ
  apply agreesAt_get
  rw [Walk.token?_view, Walk.span_view]
  cases hop : level.operator? w.token? with
  | none => exact agreesAt_pure _
  | some op =>
      rcases exists_symbol_of_operator? hop with ⟨symbol, htoken⟩
      refine agreesAt_advance_bind (Walk.atEnd_of_token? htoken) ?_
      replace hroom : maxNesting - w.advance.depth = room := hroom
      cases room with
      | zero => exact agreesAt_deepen_zero hroom _ _
      | succ room =>
          exact agreesAt_deepen_succ hroom _ (agrees_bind (agrees_operand tighter room)
            (fun right => agrees_chain level tighter room _) _)
termination_by (room, 0)

theorem agrees_unary (room : Nat) : Agrees true room unary (Parser.unary room) := by
  intro w hroom
  rw [Parser.unary]
  apply AgreesAt.succ
  apply agreesAt_get
  rw [Walk.token?_view, Walk.span_view]
  cases hop : Parser.unaryOperator? w.token? with
  | none => exact agrees_application room w hroom
  | some op =>
      rcases exists_symbol_of_unaryOperator? hop with ⟨symbol, htoken⟩
      refine agreesAt_advance_bind (Walk.atEnd_of_token? htoken) ?_
      replace hroom : maxNesting - w.advance.depth = room := hroom
      cases room with
      | zero => exact (agreesAt_nested_zero hroom _ _).failTooDeep_bind _
      | succ room =>
          exact agreesAt_bind (agreesAt_nested_succ hroom _ (agrees_unary room))
            fun _ _ _ _ => agreesAt_pure _
termination_by (room, 3)

theorem agrees_application (room : Nat) :
    Agrees true room application (Parser.application room) := by
  intro w hroom
  rw [Parser.application]
  have hsuffixes := agrees_bind (agrees_primary room)
    (fun head => agrees_suffixes room head) w hroom
  exact hsuffixes.restoring.succ
termination_by (room, 2)

theorem agrees_suffixes (room : Nat) (head : Expr) :
    Agrees false room (fun fuel => suffixes fuel head) (Parser.suffixes room head) := by
  intro w hroom
  rw [Parser.suffixes.eq_def]
  apply AgreesAt.succ
  apply agreesAt_get
  rw [Walk.token?_view, Walk.span_view]
  cases htoken : w.token? with
  | none => exact agreesAt_pure _
  | some t =>
      cases t with
      | symbol symbol =>
          cases symbol with
          | leftParen =>
              cases room with
              | zero => exact agreesAt_deepen_zero hroom _ _
              | succ room =>
                  refine agreesAt_deepen_succ hroom _ fun hroom =>
                    agreesAt_advance_bind (Walk.atEnd_of_token? htoken) ?_
                  exact agrees_bind (agrees_arguments (agrees_expression room))
                    (fun args => agrees_suffixes room _) _ hroom
          | dot =>
              cases room with
              | zero => exact agreesAt_deepen_zero hroom _ _
              | succ room =>
                  refine agreesAt_deepen_succ hroom _ fun hroom =>
                    agreesAt_advance_bind (Walk.atEnd_of_token? htoken) ?_
                  exact agrees_bind (agrees_identifier _)
                    (fun field => agrees_suffixes room _) _ hroom
          | _ => exact agreesAt_pure _
      | _ => exact agreesAt_pure _
termination_by (room, 0)

theorem agrees_primary (room : Nat) : Agrees true room primary (Parser.primary room) := by
  intro w hroom
  rw [Parser.primary]
  apply AgreesAt.succ
  apply agreesAt_get
  rw [Walk.token?_view, Walk.span_view]
  cases htoken : w.token? with
  | none => exact agreesAt_fail _
  | some t =>
      have hend := Walk.atEnd_of_token? htoken
      cases t with
      | ident name =>
          exact agreesAt_advance_bind hend (agreesAt_bind (agreesAt_freshIdentifier name w.span)
            fun _ _ _ _ => agreesAt_pure _)
      | symbol symbol =>
          cases symbol with
          | leftParen =>
              exact agreesAt_advance_bind hend (agrees_bind (agrees_expression room)
                (fun inner => agrees_bind (agrees_expect _ _) fun _ _ _ => agreesAt_pure _)
                w.advance hroom)
          | _ => exact agreesAt_fail _
      | integer n => exact agreesAt_advance_bind hend (agreesAt_pure _)
      | string text => exact agreesAt_advance_bind hend (agreesAt_pure _)
      | bool b => exact agreesAt_advance_bind hend (agreesAt_pure _)
      | null => exact agreesAt_advance_bind hend (agreesAt_pure _)
      | _ => exact agreesAt_fail _
termination_by (room, 1)

end

/-!
## Going on behind an error
-/

def quiet (step : ParseState -> α × ParseState) : Parser α := fun s =>
  .ok (step s).1 (step s).2

theorem agreesAt_synchronize (w : Walk) :
    AgreesAt true w synchronize (quiet fun s => ((), Parser.synchronized s)) := by
  induction hrest : w.view.rest generalizing w with
  | nil =>
      have htoken : w.token? = none := by
        rw [Walk.token?, Walk.current?_eq, hrest]
        rfl
      refine AgreesAt.succ ((agreesAt_pure ()).congr (fun fuel => ?_) ?_)
      · rw [synchronize, from?_get_bind, htoken]
      · rw [quiet, Parser.synchronized_of_none (w.token?_view.trans htoken)]
        rfl
  | cons t rest ih =>
      have htoken : w.token? = some t.token := by
        rw [Walk.token?, Walk.current?_eq, hrest]
        rfl
      have hparse := Parser.synchronized_of_some (w.token?_view.trans htoken)
      by_cases hstop : (t.token = .endOfInput || t.token = .symbol .rightBrace ||
          t.token.startsStatement) = true
      · refine AgreesAt.succ ((agreesAt_pure ()).congr (fun fuel => ?_) ?_)
        · rw [synchronize, from?_get_bind, htoken]
          simp only
          rw [if_pos hstop]
        · rw [quiet, hparse, if_pos hstop]
          rfl
      · have hend : w.atEnd = false := by
          rw [Walk.atEnd_of_token? htoken]
          simp only [Bool.or_eq_true, not_or] at hstop
          exact Bool.eq_false_iff.mpr hstop.1.1
        have hview := Walk.view_advance hend
        by_cases hsemicolon : t.token = .symbol .semicolon
        · refine AgreesAt.succ ((agreesAt_advance hend).congr (fun fuel => ?_) ?_)
          · rw [synchronize, from?_get_bind, htoken]
            simp only
            rw [if_neg hstop, if_pos hsemicolon]
          · rw [quiet, hparse, if_neg hstop, if_pos hsemicolon]
            rfl
        · have hshorter : w.advance.view.rest = rest := by
            rw [hview, ParseState.advance, hrest]
          refine AgreesAt.succ ((ih w.advance hshorter).behind (Walk.passes_advance hend) rfl
            (fun fuel => ?_) ?_)
          · rw [synchronize, from?_get_bind, htoken]
            simp only
            rw [if_neg hstop, if_neg hsemicolon]
            rfl
          · rw [quiet, hparse, if_neg hstop, if_neg hsemicolon, ← hview]
            rfl

theorem from?_leave (start : Nat) (w : Walk) :
    (leave start).from? w =
      some (.ok (), if w.position = start && !w.atEnd then w.advance else w) := by
  rw [leave, from?_get_bind]
  split
  · rfl
  · rfl

theorem ends_recovering {outcome : Except SyntaxError Stmt} {parsed? : Option Stmt} {w'' : Walk}
    (h : Ends statement w outcome w')
    (hresumed : Ends (fun fuel => resumed w.position fuel outcome) w' (.ok parsed?) w'') :
    Ends (fun fuel => recovering (statement fuel) fuel) w (.ok parsed?) w'' := by
  have hobserved : Ends (fun fuel => observed (statement fuel) (resumed w.position fuel)) w
      (.ok parsed?) w'' := h.observed hresumed
  exact hobserved.congr fun _ => rfl

/-- Recovery agrees with that of the parser.  A walk sees by its index whether it
is still where the statement started, and the parser by the tokens left. -/
theorem agreesAt_recovering {parse : Parser Stmt} (h : AgreesAt true w statement parse) :
    AgreesAt true w (fun fuel => recovering (statement fuel) fuel)
      (quiet (Parser.recovering parse)) := by
  rcases h with ⟨w1, hends, hview, hpasses, hdepth⟩
  unfold AgreesAt quiet Parser.recovering
  cases hparse : parse w.view with
  | ok parsed s =>
      rw [hparse] at hends hview
      exact ⟨w1, ends_recovering hends (.of_eq rfl), hview, hpasses, hdepth⟩
  | error e s =>
      rw [hparse] at hends hview
      obtain rfl : w1.view = s := hview
      rcases agreesAt_synchronize (w1.record e) with ⟨w2, hsync, hview2, hpasses2, hdepth2⟩
      have hrecorded : w1.Passes (w1.record e) := .of_eq rfl rfl
      have hboundary := hpasses.trans (hrecorded.trans hpasses2)
      have hdepth' : w2.depth = w.depth := (hdepth2 rfl).trans (hdepth rfl)
      have hresumed : Parser.resumed w.view (w1.view.record e) =
          if w2.position = w.position && !w2.atEnd then w2.view.advance else w2.view := by
        have hsynchronized : Parser.synchronized (w1.view.record e) = w2.view := hview2.symm
        rw [Parser.resumed, hsynchronized]
        simp [hboundary.position_eq_iff]
      have hleft := from?_leave w.position w2
      have hrest : ∀ w3, (leave w.position).from? w2 = some (.ok (), w3) ->
          Ends (fun fuel => resumed w.position fuel (.error e)) w1 (.ok none) w3 := by
        intro w3 hleave
        have hnone : Ends (fun _ => leave w.position >>= fun _ => pure none) w2
            (.ok (none : Option Stmt)) w3 := .of_eq (from?_bind_of_ok hleave _)
        exact (hsync.bind_ok hnone).congr fun _ => rfl
      simp only [hresumed]
      split at hleft
      · next hstay =>
          have hend : w2.atEnd = false := by
            rw [Bool.and_eq_true, Bool.not_eq_true'] at hstay
            exact hstay.2
          rw [if_pos hstay]
          exact ⟨w2.advance, ends_recovering hends (hrest _ hleft), Walk.view_advance hend,
            hboundary.trans (Walk.passes_advance hend), fun _ => hdepth'⟩
      · next hgone =>
          rw [if_neg hgone]
          exact ⟨w2, ends_recovering hends (hrest _ hleft), rfl, hboundary, fun _ => hdepth'⟩

theorem agreesAt_recovering_bind {parse : Parser Stmt} {next : Option Stmt -> Nat -> Walker α}
    {parseNext : Option Stmt -> Parser α} (h : AgreesAt true w statement parse)
    (hgrows : Parser.Grows parse) (hconsumes : Parser.Consumes parse) (hend : w.atEnd = false)
    (hnext : ∀ parsed? w', w'.depth = w.depth -> w'.view.rest.length < w.view.rest.length ->
      AgreesAt true w' (next parsed?) (parseNext parsed?)) :
    AgreesAt true w
      (fun fuel => recovering (statement fuel) fuel >>= fun parsed? => next parsed? fuel)
      (quiet (Parser.recovering parse) >>= parseNext) := by
  refine agreesAt_bind (agreesAt_recovering h) fun parsed? w' hok hdepth =>
    hnext parsed? w' hdepth ?_
  have hless := Parser.length_rest_recovering hgrows hconsumes (w.atEnd_view.trans hend)
  have hview : (Parser.recovering parse w.view).2 = w'.view := by
    injection hok
  rw [← hview]
  exact hless

/-!
## Statements
-/

section Statements

variable {room : Nat} {inside : Parser (List Stmt)}

theorem from?_statementsFrom_of_stop (fuel : Nat) (read : List Stmt)
    (h : (w.isAt (.symbol .rightBrace) || w.atEnd) = true) :
    (statementsFrom (fuel + 1) read).from? w =
      (pure read.reverse : Walker (List Stmt)).from? w := by
  rw [statementsFrom, from?_get_bind, if_pos h]

theorem agreesAt_statementsFrom {parse : Parser Stmt} (h : Agrees true room statement parse)
    (hgrows : Parser.Grows parse) (hconsumes : Parser.Consumes parse) {rounds : List Located}
    {read : List Stmt} {w : Walk} (hroom : maxNesting - w.depth = room)
    (hrounds : w.view.rest.length ≤ rounds.length) :
    AgreesAt true w (fun fuel => statementsFrom fuel read)
      (quiet (Parser.statementsIn parse rounds read)) := by
  apply AgreesAt.succ
  induction rounds generalizing read w with
  | nil =>
      have hstop : (w.isAt (.symbol .rightBrace) || w.atEnd) = true := by
        rw [Walk.atEnd_of_length hrounds, Bool.or_true]
      exact (agreesAt_pure read.reverse).congr
        (fun fuel => from?_statementsFrom_of_stop fuel read hstop) rfl
  | cons t rounds ih =>
      rw [List.length_cons] at hrounds
      by_cases hstop : (w.isAt (.symbol .rightBrace) || w.atEnd) = true
      · refine (agreesAt_pure read.reverse).congr
          (fun fuel => from?_statementsFrom_of_stop fuel read hstop) ?_
        rw [quiet, Parser.statementsIn, Walk.isAt_view, Walk.atEnd_view, if_pos hstop]
        rfl
      · have hopen := hstop
        rw [Bool.or_eq_true, not_or, Bool.not_eq_true, Bool.not_eq_true] at hopen
        have hround : AgreesAt true w
            (fun fuel => recovering (statement fuel) fuel >>= fun parsed? =>
              statementsFrom fuel (parsed?.toList ++ read))
            (quiet (Parser.recovering parse) >>= fun parsed? =>
              quiet (Parser.statementsIn parse rounds (parsed?.toList ++ read))) :=
          agreesAt_recovering_bind (h w hroom) hgrows hconsumes hopen.2 fun _ w' hdepth hless =>
            (ih (hdepth ▸ hroom) (by omega)).succ
        refine hround.congr (fun fuel => ?_) ?_
        · rw [statementsFrom, from?_get_bind, if_neg hstop]
        · rw [quiet, Parser.statementsIn_round t rounds read ((w.isAt_view _).trans hopen.1)
            (w.atEnd_view.trans hopen.2)]
          rfl

theorem agreesAt_declaration (hend : w.atEnd = false) (hroom : maxNesting - w.depth = room) :
    AgreesAt true w declaration (Parser.declaration room) :=
  agreesAt_advance_bind hend (agrees_bind (agrees_identifier _) (fun _ =>
    agrees_bind (agrees_expect _ _) fun _ => agrees_bind (agrees_expression room) fun _ =>
      agrees_bind (agrees_expect _ _) fun _ _ _ => agreesAt_pure _) _ hroom)

theorem agreesAt_giveBack (hend : w.atEnd = false) (hroom : maxNesting - w.depth = room) :
    AgreesAt true w giveBack (Parser.giveBack room) := by
  have hclose : ∀ (span : Span) (value : Expr), Agrees true room
      (fun _ => expect .semicolon "';' after return value" >>= fun _ =>
        pure (Stmt.giveBack value span))
      (Parser.expect .semicolon "';' after return value" >>= fun _ =>
        pure (Stmt.giveBack value span)) :=
    fun _ _ => agrees_bind (agrees_expect _ _) fun _ _ _ => agreesAt_pure _
  apply agreesAt_get
  rw [Walk.span_view]
  refine agreesAt_advance_bind hend (agreesAt_isAt_bind ?_)
  replace hroom : maxNesting - w.advance.depth = room := hroom
  cases w.advance.isAt (.symbol .semicolon) with
  | true =>
      exact agreesAt_bind (agreesAt_pure _) fun value w' _ hdepth =>
        hclose w.span value w' (hdepth ▸ hroom)
  | false => exact agrees_bind (agrees_expression room) (hclose w.span) _ hroom

theorem agrees_assignmentOrExpression :
    Agrees true room assignmentOrExpression (Parser.assignmentOrExpression room) := by
  have hvalue : ∀ assigned : Expr -> Stmt, Agrees true room
      (fun fuel => expression fuel >>= fun value =>
        expect .semicolon "';' after assignment" >>= fun _ => pure (assigned value))
      (Parser.expression room >>= fun value =>
        Parser.expect .semicolon "';' after assignment" >>= fun _ => pure (assigned value)) :=
    fun _ => agrees_bind (agrees_expression room) fun _ =>
      agrees_bind (agrees_expect _ _) fun _ _ _ => agreesAt_pure _
  intro w hroom
  apply agreesAt_get
  rw [Walk.span_view]
  refine agrees_bind (agrees_expression room) (fun first => ?_) w hroom
  refine agrees_bind (agrees_eat rfl) fun found => ?_
  cases found with
  | true =>
      cases first with
      | ident name => exact agrees_bind (fun _ _ => agreesAt_pure _) hvalue
      | field receiver field => exact agrees_bind (fun _ _ => agreesAt_pure _) hvalue
      | _ => exact agrees_bind (fun _ _ => agreesAt_throw _) hvalue
  | false => exact agrees_bind (agrees_expect _ _) fun _ _ _ => agreesAt_pure _

variable (hbraced : ∀ context, Agrees true room (fun fuel => braced fuel context)
  (Parser.braced inside context))

include hbraced

theorem agrees_block (context : String) :
    Agrees true room (fun fuel => block fuel context) (Parser.block inside context) := by
  intro w hroom
  apply AgreesAt.succ
  exact agrees_bind agrees_freshBlock (fun id => agrees_bind (hbraced context) fun _ _ _ =>
    agreesAt_pure _) w hroom

theorem agrees_guarded (word : String) :
    Agrees true room (fun fuel => guarded fuel word) (Parser.guarded room inside word) := by
  intro w hroom
  apply AgreesAt.succ
  exact agrees_bind (agrees_expect _ _) (fun _ => agrees_bind (agrees_expression room) fun _ =>
    agrees_bind (agrees_expect _ _) fun _ => agrees_bind (agrees_block hbraced _) fun _ _ _ =>
      agreesAt_pure _) w hroom

theorem agreesAt_function (hend : w.atEnd = false) (hroom : maxNesting - w.depth = room) :
    AgreesAt true w function (Parser.function inside) := by
  have hname : Agrees true room (fun _ => identifier "parameter name")
      (Parser.identifier "parameter name") := agrees_identifier _
  have hmore : ∀ fuel read, moreParameters (fuel + 1) read =
      commaItem (identifier "parameter name") (fun x => moreParameters fuel (x :: read)) read :=
    fun _ _ => rfl
  have hlist := agrees_parenthesized hmore hname (Parser.grows_identifier _)
    "')' after parameters"
  apply AgreesAt.succ
  refine agreesAt_advance_bind hend (agrees_bind (agrees_identifier _) (fun name =>
    agrees_bind (agrees_expect _ _) fun _ => agrees_bind hlist fun params => ?_) _ hroom)
  split
  · exact agrees_bind (hbraced _) fun _ _ _ => agreesAt_pure _
  · exact fun _ _ => agreesAt_throw _

theorem agreesAt_alternatives (hinside : Parser.Grows inside) {rounds : List Located}
    {read : List Branch} {w : Walk} (hroom : maxNesting - w.depth = room)
    (hrounds : w.view.rest.length ≤ rounds.length) :
    AgreesAt true w (fun fuel => alternatives fuel read)
      (Parser.alternatives room inside rounds read) := by
  apply AgreesAt.succ
  induction rounds generalizing read w with
  | nil =>
      have hat : w.isAt (.keyword .elseWord) = false := by
        rw [Walk.isAt, Walk.token?_of_length hrounds]
        rfl
      refine (agreesAt_pure (read.reverse, none)).congr (fun fuel => ?_) rfl
      rw [alternatives, from?_bind_of_ok (from?_eat_of_not_isAt hat)]
      rfl
  | cons _ rounds ih =>
      rw [Parser.alternatives]
      refine agreesAt_bind (agrees_eat rfl w hroom) fun found w1 helse hdepth => ?_
      rw [← hdepth] at hroom
      rcases Parser.eat_eq_ok helse with ⟨rfl, htokens, _⟩ | ⟨rfl, _, _⟩
      · refine agreesAt_bind (agrees_eat rfl w1 hroom) fun found w2 hif hdepth => ?_
        rw [← hdepth] at hroom
        cases found with
        | true =>
            refine agreesAt_bind (agrees_guarded hbraced _ w2 hroom)
              fun branch w3 hbranch hdepth => ?_
            rw [← hdepth] at hroom
            have hword := Parser.length_rest_of_tokens htokens
            have hshorter := ((Parser.grows_eat _).of_ok hif).rest.length_le
            have hshorter' := ((Parser.grows_guarded room hinside _).of_ok hbranch).rest.length_le
            rw [List.length_cons] at hrounds
            exact (ih hroom (by omega)).succ
        | false =>
            exact agrees_bind (agrees_block hbraced _) (fun _ _ _ => agreesAt_pure _) w2 hroom
      · exact agreesAt_pure _

theorem agreesAt_choice (hinside : Parser.Grows inside) (hend : w.atEnd = false)
    (hroom : maxNesting - w.depth = room) :
    AgreesAt true w choice (Parser.choice room inside) := by
  apply AgreesAt.succ
  refine agreesAt_advance_bind hend ?_
  replace hroom : maxNesting - w.advance.depth = room := hroom
  refine agreesAt_bind (agrees_guarded hbraced "if" _ hroom) fun first w1 _ hdepth => ?_
  show AgreesAt true w1 _ (Parser.alternatives room inside w1.view.rest [first] >>= _)
  refine agreesAt_bind (agreesAt_alternatives hbraced hinside (hdepth ▸ hroom) (Nat.le_refl _)) ?_
  rintro ⟨branches, otherwise⟩ w2 _ _
  exact agreesAt_pure _

theorem agreesAt_loop (hend : w.atEnd = false) (hroom : maxNesting - w.depth = room) :
    AgreesAt true w loop (Parser.loop room inside) := by
  apply AgreesAt.succ
  exact agreesAt_advance_bind hend (agrees_bind (agrees_guarded hbraced "while")
    (fun _ _ _ => agreesAt_pure _) _ hroom)

theorem agrees_statementForm (hinside : Parser.Grows inside) :
    Agrees true room statement (Parser.statementForm room inside) := by
  intro w hroom
  apply AgreesAt.succ
  apply agreesAt_get
  rw [Walk.token?_view]
  cases htoken : w.token? with
  | none => exact agrees_assignmentOrExpression w hroom
  | some t =>
      have hend := Walk.atEnd_of_token? htoken
      cases t with
      | keyword word =>
          cases word with
          | varWord => exact agreesAt_declaration hend hroom
          | fnWord => exact agreesAt_function hbraced hend hroom
          | ifWord => exact agreesAt_choice hbraced hinside hend hroom
          | whileWord => exact agreesAt_loop hbraced hend hroom
          | returnWord => exact agreesAt_giveBack hend hroom
          | _ => exact agrees_assignmentOrExpression w hroom
      | symbol symbol =>
          cases symbol with
          | leftBrace =>
              exact agrees_bind (agrees_block hbraced _) (fun _ _ _ => agreesAt_pure _) w hroom
          | _ => exact agrees_assignmentOrExpression w hroom
      | _ => exact agrees_assignmentOrExpression w hroom

end Statements

theorem agrees_statement (room : Nat) : Agrees true room statement (Parser.statement room) := by
  induction room with
  | zero =>
      refine agrees_statementForm (fun context w hroom => AgreesAt.succ ?_) (Parser.grows_fail _)
      exact agrees_bind (agrees_expect _ _) (fun _ w hroom => agreesAt_nested_zero hroom _ _)
        w hroom
  | succ room ih =>
      have hstatements : Agrees true room (fun fuel => statementsFrom fuel [])
          (Parser.statements (Parser.statement room)) :=
        fun w hroom => agreesAt_statementsFrom ih (Parser.grows_statement room)
          (Parser.consumes_statement room) hroom (Nat.le_refl _)
      refine agrees_statementForm (fun context w hroom => AgreesAt.succ ?_)
        (Parser.grows_statements (Parser.grows_statement room))
      exact agrees_bind (agrees_expect _ _) (fun _ w hroom => agreesAt_nested_succ hroom _
        (agrees_bind hstatements fun body => agrees_bind (agrees_expect _ _) fun _ _ _ =>
          agreesAt_pure _)) w hroom

/-!
## Programs
-/

theorem from?_topLevelFrom_of_atEnd (fuel : Nat) (read : List Stmt) (h : w.atEnd = true) :
    (topLevelFrom (fuel + 1) read).from? w = (pure read.reverse : Walker (List Stmt)).from? w := by
  rw [topLevelFrom, from?_get_bind, if_pos h]

theorem agreesAt_topLevelFrom {rounds : List Located} {read : List Stmt} {w : Walk}
    (hroom : maxNesting - w.depth = maxNesting) (hrounds : w.view.rest.length ≤ rounds.length) :
    AgreesAt true w (fun fuel => topLevelFrom fuel read)
      (quiet (Parser.topLevelIn rounds read)) := by
  apply AgreesAt.succ
  induction rounds generalizing read w with
  | nil =>
      have hend := Walk.atEnd_of_length hrounds
      exact (agreesAt_pure read.reverse).congr
        (fun fuel => from?_topLevelFrom_of_atEnd fuel read hend) rfl
  | cons t rounds ih =>
      rw [List.length_cons] at hrounds
      by_cases hend : w.atEnd = true
      · refine (agreesAt_pure read.reverse).congr
          (fun fuel => from?_topLevelFrom_of_atEnd fuel read hend) ?_
        rw [quiet, Parser.topLevelIn, Walk.atEnd_view, if_pos hend]
        rfl
      · have hopen : w.atEnd = false := Bool.eq_false_iff.mpr hend
        cases hbrace : w.isAt (.symbol .rightBrace) with
        | true =>
            let e : SyntaxError := { span := w.span, fault := .unmatchedBrace }
            have hrecorded : w.Passes (w.record e) := .of_eq rfl rfl
            have hpasses := hrecorded.trans (Walk.passes_advance (w := w.record e) hopen)
            have hview : (w.record e).advance.view = (w.view.record e).advance :=
              Walk.view_advance (w := w.record e) hopen
            have hless : (w.record e).advance.view.rest.length ≤ rounds.length := by
              have hlength := hpasses.length_rest
              have hposition : (w.record e).advance.position = w.position + 1 := rfl
              omega
            have hrest : AgreesAt true (w.record e).advance (fun fuel => topLevelFrom fuel read)
                (quiet (Parser.topLevelIn rounds read)) :=
              (ih (w := (w.record e).advance) hroom hless).succ
            refine hrest.behind hpasses rfl (fun fuel => ?_) ?_
            · rw [topLevelFrom, from?_get_bind, if_neg hend, if_pos hbrace]
              rfl
            · rw [quiet, Parser.topLevelIn, Walk.atEnd_view, if_neg hend, Walk.isAt_view,
                if_pos hbrace, Walk.span_view, ← hview]
              rfl
        | false =>
            have hround : AgreesAt true w
                (fun fuel => recovering (statement fuel) fuel >>= fun parsed? =>
                  topLevelFrom fuel (parsed?.toList ++ read))
                (quiet (Parser.recovering (Parser.statement maxNesting)) >>= fun parsed? =>
                  quiet (Parser.topLevelIn rounds (parsed?.toList ++ read))) :=
              agreesAt_recovering_bind (agrees_statement maxNesting w hroom)
                (Parser.grows_statement maxNesting) (Parser.consumes_statement maxNesting) hopen
                fun _ w' hdepth hless => (ih (hdepth ▸ hroom) (by omega)).succ
            refine hround.congr (fun fuel => ?_) ?_
            · rw [topLevelFrom, from?_get_bind, if_neg hend, hbrace]
              rfl
            · rw [quiet, Parser.topLevelIn_round t rounds read ((w.isAt_view _).trans hbrace)
                (w.atEnd_view.trans hopen)]
              rfl

theorem agreesAt_program (hroom : maxNesting - w.depth = maxNesting) :
    AgreesAt true w program (quiet Parser.program) := by
  have htop : AgreesAt true w (fun fuel => topLevelFrom fuel [])
      (quiet (Parser.topLevelIn w.view.rest [])) :=
    agreesAt_topLevelFrom hroom (Nat.le_refl _)
  rcases htop with ⟨w1, hends, hview, hpasses, hdepth⟩
  cases htop : Parser.topLevelIn w.view.rest [] w.view with
  | mk parsed s =>
      rw [quiet, htop] at hends hview
      obtain rfl : w1.view = s := hview
      have hprogram : Parser.program w.view =
          if w1.errors.isEmpty then (.ok { statements := parsed }, w1.view)
          else (.error w1.errors.reverse, { w1.view with errors := [] }) := by
        rw [Parser.program, htop]
        rfl
      have hfinished : ∀ {result w2}, (finished parsed).from? w1 = some (.ok result, w2) ->
          Ends program w (.ok result) w2 :=
        fun h => hends.bind_ok (.of_eq h)
      unfold AgreesAt quiet
      rw [hprogram]
      by_cases hnone : w1.errors.isEmpty = true
      · rw [if_pos hnone]
        refine ⟨w1, hfinished ?_, rfl, hpasses, hdepth⟩
        rw [finished, from?_get_bind, if_pos hnone]
        rfl
      · rw [if_neg hnone]
        have hcleared : w1.Passes { w1 with errors := [] } := .of_eq rfl rfl
        refine ⟨{ w1 with errors := [] }, hfinished ?_, rfl, hpasses.trans hcleared, hdepth⟩
        rw [finished, from?_get_bind, if_neg hnone]
        rfl

theorem ends_program_of_atEnd (hend : w.atEnd = true) (herrors : w.errors = []) :
    Ends program w (.ok (.ok { statements := [] })) w := by
  have htop : Ends (fun fuel => topLevelFrom fuel []) w (.ok []) w :=
    .succ ⟨0, fun fuel _ => from?_topLevelFrom_of_atEnd fuel [] hend⟩
  refine htop.bind_ok (.of_eq ?_)
  rw [finished, from?_get_bind, herrors]
  rfl

/-!
## Termination
-/

/-- Parsing with recovery ends and gets on.  Wherever a walk is, a statement ends
with the outcome of the parser and with as many levels open as before, whether it
is accepted or not.  So does one behind which the walk recovers, and if the input
is not used up that takes the walk further.  Neither passes a token that is not
there or the end of the input.  A whole program ends, whatever the tokens are,
with the outcome of the parser; and whoever asks for another one gets the empty
program, each time. -/
theorem parsing_terminates :
    (∀ w : Walk, ∃ w',
      Ends statement w (outcome (Parser.statement (maxNesting - w.depth) w.view)) w' ∧
        w'.view = Parser.finalState (Parser.statement (maxNesting - w.depth) w.view) ∧
        w'.depth = w.depth ∧ w.Passes w') ∧
    (∀ w : Walk, w.atEnd = false -> ∃ parsed? w',
      Ends (fun fuel => recovering (statement fuel) fuel) w (.ok parsed?) w' ∧
        Parser.recovering (Parser.statement (maxNesting - w.depth)) w.view = (parsed?, w'.view) ∧
        w.position < w'.position ∧ w'.depth = w.depth ∧ w.Passes w') ∧
    ∀ tokens : List Located, ∃ w,
      Ends program (.ofTokens tokens) (.ok (Program.ofTokens tokens)) w ∧
        w.view = (Parser.program (.ofTokens tokens)).2 ∧
        w.tokens = (Walk.ofTokens tokens).tokens ∧ w.InBounds ∧ w.depth = 0 ∧
        Ends program w (.ok (.ok { statements := [] })) w ∧
        Parser.program w.view = (.ok { statements := [] }, w.view) := by
  refine ⟨?_, ?_, ?_⟩
  · intro w
    rcases agrees_statement _ w rfl with ⟨w', hends, hview, hpasses, hdepth⟩
    exact ⟨w', hends, hview, hdepth rfl, hpasses⟩
  · intro w hend
    rcases agreesAt_recovering (agrees_statement _ w rfl) with ⟨w', hends, hview, hpasses, hdepth⟩
    refine ⟨_, w', hends, Prod.ext rfl hview.symm, ?_, hdepth rfl, hpasses⟩
    have hless := Parser.length_rest_recovering (Parser.grows_statement (maxNesting - w.depth))
      (Parser.consumes_statement _) (w.atEnd_view.trans hend)
    have hview' : w'.view = (Parser.recovering (Parser.statement _) w.view).2 := hview
    rw [← hview'] at hless
    have hlength := hpasses.length_rest
    omega
  · intro tokens
    rcases agreesAt_program (w := .ofTokens tokens) rfl with ⟨w, hends, hview, hpasses, hdepth⟩
    have hview' : w.view = (Parser.program (.ofTokens tokens)).2 := hview
    rcases Parser.program_ends (.ofTokens tokens) with ⟨hend, herrors⟩
    rw [← hview'] at hend herrors
    exact ⟨w, hends, hview', hpasses.tokens, hpasses.inBounds rfl, hdepth rfl,
      ends_program_of_atEnd (w.atEnd_view.symm.trans hend) herrors,
      Parser.program_of_atEnd hend herrors⟩

/-- The tokens go on behind the end of the input, which stands inside a block. -/
theorem parsing_terminates_inside_block :
    let tokens : List Located :=
      [⟨.symbol .leftBrace, ⟨1, 1⟩⟩, ⟨.keyword .fnWord, ⟨1, 2⟩⟩, ⟨.endOfInput, ⟨1, 4⟩⟩,
        ⟨.symbol .rightBrace, ⟨1, 5⟩⟩]
    ∃ w,
      Ends program (.ofTokens tokens) (.ok (.error
        [⟨⟨1, 4⟩, .expected "function name after 'fn'" none⟩,
          ⟨⟨1, 4⟩, .expected "'\x7d' to close block" none⟩])) w ∧
        w.position ≤ 2 ∧ w.depth = 0 ∧ Ends program w (.ok (.ok { statements := [] })) w := by
  intro tokens
  rcases parsing_terminates.2.2 tokens with ⟨w, hends, _, htokens, hbounds, hdepth, hagain, _⟩
  have hend : w.tokens[2]? = some ⟨.endOfInput, ⟨1, 4⟩⟩ := by
    rw [htokens]
    rfl
  exact ⟨w, hends, hbounds.endOfInput 2 _ hend rfl, hdepth, hagain⟩

end Walker
end StackScript
