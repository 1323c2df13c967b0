import Mathlib.Data.List.Forall2

/-!
# Outcomes

How a computation that can fail succeeds: all of its steps did.  And how it
fails: one of its steps did.
-/

namespace StackScript

variable {ε ε' α β : Type}

theorem bind_eq_ok_iff {step : Except ε α} {next : α -> Except ε β} {y : β} :
    (step >>= next) = .ok y ↔ ∃ x, step = .ok x ∧ next x = .ok y := by
  cases step with
  | ok x =>
      show next x = .ok y ↔ _
      simp
  | error e =>
      show Except.error e = .ok y ↔ _
      simp

theorem bind_eq_error_iff {step : Except ε α} {next : α -> Except ε β} {e : ε} :
    (step >>= next) = .error e ↔ step = .error e ∨ ∃ x, step = .ok x ∧ next x = .error e := by
  cases step with
  | ok x =>
      show next x = .error e ↔ _
      simp
  | error e' =>
      show Except.error e' = .error e ↔ _
      simp

theorem pure_eq_ok_iff {x y : α} : (pure x : Except ε α) = .ok y ↔ x = y := by
  show Except.ok x = .ok y ↔ _
  simp

theorem map_eq_ok_iff {step : Except ε α} {f : α -> β} {y : β} :
    step.map f = .ok y ↔ ∃ x, step = .ok x ∧ f x = y := by
  cases step <;> simp [Except.map]

theorem map_bind_eq {γ : Type} {step : Except ε α} {next : α -> Except ε β} {f : β -> γ} :
    (step >>= next).map f = step >>= fun x => (next x).map f := by
  cases step <;> rfl

theorem mapError_eq_ok_iff {step : Except ε α} {f : ε -> ε'} {x : α} :
    step.mapError f = .ok x ↔ step = .ok x := by
  cases step <;> simp [Except.mapError]

theorem bind_mapError {step step' : Except ε α} {next next' : α -> Except ε β} {f : ε -> ε}
    (hstep : step' = step.mapError f) (hnext : ∀ x, next' x = (next x).mapError f) :
    step' >>= next' = (step >>= next).mapError f := by
  rw [hstep]
  cases step with
  | ok x => exact hnext x
  | error e => rfl

theorem stateBind_eq_ok_iff {σ : Type} {step : EStateM ε σ α} {next : α -> EStateM ε σ β}
    {s s'' : σ} {y : β} :
    (step >>= next) s = .ok y s'' ↔ ∃ x s', step s = .ok x s' ∧ next x s' = .ok y s'' := by
  show EStateM.bind step next s = _ ↔ _
  unfold EStateM.bind
  cases hstep : step s with
  | ok x s1 => simp
  | error e s1 => simp

theorem toOption_eq_some_iff {step : Except ε α} {x : α} :
    step.toOption = some x ↔ step = .ok x := by
  cases step <;> simp [Except.toOption]

theorem exists_ok_of_map {step : Except ε α} (f : α -> β) {y : β} {P : α -> Prop}
    (h : step.toOption.map f = some y) (hP : ∀ x, step = .ok x -> f x = y -> P x) :
    ∃ x, step = .ok x ∧ P x := by
  cases step with
  | ok x => exact ⟨x, rfl, hP x rfl (Option.some.inj h)⟩
  | error e => cases h

theorem mapM_eq_ok_iff {f : α -> Except ε β} {xs : List α} {ys : List β} :
    xs.mapM f = .ok ys ↔ List.Forall₂ (fun x y => f x = .ok y) xs ys := by
  induction xs generalizing ys with
  | nil =>
      rw [List.mapM_nil, pure_eq_ok_iff, List.forall₂_nil_left_iff]
      exact eq_comm
  | cons x rest ih =>
      simp only [List.mapM_cons, bind_eq_ok_iff, pure_eq_ok_iff, ih, List.forall₂_cons_left_iff]
      constructor
      · rintro ⟨y, hy, others, hothers, rfl⟩
        exact ⟨y, others, hy, hothers, rfl⟩
      · rintro ⟨y, others, hy, hothers, rfl⟩
        exact ⟨y, hy, others, hothers, rfl⟩

theorem forall₂_compose {γ : Type} {R : α -> β -> Prop} {S : β -> γ -> Prop} {T : α -> γ -> Prop}
    {xs : List α} {ys : List β} {zs : List γ} (hcompose : ∀ x y z, R x y -> S y z -> T x z)
    (hxy : List.Forall₂ R xs ys) (hyz : List.Forall₂ S ys zs) : List.Forall₂ T xs zs := by
  induction hxy generalizing zs with
  | nil =>
      cases hyz
      exact .nil
  | cons hhead _ ih =>
      cases hyz with
      | cons hhead' htail => exact .cons (hcompose _ _ _ hhead hhead') (ih htail)

theorem forall₂_mem_left {R : α -> β -> Prop} {xs : List α} {ys : List β}
    (h : List.Forall₂ R xs ys) {x : α} (hx : x ∈ xs) : ∃ y ∈ ys, R x y := by
  induction h with
  | nil => cases hx
  | cons hhead _ ih =>
      cases hx with
      | head => exact ⟨_, List.mem_cons_self, hhead⟩
      | tail _ hrest =>
          rcases ih hrest with ⟨y, hy, hxy⟩
          exact ⟨y, List.mem_cons_of_mem _ hy, hxy⟩

theorem forall₂_mem_right {R : α -> β -> Prop} {xs : List α} {ys : List β}
    (h : List.Forall₂ R xs ys) {y : β} (hy : y ∈ ys) : ∃ x ∈ xs, R x y := by
  rcases forall₂_mem_left h.flip hy with ⟨x, hx, hxy⟩
  exact ⟨x, hx, hxy⟩

theorem forall₂_getElem? {R : α -> β -> Prop} {xs : List α} {ys : List β}
    (h : List.Forall₂ R xs ys) {i : Nat} {x : α} (hx : xs[i]? = some x) :
    ∃ y, ys[i]? = some y ∧ R x y := by
  rcases List.getElem?_eq_some_iff.mp hx with ⟨hlt, rfl⟩
  have hlt' : i < ys.length := h.length_eq ▸ hlt
  exact ⟨ys[i], List.getElem?_eq_getElem hlt', h.get hlt hlt'⟩

theorem exists_forall₂_iff {R : α -> β -> Prop} {xs : List α} :
    (∃ ys, List.Forall₂ R xs ys) ↔ ∀ x ∈ xs, ∃ y, R x y := by
  induction xs with
  | nil => exact ⟨fun _ => List.forall_mem_nil _, fun _ => ⟨[], .nil⟩⟩
  | cons x rest ih =>
      rw [List.forall_mem_cons, ← ih]
      constructor
      · rintro ⟨_, hall⟩
        cases hall with
        | cons hfirst hrest => exact ⟨⟨_, hfirst⟩, _, hrest⟩
      · rintro ⟨⟨y, hfirst⟩, ys, hrest⟩
        exact ⟨y :: ys, .cons hfirst hrest⟩

theorem forall₂_append_left {R : α -> β -> Prop} {xs xs' : List α} {ys : List β}
    (h : List.Forall₂ R (xs ++ xs') ys) :
    ∃ zs zs', ys = zs ++ zs' ∧ List.Forall₂ R xs zs ∧ List.Forall₂ R xs' zs' := by
  induction xs generalizing ys with
  | nil => exact ⟨[], ys, rfl, .nil, h⟩
  | cons x rest ih =>
      rcases List.forall₂_cons_left_iff.mp h with ⟨y, others, hfirst, hrest, rfl⟩
      rcases ih hrest with ⟨zs, zs', rfl, hzs, hzs'⟩
      exact ⟨y :: zs, zs', rfl, .cons hfirst hzs, hzs'⟩

theorem forall₂_isPrefix {R : α -> β -> Prop} (hfunction : ∀ x y y', R x y -> R x y' -> y = y')
    {xs xs' : List α} {ys ys' : List β} (hfront : xs <+: xs') (h : List.Forall₂ R xs ys)
    (h' : List.Forall₂ R xs' ys') : ys <+: ys' := by
  rcases hfront with ⟨more, rfl⟩
  rcases forall₂_append_left h' with ⟨zs, zs', rfl, hzs, _⟩
  have hsame : List.Forall₂ (· = ·) ys zs :=
    forall₂_compose (fun y x z hy hz => hfunction x y z hy hz) h.flip hzs
  rw [List.forall₂_eq_eq_eq] at hsame
  rw [hsame]
  exact List.prefix_append zs zs'

/-!
## Lasting results
-/

def Persists (step step' : Except ε α) : Prop :=
  ∀ x, step = .ok x -> step' = .ok x

namespace Persists

theorem refl (step : Except ε α) : Persists step step :=
  fun _ h => h

theorem of_error (e : ε) (step' : Except ε α) : Persists (.error e) step' := by
  intro x h
  cases h

theorem bind {step step' : Except ε α} {next next' : α -> Except ε β} (h : Persists step step')
    (hnext : ∀ x, Persists (next x) (next' x)) : Persists (step >>= next) (step' >>= next') := by
  intro y hy
  rcases bind_eq_ok_iff.mp hy with ⟨x, hx, hnext'⟩
  exact bind_eq_ok_iff.mpr ⟨x, h x hx, hnext x y hnext'⟩

theorem map {step step' : Except ε α} (h : Persists step step') (f : α -> β) :
    Persists (step.map f) (step'.map f) := by
  intro y hy
  rcases map_eq_ok_iff.mp hy with ⟨x, hx, rfl⟩
  exact map_eq_ok_iff.mpr ⟨x, h x hx, rfl⟩

theorem mapM {f f' : α -> Except ε β} (h : ∀ x, Persists (f x) (f' x)) (xs : List α) :
    Persists (xs.mapM f) (xs.mapM f') := by
  intro ys hys
  rw [mapM_eq_ok_iff] at hys ⊢
  exact hys.imp fun x y hxy => h x y hxy

theorem mapM_isPrefix {f f' : α -> Except ε β} (h : ∀ x, Persists (f x) (f' x)) {xs xs' : List α}
    {ys ys' : List β} (hfront : xs <+: xs') (hys : xs.mapM f = .ok ys)
    (hys' : xs'.mapM f' = .ok ys') : ys <+: ys' := by
  have hys := mapM h xs ys hys
  rw [mapM_eq_ok_iff] at hys hys'
  apply forall₂_isPrefix _ hfront hys hys'
  intro x y y' hy hy'
  rw [hy] at hy'
  exact Except.ok.inj hy'

end Persists

/-!
## The first fault
-/

def fault? : Except ε α -> Option ε
  | .ok _ => none
  | .error e => some e

theorem fault?_eq_some_iff {step : Except ε α} {e : ε} :
    fault? step = some e ↔ step = .error e := by
  cases step <;> simp [fault?]

theorem fault?_eq_none_iff {step : Except ε α} : fault? step = none ↔ ∃ x, step = .ok x := by
  cases step <;> simp [fault?]

theorem fault?_map {step : Except ε α} {f : α -> β} : fault? (step.map f) = fault? step := by
  cases step <;> rfl

theorem fault?_bind_pure {step : Except ε α} {f : α -> β} :
    fault? (step >>= fun x => pure (f x)) = fault? step := by
  cases step <;> rfl

theorem fault?_bind_congr {γ δ : Type} {step : Except ε α} {step' : Except ε β}
    {next : α -> Except ε γ} {next' : β -> Except ε δ} (hstep : fault? step = fault? step')
    (hnext : ∀ x y, step = .ok x -> step' = .ok y -> fault? (next x) = fault? (next' y)) :
    fault? (step >>= next) = fault? (step' >>= next') := by
  cases step with
  | error e =>
      cases step' with
      | error e' => exact hstep
      | ok y => cases hstep
  | ok x =>
      cases step' with
      | error e' => cases hstep
      | ok y => exact hnext x y rfl rfl

/-- A list of computations fails as the first of them that does. -/
theorem fault?_mapM_cons {f : α -> Except ε β} {x : α} {rest : List α} :
    fault? ((x :: rest).mapM f) = (fault? (f x)).or (fault? (rest.mapM f)) := by
  rw [List.mapM_cons]
  cases f x with
  | error e => rfl
  | ok y => exact fault?_bind_pure

theorem fault?_mapM_congr {γ : Type} {f : α -> Except ε β} {g : α -> Except ε γ} {xs : List α}
    (h : ∀ x ∈ xs, fault? (f x) = fault? (g x)) :
    fault? (xs.mapM f) = fault? (xs.mapM g) := by
  induction xs with
  | nil => rfl
  | cons x rest ih =>
      rw [List.forall_mem_cons] at h
      rw [fault?_mapM_cons, fault?_mapM_cons, h.1, ih h.2]

/-!
## Both outcomes
-/

/-- The computation has a result of one kind or an error of another. -/
def Ends (step : Except ε α) (Fault : ε -> Prop) (Result : α -> Prop) : Prop :=
  match step with
  | .ok x => Result x
  | .error e => Fault e

namespace Ends

variable {Fault : ε -> Prop} {Result : α -> Prop} {step : Except ε α}

theorem of_ok {x : α} (h : step = .ok x) (hx : Result x) : Ends step Fault Result := by
  rw [h]
  exact hx

theorem of_error {e : ε} (h : step = .error e) (he : Fault e) : Ends step Fault Result := by
  rw [h]
  exact he

theorem fault {e : ε} (h : Ends step Fault Result) (he : step = .error e) : Fault e := by
  rw [he] at h
  exact h

theorem imp {Fault' : ε -> Prop} {Result' : α -> Prop} (h : Ends step Fault Result)
    (hfault : ∀ e, Fault e -> Fault' e) (hresult : ∀ x, Result x -> Result' x) :
    Ends step Fault' Result' := by
  cases step with
  | ok x => exact hresult x h
  | error e => exact hfault e h

theorem bind {Result' : β -> Prop} {next : α -> Except ε β} (h : Ends step Fault Result)
    (hnext : ∀ x, step = .ok x -> Result x -> Ends (next x) Fault Result') :
    Ends (step >>= next) Fault Result' := by
  cases step with
  | ok x => exact hnext x rfl h
  | error e => exact h

theorem mapError {f : ε -> ε'} {Fault' : ε' -> Prop} (h : Ends step Fault Result)
    (hfault : ∀ e, Fault e -> Fault' (f e)) : Ends (step.mapError f) Fault' Result := by
  cases step with
  | ok x => exact h
  | error e => exact hfault e h

theorem map {Result' : β -> Prop} {f : α -> β} (h : Ends step Fault Result)
    (hresult : ∀ x, Result x -> Result' (f x)) : Ends (step.map f) Fault Result' := by
  cases step with
  | ok x => exact hresult x h
  | error e => exact h

theorem ite {condition : Prop} [Decidable condition] {other : Except ε α}
    (h : condition -> Ends step Fault Result) (hother : ¬ condition -> Ends other Fault Result) :
    Ends (if condition then step else other) Fault Result := by
  by_cases hcondition : condition
  · rw [if_pos hcondition]
    exact h hcondition
  · rw [if_neg hcondition]
    exact hother hcondition

theorem mapM {f : α -> Except ε β} {Result : β -> Prop} {xs : List α}
    (h : ∀ x ∈ xs, Ends (f x) Fault Result) :
    Ends (xs.mapM f) Fault fun ys => ∀ y ∈ ys, Result y := by
  induction xs with
  | nil => exact List.forall_mem_nil _
  | cons x rest ih =>
      rw [List.forall_mem_cons] at h
      rw [List.mapM_cons]
      refine h.1.bind fun y _ hy => ?_
      refine (ih h.2).bind fun ys _ hys => ?_
      exact List.forall_mem_cons.mpr ⟨hy, hys⟩

end Ends
end StackScript
