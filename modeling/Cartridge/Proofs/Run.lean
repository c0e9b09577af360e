import Cartridge.Run

/-!
# What a run keeps

A run that leaves a part of the state as it was does so whether it ends or is stopped. The part is
given by a view of the state; runs put together keep what each of them keeps.

* `bind_apply`, `bind_assoc`, `bind_eq_ok`, `bind_cases`: a run and another that knows its value.
* `Keeps`: a run leaves a part of the state as it was.
* `Preserves`: a run keeps to an invariant of the state.
* `Spares`: a run leaves a part of the state as it was if it is stopped for certain reasons.
* `Alike`: two runs that a view of the state does not tell apart.
* `Carried`: a run on changed states.
* `Matched`: two runs, from states in a relation to states in another.
-/

namespace Cartridge.Run

variable {σ τ υ ε α β : Type}

theorem bind_apply (x : Run σ ε α) (f : α → Run σ ε β) (s : σ) :
    (x >>= f) s = match x s with
      | (.ok a, s') => f a s'
      | (.error e, s') => (.error e, s') := rfl

theorem ofExcept_bind (r : Except ε α) (f : α → Run σ ε β) (s : σ) :
    (ofExcept r >>= f) s = match r with
      | .ok a => f a s
      | .error e => (.error e, s) := by
  cases r <;> rfl

theorem bind_assoc {γ : Type} (x : Run σ ε α) (f : α → Run σ ε β) (g : β → Run σ ε γ) :
    x >>= f >>= g = x >>= fun a => f a >>= g := by
  funext s
  rw [bind_apply, bind_apply, bind_apply]
  obtain ⟨r, s'⟩ := x s
  cases r <;> rfl

theorem bind_done (x : Run σ ε Unit) : (x >>= fun _ => done ()) = x := by
  funext s
  rw [bind_apply]
  obtain ⟨r, s'⟩ := x s
  cases r <;> rfl

/-- A run put together of two ends only if the first does and the second does from there. -/
theorem bind_eq_ok {x : Run σ ε α} {f : α → Run σ ε β} {s s'' : σ} {b : β}
    (h : (x >>= f) s = (.ok b, s'')) : ∃ a s', x s = (.ok a, s') ∧ f a s' = (.ok b, s'') := by
  rw [bind_apply] at h
  cases hx : x s with
  | mk r s' =>
    rw [hx] at h
    cases r with
    | ok a => exact ⟨a, s', rfl, h⟩
    | error e => cases h

/-- A run put together is stopped with the first one, or the second one goes on from there. -/
theorem bind_cases {x : Run σ ε α} {f : α → Run σ ε β} {s s'' : σ} {r : Except ε β}
    (h : (x >>= f) s = (r, s'')) : (∃ e, x s = (.error e, s'') ∧ r = .error e) ∨
      ∃ a s', x s = (.ok a, s') ∧ f a s' = (r, s'') := by
  rw [bind_apply] at h
  cases hx : x s with
  | mk first s' =>
    rw [hx] at h
    cases first with
    | ok a => exact .inr ⟨a, s', rfl, h⟩
    | error e =>
      cases h
      exact .inl ⟨e, rfl, rfl⟩

theorem mapError_eq_ok {ε' : Type} {f : ε → ε'} {x : Run σ ε α} {s s' : σ} {a : α}
    (h : mapError f x s = (.ok a, s')) : x s = (.ok a, s') := by
  unfold mapError at h
  cases hx : x s with
  | mk r t =>
    rw [hx] at h
    cases r with
    | ok b =>
      cases h
      rfl
    | error e => cases h

theorem attempt_bind {x : Run σ ε α} {f : Except ε α → Run σ ε β} {s s'' : σ} {r : Except ε β}
    (h : (attempt x >>= f) s = (r, s'')) :
    ∃ first s', x s = (first, s') ∧ f first s' = (r, s'') := ⟨_, _, rfl, h⟩

/-- The run leaves a part of the state as it was. -/
def Keeps (view : σ → τ) (x : Run σ ε α) : Prop := ∀ s, view (x s).2 = view s

namespace Keeps

variable {view : σ → τ}

theorem done (a : α) : Keeps view (done a : Run σ ε α) := fun _ => rfl

theorem pure (a : α) : Keeps view (Pure.pure a : Run σ ε α) := fun _ => rfl

theorem stop (e : ε) : Keeps view (stop e : Run σ ε α) := fun _ => rfl

theorem get : Keeps view (get : Run σ ε σ) := fun _ => rfl

theorem ofExcept (r : Except ε α) : Keeps view (ofExcept r) := fun _ => rfl

theorem update {f : σ → σ} (h : ∀ s, view (f s) = view s) :
    Keeps view (update f : Run σ ε Unit) := h

theorem bind {x : Run σ ε α} {f : α → Run σ ε β} (hx : Keeps view x)
    (hf : ∀ a, Keeps view (f a)) : Keeps view (x >>= f) := by
  intro s
  rw [bind_apply]
  cases h : x s with
  | mk r s' =>
    have hview : view s' = view s := by rw [← hx s, h]
    cases r with
    | ok a => exact (hf a s').trans hview
    | error e => exact hview

theorem attempt {x : Run σ ε α} (h : Keeps view x) : Keeps view (attempt x) := fun s => h s

theorem on {part : τ → σ} {put : σ → τ → τ} {x : Run σ ε α} {view : τ → υ}
    (h : ∀ s t, view (put s t) = view t) : Keeps view (on part put x) := fun t => h _ t

end Keeps

/-- The run keeps to an invariant of the state. -/
def Preserves (I : σ → Prop) (x : Run σ ε α) : Prop := ∀ s, I s → I (x s).2

namespace Preserves

variable {I : σ → Prop}

theorem of_keeps {view : σ → τ} {J : τ → Prop} {x : Run σ ε α} (h : Keeps view x)
    (hI : ∀ s, I s ↔ J (view s)) : Preserves I x := by
  intro s hs
  rw [hI, h s]
  exact (hI s).mp hs

theorem bind {x : Run σ ε α} {f : α → Run σ ε β} (hx : Preserves I x)
    (hf : ∀ a, Preserves I (f a)) : Preserves I (x >>= f) := by
  intro s hs
  rw [bind_apply]
  have hmiddle := hx s hs
  generalize x s = first at hmiddle
  obtain ⟨result, s'⟩ := first
  cases result with
  | ok a => exact hf a s' hmiddle
  | error e => exact hmiddle

end Preserves

/-- The run is never stopped for certain reasons. -/
def Never (why : ε → Prop) (x : Run σ ε α) : Prop := ∀ s s' e, x s = (.error e, s') → ¬ why e

/-- The run leaves a part of the state as it was if it is stopped for certain reasons. -/
def Spares (why : ε → Prop) (view : σ → τ) (x : Run σ ε α) : Prop :=
  ∀ s s' e, x s = (.error e, s') → why e → view s' = view s

variable {why : ε → Prop} {view : σ → τ}

namespace Never

theorem of_ok {x : Run σ ε α} (h : ∀ s, ∃ a, (x s).1 = .ok a) : Never why x := by
  intro s s' e hx
  obtain ⟨a, ha⟩ := h s
  rw [hx] at ha
  cases ha

theorem bind {x : Run σ ε α} {f : α → Run σ ε β} (hx : Never why x) (hf : ∀ a, Never why (f a)) :
    Never why (x >>= f) := by
  intro s s'' e h
  rw [bind_apply] at h
  generalize hfirst : x s = first at h
  obtain ⟨result, s'⟩ := first
  cases result with
  | ok a => exact hf a s' s'' e h
  | error e' =>
    cases h
    exact hx s _ _ hfirst

end Never

namespace Spares

theorem of_keeps {x : Run σ ε α} (h : Keeps view x) : Spares why view x := by
  intro s s' e hx _
  rw [← h s, hx]

theorem of_never {x : Run σ ε α} (h : Never why x) : Spares why view x :=
  fun s s' e hx he => absurd he (h s s' e hx)

/-- A run that keeps the part whatever comes of it may go first. -/
theorem bind {x : Run σ ε α} {f : α → Run σ ε β} (hx : Keeps view x)
    (hf : ∀ a, Spares why view (f a)) : Spares why view (x >>= f) := by
  intro s s'' e h he
  rw [bind_apply] at h
  have hview := hx s
  generalize x s = first at h hview
  obtain ⟨result, s'⟩ := first
  cases result with
  | ok a => exact (hf a s' s'' e h he).trans hview
  | error e' =>
    cases h
    exact hview

end Spares

/-! ## Runs side by side -/

/-- Where a view does not tell two states apart, two runs end in the same way, and it does not tell
apart what they leave. -/
def Alike (view : σ → τ) (x y : Run σ ε α) : Prop :=
  ∀ s s', view s = view s' → (x s).1 = (y s').1 ∧ view (x s).2 = view (y s').2

namespace Alike

theorem ofExcept (r : Except ε α) : Alike view (ofExcept r) (ofExcept r) :=
  fun _ _ h => ⟨rfl, h⟩

theorem update {f g : σ → σ} (h : ∀ s s', view s = view s' → view (f s) = view (g s')) :
    Alike view (update f : Run σ ε Unit) (update g) := fun s s' hview => ⟨rfl, h s s' hview⟩

theorem bind {x y : Run σ ε α} {f g : α → Run σ ε β} (hx : Alike view x y)
    (hf : ∀ a, Alike view (f a) (g a)) : Alike view (x >>= f) (y >>= g) := by
  intro s s' h
  obtain ⟨hresult, hafter⟩ := hx s s' h
  rw [bind_apply, bind_apply]
  generalize x s = first at hresult hafter
  generalize y s' = second at hresult hafter
  obtain ⟨result, after⟩ := first
  obtain ⟨result', after'⟩ := second
  obtain rfl : result = result' := hresult
  cases result with
  | ok a => exact hf a after after' hafter
  | error e => exact ⟨rfl, hafter⟩

theorem mapError {ε' : Type} {x y : Run σ ε α} (f : ε → ε') (h : Alike view x y) :
    Alike view (mapError f x) (mapError f y) := by
  intro s s' hview
  obtain ⟨hresult, hafter⟩ := h s s' hview
  exact ⟨congrArg (Except.mapError f) hresult, hafter⟩

theorem symm {x y : Run σ ε α} (h : Alike view x y) : Alike view y x := by
  intro s s' hview
  obtain ⟨hresult, hafter⟩ := h s' s hview.symm
  exact ⟨hresult.symm, hafter.symm⟩

theorem trans {x y z : Run σ ε α} (h : Alike view x y) (h' : Alike view y z) : Alike view x z := by
  intro s s' hview
  obtain ⟨hresult, hafter⟩ := h s s' hview
  obtain ⟨hresult', hafter'⟩ := h' s' s' rfl
  exact ⟨hresult.trans hresult', hafter.trans hafter'⟩

end Alike

/-- A run does to changed states what another does to the states themselves. The values may be
changed as well. -/
def Carried (f : σ → τ) (g : α → β) (x : Run σ ε α) (y : Run τ ε β) : Prop :=
  ∀ s, y (f s) = ((x s).1.map g, f (x s).2)

namespace Carried

variable {γ δ : Type} {f : σ → τ} {g : α → β} {h : γ → δ} {x : Run σ ε α} {y : Run τ ε β}

theorem done (a : α) : Carried f g (done a : Run σ ε α) (done (g a)) := fun _ => rfl

theorem stop (e : ε) : Carried f g (stop e) (stop e) := fun _ => rfl

theorem get : Carried f f (get : Run σ ε σ) get := fun _ => rfl

theorem ofExcept (r : Except ε α) : Carried f id (ofExcept r) (ofExcept r) := by
  intro s
  cases r <;> rfl

theorem update {change : σ → σ} {change' : τ → τ} (h : ∀ s, change' (f s) = f (change s)) :
    Carried f id (update change : Run σ ε Unit) (update change') := fun s => Prod.ext rfl (h s)

theorem bind {k : α → Run σ ε γ} {k' : β → Run τ ε δ} (hx : Carried f g x y)
    (hk : ∀ a, Carried f h (k a) (k' (g a))) : Carried f h (x >>= k) (y >>= k') := by
  intro s
  rw [bind_apply, bind_apply, hx s]
  obtain ⟨r, s'⟩ := x s
  cases r with
  | ok a => exact hk a s'
  | error e => rfl

theorem attempt (hx : Carried f g x y) : Carried f (Except.map g) (attempt x) (attempt y) := by
  intro s
  show (Except.ok (y (f s)).1, (y (f s)).2) = _
  rw [hx s]
  rfl

theorem each {k : α → Run σ ε γ} {k' : α → Run τ ε δ} (hk : ∀ a, Carried f h (k a) (k' a))
    (items : List α) : Carried f (List.map h) (each k items) (each k' items) := by
  induction items with
  | nil => exact fun _ => rfl
  | cons a rest ih =>
    exact (hk a).bind fun b => ih.bind fun bs => .done (b :: bs)

theorem ite {c : Prop} [Decidable c] {x' : Run σ ε α} {y' : Run τ ε β} (hx : Carried f g x y)
    (hx' : Carried f g x' y') : Carried f g (if c then x else x') (if c then y else y') := by
  split
  · exact hx
  · exact hx'

end Carried

variable {γ δ : Type}

/-- Results that are the same once their values are changed have values that come to the same, or
are one failure. -/
theorem map_eq_map {r : Except ε α} {r' : Except ε β} {f : α → γ} {g : β → γ}
    (h : r.map f = r'.map g) :
    (∃ a b, r = .ok a ∧ r' = .ok b ∧ f a = g b) ∨ ∃ e, r = .error e ∧ r' = .error e := by
  cases r with
  | ok a =>
    cases r' with
    | ok b => exact .inl ⟨a, b, rfl, rfl, Except.ok.inj h⟩
    | error e => cases h
  | error e =>
    cases r' with
    | ok b => cases h
    | error e' => exact .inr ⟨e, rfl, by rw [Except.error.inj h]⟩

/-- What comes of two runs: both end, with values and states in relations, or both are stopped for
one reason, with states in another relation. -/
inductive Paired (E : σ → τ → Prop) (A : α → β → Prop) (Q : σ → τ → Prop) :
    Except ε α × σ → Except ε β × τ → Prop
  | ok {a : α} {b : β} {s : σ} {t : τ} (value : A a b) (state : Q s t) :
    Paired E A Q (.ok a, s) (.ok b, t)
  | error {e : ε} {s : σ} {t : τ} (state : E s t) : Paired E A Q (.error e, s) (.error e, t)

/-- From states in a relation two runs come to the same, up to relations. -/
def Matched (E P : σ → τ → Prop) (A : α → β → Prop) (Q : σ → τ → Prop) (x : Run σ ε α)
    (y : Run τ ε β) : Prop := ∀ s t, P s t → Paired E A Q (x s) (y t)

theorem Paired.bind {E P Q : σ → τ → Prop} {A : α → β → Prop} {B : γ → δ → Prop}
    {x : Run σ ε α} {y : Run τ ε β} {f : α → Run σ ε γ} {g : β → Run τ ε δ} {s : σ} {t : τ}
    (hfirst : Paired E A P (x s) (y t)) (hf : ∀ a b, A a b → Matched E P B Q (f a) (g b)) :
    Paired E B Q ((x >>= f) s) ((y >>= g) t) := by
  rw [bind_apply, bind_apply]
  generalize x s = first at hfirst
  generalize y t = second at hfirst
  cases hfirst with
  | ok hvalue hstate => exact hf _ _ hvalue _ _ hstate
  | error hstate => exact .error hstate

namespace Matched

variable {E P Q S : σ → τ → Prop} {A : α → β → Prop} {B : γ → δ → Prop} {x : Run σ ε α}
  {y : Run τ ε β}

theorem done {a : α} {b : β} (h : A a b) :
    Matched E P A P (done a : Run σ ε α) (done b) := fun _ _ hP => .ok h hP

theorem stop (h : ∀ s t, P s t → E s t) (e : ε) :
    Matched E P A Q (stop e : Run σ ε α) (stop e : Run τ ε β) := fun s t hP => .error (h s t hP)

theorem bind {f : α → Run σ ε γ} {g : β → Run τ ε δ} (hx : Matched E P A Q x y)
    (hf : ∀ a b, A a b → Matched E Q B S (f a) (g b)) : Matched E P B S (x >>= f) (y >>= g) :=
  fun s t hP => (hx s t hP).bind hf

/-- Runs that look at their states first. -/
theorem get_bind {f : σ → Run σ ε γ} {g : τ → Run τ ε δ}
    (h : ∀ s t, P s t → Matched E P B S (f s) (g t)) : Matched E P B S (get >>= f) (get >>= g) :=
  fun s t hP => h s t hP s t hP

theorem attempt {y : Run τ ε α} (h : Matched E P Eq E x y) :
    Matched E P Eq E (attempt x) (attempt y) := by
  intro s t hP
  have hfirst := h s t hP
  show Paired E Eq E (.ok (x s).1, (x s).2) (.ok (y t).1, (y t).2)
  generalize x s = first at hfirst
  generalize y t = second at hfirst
  cases hfirst with
  | ok hvalue hstate => exact .ok (congrArg Except.ok hvalue) hstate
  | error hstate => exact .ok rfl hstate

theorem each {f : γ → Run σ ε α} {g : γ → Run τ ε α} (h : ∀ c, Matched P P Eq P (f c) (g c))
    (items : List γ) : Matched P P Eq P (each f items) (each g items) := by
  induction items with
  | nil => exact .done rfl
  | cons c rest ih =>
    refine .bind (h c) fun a b hab => .bind ih fun as bs habs => .done ?_
    rw [hab, habs]

theorem ite {c : Prop} [Decidable c] {x' : Run σ ε α} {y' : Run τ ε β}
    (hx : Matched E P A Q x y) (hx' : Matched E P A Q x' y') :
    Matched E P A Q (if c then x else x') (if c then y else y') := by
  split
  · exact hx
  · exact hx'

end Matched

end Cartridge.Run
