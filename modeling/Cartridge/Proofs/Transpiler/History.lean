import Cartridge.Proofs.Transpiler.Asks

/-!
# What happens to a workbench

A workbench sees requests, and between them anything may change around it: time passes, the date
changes, providers have other things to say. Its history is told by the prompts that were sent since
the account was last reset.

* `History.after_invariant`: what every single event preserves holds after any of them.
* `attempts_books`, `transpile_books`: attempts, and requests, pay for their prompts one by one, and
  change nothing else in the books.
-/

namespace Cartridge.Workbench

open Run

variable {R : Type} [Quantity R] [Inhabited R]

/-- Something that happens to a workbench. -/
inductive Event (R : Type) where
  | request (r : Request)
  /-- What surrounds the transpiler changes. -/
  | outside (s : Session R)

/-- A workbench and what led to it. -/
structure History (R : Type) where
  workbench : Workbench R
  /-- The prompts sent since the account was last reset, latest first. -/
  asked : List (Asking R) := []

namespace History

/-- What there is after one more event. -/
def next (h : History R) : Event R → History R
  | .request r =>
    ⟨(transpile r h.workbench).2,
      (asks r h.workbench).reverse ++ if resets r h.workbench then [] else h.asked⟩
  | .outside s => ⟨{ h.workbench with session := s }, h.asked⟩

/-- What there is after some events. -/
def after (h : History R) (events : List (Event R)) : History R := events.foldl next h

theorem after_invariant {I : History R → Prop} (step : ∀ h e, I h → I (h.next e)) {h : History R}
    (events : List (Event R)) (start : I h) : I (h.after events) := by
  induction events generalizing h with
  | nil => exact start
  | cons e events ih => exact ih (step h e start)

end History

/-! ## The books after attempts and requests -/

theorem attempts_books (job : Job R) (left number : Nat) (last : Failure R) (w : Workbench R) :
    (attempts job left number last w).2.books =
      (w.terms,
        (attemptAsks job left number w).foldl (fun spent a => a.pay spent) w.transpiler.spent,
        (attemptAsks job left number w).reverse.flatMap Asking.calls ++ w.session.calls) := by
  refine attempts_run (P := fun w l w' => w'.books =
    (w.terms, l.foldl (fun spent a => a.pay spent) w.transpiler.spent,
      l.reverse.flatMap Asking.calls ++ w.session.calls)) job ?_ ?_ ?_ left number last w
  · intro w w' h _
    exact h
  · intro number w _
    rw [tryOnce_books]
    simp
  · intro w₁ l w₂ m w₃ h₁ h₂
    obtain ⟨hterms, hspent, hcalls⟩ : _ ∧ _ ∧ _ := by simpa only [books, Prod.mk.injEq] using h₁
    rw [h₂, hterms, hspent, hcalls]
    simp

theorem transpile_books (request : Request) (w : Workbench R) :
    (transpile request w).2.books =
      ((opened request w).terms,
        (asks request w).foldl (fun spent a => a.pay spent) (opened request w).transpiler.spent,
        (asks request w).reverse.flatMap Asking.calls ++ (opened request w).session.calls) := by
  rcases transpile_cases request w with ⟨hasks, hbooks, -⟩ | ⟨job, w', hbegins⟩
  · rw [hasks, hbooks]
    rfl
  · obtain ⟨hterms, hspent, hcalls⟩ : _ ∧ _ ∧ _ := by
      simpa only [books, Prod.mk.injEq] using hbegins.books_eq
    rw [hbegins.transpile_eq, hbegins.asks_eq, attempts_books, hterms, hspent, hcalls]

/-! ## What holds of every prompt -/

theorem refusal?_of_permit {job : Job R} {w : Workbench R} (h : permit job w = (.ok (), w)) :
    w.transpiler.refusal? (Transpiler.estimate job.prompt job.request.source job.provider.rate) =
      none := by
  unfold permit at h
  dsimp only at h
  split at h
  · cases h
  · assumption

/-- Every prompt was permitted at the moment at which it was sent. -/
theorem attemptAsks_permitted (job : Job R) (left number : Nat) (w : Workbench R) :
    ∀ a ∈ attemptAsks job left number w, a.job = job ∧ a.workbench.terms = w.terms ∧
      a.workbench.transpiler.refusal? a.estimate = none := by
  have hrun := attempts_run (P := fun w l w' => w'.terms = w.terms ∧
    ∀ a ∈ l, a.job = job ∧ a.workbench.terms = w.terms ∧
      a.workbench.transpiler.refusal? a.estimate = none) job ?_ ?_ ?_ left number .noAttempt w
  · exact hrun.2
  · intro w w' h _
    exact ⟨congrArg Prod.fst h, by simp⟩
  · intro number w hpermit
    refine ⟨congrArg Prod.fst (tryOnce_books job number w), ?_⟩
    intro a ha
    rw [List.mem_singleton] at ha
    subst ha
    have hsame : (asking job number w).workbench.transpiler = w.transpiler :=
      congrArg Prod.fst (announce_keeps quiet_still job number w)
    refine ⟨rfl, by rw [terms, hsame]; rfl, ?_⟩
    rw [hsame]
    exact refusal?_of_permit hpermit
  · intro w₁ l w₂ m w₃ h₁ h₂
    refine ⟨h₂.1.trans h₁.1, ?_⟩
    intro a ha
    rcases List.mem_append.mp ha with ha | ha
    · exact h₁.2 a ha
    · obtain ⟨hjob, hterms, hrefusal⟩ := h₂.2 a ha
      exact ⟨hjob, hterms.trans h₁.1, hrefusal⟩

/-- Every prompt of a request was permitted when it was sent, under the terms of the request. -/
theorem asks_permitted {request : Request} {w : Workbench R} {a : Asking R}
    (ha : a ∈ asks request w) :
    a.job.request = request ∧ a.workbench.terms = (opened request w).terms ∧
      (∃ name, w.transpiler.providers.get? name = some a.job.provider) ∧
      a.workbench.transpiler.refusal? a.estimate = none := by
  rcases transpile_cases request w with ⟨hasks, -⟩ | ⟨job, w', hbegins⟩
  · rw [hasks] at ha
    cases ha
  · rw [hbegins.asks_eq] at ha
    obtain ⟨hjob, hterms, hrefusal⟩ := attemptAsks_permitted job _ _ _ a ha
    have hproviders : (opened request w).transpiler.providers = w.transpiler.providers := by
      unfold opened
      split <;> rfl
    refine ⟨hjob ▸ hbegins.request_eq, hterms.trans (congrArg Prod.fst hbegins.books_eq), ?_,
      hrefusal⟩
    rw [hjob, ← hproviders]
    exact hbegins.provider_mem

end Cartridge.Workbench
