import Cartridge.Proofs.Quantity
import Cartridge.Proofs.Transpiler.History
import Mathlib.Tactic.Linarith

/-!
# Spending stays within the budget

In exact arithmetic, and with rates that are not negative, no prompt is sent whose estimated cost is
above the limit or would exceed what is left of the day's budget. An answer may cost more than was
estimated, so the day's budget can be exceeded, but only by what the last answer cost; after that no
prompt is sent until the date changes.

* `History.Within`: what was spent is within the day's budget but for the last answer.
* `transpile_spent`: a request with a known target is refused once the day's budget is spent.
* `spending_within_budget`: all of this after any events.
-/

namespace Cartridge.Workbench

open Run

/-! ## Exact arithmetic -/

theorem refusal?_eq_none {t : Transpiler ℚ} {estimated : ℚ} (h : t.refusal? estimated = none) :
    estimated ≤ t.config.budget.perConversion ∧ t.spent + estimated ≤ t.config.budget.perDay := by
  obtain ⟨hlimit, hday⟩ := refusal?_eq_none_iff.mp h
  exact ⟨not_lt.mp (of_decide_eq_false hlimit), not_lt.mp (of_decide_eq_false hday)⟩

theorem estimate_eq (prompt source : String) (rate : ℚ) :
    Transpiler.estimate prompt source rate =
      ((prompt.length + source.length : ℕ) : ℚ) / 4000 * rate := by
  show Quantity.ofRatio ((prompt.length + source.length : ℕ) : Int) 4000 * rate = _
  rw [Quantity.ofRatio_eq]
  simp

theorem estimate_nonneg (prompt source : String) {rate : ℚ} (h : 0 ≤ rate) :
    0 ≤ Transpiler.estimate prompt source rate := by
  rw [estimate_eq]
  exact mul_nonneg (div_nonneg (Nat.cast_nonneg _) (by norm_num)) h

/-- A prompt whose estimated cost is within both budgets is permitted. -/
theorem permit_of_within {job : Job ℚ} {w : Workbench ℚ} {estimated : ℚ}
    (hshort : Text.Short job.request.attempts)
    (hestimated : Transpiler.estimate job.prompt job.request.source job.provider.rate = estimated)
    (hlimit : estimated ≤ w.transpiler.config.budget.perConversion)
    (hday : w.transpiler.spent + estimated ≤ w.transpiler.config.budget.perDay) :
    permit job w = (.ok (), w) := by
  refine (permit_eq_ok_iff job w).mpr ⟨?_, hshort⟩
  rw [Allowed, hestimated, refusal?_eq_none_iff]
  exact ⟨decide_eq_false (not_lt.mpr hlimit), decide_eq_false (not_lt.mpr hday)⟩

/-- A provider that costs nothing is always permitted, unless more was spent than there was. -/
theorem permit_free {job : Job ℚ} {w : Workbench ℚ} (hshort : Text.Short job.request.attempts)
    (hrate : job.provider.rate = 0)
    (hlimit : 0 ≤ w.transpiler.config.budget.perConversion)
    (hspent : w.transpiler.spent ≤ w.transpiler.config.budget.perDay) :
    permit job w = (.ok (), w) := by
  have hfree : Transpiler.estimate job.prompt job.request.source job.provider.rate = 0 := by
    rw [estimate_eq, hrate, mul_zero]
  exact permit_of_within hshort hfree hlimit (by rwa [add_zero])

/-! ## What was spent -/

/-- What the last answer cost that was paid for; nothing if none was. -/
def lastCost (asked : List (Asking ℚ)) : ℚ := (asked.findSome? Asking.cost?).getD 0

/-- An account that was just opened is within any budget. -/
theorem new_account_le {budget : ℚ} (hbudget : 0 ≤ budget) :
    (Quantity.ofNat 0 : ℚ) ≤ budget + lastCost [] := by
  rw [Quantity.ofNat, Quantity.ofRatio_eq, lastCost]
  simpa using hbudget

/-- Paying for a prompt that was permitted leaves the day's budget exceeded by its cost at most. -/
theorem pay_le {a : Asking ℚ} {spent budget : ℚ} {asked : List (Asking ℚ)}
    (hestimate : 0 ≤ a.estimate) (hpermit : spent + a.estimate ≤ budget)
    (h : spent ≤ budget + lastCost asked) :
    a.pay spent ≤ budget + lastCost (a :: asked) := by
  rw [Asking.pay_eq, lastCost, List.findSome?_cons]
  cases hcost : a.cost? with
  | none => exact h
  | some cost =>
    simp only [Option.getD_some]
    linarith

theorem attempts_within (job : Job ℚ) (hrate : 0 ≤ job.provider.rate) (left number : Nat)
    (last : Failure ℚ) (w : Workbench ℚ) (earlier : List (Asking ℚ))
    (h : w.transpiler.spent ≤ w.transpiler.config.budget.perDay + lastCost earlier) :
    (attempts job left number last w).2.transpiler.spent ≤
      w.transpiler.config.budget.perDay +
        lastCost ((attemptAsks job left number w).reverse ++ earlier) := by
  have hrun := attempts_run (P := fun w l w' => w'.terms = w.terms ∧ ∀ earlier,
      w.transpiler.spent ≤ w.transpiler.config.budget.perDay + lastCost earlier →
      w'.transpiler.spent ≤ w.transpiler.config.budget.perDay + lastCost (l.reverse ++ earlier))
    job ?_ ?_ ?_ left number last w
  · exact hrun.2 earlier h
  · intro w w' hbooks _
    have hspent : w'.transpiler.spent = w.transpiler.spent := congrArg (·.2.1) hbooks
    refine ⟨congrArg Prod.fst hbooks, fun earlier h => ?_⟩
    rw [hspent]
    exact h
  · intro number w hpermit
    have hbooks := tryOnce_books job number w
    have hspent : (tryOnce job number w).2.transpiler.spent =
        (asking job number w).pay w.transpiler.spent := congrArg (·.2.1) hbooks
    refine ⟨congrArg Prod.fst hbooks, fun earlier h => ?_⟩
    rw [hspent]
    exact pay_le (estimate_nonneg _ _ hrate) (refusal?_eq_none (refusal?_of_permit hpermit)).2 h
  · intro w₁ l w₂ m w₃ h₁ h₂
    have hconfig : w₂.transpiler.config = w₁.transpiler.config := congrArg Prod.fst h₁.1
    refine ⟨h₂.1.trans h₁.1, fun earlier h => ?_⟩
    rw [List.reverse_append, List.append_assoc, ← hconfig]
    exact h₂.2 _ (hconfig ▸ h₁.2 earlier h)

/-! ## A spent budget -/

theorem consider_spent {request : Request} {w : Workbench ℚ}
    (htarget : request.target.problems = [])
    (hday : w.session.today = w.transpiler.day)
    (hspent : w.transpiler.config.budget.perDay ≤ w.transpiler.spent) :
    consider request w =
      (.error (.failed (.refused
        (.spent w.transpiler.spent w.transpiler.config.budget.perDay))), w) := by
  have hreset : resetIfNewDay w = (.ok (), w) := if_pos hday
  have hover : Quantity.upTo w.transpiler.config.budget.perDay w.transpiler.spent = true :=
    decide_eq_true hspent
  unfold consider
  rw [htarget]
  refine (bind_ok hreset).trans ((bind_ok (show Run.get w = (.ok w, w) from rfl)).trans ?_)
  rw [if_pos hover]
  rfl

theorem transpile_spent {request : Request} {w : Workbench ℚ}
    (htarget : request.target.problems = []) (hday : w.session.today = w.transpiler.day)
    (hspent : w.transpiler.config.budget.perDay ≤ w.transpiler.spent) :
    transpile request w =
        (.error (.failed (.refused
          (.spent w.transpiler.spent w.transpiler.config.budget.perDay))), w) ∧
      asks request w = [] := by
  have hconsider := consider_spent htarget hday hspent
  exact ⟨bind_error hconsider, by rw [asks, hconsider]⟩

/-! ## Histories -/

namespace History

/-- The terms are those of a configuration and of providers, and what was spent exceeds the day's
budget by no more than the last answer cost. -/
structure Within (config : Config ℚ) (providers : Entries (Provider ℚ)) (h : History ℚ) : Prop where
  config_eq : h.workbench.transpiler.config = config
  providers_eq : h.workbench.transpiler.providers = providers
  spent_le : h.workbench.transpiler.spent ≤ config.budget.perDay + lastCost h.asked

variable {config : Config ℚ} {providers : Entries (Provider ℚ)} {h : History ℚ}

/-- Opening a new day's account keeps the history within the budget. -/
theorem within_opened (hbudget : 0 ≤ config.budget.perDay) (request : Request)
    (hw : h.Within config providers) :
    Within config providers
      ⟨opened request h.workbench, if resets request h.workbench then [] else h.asked⟩ := by
  unfold opened
  split
  · exact ⟨hw.config_eq, hw.providers_eq, new_account_le hbudget⟩
  · exact hw

theorem within_request (hbudget : 0 ≤ config.budget.perDay)
    (hrates : ∀ p ∈ providers, 0 ≤ p.2.rate) (request : Request) (hw : h.Within config providers) :
    (h.next (.request request)).Within config providers := by
  have hopened := within_opened hbudget request hw
  have hbooks := transpile_books request h.workbench
  have hterms : (transpile request h.workbench).2.terms = (opened request h.workbench).terms :=
    congrArg Prod.fst hbooks
  refine ⟨(congrArg Prod.fst hterms).trans hopened.config_eq,
    (congrArg (·.2.1) hterms).trans hopened.providers_eq, ?_⟩
  show (transpile request h.workbench).2.transpiler.spent ≤ config.budget.perDay +
    lastCost ((asks request h.workbench).reverse ++
      if resets request h.workbench then [] else h.asked)
  rcases transpile_cases request h.workbench with ⟨hasks, hquiet, -⟩ | ⟨job, w, hbegins⟩
  · have hspent : (transpile request h.workbench).2.transpiler.spent = _ :=
      congrArg (·.2.1) hquiet
    rw [hasks, hspent]
    exact hopened.spent_le
  · have hconfig : w.transpiler.config = config :=
      (congrArg (·.1.1) hbegins.books_eq).trans hopened.config_eq
    have hspent : w.transpiler.spent = (opened request h.workbench).transpiler.spent :=
      congrArg (·.2.1) hbegins.books_eq
    obtain ⟨name, hprovider⟩ := hbegins.provider_mem
    rw [hopened.providers_eq] at hprovider
    have hrate : 0 ≤ job.provider.rate := hrates _ (Entries.mem_of_get? hprovider)
    rw [hbegins.asks_eq, hbegins.transpile_eq, ← hconfig]
    refine attempts_within job hrate _ _ _ _ _ ?_
    rw [hconfig, hspent]
    exact hopened.spent_le

theorem within_next (hbudget : 0 ≤ config.budget.perDay) (hrates : ∀ p ∈ providers, 0 ≤ p.2.rate)
    (e : Event ℚ) (hw : h.Within config providers) : (h.next e).Within config providers := by
  cases e with
  | outside s => exact ⟨hw.config_eq, hw.providers_eq, hw.spent_le⟩
  | request r => exact within_request hbudget hrates r hw

/-- While the date stays the same, a spent budget leaves the transpiler as it is. -/
theorem transpiler_after (hday : h.workbench.session.today = h.workbench.transpiler.day)
    (hspent : h.workbench.transpiler.config.budget.perDay ≤ h.workbench.transpiler.spent)
    (events : List (Event ℚ))
    (hsame : ∀ s, .outside s ∈ events → s.today = h.workbench.session.today) :
    (h.after events).workbench.transpiler = h.workbench.transpiler ∧
      (h.after events).workbench.session.today = h.workbench.session.today := by
  induction events generalizing h with
  | nil => exact ⟨rfl, rfl⟩
  | cons e events ih =>
    have hstep : (h.next e).workbench.transpiler = h.workbench.transpiler ∧
        (h.next e).workbench.session.today = h.workbench.session.today := by
      cases e with
      | outside s => exact ⟨rfl, hsame s (by simp)⟩
      | request r =>
        have hkept : (transpile r h.workbench).2 = h.workbench := by
          by_cases htarget : r.target.problems = []
          · rw [(transpile_spent htarget hday hspent).1]
          · rw [(transpile_badTarget htarget).1]
        exact ⟨congrArg Workbench.transpiler hkept, congrArg (·.session.today) hkept⟩
    obtain ⟨htranspiler, htoday⟩ := hstep
    have hrest := ih (h := h.next e) (by rw [htoday, htranspiler, hday])
      (by rw [htranspiler]; exact hspent)
      (fun s hs => by rw [htoday]; exact hsame s (List.mem_cons_of_mem _ hs))
    rw [htranspiler, htoday] at hrest
    exact hrest

end History

theorem create_within {config : Config ℚ} {providers : Entries (Provider ℚ)} {s s' : Session ℚ}
    {t : Transpiler ℚ} (hbudget : 0 ≤ config.budget.perDay)
    (hcreate : Transpiler.create config providers s = (.ok t, s')) :
    History.Within config providers ⟨⟨s', t⟩, []⟩ := by
  unfold Transpiler.create at hcreate
  split at hcreate
  · cases hcreate
  · cases hcreate
    exact ⟨rfl, rfl, new_account_le hbudget⟩

/-- Whatever happens to a new transpiler: a request pays and notes the prompts of `asks`, one by
one; each of them was within both budgets when it was sent; the day's budget is exceeded by no more
than the cost of the last answer; and once it is spent, no prompt is sent until the date changes. -/
theorem spending_within_budget {config : Config ℚ} {providers : Entries (Provider ℚ)}
    {s s' : Session ℚ} {t : Transpiler ℚ}
    (hcreate : Transpiler.create config providers s = (.ok t, s'))
    (hbudget : 0 ≤ config.budget.perDay) (hrates : ∀ p ∈ providers, 0 ≤ p.2.rate)
    (events : List (Event ℚ)) :
    let h := History.after ⟨⟨s', t⟩, []⟩ events
    let w := h.workbench
    (∀ request,
      (transpile request w).2.books =
        ((opened request w).terms,
          (asks request w).foldl (fun spent a => a.pay spent) (opened request w).transpiler.spent,
          (asks request w).reverse.flatMap Asking.calls ++ w.session.calls) ∧
      ∀ a ∈ asks request w,
        let estimate := ((a.job.prompt.length + request.source.length : ℕ) : ℚ) / 4000 *
          a.job.provider.rate
        estimate ≤ config.budget.perConversion ∧
          a.workbench.transpiler.spent + estimate ≤ config.budget.perDay) ∧
    w.transpiler.spent ≤ config.budget.perDay + lastCost h.asked ∧
    (config.budget.perDay ≤ w.transpiler.spent → w.session.today = w.transpiler.day →
      ∀ later : List (Event ℚ), (∀ s, .outside s ∈ later → s.today = w.session.today) →
      ∀ request, request.target.problems = [] →
      let w' := (h.after later).workbench
      transpile request w' =
          (.error (.failed (.refused (.spent w.transpiler.spent config.budget.perDay))), w') ∧
        asks request w' = []) := by
  intro h w
  have hwithin : h.Within config providers :=
    History.after_invariant (fun _ e => History.within_next hbudget hrates e) events
      (create_within hbudget hcreate)
  refine ⟨fun request => ⟨?_, fun a ha => ?_⟩, hwithin.spent_le, ?_⟩
  · rw [← opened_session request w]
    exact transpile_books request w
  · obtain ⟨hrequest, hterms, -, hrefusal⟩ := asks_permitted ha
    have hconfig : a.workbench.transpiler.config = config :=
      (congrArg Prod.fst hterms).trans (History.within_opened hbudget request hwithin).config_eq
    have hbounds := refusal?_eq_none hrefusal
    rw [hconfig, Asking.estimate, estimate_eq, hrequest] at hbounds
    exact hbounds
  · intro hspent hday later hsame request htarget w'
    rw [← hwithin.config_eq] at hspent ⊢
    obtain ⟨htranspiler, htoday⟩ := History.transpiler_after hday hspent later hsame
    have hrefused := transpile_spent (w := w') htarget (by rw [htoday, htranspiler, hday])
      (by rw [htranspiler]; exact hspent)
    rw [htranspiler] at hrefused
    exact hrefused

/-- A provider that takes three dollars for each answer and never gives a usable one. -/
theorem spending_within_budget_of_dear_provider :
    ∃ s' t, Transpiler.create (Config.standard "gbdk")
        [("dear", Provider.scripted "dear" (0 : ℚ) (some 3))]
        { clock := 0, today := "2024-01-01", scripts := [("dear", [⟨1, .text none⟩])] } =
          (.ok t, s') ∧
      let h := History.after ⟨⟨s', t⟩, []⟩
        [.request { source := "let x = 1;" }, .request { source := "let y = 2;" }]
      h.workbench.transpiler.spent ≤ 5 + lastCost h.asked := by
  have hbudget : (Config.standard "gbdk" : Config ℚ).budget.perDay = 5 := by decide
  have hrates : ∀ p ∈ [("dear", Provider.scripted "dear" (0 : ℚ) (some 3))], 0 ≤ p.2.rate := by
    simp [Provider.scripted]
  refine ⟨_, _, rfl, ?_⟩
  rw [← hbudget]
  exact (spending_within_budget rfl (by rw [hbudget]; decide) hrates _).2.1

end Cartridge.Workbench
