import Cartridge.Proofs.Transpiler.History

/-!
# What was spent is what the answers cost

In every arithmetic, that of the machine included, what was spent is the sum of what the answers
cost since the account was last reset, added up from the left. A prompt without an answer costs
nothing, and an answer is paid for once, whether it is used or not.

* `Sends`: what a run does to the books and to the voices, prompt by prompt.
* `transpile_sends`: a request does what its prompts do, and no more.
* `asks_of_fromCache`: a result that is given a second time comes without a prompt.
* `spent_eq_total_cost`: the account after any events.
-/

namespace Cartridge.Workbench

open Run

variable {R : Type} [Quantity R] [Inhabited R]

/-! ## Prompt by prompt -/

/-- Some prompts lead from one workbench to another: each hears what is said next, pays for the
answer if there is one, and nothing else happens to the books and to the voices. -/
inductive Sends : Workbench R → List (Asking R) → Workbench R → Prop
  | quiet {w w' : Workbench R} (hbooks : w'.books = w.books) (hvoices : w'.voices = w.voices) :
      Sends w [] w'
  | prompt {w w₁ w' : Workbench R} {a : Asking R} {l : List (Asking R)}
      (hbooks : a.workbench.books = w.books) (hvoices : a.workbench.voices = w.voices)
      (hpaid : w₁.books = (w.terms, a.pay w.transpiler.spent, a.calls ++ w.session.calls))
      (hheard : w₁.voices = (ask a.job a.workbench).2.voices) (rest : Sends w₁ l w') :
      Sends w (a :: l) w'

namespace Sends

variable {w w₁ w₂ w' : Workbench R} {l m : List (Asking R)}

theorem of_same (hbooks : w.books = w₁.books) (hvoices : w.voices = w₁.voices)
    (h : Sends w l w') : Sends w₁ l w' := by
  cases h with
  | quiet hb hv => exact .quiet (hb.trans hbooks) (hv.trans hvoices)
  | prompt hb hv hpaid hheard rest =>
    obtain ⟨hterms, hspent, hcalls⟩ : _ ∧ _ ∧ _ := by
      simpa only [books, Prod.mk.injEq] using hbooks
    rw [hterms, hspent, hcalls] at hpaid
    exact .prompt (hb.trans hbooks) (hv.trans hvoices) hpaid hheard rest

theorem append (h₁ : Sends w l w₁) (h₂ : Sends w₁ m w₂) : Sends w (l ++ m) w₂ := by
  induction h₁ with
  | quiet hbooks hvoices => exact h₂.of_same hbooks hvoices
  | prompt hbooks hvoices hpaid hheard _ ih => exact .prompt hbooks hvoices hpaid hheard (ih h₂)

theorem spent_eq (h : Sends w l w') :
    w'.transpiler.spent = (l.filterMap Asking.cost?).foldl (· + ·) w.transpiler.spent := by
  induction h with
  | quiet hbooks _ => exact congrArg (·.2.1) hbooks
  | @prompt w w₁ w' a l _ _ hpaid _ _ ih =>
    have hspent : w₁.transpiler.spent = a.pay w.transpiler.spent := congrArg (·.2.1) hpaid
    rw [ih, hspent, Asking.pay_eq]
    cases hcost : a.cost? with
    | none => rw [List.filterMap_cons_none hcost]
    | some cost => rw [List.filterMap_cons_some hcost, List.foldl_cons]

theorem calls_eq (h : Sends w l w') :
    w'.session.calls = l.reverse.flatMap Asking.calls ++ w.session.calls := by
  induction h with
  | quiet hbooks _ => exact congrArg (·.2.2) hbooks
  | @prompt w w₁ w' a l _ _ hpaid _ _ ih =>
    have hcalls : w₁.session.calls = a.calls ++ w.session.calls := congrArg (·.2.2) hpaid
    rw [ih, hcalls, List.reverse_cons, List.flatMap_append, List.flatMap_singleton,
      List.append_assoc]

/-- What was spent when one of the prompts was sent. -/
theorem spent_before {earlier later : List (Asking R)} {a : Asking R}
    (h : Sends w (earlier ++ a :: later) w') :
    a.workbench.transpiler.spent =
      (earlier.filterMap Asking.cost?).foldl (· + ·) w.transpiler.spent := by
  induction earlier generalizing w with
  | nil =>
    cases h with
    | prompt hbooks _ _ _ _ => exact congrArg (·.2.1) hbooks
  | cons b earlier ih =>
    cases h with
    | @prompt _ w₁ _ _ _ _ _ hpaid _ rest =>
      have hspent : w₁.transpiler.spent = b.pay w.transpiler.spent := congrArg (·.2.1) hpaid
      rw [ih rest, hspent, Asking.pay_eq]
      cases hcost : b.cost? with
      | none => rw [List.filterMap_cons_none hcost]
      | some cost => rw [List.filterMap_cons_some hcost, List.foldl_cons]

end Sends

theorem tryOnce_voices (job : Job R) (number : Nat) (w : Workbench R) :
    (tryOnce job number w).2.voices = (ask job (asking job number w).workbench).2.voices := by
  rw [tryOnce_apply]
  cases ask job (asking job number w).workbench with
  | mk r w₁ =>
    cases r with
    | error e => rfl
    | ok answer =>
      have hcharged : (charge job answer w₁).2.voices = w₁.voices := by
        rw [voices, charge_session job answer w₁]
        rfl
      dsimp only
      cases hcharge : charge job answer w₁ with
      | mk r w₂ =>
        rw [hcharge] at hcharged
        cases r with
        | error e => exact hcharged
        | ok cost => exact (settle_keeps plain_voices job answer _ cost w₂).trans hcharged

theorem attempts_sends (job : Job R) (left number : Nat) (last : Failure R) (w : Workbench R) :
    Sends w (attemptAsks job left number w) (attempts job left number last w).2 := by
  refine attempts_run job ?_ ?_ ?_ left number last w
  · intro w w' hbooks hvoices
    exact .quiet hbooks hvoices
  · intro number w _
    exact .prompt (announce_keeps plain_books.toQuiet job number w)
      (announce_keeps plain_voices.toQuiet job number w) (tryOnce_books job number w)
      (tryOnce_voices job number w) (.quiet rfl rfl)
  · intro w₁ l w₂ m w₃ h₁ h₂
    exact h₁.append h₂

theorem opened_voices (request : Request) (w : Workbench R) :
    (opened request w).voices = w.voices := by
  rw [voices, opened_session]
  rfl

/-- A request opens the day's account if the date has changed, and sends its prompts. -/
theorem transpile_sends (request : Request) (w : Workbench R) :
    Sends (opened request w) (asks request w) (transpile request w).2 := by
  rcases transpile_cases request w with ⟨hasks, hbooks, hvoices⟩ | ⟨job, w', hbegins⟩
  · rw [hasks]
    exact .quiet hbooks (hvoices.trans (opened_voices request w).symm)
  · rw [hbegins.asks_eq, hbegins.transpile_eq]
    exact (attempts_sends job _ _ _ w').of_same hbegins.books_eq
      (hbegins.voices_eq.trans (opened_voices request w).symm)

/-! ## Requests that send no prompt -/

/-- What the result of a request is made of. -/
theorem conversion_ok {c : Config R} {source code provider : String} {duration cost : R}
    {result : Conversion R}
    (h : Transpiler.conversion c source code provider duration cost = .ok result) :
    ∃ ram warnings, Transpiler.reviewWarnings c (Code.placed code) = .ok warnings ∧
      result =
        { code := Code.placed code
          provider
          duration
          cost
          quality := Code.quality code
          fromCache := false
          notes :=
            { sourceSize := source.length
              codeSize := code.length
              romSize := Code.romSize code
              ramUsage := ram
              warnings
              optimizations := Code.optimizations (Code.placed code) } } := by
  unfold Transpiler.conversion at h
  simp only [bind, Except.bind, pure, Except.pure] at h
  split at h
  · cases h
  · split at h
    · cases h
    · rename_i hwarnings
      injection h with h
      exact ⟨_, _, hwarnings, h.symm⟩

theorem conversion_fromCache {c : Config R} {source code provider : String} {duration cost : R}
    {result : Conversion R}
    (h : Transpiler.conversion c source code provider duration cost = .ok result) :
    result.fromCache = false := by
  obtain ⟨ram, warnings, -, rfl⟩ := conversion_ok h
  rfl

theorem settle_fromCache {job : Job R} {answer : Option String} {duration cost : R}
    {w w' : Workbench R} {result : Conversion R}
    (h : settle job answer duration cost w = (.ok result, w')) : result.fromCache = false := by
  unfold settle at h
  cases hflaw : (Transpiler.flaw? answer : Option (Failure R)) with
  | some why =>
    rw [hflaw] at h
    cases h
  | none =>
    rw [hflaw] at h
    obtain ⟨w₁, _, _, h⟩ := bind_eq_ok h
    obtain ⟨made, _, hfigure, h⟩ := bind_eq_ok h
    obtain ⟨_, _, _, h⟩ := bind_eq_ok h
    obtain ⟨_, _, _, h⟩ := bind_eq_ok h
    obtain ⟨_, _, _, h⟩ := bind_eq_ok h
    obtain ⟨_, _, _, h⟩ := bind_eq_ok h
    have hmade : made = result := by
      cases h
      rfl
    subst hmade
    cases hconversion : Transpiler.conversion w₁.transpiler.config job.request.source
        (answer.getD "") job.name duration cost with
    | ok r =>
      rw [hconversion] at hfigure
      cases hfigure
      exact conversion_fromCache hconversion
    | error e =>
      rw [hconversion] at hfigure
      cases hfigure

theorem tryOnce_fromCache {job : Job R} {number : Nat} {w w' : Workbench R} {result : Conversion R}
    (h : tryOnce job number w = (.ok result, w')) : result.fromCache = false := by
  rw [tryOnce_apply] at h
  split at h
  · cases h
  · split at h
    · cases h
    · exact settle_fromCache h

theorem attempts_fromCache {job : Job R} {left number : Nat} {last : Failure R}
    {w w' : Workbench R} {result : Conversion R}
    (h : attempts job left number last w = (.ok result, w')) : result.fromCache = false := by
  induction left generalizing number last w with
  | zero =>
    rw [attempts] at h
    split at h <;> cases h
  | succ left ih =>
    rcases permit_apply job w with hpermit | ⟨why, hpermit⟩
    · rw [attempts_succ hpermit] at h
      split at h
      · rename_i htry
        cases h
        exact tryOnce_fromCache htry
      · cases h
      · exact ih h
    · rw [attempts, bind_error hpermit] at h
      cases h

/-- A result that is given a second time comes without a prompt. -/
theorem asks_of_fromCache {request : Request} {w w' : Workbench R} {result : Conversion R}
    (h : transpile request w = (.ok result, w')) (hcached : result.fromCache = true) :
    asks request w = [] := by
  rcases transpile_cases request w with ⟨hasks, -⟩ | ⟨job, w₁, hbegins⟩
  · exact hasks
  · rw [hbegins.transpile_eq] at h
    rw [attempts_fromCache h] at hcached
    cases hcached

theorem asks_of_spent {request : Request} {w : Workbench R}
    (h : Quantity.upTo w.transpiler.config.budget.perDay (opened request w).transpiler.spent =
      true) : asks request w = [] := by
  by_cases htarget : request.target.problems = []
  · have hempty : request.target.problems.isEmpty = true := by rw [htarget]; rfl
    obtain ⟨w', hreset, hstill⟩ := resetIfNewDay_apply quiet_still hempty w
    have hsame : w'.transpiler = (opened request w).transpiler := congrArg Prod.fst hstill
    have hbudget : (opened request w).transpiler.config = w.transpiler.config := by
      unfold opened
      split <;> rfl
    have hstop : ∃ why, consider request w = (.error why, w') := by
      unfold consider
      dsimp only
      rw [if_pos hempty, bind_ok hreset,
        bind_ok (show (Run.get : Task R (Workbench R)) w' = (.ok w', w') from rfl)]
      rw [hsame, hbudget, if_pos h]
      exact ⟨_, rfl⟩
    obtain ⟨why, hconsider⟩ := hstop
    rw [asks, hconsider]
  · exact (transpile_badTarget htarget).2

/-! ## The account -/

namespace History

/-- What was spent is what the answers cost since the last reset. -/
def Accounted (h : History R) : Prop :=
  h.workbench.transpiler.spent = Quantity.total (h.asked.reverse.filterMap Asking.cost?)

/-- The prompts that count for the account to which a request is charged. -/
def askedFor (h : History R) (request : Request) : List (Asking R) :=
  if resets request h.workbench then [] else h.asked.reverse

theorem spent_opened {h : History R} (hacc : h.Accounted) (request : Request) :
    (opened request h.workbench).transpiler.spent =
      Quantity.total ((h.askedFor request).filterMap Asking.cost?) := by
  unfold opened askedFor
  split
  · rfl
  · exact hacc

theorem accounted_next {h : History R} (e : Event R) (hacc : h.Accounted) :
    (h.next e).Accounted := by
  cases e with
  | outside s => exact hacc
  | request r =>
    have hasked : (h.next (.request r)).asked.reverse = h.askedFor r ++ asks r h.workbench := by
      unfold next askedFor
      dsimp only
      split <;> simp
    have hspent := (transpile_sends r h.workbench).spent_eq
    rw [spent_opened hacc r] at hspent
    rw [Accounted, hasked, List.filterMap_append, Quantity.total, List.foldl_append]
    exact hspent

end History

theorem create_accounted {config : Config R} {providers : Entries (Provider R)} {s s' : Session R}
    {t : Transpiler R} (hcreate : Transpiler.create config providers s = (.ok t, s')) :
    History.Accounted ⟨⟨s', t⟩, []⟩ := by
  unfold Transpiler.create at hcreate
  split at hcreate
  · cases hcreate
  · cases hcreate
    rfl

/-- Whatever happens to a new transpiler, what was spent is the sum, from the left, of what the
answers cost since the last reset; so it is whenever a prompt is sent. A request notes the prompts
that it sends, and each of them hears what is said next. A target with problems, a day's budget that
is spent, and a result that is given a second time come without a prompt. -/
theorem spent_eq_total_cost {config : Config R} {providers : Entries (Provider R)}
    {s s' : Session R} {t : Transpiler R}
    (hcreate : Transpiler.create config providers s = (.ok t, s')) (events : List (Event R)) :
    let h := History.after ⟨⟨s', t⟩, []⟩ events
    let w := h.workbench
    w.transpiler.spent = Quantity.total (h.asked.reverse.filterMap Asking.cost?) ∧
    ∀ request,
      (transpile request w).2.session.calls =
        (asks request w).reverse.flatMap Asking.calls ++ w.session.calls ∧
      Sends (opened request w) (asks request w) (transpile request w).2 ∧
      (∀ earlier a later, asks request w = earlier ++ a :: later →
        a.workbench.transpiler.spent =
          Quantity.total ((h.askedFor request ++ earlier).filterMap Asking.cost?)) ∧
      (request.target.problems ≠ [] →
        asks request w = [] ∧ (transpile request w).2 = w) ∧
      (Quantity.upTo w.transpiler.config.budget.perDay (opened request w).transpiler.spent = true →
        asks request w = []) ∧
      (∀ result, (transpile request w).1 = .ok result → result.fromCache = true →
        asks request w = []) := by
  intro h w
  have hacc : h.Accounted :=
    History.after_invariant (fun _ e => History.accounted_next e) events (create_accounted hcreate)
  refine ⟨hacc, fun request => ?_⟩
  have hsends := transpile_sends request w
  refine ⟨?_, hsends, ?_, ?_, asks_of_spent, ?_⟩
  · rw [hsends.calls_eq, opened_session]
  · intro earlier a later hsplit
    rw [hsplit] at hsends
    rw [hsends.spent_before, History.spent_opened hacc request, List.filterMap_append,
      Quantity.total, Quantity.total, List.foldl_append]
  · intro htarget
    obtain ⟨hresult, hasks⟩ := transpile_badTarget (w := w) htarget
    exact ⟨hasks, congrArg Prod.snd hresult⟩
  · intro result hresult hcached
    exact asks_of_fromCache (Prod.ext hresult rfl) hcached

/-- A provider that fails, answers with something else than C, answers with nothing, and fails from
then on. -/
theorem spent_eq_total_cost_of_flaky_provider :
    let providers : Entries (Provider Rat) := [("flaky", Provider.scripted "flaky" 0 (some 1))]
    let s : Session Rat :=
      { clock := 0
        today := "2024-01-01"
        scripts := [("flaky", [⟨1, .failure .provider "down"⟩, ⟨1, .text (some "no code")⟩,
          ⟨1, .text none⟩, ⟨1, .failure .provider "down"⟩])] }
    ∃ s' t, Transpiler.create (Config.standard "gbdk") providers s = (.ok t, s') ∧
      let h := History.after ⟨⟨s', t⟩, []⟩
        [.request { source := "let x = 1;", attempts := 2 },
          .request { source := "let x = 1;", attempts := 2 }]
      h.workbench.transpiler.spent = Quantity.total (h.asked.reverse.filterMap Asking.cost?) := by
  intro providers s
  have hcreate : Transpiler.create (Config.standard "gbdk") providers s = (.ok _, _) := rfl
  exact ⟨_, _, hcreate, (spent_eq_total_cost hcreate _).1⟩

end Cartridge.Workbench
