import Cartridge.Proofs.Transpiler.Frame

/-!
# The prompts that a request sends

Between its arrival and its end a request sends some prompts to a provider. They are listed here
with the workbench as it was when each of them was sent, and all that a request does to the books is
said in terms of this list.

* `asks`: the prompts of a request, in order.
* `tryOnce_books`: one attempt sends one prompt, pays for the answer if there is one, and changes
  nothing else in the books.
* `attempts_run`: what holds of each attempt, and of attempts put together, holds of a whole run.
* `transpile_cases`: a request that asks nothing opens the day's account at most; any other first
  gets a job ready and then makes its attempts.
-/

namespace Cartridge.Workbench

open Run

variable {R : Type} [Quantity R] [Inhabited R]

/-! ## Prompts and their prices -/

/-- What is spent once an answer was paid for. -/
def Job.paid (job : Job R) (answer : Option String) (spent : R) : R :=
  match job.provider.pricing.cost? job.prompt (answer.getD "") with
  | some cost => spent + cost
  | none => spent

/-- A prompt that is sent, and the workbench at that moment. -/
structure Asking (R : Type) where
  job : Job R
  workbench : Workbench R

namespace Asking

/-- What the provider answers, unless it fails. -/
def answer (a : Asking R) : Except (Stop R) (Option String) := (ask a.job a.workbench).1

/-- What is paid for the answer, if there is one. -/
def cost? (a : Asking R) : Option R :=
  match a.answer with
  | .ok text => a.job.provider.pricing.cost? a.job.prompt (text.getD "")
  | .error _ => none

/-- What is spent once the answer is paid for. -/
def pay (a : Asking R) (spent : R) : R :=
  match a.answer with
  | .ok answer => a.job.paid answer spent
  | .error _ => spent

theorem pay_eq (a : Asking R) (spent : R) :
    a.pay spent = match a.cost? with
      | some cost => spent + cost
      | none => spent := by
  unfold pay cost? Job.paid
  cases a.answer with
  | error e => rfl
  | ok answer => rfl

/-- The estimated cost. -/
def estimate (a : Asking R) : R :=
  Transpiler.estimate a.job.prompt a.job.request.source a.job.provider.rate

/-- What the session notes of the prompt; a provider that has no service notes nothing. -/
def calls (a : Asking R) : List Call :=
  match a.job.provider.source with
  | .script => [⟨a.job.provider.name, none, a.job.prompt⟩]
  | .service service => (service.query? a.job.prompt).toList.map fun query =>
    ⟨query.url, query.payload.get? "model", a.job.prompt⟩

end Asking

/-- The prompt of an attempt that begins at a workbench. -/
def asking (job : Job R) (number : Nat) (w : Workbench R) : Asking R :=
  ⟨job, (announce job number w).2⟩

/-- The prompts of the attempts at a job, `left` of them from number `number` on. -/
def attemptAsks (job : Job R) : Nat → Nat → Workbench R → List (Asking R)
  | 0, _, _ => []
  | left + 1, number, w =>
    match permit job w with
    | (.error _, _) => []
    | (.ok _, w) =>
      asking job number w ::
        match tryOnce job number w with
        | (.error (.failed why), w) =>
          attemptAsks job left (number + 1) (afterFailure number why (left ≠ 0) w).2
        | _ => []

/-- The prompts of a request. -/
def asks (request : Request) (w : Workbench R) : List (Asking R) :=
  match consider request w with
  | (.ok (.new key?), w) =>
    match prepare request key? w with
    | (.ok job, w) => attemptAsks job request.attempts.toNat 1 w
    | _ => []
  | _ => []

/-! ## One attempt -/

omit [Inhabited R] in
theorem hear_calls (s : Session R) (name : String) : (s.hear name).2.calls = s.calls := by
  unfold Session.hear
  split <;> rfl

omit [Inhabited R] in
theorem listen_calls (s : Session R) : s.listen.2.calls = s.calls := by
  unfold Session.listen
  split <;> rfl

omit [Inhabited R] in
theorem ask_calls (job : Job R) (w : Workbench R) :
    (ask job w).2.session.calls = (Asking.mk job w).calls ++ w.session.calls := by
  show (job.provider.ask job.prompt w.session).2.calls = _
  unfold Provider.ask Asking.calls
  cases job.provider.source with
  | script =>
    have h := hear_calls (w.session.send ⟨job.provider.name, none, job.prompt⟩) job.provider.name
    dsimp only
    split <;> exact h
  | service service =>
    cases hq : service.query? job.prompt with
    | none => simp [hq]
    | some query =>
      have h := listen_calls
        (w.session.send ⟨query.url, query.payload.get? "model", job.prompt⟩)
      simp only [hq, Option.toList_some, List.map_cons, List.map_nil, List.singleton_append]
      split
      · exact h
      · split <;> exact h

omit [Inhabited R] in
/-- Asking changes the clock, the prompts sent and what is still to be said, and nothing else. -/
theorem ask_aside {τ : Type} {view : Session R → τ}
    (hview : ∀ (s : Session R) clock calls network scripts,
      view { s with clock, calls, network, scripts } = view s) (job : Job R) :
    Keeps (fun w => view w.session) (ask job) := by
  have hhear (s : Session R) (name : String) : view (s.hear name).2 = view s := by
    unfold Session.hear
    split
    · exact hview s _ _ _ _
    · rfl
  have hlisten (s : Session R) : view s.listen.2 = view s := by
    unfold Session.listen
    split
    · exact hview s _ _ _ _
    · rfl
  have hsend (s : Session R) (c : Call) : view (s.send c) = view s := hview s _ _ _ _
  intro w
  show view (job.provider.ask job.prompt w.session).2 = view w.session
  unfold Provider.ask
  cases job.provider.source with
  | script =>
    have h := (hhear (w.session.send ⟨job.provider.name, none, job.prompt⟩)
      job.provider.name).trans (hsend w.session _)
    dsimp only
    split <;> exact h
  | service service =>
    dsimp only
    cases service.query? job.prompt with
    | none => rfl
    | some query =>
      have h := (hlisten (w.session.send
        ⟨query.url, query.payload.get? "model", job.prompt⟩)).trans (hsend w.session _)
      dsimp only
      split
      · exact h
      · split <;> exact h

theorem tryOnce_apply (job : Job R) (number : Nat) (w : Workbench R) :
    tryOnce job number w =
      match ask job (asking job number w).workbench with
      | (.error e, w₁) => (.error e, w₁)
      | (.ok answer, w₁) =>
        match charge job answer w₁ with
        | (.error e, w₂) => (.error e, w₂)
        | (.ok cost, w₂) => settle job answer (w₁.session.clock - job.start) cost w₂ := by
  show (ask job >>= _) (asking job number w).workbench = _
  rw [bind_apply]
  cases ask job (asking job number w).workbench with
  | mk r w₁ =>
    cases r with
    | error e => rfl
    | ok answer =>
      show (charge job answer >>= _) w₁ = _
      rw [bind_apply]
      dsimp only
      cases charge job answer w₁ with
      | mk r w₂ => cases r <;> rfl

omit [Inhabited R] in
theorem ask_books (job : Job R) (w : Workbench R) :
    (ask job w).2.books =
      (w.terms, w.transpiler.spent, (Asking.mk job w).calls ++ w.session.calls) := by
  rw [books, terms, ask_keeps job w, ask_calls]
  rfl

theorem charge_books (job : Job R) (answer : Option String) (w : Workbench R) :
    (charge job answer w).2.books =
      (w.terms, job.paid answer w.transpiler.spent, w.session.calls) := by
  unfold charge Job.paid
  cases job.provider.pricing.cost? job.prompt (answer.getD "") <;> rfl

/-- One attempt sends its prompt, pays for the answer if there is one, and changes nothing else in
the books. -/
theorem tryOnce_books (job : Job R) (number : Nat) (w : Workbench R) :
    (tryOnce job number w).2.books =
      (w.terms, (asking job number w).pay w.transpiler.spent,
        (asking job number w).calls ++ w.session.calls) := by
  have hopen : (asking job number w).workbench.books = w.books :=
    announce_keeps plain_books.toQuiet job number w
  obtain ⟨hterms, hspent, hcalls⟩ : _ ∧ _ ∧ _ := by simpa only [books, Prod.mk.injEq] using hopen
  have hasked := ask_books job (asking job number w).workbench
  rw [hterms, hspent, hcalls] at hasked
  rw [tryOnce_apply, Asking.pay, Asking.answer]
  cases hask : ask job (asking job number w).workbench with
  | mk r w₁ =>
    rw [hask] at hasked
    rw [show (asking job number w).job = job from rfl, hask]
    cases r with
    | error e => exact hasked
    | ok answer =>
      have hpaid := charge_books job answer w₁
      obtain ⟨hterms₁, hspent₁, hcalls₁⟩ : _ ∧ _ ∧ _ := by
        simpa only [books, Prod.mk.injEq] using hasked
      rw [hterms₁, hspent₁, hcalls₁] at hpaid
      dsimp only
      cases hcharge : charge job answer w₁ with
      | mk r w₂ =>
        rw [hcharge] at hpaid
        cases r with
        | error e => exact hpaid
        | ok cost => exact (settle_keeps plain_books job answer _ cost w₂).trans hpaid

/-! ## Several attempts -/

omit [Inhabited R] in
theorem refusal?_eq_none_iff {t : Transpiler R} {estimated : R} :
    t.refusal? estimated = none ↔
      Quantity.below t.config.budget.perConversion estimated = false ∧
        Quantity.below t.config.budget.perDay (t.spent + estimated) = false := by
  unfold Transpiler.refusal?
  dsimp only
  cases Quantity.below t.config.budget.perConversion estimated <;> simp

omit [Inhabited R] in
/-- The limit of one conversion comes before the budget of the day. -/
theorem refusal?_eq_tooDear_iff {t : Transpiler R} {estimated e limit : R} :
    t.refusal? estimated = some (.tooDear e limit) ↔
      Quantity.below t.config.budget.perConversion estimated = true ∧
        estimated = e ∧ t.config.budget.perConversion = limit := by
  unfold Transpiler.refusal?
  dsimp only
  cases Quantity.below t.config.budget.perConversion estimated
  · cases Quantity.below t.config.budget.perDay (t.spent + estimated) <;> simp
  · simp

/-- The budgets allow an attempt at a job. -/
def Allowed (job : Job R) (w : Workbench R) : Prop :=
  w.transpiler.refusal? (Transpiler.estimate job.prompt job.request.source job.provider.rate) = none

theorem permit_apply (job : Job R) (w : Workbench R) :
    permit job w = (.ok (), w) ∨ ∃ e, permit job w = (.error e, w) := by
  unfold permit
  dsimp only
  split
  · exact .inr ⟨_, rfl⟩
  · split
    · exact .inl rfl
    · exact .inr ⟨_, rfl⟩

theorem permit_eq_ok_iff (job : Job R) (w : Workbench R) :
    permit job w = (.ok (), w) ↔ Allowed job w ∧ Text.Short job.request.attempts := by
  unfold permit Allowed
  dsimp only
  split
  · rename_i why hrefused
    simp [hrefused]
  · rename_i hallowed
    simp only [hallowed, true_and]
    split <;> simp_all

theorem afterFailure_apply (number : Nat) (why : Failure R) (more : Bool) (w : Workbench R) :
    afterFailure number why more w = (.ok (), (afterFailure number why more w).2) := by
  cases more <;> rfl

theorem attempts_succ {job : Job R} {w : Workbench R} (h : permit job w = (.ok (), w))
    (left number : Nat) (last : Failure R) :
    attempts job (left + 1) number last w =
      match tryOnce job number w with
      | (.ok result, w) => (.ok result, w)
      | (.error (.broken why), w) => (.error (.broken why), w)
      | (.error (.failed why), w) =>
        attempts job left (number + 1) why (afterFailure number why (left ≠ 0) w).2 := by
  rw [attempts, bind_ok h, bind_apply]
  cases htry : tryOnce job number w with
  | mk r w' =>
    rw [show Run.attempt (tryOnce job number) w = (.ok r, w') by rw [Run.attempt, htry]]
    cases r with
    | ok result => rfl
    | error e =>
      cases e with
      | broken why => rfl
      | failed why => exact bind_ok (afterFailure_apply number why _ w')

theorem attemptAsks_succ {job : Job R} {w : Workbench R} (h : permit job w = (.ok (), w))
    (left number : Nat) :
    attemptAsks job (left + 1) number w =
      asking job number w ::
        match tryOnce job number w with
        | (.error (.failed why), w) =>
          attemptAsks job left (number + 1) (afterFailure number why (left ≠ 0) w).2
        | _ => [] := by
  rw [attemptAsks, h]

/-- What holds where the books and the voices stay as they are, what holds of every attempt that is
permitted, and what holds of runs one after the other, holds of all attempts at a job together. -/
theorem attempts_run {P : Workbench R → List (Asking R) → Workbench R → Prop} (job : Job R)
    (quiet : ∀ w w', w'.books = w.books → w'.voices = w.voices → P w [] w')
    (once : ∀ number w, permit job w = (.ok (), w) →
      P w [asking job number w] (tryOnce job number w).2)
    (trans : ∀ w₁ l w₂ m w₃, P w₁ l w₂ → P w₂ m w₃ → P w₁ (l ++ m) w₃)
    (left number : Nat) (last : Failure R) (w : Workbench R) :
    P w (attemptAsks job left number w) (attempts job left number last w).2 := by
  induction left generalizing number last w with
  | zero =>
    rw [attempts]
    split
    · exact quiet _ _ (say_keeps plain_books.toQuiet _ w) (say_keeps plain_voices.toQuiet _ w)
    · exact quiet _ _ rfl rfl
  | succ left ih =>
    rcases permit_apply job w with h | ⟨why, h⟩
    · have hfirst := once number w h
      rw [attemptAsks_succ h, attempts_succ h]
      cases htry : tryOnce job number w with
      | mk r w' =>
        rw [htry] at hfirst
        cases r with
        | ok result => exact hfirst
        | error e =>
          cases e with
          | broken why => exact hfirst
          | failed why =>
            have hpause := quiet _ _
              (afterFailure_keeps plain_books.toQuiet number why (left ≠ 0) w')
              (afterFailure_keeps plain_voices.toQuiet number why (left ≠ 0) w')
            have hrest := ih (number + 1) why (afterFailure number why (left ≠ 0) w').2
            exact trans _ [asking job number w] _ _ _ hfirst (trans _ [] _ _ _ hpause hrest)
    · rw [attempts, bind_error h, attemptAsks, h]
      exact quiet _ _ rfl rfl

/-! ## A whole request -/

/-- Whether a request opens a new day's account. -/
def resets (request : Request) (w : Workbench R) : Bool :=
  request.target.problems.isEmpty && w.session.today ≠ w.transpiler.day

/-- The workbench with the account that a request is charged to. -/
def opened (request : Request) (w : Workbench R) : Workbench R :=
  if resets request w then
    { w with transpiler := { w.transpiler with spent := Quantity.ofNat 0, day := w.session.today } }
  else w

theorem opened_session (request : Request) (w : Workbench R) :
    (opened request w).session = w.session := by
  unfold opened
  split <;> rfl

theorem resetIfNewDay_apply {τ : Type} {view : Workbench R → τ} (hview : Quiet view)
    {request : Request} (h : request.target.problems.isEmpty = true) (w : Workbench R) :
    ∃ w', resetIfNewDay w = (.ok (), w') ∧ view w' = view (opened request w) := by
  unfold resetIfNewDay opened resets
  by_cases hday : w.session.today = w.transpiler.day
  · exact ⟨w, by simp [hday], by simp [hday]⟩
  · refine ⟨_, if_neg hday, ?_⟩
    rw [if_pos (by simp [h, hday])]
    exact hview.say ⟨w.session,
      { w.transpiler with spent := Quantity.ofNat 0, day := w.session.today }⟩ _

/-- Before any provider is asked, a request opens the day's account and else changes nothing that a
plain view tells of. -/
theorem consider_view {τ : Type} {view : Workbench R → τ} (hview : Plain view) (request : Request)
    (w : Workbench R) : view (consider request w).2 = view (opened request w) := by
  unfold consider
  dsimp only
  split
  · rename_i hproblems
    obtain ⟨w', hreset, hopened⟩ := resetIfNewDay_apply hview.toQuiet hproblems w
    rw [bind_ok hreset, ← hopened]
    refine Keeps.bind .get (fun v => ?_) w'
    split
    · exact .stop _
    · refine .bind (.ofExcept _) fun key => ?_
      split
      · refine .bind (lookUp_keeps hview _) fun found => ?_
        split
        · exact .bind (say_keeps hview.toQuiet _) fun _ => .pure _
        · exact .pure _
      · exact .pure _
  · rename_i hproblems
    rw [opened, resets, Bool.not_eq_true _ |>.mp hproblems]
    rfl

theorem consider_voices (request : Request) (w : Workbench R) :
    (consider request w).2.voices = w.voices := by
  rw [consider_view plain_voices, voices, opened_session]
  rfl

theorem prepare_ok {request : Request} {key? : Option String} {w w' : Workbench R} {job : Job R}
    (h : prepare request key? w = (.ok job, w')) :
    w'.still = w.still ∧ job.request = request ∧ job.key? = key? ∧
      job.prompt = Prompt.build request.source request.target
        ((Example.similar w.transpiler.examples request.source).map Example.sample) ∧
      ∃ name, w.transpiler.providers.get? name = some job.provider := by
  have hstill : (prepare request key? w).2.still = w.still :=
    prepare_keeps quiet_still request key? w
  rw [h] at hstill
  refine ⟨hstill, ?_⟩
  unfold prepare at h
  obtain ⟨_, _, hget, h⟩ := bind_eq_ok h
  cases hget
  obtain ⟨prompt, _, hprompt, h⟩ := bind_eq_ok h
  obtain ⟨_, _, _, h⟩ := bind_eq_ok h
  obtain ⟨name, _, _, h⟩ := bind_eq_ok h
  cases hprovider : w.transpiler.providers.get? name with
  | none =>
    rw [hprovider] at h
    cases h
  | some provider =>
    rw [hprovider] at h
    cases h
    cases hwrite : Prompt.write request.source request.target
        ((Example.similar w.transpiler.examples request.source).map Example.sample) with
    | error fault =>
      rw [hwrite] at hprompt
      cases hprompt
    | ok written =>
      rw [hwrite] at hprompt
      cases hprompt
      exact ⟨rfl, rfl, Prompt.write_eq_ok hwrite, name, hprovider⟩

/-- What is known of a request whose attempts begin at a workbench. -/
structure Begins (request : Request) (w : Workbench R) (job : Job R) (w' : Workbench R) : Prop where
  books_eq : w'.books = (opened request w).books
  request_eq : job.request = request
  provider_mem : ∃ name, (opened request w).transpiler.providers.get? name = some job.provider
  asks_eq : asks request w = attemptAsks job request.attempts.toNat 1 w'
  voices_eq : w'.voices = w.voices
  transpile_eq : transpile request w = attempts job request.attempts.toNat 1 .noAttempt w'

/-- A request asks nothing and at most opens the day's account, or it gets a job ready and makes its
attempts. -/
theorem transpile_cases (request : Request) (w : Workbench R) :
    (asks request w = [] ∧ (transpile request w).2.books = (opened request w).books ∧
      (transpile request w).2.voices = w.voices) ∨ ∃ job w', Begins request w job w' := by
  have hconsidered := consider_view plain_books request w
  have hvoices := consider_voices request w
  cases hconsider : consider request w with
  | mk r w₁ =>
    rw [hconsider] at hconsidered hvoices
    cases r with
    | error e =>
      refine .inl ⟨by rw [asks, hconsider], ?_⟩
      rw [transpile, bind_error hconsider]
      exact ⟨hconsidered, hvoices⟩
    | ok admission =>
      cases admission with
      | known result =>
        refine .inl ⟨by rw [asks, hconsider], ?_⟩
        rw [transpile, bind_ok hconsider]
        exact ⟨hconsidered, hvoices⟩
      | new key? =>
        have hprepared : (prepare request key? w₁).2.books = w₁.books :=
          prepare_keeps plain_books.toQuiet request key? w₁
        have hunheard : (prepare request key? w₁).2.voices = w₁.voices :=
          prepare_keeps plain_voices.toQuiet request key? w₁
        cases hprepare : prepare request key? w₁ with
        | mk r w₂ =>
          rw [hprepare] at hprepared hunheard
          have hbooks := hprepared.trans hconsidered
          have hsilent := hunheard.trans hvoices
          cases r with
          | error e =>
            have hstopped : transpile request w = (.error e, w₂) :=
              (bind_ok hconsider).trans (bind_error hprepare)
            refine .inl ⟨by rw [asks, hconsider]; dsimp only; rw [hprepare], ?_⟩
            rw [hstopped]
            exact ⟨hbooks, hsilent⟩
          | ok job =>
            obtain ⟨-, hrequest, -, -, name, hprovider⟩ := prepare_ok hprepare
            have hproviders : w₁.transpiler.providers = (opened request w).transpiler.providers :=
              congrArg (·.1.2.1) hconsidered
            refine .inr ⟨job, w₂, hbooks, hrequest, ⟨name, hproviders ▸ hprovider⟩, ?_, hsilent, ?_⟩
            · rw [asks, hconsider]
              dsimp only
              rw [hprepare]
            · exact (bind_ok hconsider).trans (bind_ok hprepare)

theorem transpile_badTarget {request : Request} {w : Workbench R}
    (htarget : request.target.problems ≠ []) :
    transpile request w = (.error (.failed (.badTarget request.target.problems)), w) ∧
      asks request w = [] := by
  have hconsider : consider request w =
      (.error (.failed (.badTarget request.target.problems)), w) := by
    unfold consider
    dsimp only
    rw [if_neg (by simpa using htarget)]
    rfl
  exact ⟨bind_error hconsider, by rw [asks, hconsider]⟩

end Cartridge.Workbench
