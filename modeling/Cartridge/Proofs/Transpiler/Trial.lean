import Cartridge.Proofs.Transpiler.Foreseen

/-!
# One attempt after the other

What a provider replies, what was spent by then and what comes of it follow from the provider, the
prompt and what the provider has to say; what is said, waited for and kept in between is of no
matter. So the attempts at a request can be told beforehand, by number.

* `Session.Agree.ask`: what a reply depends on.
* `Trial`: a prompt for a provider, with the replies, the account and the verdicts, by number.
* `Trial.Stands`: a workbench at which the attempt of a number may begin.
* `tryOnce_judged`, `stands_tryOnce`: an attempt ends as the verdict on its reply says, and then the
  next one may begin.
-/

namespace Cartridge

variable {R : Type} [Quantity R] [Inhabited R]

/-! ## Replies -/

section Replies

variable {s s' : Session R}

omit [Inhabited R]

/-- The network and the providers have the same still to say. -/
def Session.Agree (s s' : Session R) : Prop := s.network = s'.network ∧ s.scripts = s'.scripts

theorem Session.Agree.listen (h : s.Agree s') :
    s.listen.1 = s'.listen.1 ∧ s.listen.2.Agree s'.listen.2 := by
  obtain ⟨hnetwork, hscripts⟩ := h
  unfold Session.listen
  rw [hnetwork]
  cases nextOf s'.network with
  | none => exact ⟨rfl, hnetwork, hscripts⟩
  | some found => exact ⟨rfl, rfl, hscripts⟩

theorem Session.Agree.hear (h : s.Agree s') (name : String) :
    (s.hear name).1 = (s'.hear name).1 ∧ (s.hear name).2.Agree (s'.hear name).2 := by
  obtain ⟨hnetwork, hscripts⟩ := h
  unfold Session.hear
  rw [hscripts]
  cases (s'.scripts.get? name).bind nextOf with
  | none => exact ⟨rfl, hnetwork, hscripts⟩
  | some found => exact ⟨rfl, hnetwork, rfl⟩

/-- What a provider replies, and what is left to be said, depends on what there is to be said. -/
theorem Session.Agree.ask (h : s.Agree s') (p : Provider R) (prompt : String) :
    (p.ask prompt s).1 = (p.ask prompt s').1 ∧ (p.ask prompt s).2.Agree (p.ask prompt s').2 := by
  have hsent (c : Call) : (s.send c).Agree (s'.send c) := h
  unfold Provider.ask
  cases p.source with
  | script =>
    obtain ⟨hreply, hrest⟩ := (hsent ⟨p.name, none, prompt⟩).hear p.name
    dsimp only
    rw [hreply]
    cases ((s'.send ⟨p.name, none, prompt⟩).hear p.name).1 <;> exact ⟨rfl, hrest⟩
  | service service =>
    dsimp only
    cases service.query? prompt with
    | none => exact ⟨rfl, h⟩
    | some query =>
      obtain ⟨houtcome, hrest⟩ := (hsent ⟨query.url, query.payload.get? "model", prompt⟩).listen
      dsimp only
      rw [houtcome]
      split
      · exact ⟨rfl, hrest⟩
      · split <;> exact ⟨rfl, hrest⟩

end Replies

/-! ## Trials -/

/-- What comes of an attempt. -/
inductive Verdict (R : Type) where
  /-- It fails, and may be followed by another one. -/
  | failed (why : Failure R)
  | broken (fault : Fault)
  /-- The answer is taken for C. -/
  | accepted (code : String)

/-- A prompt for a provider, the source that it is about, and the workbench before it is sent. -/
structure Trial (R : Type) where
  provider : Provider R
  prompt : String
  source : String
  workbench : Workbench R

namespace Trial

variable (t : Trial R)

omit [Inhabited R] in
/-- What surrounds the provider after some replies. -/
def heard : Nat → Session R
  | 0 => t.workbench.session
  | i + 1 => (t.provider.ask t.prompt (heard i)).2

/-- The replies, one after the other. -/
def reply (i : Nat) : Except (Stop R) (Option String) := (t.provider.ask t.prompt (t.heard i)).1

/-- What is paid for a reply, if it is an answer. -/
def cost? (i : Nat) : Option R :=
  match t.reply i with
  | .ok answer => t.provider.pricing.cost? t.prompt (answer.getD "")
  | .error _ => none

/-- What was spent after some replies. -/
def spent : Nat → R
  | 0 => t.workbench.transpiler.spent
  | i + 1 =>
    match t.cost? i with
    | some cost => spent i + cost
    | none => spent i

/-- Why no attempt is made after some replies, if it is not for want of attempts. -/
def refusal? (i : Nat) : Option (Refusal R) :=
  { t.workbench.transpiler with spent := t.spent i }.refusal?
    (Transpiler.estimate t.prompt t.source t.provider.rate)

/-- What comes of a reply: a failure of the provider, a fault, an answer that is empty or blank or
does not look like C, or an answer that is taken for C. -/
def verdict (i : Nat) : Verdict R :=
  match t.reply i with
  | .error (.failed why) => .failed why
  | .error (.broken fault) => .broken fault
  | .ok answer =>
    match t.cost? i, Transpiler.flaw? answer with
    | none, _ => .broken .wrongKind
    | some _, some why => .failed why
    | some _, none => .accepted (answer.getD "")

/-- The attempt fails, and may be followed by another one. -/
def fails (i : Nat) : Bool :=
  match t.verdict i with
  | .failed _ => true
  | _ => false

/-- The figures of an answer that is C can be worked out, and its result can be kept. -/
def Settles (code : String) : Prop :=
  Transpiler.Settleable t.workbench.transpiler.config code ∧
    0 ≤ t.workbench.transpiler.cache.maxSize

/-- An attempt ends as the verdict on its reply says. -/
inductive Judged (i : Nat) : Except (Stop R) (Conversion R) → Prop
  | failed {why : Failure R} (hverdict : t.verdict i = .failed why) :
      Judged i (.error (.failed why))
  | broken {fault : Fault} (hverdict : t.verdict i = .broken fault) :
      Judged i (.error (.broken fault))
  | accepted {code : String} {result : Conversion R} (hverdict : t.verdict i = .accepted code)
      (hcode : result.code = Code.placed code) : Judged i (.ok result)
  | unsettled {code : String} {fault : Fault} (hverdict : t.verdict i = .accepted code)
      (hfigures : ¬ t.Settles code) : Judged i (.error (.broken fault))

/-- An attempt of a number may begin at a workbench: the replies before it were heard and paid
for, and the rules are as they were. -/
structure Stands (i : Nat) (w : Workbench R) : Prop where
  rules_eq : w.rules = t.workbench.rules
  spent_eq : w.transpiler.spent = t.spent i
  agree : w.session.Agree (t.heard i)

/-- The job sends the prompt to the provider. -/
structure Serves (job : Workbench.Job R) : Prop where
  provider_eq : job.provider = t.provider
  prompt_eq : job.prompt = t.prompt
  source_eq : job.request.source = t.source

variable {t}

theorem fails_iff {i : Nat} : t.fails i = true ↔ ∃ why, t.verdict i = .failed why := by
  unfold fails
  cases t.verdict i <;> simp

theorem fails_of_verdict {i : Nat} {why : Failure R} (h : t.verdict i = .failed why) :
    t.fails i = true := fails_iff.mpr ⟨why, h⟩

theorem Judged.failed_iff {i : Nat} {r : Except (Stop R) (Conversion R)} (h : t.Judged i r)
    (why : Failure R) : t.verdict i = .failed why ↔ r = .error (.failed why) := by
  cases h with
  | failed hverdict => simp [hverdict]
  | broken hverdict => simp [hverdict]
  | accepted hverdict _ => simp [hverdict]
  | unsettled hverdict _ => simp [hverdict]

end Trial

namespace Workbench

open Run

variable {t : Trial R} {job : Job R} {w : Workbench R} {i : Nat}

/-! ## One attempt -/

section Once

theorem settle_sleeps (job : Job R) (answer : Option String) (duration cost : R) :
    Keeps (fun w => w.session.sleeps) (settle job answer duration cost) := by
  have hstore (result : Conversion R) : Keeps (fun w => w.session.sleeps) (store job result) := by
    intro w
    unfold store keep
    cases job.key? with
    | none => rfl
    | some key =>
      dsimp only
      cases w.transpiler.cache.set key result w.session.clock <;> rfl
  unfold settle
  split
  · exact .stop _
  · refine .bind .get fun w => .bind (.ofExcept _) fun result => .bind (hstore _) fun _ => ?_
    refine .bind (fun w => congrArg Session.sleeps (learn_rest _ _ _ _ _ w).2) fun _ => ?_
    exact .bind (.update fun _ => rfl) fun _ => .bind (.update fun _ => rfl) fun _ => .pure _

/-- An attempt does not wait. -/
theorem tryOnce_sleeps (job : Job R) (number : Nat) :
    Keeps (fun w => w.session.sleeps) (tryOnce job number) := by
  refine .bind (.update fun _ => rfl) fun _ => .bind (ask_aside (fun _ _ _ _ _ => rfl) job) ?_
  intro answer
  have hcharge : Keeps (fun w => w.session.sleeps) (charge job answer) := fun w =>
    congrArg Session.sleeps (charge_session job answer w)
  exact .bind .get fun w => .bind hcharge fun cost => settle_sleeps _ _ _ _

/-- The attempt is permitted exactly if nothing speaks against it and its announcement is not too
long. -/
theorem permit_of_stands (hjob : t.Serves job) (h : t.Stands i w) :
    permit job w = match t.refusal? i with
      | some why => (.error (.failed (.refused why)), w)
      | none =>
        if Text.Short job.request.attempts then (.ok (), w)
        else (.error (.broken .tooManyDigits), w) := by
  have hrefusal (estimated : R) : w.transpiler.refusal? estimated =
      { t.workbench.transpiler with spent := t.spent i }.refusal? estimated := by
    unfold Transpiler.refusal?
    rw [config_of_rules h.rules_eq, h.spent_eq]
  unfold permit
  dsimp only
  rw [hjob.provider_eq, hjob.prompt_eq, hjob.source_eq, hrefusal]
  rfl

theorem answer_of_stands (hjob : t.Serves job) (h : t.Stands i w) (number : Nat) :
    (asking job number w).answer = t.reply i := by
  show (job.provider.ask job.prompt _).1 = _
  rw [hjob.provider_eq, hjob.prompt_eq]
  have hagree : (announce job number w).2.session.Agree (t.heard i) := h.agree
  exact (hagree.ask t.provider t.prompt).1

theorem cost?_of_stands (hjob : t.Serves job) (h : t.Stands i w) (number : Nat) :
    (asking job number w).cost? = t.cost? i := by
  rw [Asking.cost?, answer_of_stands hjob h, Trial.cost?, ← hjob.provider_eq, ← hjob.prompt_eq]
  rfl

/-- After an attempt the next one may begin. -/
theorem stands_tryOnce (hjob : t.Serves job) (h : t.Stands i w) (number : Nat) :
    t.Stands (i + 1) (tryOnce job number w).2 := by
  refine ⟨(tryOnce_rules job number w).trans h.rules_eq, ?_, ?_⟩
  · have hspent : (tryOnce job number w).2.transpiler.spent = _ :=
      congrArg (·.2.1) (tryOnce_books job number w)
    rw [hspent, Asking.pay_eq, cost?_of_stands hjob h, h.spent_eq]
    rfl
  · have hvoices := tryOnce_voices job number w
    have hagree : (announce job number w).2.session.Agree (t.heard i) := h.agree
    have hheard := (hagree.ask job.provider job.prompt).2
    rw [voices, voices, Prod.mk.injEq] at hvoices
    refine ⟨hvoices.1.trans ?_, hvoices.2.trans ?_⟩
    · exact hheard.1.trans (by rw [hjob.provider_eq, hjob.prompt_eq]; rfl)
    · exact hheard.2.trans (by rw [hjob.provider_eq, hjob.prompt_eq]; rfl)

/-- An answer that is taken for C is settled, or its figures cannot be worked out. -/
theorem settle_judged {answer : Option String} {duration cost : R} {w' : Workbench R}
    (hverdict : t.verdict i = .accepted (answer.getD ""))
    (hflaw : (Transpiler.flaw? answer : Option (Failure R)) = none)
    (hrules : w'.rules = t.workbench.rules) :
    t.Judged i (settle job answer duration cost w').1 := by
  have hsettled (hsettles : t.Settles (answer.getD "")) :
      ∃ result w'', settle job answer duration cost w' = (.ok result, w'') :=
    settle_ok_of_settleable job duration cost (maxSize_of_rules hrules ▸ hsettles.2) hflaw
      (config_of_rules hrules ▸ hsettles.1)
  cases hsettle : settle job answer duration cost w' with
  | mk r w'' =>
    cases r with
    | ok result =>
      exact .accepted hverdict (Transpiler.code_of_conversion (conversion_of_settle hsettle).2)
    | error e =>
      cases e with
      | failed why =>
        rw [(settle_failed hsettle).1] at hflaw
        cases hflaw
      | broken fault =>
        refine .unsettled hverdict fun hsettles => ?_
        obtain ⟨result, w₁, hok⟩ := hsettled hsettles
        rw [hsettle] at hok
        cases hok

theorem tryOnce_judged (hjob : t.Serves job) (h : t.Stands i w) (number : Nat) :
    t.Judged i (tryOnce job number w).1 := by
  have hanswer := answer_of_stands hjob h number
  have hasked := ask_rules job (asking job number w).workbench
  rw [tryOnce_apply]
  cases hask : ask job (asking job number w).workbench with
  | mk r w₁ =>
    have hreply : t.reply i = r := hanswer.symm.trans (congrArg Prod.fst hask)
    rw [hask] at hasked
    cases r with
    | error e =>
      cases e with
      | failed why => exact .failed (by rw [Trial.verdict, hreply])
      | broken fault => exact .broken (by rw [Trial.verdict, hreply])
    | ok answer =>
      have hcost : t.cost? i = job.provider.pricing.cost? job.prompt (answer.getD "") := by
        rw [Trial.cost?, hreply, hjob.provider_eq, hjob.prompt_eq]
      have hcharged := charge_rules job answer w₁
      dsimp only at hasked ⊢
      unfold charge at hcharged ⊢
      cases hprice : job.provider.pricing.cost? job.prompt (answer.getD "") with
      | none => exact .broken (by simp only [Trial.verdict, hreply, hcost, hprice])
      | some cost =>
        rw [hprice] at hcharged
        dsimp only at hcharged ⊢
        cases hflaw : (Transpiler.flaw? answer : Option (Failure R)) with
        | some why =>
          rw [settle_flawed hflaw]
          exact .failed (by simp only [Trial.verdict, hreply, hcost, hprice, hflaw])
        | none =>
          refine settle_judged ?_ hflaw (hcharged.trans (hasked.trans h.rules_eq))
          simp only [Trial.verdict, hreply, hcost, hprice, hflaw]

end Once

end Workbench

end Cartridge
