import Cartridge.Proofs.Transpiler.Gates
import Cartridge.Proofs.Transpiler.Trial

/-!
# Asking again

An attempt that fails is followed by another one, as long as attempts are left and the budgets allow
it. The first answer that is taken for C is the result.

* `Course`: the ways that a number of attempts can go, with what follows from each.
* `attempts_goes`: attempts go one of these ways, and send their prompts as they do.
* `Retries`: what up to a number of attempts come to.
* `Halting`, `Halts`: why and how a request is over before anything is asked.
* `transpile_retries`: which attempts a request makes, when it waits, and how it ends.
-/

namespace Cartridge

variable {R : Type} [Quantity R] [Inhabited R]

namespace Workbench

open Run

variable {t : Trial R} {job : Job R} {w : Workbench R} {i : Nat}

/-! ## Several attempts -/

/-- How attempts go, `n` of them in all, from a number on: the number before which they are over,
how often they wait, and how they end. -/
inductive Course (t : Trial R) (n : Nat) :
    Nat → Nat → Nat → Except (Stop R) (Conversion R) → Prop
  | exhausted {why : Failure R} (hsome : 0 < n) (hlast : t.verdict (n - 1) = .failed why) :
      Course t n n n 0 (.error (.failed why))
  | refused {i : Nat} {why : Refusal R} (hleft : i < n) (hrefused : t.refusal? i = some why) :
      Course t n i i 0 (.error (.failed (.refused why)))
  | settled {i : Nat} {r : Except (Stop R) (Conversion R)} (hleft : i < n)
      (hpermitted : t.refusal? i = none) (hstops : t.fails i = false) (hjudged : t.Judged i r) :
      Course t n i (i + 1) 0 r
  | retried {i made waits : Nat} {r : Except (Stop R) (Conversion R)} (hleft : i < n)
      (hpermitted : t.refusal? i = none) (hfails : t.fails i = true)
      (rest : Course t n (i + 1) made waits r) :
      Course t n i made ((if i + 1 < n then 1 else 0) + waits) r

namespace Course

variable {n made waits : Nat} {r : Except (Stop R) (Conversion R)}

theorem le (h : Course t n i made waits r) : i ≤ made ∧ made ≤ n := by
  induction h with
  | exhausted => exact ⟨le_rfl, le_rfl⟩
  | refused hleft => exact ⟨le_rfl, hleft.le⟩
  | settled hleft => exact ⟨Nat.le_succ _, hleft⟩
  | retried _ _ _ _ ih => exact ⟨(Nat.le_succ _).trans ih.1, ih.2⟩

/-- An attempt is made exactly if one is left, all before it were made and failed, and the budgets
allow it. -/
theorem made_iff (h : Course t n i made waits r) {k : Nat} (hk : i ≤ k) :
    k < made ↔ k < n ∧ (∀ j < k, i ≤ j → j < made ∧ t.fails j = true) ∧ t.refusal? k = none := by
  induction h with
  | exhausted => exact ⟨fun h => absurd hk (by omega), fun ⟨h, _⟩ => h⟩
  | @refused i why hleft hrefused =>
    refine ⟨fun h => absurd hk (by omega), fun ⟨_, hbefore, hallowed⟩ => ?_⟩
    rcases hk.lt_or_eq with hlater | rfl
    · exact absurd (hbefore i hlater le_rfl).1 (lt_irrefl i)
    · rw [hrefused] at hallowed
      cases hallowed
  | @settled i r hleft hpermitted hstops hjudged =>
    constructor
    · intro hmade
      obtain rfl : k = i := by omega
      exact ⟨hleft, fun j hj hij => absurd hj (by omega), hpermitted⟩
    · rintro ⟨-, hbefore, -⟩
      by_contra hmade
      have hfails := (hbefore i (by omega) le_rfl).2
      rw [hstops] at hfails
      cases hfails
  | @retried i made waits r hleft hpermitted hfails rest ih =>
    have hmade : i < made := rest.le.1
    rcases hk.lt_or_eq with hlater | rfl
    · rw [ih hlater]
      refine and_congr_right fun _ => and_congr_left fun _ => forall₂_congr fun j hj => ?_
      refine ⟨fun hrest hij => ?_, fun hall hij => hall (by omega)⟩
      rcases hij.lt_or_eq with hij | rfl
      · exact hrest hij
      · exact ⟨hmade, hfails⟩
    · exact ⟨fun _ => ⟨hleft, fun j hj hij => absurd hj (by omega), hpermitted⟩, fun _ => hmade⟩

/-- There is a wait after each attempt that failed, but for the last of all. -/
theorem waits_eq (h : Course t n i made waits r) :
    waits = (List.range' i (made - i)).countP fun j => t.fails j && decide (j + 1 < n) := by
  induction h with
  | exhausted => simp
  | refused => simp
  | settled hleft hpermitted hstops => simp [hstops]
  | @retried i made waits r hleft hpermitted hfails rest ih =>
    obtain ⟨m, rfl⟩ := Nat.exists_eq_add_of_le rest.le.1
    rw [show i + 1 + m - i = m + 1 by omega, List.range'_succ, List.countP_cons, ih,
      show i + 1 + m - (i + 1) = m by omega, hfails, Nat.add_comm]
    simp

/-- An attempt that does not fail is the last one, and settles the matter. -/
theorem judged (h : Course t n i made waits r) {k : Nat} (hk : i ≤ k) (hmade : k < made)
    (hstops : t.fails k = false) : t.Judged k r := by
  induction h with
  | exhausted => omega
  | refused => omega
  | @settled i r _ _ _ hjudged =>
    obtain rfl : k = i := by omega
    exact hjudged
  | @retried i made waits r _ _ hfails rest ih =>
    rcases hk.lt_or_eq with hlater | rfl
    · exact ih hlater hmade
    · rw [hfails] at hstops
      cases hstops

/-- Attempts that are over before their number is used up, though all failed, were refused. -/
theorem refused_of_fails (h : Course t n i made waits r) (hmade : made < n)
    (hfails : ∀ k, i ≤ k → k < made → t.fails k = true) :
    ∃ why, t.refusal? made = some why ∧ r = .error (.failed (.refused why)) := by
  induction h with
  | exhausted => omega
  | refused _ hrefused => exact ⟨_, hrefused, rfl⟩
  | @settled i r _ _ hstops _ =>
    rw [hfails i le_rfl (Nat.lt_succ_self i)] at hstops
    cases hstops
  | retried _ _ _ _ ih => exact ih hmade fun k hk => hfails k (by omega)

/-- If the last attempt of all fails, its failure is reported. -/
theorem failed_of_last (h : Course t n i made waits r) (hmade : made = n) {why : Failure R}
    (hlast : t.verdict (n - 1) = .failed why) : r = .error (.failed why) := by
  induction h with
  | exhausted hsome hfailed =>
    rw [hfailed] at hlast
    cases hlast
    rfl
  | refused => omega
  | @settled i r _ _ hstops _ =>
    obtain rfl : i = n - 1 := by omega
    rw [Trial.fails_of_verdict hlast] at hstops
    cases hstops
  | retried _ _ _ _ ih => exact ih hmade

end Course

theorem stands_afterFailure (h : t.Stands i w) (number : Nat) (why : Failure R) (more : Bool) :
    t.Stands i (afterFailure number why more w).2 := by
  have hstill := afterFailure_keeps quiet_still number why more w
  have hsame : (afterFailure number why more w).2.transpiler = w.transpiler :=
    congrArg Prod.fst hstill
  have hvoices := afterFailure_keeps plain_voices.toQuiet number why more w
  rw [voices, voices, Prod.mk.injEq] at hvoices
  refine ⟨(afterFailure_rules number why more w).trans h.rules_eq, ?_,
    hvoices.1.trans h.agree.1, hvoices.2.trans h.agree.2⟩
  rw [hsame, h.spent_eq]

theorem afterFailure_sleeps (number : Nat) (why : Failure R) (more : Bool) (w : Workbench R) :
    (afterFailure number why more w).2.session.sleeps =
      List.replicate (if more then 1 else 0) (Quantity.ofNat pause) ++ w.session.sleeps := by
  cases more <;> rfl

/-- A prompt is sent after `j` others, with a wait after each of them. -/
structure Sent (t : Trial R) (job : Job R) (i : Nat) (w : Workbench R) (j : Nat) (a : Asking R) :
    Prop where
  job_eq : a.job = job
  answer_eq : a.answer = t.reply (i + j)
  spent_eq : a.workbench.transpiler.spent = t.spent (i + j)
  sleeps_eq : a.workbench.session.sleeps =
    List.replicate j (Quantity.ofNat pause) ++ w.session.sleeps

/-- Attempts from a number on take a course, with the prompts that belong to it. -/
structure Goes (t : Trial R) (job : Job R) (n i : Nat) (w : Workbench R) (sent : List (Asking R))
    (ended : Except (Stop R) (Conversion R) × Workbench R) : Prop where
  course : ∃ waits, Course t n i (i + sent.length) waits ended.1 ∧
    ended.2.session.sleeps = List.replicate waits (Quantity.ofNat pause) ++ w.session.sleeps
  sent : ∀ j a, sent[j]? = some a → Sent t job i w j a

namespace Goes

variable {n : Nat} {a : Asking R} {sent : List (Asking R)} {w' : Workbench R}
  {ended : Except (Stop R) (Conversion R) × Workbench R}

/-- No prompt is sent. -/
theorem of_nil (hcourse : Course t n i i 0 ended.1)
    (hsleeps : ended.2.session.sleeps = w.session.sleeps) : Goes t job n i w [] ended :=
  ⟨⟨0, hcourse, hsleeps⟩, fun j a ha => by cases ha⟩

theorem settled (hleft : i < n) (hpermitted : t.refusal? i = none) (hstops : t.fails i = false)
    (hjudged : t.Judged i ended.1) (hsleeps : ended.2.session.sleeps = w.session.sleeps)
    (ha : Sent t job i w 0 a) : Goes t job n i w [a] ended := by
  refine ⟨⟨0, .settled hleft hpermitted hstops hjudged, hsleeps⟩, fun j b hb => ?_⟩
  cases j with
  | zero =>
    cases hb
    exact ha
  | succ j => cases hb

theorem retried (hleft : i < n) (hpermitted : t.refusal? i = none) (hfails : t.fails i = true)
    (hwaits : w'.session.sleeps = List.replicate (if i + 1 < n then 1 else 0)
      (Quantity.ofNat pause) ++ w.session.sleeps)
    (ha : Sent t job i w 0 a) (rest : Goes t job n (i + 1) w' sent ended) :
    Goes t job n i w (a :: sent) ended := by
  obtain ⟨⟨waits, hcourse, hrest⟩, hsent⟩ := rest
  refine ⟨⟨(if i + 1 < n then 1 else 0) + waits, ?_, ?_⟩, fun j b hb => ?_⟩
  · rw [List.length_cons, Nat.add_comm _ 1, ← Nat.add_assoc]
    exact .retried hleft hpermitted hfails hcourse
  · rw [hrest, hwaits, ← List.append_assoc, List.replicate_append_replicate, Nat.add_comm]
  · cases j with
    | zero =>
      cases hb
      exact ha
    | succ j =>
      rw [List.getElem?_cons_succ] at hb
      obtain ⟨hjob, hanswer, hspent, hsleeps⟩ := hsent j b hb
      -- another prompt is sent, so this one was followed by a wait
      have hmore : i + 1 < n := by
        have hlength := (List.getElem?_eq_some_iff.mp hb).1
        have hmade := hcourse.le.2
        omega
      rw [hwaits, if_pos hmore, ← List.append_assoc, List.replicate_append_replicate] at hsleeps
      rw [Nat.add_assoc, Nat.add_comm 1 j] at hanswer hspent
      exact ⟨hjob, hanswer, hspent, hsleeps⟩

end Goes

theorem attempts_goes (hjob : t.Serves job) (hshort : Text.Short job.request.attempts) {n : Nat}
    (hsome : 0 < n) (left number : Nat)
    {last : Failure R} (hleft : i + left = n)
    (hlast : left = 0 → t.verdict (n - 1) = .failed last) (h : t.Stands i w) :
    Goes t job n i w (attemptAsks job left number w) (attempts job left number last w) := by
  induction left generalizing i number last w with
  | zero =>
    obtain rfl : i = n := hleft
    rw [attempts, if_pos hshort]
    exact .of_nil (.exhausted hsome (hlast rfl)) rfl
  | succ left ih =>
    have hpermit := permit_of_stands hjob h
    cases hrefused : t.refusal? i with
    | some why =>
      rw [hrefused] at hpermit
      rw [attempts, bind_error hpermit, attemptAsks, hpermit]
      exact .of_nil (.refused (by omega) hrefused) rfl
    | none =>
      rw [hrefused] at hpermit
      dsimp only at hpermit
      rw [if_pos hshort] at hpermit
      have hjudged := tryOnce_judged hjob h number
      have hstands := stands_tryOnce hjob h number
      have hsleeps := tryOnce_sleeps job number w
      have hfirst : Sent t job i w 0 (asking job number w) :=
        ⟨rfl, answer_of_stands hjob h number, h.spent_eq, rfl⟩
      rw [attempts_succ hpermit, attemptAsks_succ hpermit]
      generalize tryOnce job number w = tried at hjudged hstands hsleeps
      obtain ⟨r, w'⟩ := tried
      dsimp only at hjudged hstands hsleeps
      by_cases hfails : t.fails i = true
      · obtain ⟨why, hverdict⟩ := Trial.fails_iff.mp hfails
        obtain rfl : r = .error (.failed why) := (hjudged.failed_iff why).mp hverdict
        have hwaits := afterFailure_sleeps number why (left ≠ 0) w'
        have hmore : decide (left ≠ 0) = decide (i + 1 < n) := by
          rw [decide_eq_decide]
          omega
        have hnext : left = 0 → t.verdict (n - 1) = .failed why := by
          intro hnone
          rwa [show n - 1 = i by omega]
        refine .retried (by omega) hrefused hfails ?_ hfirst
          (ih (number + 1) (by omega) hnext (stands_afterFailure hstands number why (left ≠ 0)))
        rw [hwaits, hsleeps, hmore]
        simp only [decide_eq_true_eq]
      · have hstops : t.fails i = false := Bool.not_eq_true _ |>.mp hfails
        cases r with
        | ok result => exact .settled (by omega) hrefused hstops hjudged hsleeps hfirst
        | error e =>
          cases e with
          | broken fault => exact .settled (by omega) hrefused hstops hjudged hsleeps hfirst
          | failed why =>
            exact absurd (Trial.fails_of_verdict ((hjudged.failed_iff why).mpr rfl)) hfails

/-! ## Requests -/

section Requests

variable {request : Request}

omit [Quantity R] [Inhabited R] in
theorem has_of_firstAvailable {providers : Entries (Provider R)} {l : List Json} {name : String}
    (h : Transpiler.firstAvailable providers l = .ok (some name)) : providers.has name = true := by
  induction l with
  | nil => cases h
  | cons j l ih =>
    cases j with
    | str first =>
      unfold Transpiler.firstAvailable at h
      split at h
      · cases h
        assumption
      · exact ih h
    | arr _ => cases h
    | obj _ => cases h
    | null => exact ih h
    | bool _ => exact ih h
    | int _ => exact ih h
    | float _ => exact ih h

omit [Quantity R] [Inhabited R] in
/-- A provider that is chosen is there, unless there is none at all. -/
theorem provider_of_preferred {p : Transpiler R} (hsome : p.providers ≠ []) {name : String}
    {substitute : Bool} (h : p.preferred = .ok (name, substitute)) :
    ∃ provider, p.providers.get? name = some provider := by
  suffices hhas : p.providers.has name = true from Option.isSome_iff_exists.mp hhas
  unfold Transpiler.preferred at h
  dsimp only at h
  split at h
  · rename_i hlocal
    cases h
    exact (Bool.and_eq_true _ _ ▸ hlocal).2
  · split at h
    · cases h
      assumption
    · cases hfound : Transpiler.firstAvailable p.providers p.config.providers.fallback with
      | error fault =>
        rw [hfound] at h
        cases h
      | ok found =>
        rw [hfound] at h
        cases found with
        | some first =>
          cases h
          exact has_of_firstAvailable hfound
        | none =>
          cases h
          obtain ⟨entry, rest, hentries⟩ := List.exists_cons_of_ne_nil hsome
          rw [hentries, Entries.has, Entries.get?, Entries.names, List.map_cons, List.headD_cons,
            List.lookup_cons_self, Option.isSome_some]

/-- The trial that a request is, if it asks a provider. -/
def trial (request : Request) (w : Workbench R) (provider : Provider R) : Trial R where
  provider
  prompt := Prompt.build request.source request.target
    ((Example.similar (opened request w).transpiler.examples request.source).map Example.sample)
  source := request.source
  workbench := opened request w

/-- What up to `n` attempts come to, with the prompts that are sent. -/
structure Retries (t : Trial R) (n : Nat) (w : Workbench R) (sent : List (Asking R))
    (ended : Except (Stop R) (Conversion R) × Workbench R) : Prop where
  /-- An attempt is made exactly if one is left, all before it were made and failed, and the
  budgets allow it. -/
  made_iff : ∀ i, i < sent.length ↔
    i < n ∧ (∀ j < i, j < sent.length ∧ t.fails j = true) ∧ t.refusal? i = none
  /-- All attempts send the same prompt to the same provider; each one hears the next reply, finds
  the replies before it paid for, and comes after a wait for each attempt before it. -/
  sent_eq : ∀ i a, sent[i]? = some a →
    a.job.provider = t.provider ∧ a.job.prompt = t.prompt ∧ a.answer = t.reply i ∧
      a.workbench.transpiler.spent = t.spent i ∧
      a.workbench.session.sleeps = List.replicate i (Quantity.ofNat pause) ++ w.session.sleeps
  calls_eq : ended.2.session.calls = sent.reverse.flatMap Asking.calls ++ w.session.calls
  /-- There is a wait after each attempt that fails, but for the last of all. -/
  sleeps_eq : ended.2.session.sleeps =
    List.replicate ((List.range sent.length).countP fun i => t.fails i && decide (i + 1 < n))
      (Quantity.ofNat pause) ++ w.session.sleeps
  /-- An answer that is taken for C is the result, once it is placed; if its figures cannot be
  worked out, or the result cannot be kept, there may be a fault instead. -/
  accepted : ∀ i code, i < sent.length → t.verdict i = .accepted code →
    (∃ result, ended.1 = .ok result ∧ result.code = Code.placed code) ∨
      ¬ t.Settles code ∧ ∃ fault, ended.1 = .error (.broken fault)
  broken : ∀ i fault, i < sent.length → t.verdict i = .broken fault →
    ended.1 = .error (.broken fault)
  /-- Attempts that are over though one is left and all failed were refused. -/
  refused : sent.length < n → (∀ i < sent.length, t.fails i = true) →
    ∃ why, t.refusal? sent.length = some why ∧ ended.1 = .error (.failed (.refused why))
  /-- If all attempts fail, the failure of the last one is reported. -/
  exhausted : ∀ why, sent.length = n → t.verdict (n - 1) = .failed why →
    ended.1 = .error (.failed why)

theorem Goes.retries {n : Nat} {sent : List (Asking R)} {w' : Workbench R}
    {ended : Except (Stop R) (Conversion R) × Workbench R} (hjob : t.Serves job)
    (h : Goes t job n 0 w sent ended) (hsleeps : w.session.sleeps = w'.session.sleeps)
    (hcalls : ended.2.session.calls = sent.reverse.flatMap Asking.calls ++ w'.session.calls) :
    Retries t n w' sent ended := by
  obtain ⟨⟨waits, hcourse, hslept⟩, hsent⟩ := h
  rw [Nat.zero_add] at hcourse
  refine
    { made_iff := fun i => ?_, sent_eq := fun i a ha => ?_, calls_eq := hcalls,
      sleeps_eq := ?_, accepted := fun i code hi hverdict => ?_,
      broken := fun i fault hi hverdict => ?_,
      refused := fun hleft hfails => hcourse.refused_of_fails hleft fun i _ => hfails i,
      exhausted := fun why hmade => hcourse.failed_of_last hmade }
  · simpa using hcourse.made_iff (Nat.zero_le i)
  · obtain ⟨rfl, hanswer, hspent, hwaits⟩ := hsent i a ha
    rw [Nat.zero_add] at hanswer hspent
    exact ⟨hjob.provider_eq, hjob.prompt_eq, hanswer, hspent, hsleeps ▸ hwaits⟩
  · rw [hslept, hcourse.waits_eq, hsleeps, List.range_eq_range']
    rfl
  · have hstops : t.fails i = false := by rw [Trial.fails, hverdict]
    have hjudged := hcourse.judged (Nat.zero_le i) hi hstops
    generalize ended.1 = r at hjudged
    cases hjudged with
    | failed h => cases hverdict.symm.trans h
    | broken h => cases hverdict.symm.trans h
    | accepted h hcode =>
      cases hverdict.symm.trans h
      exact .inl ⟨_, rfl, hcode⟩
    | unsettled h hfigures =>
      cases hverdict.symm.trans h
      exact .inr ⟨hfigures, _, rfl⟩
  · have hstops : t.fails i = false := by rw [Trial.fails, hverdict]
    have hjudged := hcourse.judged (Nat.zero_le i) hi hstops
    generalize ended.1 = r at hjudged
    cases hjudged with
    | failed h => cases hverdict.symm.trans h
    | broken h =>
      cases hverdict.symm.trans h
      rfl
    | accepted h _ => cases hverdict.symm.trans h
    | unsettled h _ => cases hverdict.symm.trans h

section Passed

variable {w : Workbench R}

/-- The first attempt of a request may begin once it passed the gates. -/
theorem stands_admitted (request : Request) (w : Workbench R) (provider : Provider R)
    (console : Console) :
    (trial request w provider).Stands 0 (admitted request w console) := by
  refine ⟨?_, rfl, ?_⟩
  · show (_, _, (searched request w).maxSize, (searched request w).lifetime) = _
    rw [searched_eq, ← opened_cache request w]
    rfl
  · rw [Trial.heard, trial, opened_session]
    exact ⟨rfl, rfl⟩

/-- A request is over with a fault before anything is asked or waited for. -/
structure Halts (request : Request) (w : Workbench R) (fault : Fault) : Prop where
  ended : (transpile request w).1 = .error (.broken fault)
  asks_eq : asks request w = []
  calls_eq : (transpile request w).2.session.calls = w.session.calls
  sleeps_eq : (transpile request w).2.session.sleeps = w.session.sleeps

/-- Where a number of the target is too long to be written, nothing is asked. -/
theorem halts_of_unwritable (htarget : request.target.problems.isEmpty = true)
    (hspent : Quantity.upTo w.transpiler.config.budget.perDay (opened request w).transpiler.spent =
      false) (hlong : ¬ request.target.Writable) : Halts request w .tooManyDigits := by
  obtain ⟨console, hconsider⟩ := consider_apply request w
  rw [if_pos htarget, if_neg (by simp [hspent]), if_neg hlong] at hconsider
  have hended : transpile request w =
      (.error (.broken .tooManyDigits), heard request w console) := bind_error hconsider
  exact ⟨congrArg Prod.fst hended, by rw [asks, hconsider], congrArg (·.2.session.calls) hended,
    congrArg (·.2.session.sleeps) hended⟩

/-- Where no provider can be preferred, nothing is asked. -/
theorem halts_of_unpreferred (htarget : request.target.problems.isEmpty = true)
    (hspent : Quantity.upTo w.transpiler.config.budget.perDay (opened request w).transpiler.spent =
      false) (hwritable : request.target.Writable) (hnew : known? request w = none) {fault : Fault}
    (hpreferred : (opened request w).transpiler.preferred = .error fault) :
    Halts request w fault := by
  obtain ⟨console, hconsider⟩ := consider_apply request w
  rw [if_pos htarget, if_neg (by simp [hspent]), if_pos hwritable, hnew] at hconsider
  obtain ⟨said, hprepare⟩ := prepare_apply hwritable (keyOf? request w) (admitted request w console)
  rw [show (admitted request w console).transpiler.preferred = .error fault from hpreferred]
    at hprepare
  have hended : transpile request w = (prepare request (keyOf? request w) >>= fun job =>
      attempts job request.attempts.toNat 1 .noAttempt) (admitted request w console) := by
    rw [transpile, bind_ok hconsider]
  rw [bind_error hprepare] at hended
  refine ⟨congrArg Prod.fst hended, ?_, congrArg (·.2.session.calls) hended,
    congrArg (·.2.session.sleeps) hended⟩
  rw [asks, hconsider]
  dsimp only
  rw [hprepare]

end Passed

/-- Why a request that passes the first gates is over at once: a number of its target is too long to
be written, a fallback that is no name leaves open which provider is preferred, or the number of
attempts is too long to be written. -/
inductive Halting (request : Request) (w : Workbench R) : Fault → Prop
  | target (hlong : ¬ request.target.Writable) : Halting request w .tooManyDigits
  | preferred {fault : Fault} (h : (opened request w).transpiler.preferred = .error fault) :
      Halting request w fault
  | attempts (hlong : ¬ Text.Short request.attempts) : Halting request w .tooManyDigits

/-- On a day whose budget is not spent, a request with a target that is known and without a result
that is known asks the preferred provider, up to its number of attempts. Where there is a provider
at all, it ends at once only if a number is too long to be written or a fallback that is no name
leaves open which provider is preferred. -/
theorem transpile_retries {w : Workbench R} (htarget : request.target.problems.isEmpty = true)
    (hspent : Quantity.upTo w.transpiler.config.budget.perDay (opened request w).transpiler.spent =
      false) (hnew : known? request w = none) (hattempts : 0 < request.attempts)
    (hproviders : w.transpiler.providers ≠ []) :
    (∃ fault, Halting request w fault ∧ Halts request w fault) ∨
    ∃ name substitute provider,
      (opened request w).transpiler.preferred = .ok (name, substitute) ∧
      w.transpiler.providers.get? name = some provider ∧
      Retries (trial request w provider) request.attempts.toNat w (asks request w)
        (transpile request w) := by
  by_cases hwritable : request.target.Writable
  swap
  · exact .inl ⟨_, .target hwritable, halts_of_unwritable htarget hspent hwritable⟩
  have hrules : (opened request w).rules = w.rules := opened_rules request w
  have hsame : (opened request w).transpiler.providers = w.transpiler.providers :=
    congrArg (·.2.1) hrules
  cases hpreferred : (opened request w).transpiler.preferred with
  | error fault =>
    exact .inl ⟨fault, .preferred hpreferred,
      halts_of_unpreferred htarget hspent hwritable hnew hpreferred⟩
  | ok chosen =>
    obtain ⟨name, substitute⟩ := chosen
    obtain ⟨provider, hprovider⟩ := provider_of_preferred (hsame ▸ hproviders) hpreferred
    obtain ⟨job, console, hrequest, -, hjob, hprompt, htranspile, hasks⟩ :=
      job_of_new htarget hspent hwritable hnew hpreferred hprovider
    have hserves : (trial request w provider).Serves job :=
      ⟨hjob, hprompt, by rw [hrequest]; rfl⟩
    have hstands := stands_admitted request w provider console
    have hcalls : (transpile request w).2.session.calls = _ :=
      congrArg (·.2.2) (transpile_books request w)
    rw [opened_session] at hcalls
    have hgoes (h : Goes (trial request w provider) job request.attempts.toNat 0
        (admitted request w console) (asks request w) (transpile request w)) :
        Retries (trial request w provider) request.attempts.toNat w (asks request w)
          (transpile request w) := h.retries hserves rfl hcalls
    by_cases hshort : Text.Short request.attempts
    · refine .inr ⟨name, substitute, provider, rfl, hsame ▸ hprovider, hgoes ?_⟩
      rw [htranspile, hasks]
      exact attempts_goes hserves (hrequest ▸ hshort) (by omega) _ _ (Nat.zero_add _) (by omega)
        hstands
    · -- the announcement of the first attempt is too long, unless the attempt is refused
      obtain ⟨left, hleft⟩ : ∃ left, request.attempts.toNat = left + 1 :=
        ⟨request.attempts.toNat - 1, by omega⟩
      have hpermit := permit_of_stands hserves hstands
      rw [hrequest, if_neg hshort] at hpermit
      rw [hleft, attempts] at htranspile
      rw [hleft, attemptAsks] at hasks
      cases hrefused : (trial request w provider).refusal? 0 with
      | some why =>
        rw [hrefused] at hpermit
        refine .inr ⟨name, substitute, provider, rfl, hsame ▸ hprovider, hgoes ?_⟩
        rw [htranspile, hasks, bind_error hpermit, hpermit]
        exact .of_nil (.refused (by omega) hrefused) rfl
      | none =>
        rw [hrefused] at hpermit
        rw [bind_error hpermit] at htranspile
        rw [hpermit] at hasks
        exact .inl ⟨_, .attempts hshort, congrArg Prod.fst htranspile, hasks,
          congrArg (·.2.session.calls) htranspile, congrArg (·.2.session.sleeps) htranspile⟩

/-- A provider that fails once, answers with something else than C, and then with C. -/
theorem transpile_retries_of_late_answer :
    let text := "#include <gb/gb.h>\nvoid main(void) \x7b unsigned char a; \x7d"
    let w : Workbench ℚ :=
      { session :=
          { clock := 0
            today := "2024-01-01"
            scripts := [("late", [⟨1, .failure .provider "down"⟩, ⟨1, .text (some "no code")⟩,
              ⟨1, .text (some text)⟩])] }
        transpiler :=
          { config := Config.standard "gbdk"
            providers := [("late", .scripted "late" 0 (some 1))]
            cache := { maxSize := 1, lifetime := .whole 1 }
            spent := 0
            day := "2024-01-01" } }
    let r : Request := { source := "let x = 1;", attempts := 3 }
    (asks r w).length = 3 ∧ (transpile r w).2.session.sleeps = [2, 2] ∧
      ∃ result, (transpile r w).1 = .ok result ∧ result.code = Code.placed text := by
  intro text w r
  have hpreferred : (opened r w).transpiler.preferred = .ok ("late", true) := rfl
  have hunspent : Quantity.upTo w.transpiler.config.budget.perDay (opened r w).transpiler.spent =
      false := by decide
  obtain ⟨fault, hhalting, -⟩ | ⟨name, substitute, provider, hchosen, hprovider, h⟩ :=
    transpile_retries (show r.target.problems.isEmpty = true from rfl) hunspent
      (show known? r w = none from rfl) (by decide) (List.cons_ne_nil _ _)
  · cases hhalting with
    | target hlong => exact absurd (by decide) hlong
    | preferred hfault =>
      rw [hpreferred] at hfault
      cases hfault
    | attempts hlong => exact absurd (by decide) hlong
  rw [hpreferred] at hchosen
  cases hchosen
  obtain rfl : Provider.scripted "late" 0 (some 1) = provider := Option.some.inj hprovider
  change Retries (trial r w (.scripted "late" 0 (some 1))) 3 w (asks r w) (transpile r w) at h
  have hfirst : (trial r w (.scripted "late" 0 (some 1))).verdict 0 =
      .failed (.reported .provider "down") := rfl
  have hsecond : (trial r w (.scripted "late" 0 (some 1))).verdict 1 = .failed .notCode := rfl
  have hthird : (trial r w (.scripted "late" 0 (some 1))).verdict 2 = .accepted text := by
    have hreply : (trial r w (.scripted "late" 0 (some 1))).reply 2 = .ok (some text) := rfl
    have hcost : (trial r w (.scripted "late" 0 (some 1))).cost? 2 = some 1 := rfl
    have hflaw : (Transpiler.flaw? (some text) : Option (Failure ℚ)) = none := by decide +kernel
    simp only [Trial.verdict, hreply, hcost, hflaw, Option.getD_some]
  have hfigures : (trial r w (.scripted "late" 0 (some 1))).Settles text :=
    ⟨⟨by decide +kernel, fun _ => ⟨1, by decide +kernel, rfl, rfl⟩⟩, by decide⟩
  have hallowed (i : Nat) (hi : i < 3) :
      (trial r w (.scripted "late" 0 (some 1))).refusal? i = none := by
    have hfree (prompt source : String) : Transpiler.estimate prompt source (0 : ℚ) = 0 := by
      rw [estimate_eq, mul_zero]
    have hspent : (trial r w (.scripted "late" 0 (some 1))).spent i ≤ 1 := by
      obtain rfl | rfl | rfl : i = 0 ∨ i = 1 ∨ i = 2 := by omega
      · exact zero_le_one
      · exact zero_le_one
      · exact (zero_add (1 : ℚ)).le
    refine refusal?_eq_none_iff.mpr ⟨?_, ?_⟩
    · show Quantity.below (Config.standard "gbdk").budget.perConversion
        (Transpiler.estimate _ _ (0 : ℚ)) = false
      rw [hfree]
      decide
    · show Quantity.below (Config.standard "gbdk").budget.perDay
        ((trial r w (.scripted "late" 0 (some 1))).spent i +
          Transpiler.estimate _ _ (0 : ℚ)) = false
      rw [hfree, add_zero]
      have hbudget : (1 : ℚ) ≤ (Config.standard "gbdk").budget.perDay := by decide
      exact decide_eq_false (not_lt.mpr (hspent.trans hbudget))
  generalize trial r w (.scripted "late" 0 (some 1)) = t
    at h hfirst hsecond hthird hfigures hallowed
  have hfails : ∀ j < 2, t.fails j = true := by
    intro j hj
    obtain rfl | rfl : j = 0 ∨ j = 1 := by omega
    · exact Trial.fails_of_verdict hfirst
    · exact Trial.fails_of_verdict hsecond
  have hstops : t.fails 2 = false := by rw [Trial.fails, hthird]
  have hmade : ∀ i < 3, i < (asks r w).length := by
    intro i
    induction i using Nat.strongRecOn with
    | ind i ih =>
      intro hi
      exact (h.made_iff i).mpr
        ⟨hi, fun j hj => ⟨ih j hj (by omega), hfails j (by omega)⟩, hallowed i hi⟩
  have hlength : (asks r w).length = 3 := by
    have hover : ¬ 3 < (asks r w).length := fun hmore => by
      have := (h.made_iff 3).mp hmore
      omega
    have := hmade 2 (by decide)
    omega
  refine ⟨hlength, ?_, ?_⟩
  · rw [h.sleeps_eq, hlength, show List.range 3 = [0, 1, 2] from rfl]
    simp only [List.countP_cons, List.countP_nil, hfails 0 (by decide), hfails 1 (by decide),
      hstops]
    decide
  · rcases h.accepted 2 text (hmade 2 (by decide)) hthird with hresult | ⟨hnot, -⟩
    · exact hresult
    · exact absurd hfigures hnot

end Requests

end Workbench

end Cartridge
