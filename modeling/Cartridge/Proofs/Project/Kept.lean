import Cartridge.Proofs.Project.Calls
import Cartridge.Proofs.Transpiler.Stock

/-!
# Results that a studio keeps

Requests that are made one after another leave their results with the transpiler of the studio, as
long as its cache has room and nothing gets too old. If all of them are made again, each gets its
result, no prompt is sent, and nothing changes but what is said and, on a new day, the account.

* `Studio.Stocked`: the results that a studio keeps, request by request.
* `StaysFresh`: no result gets too old while requests are made.
* `stocked_of_carries`: after requests in a row the results of all of them are kept.
* `Ready`: a studio whose results can be given a second time.
* `carries_of_ready`: requests whose results are kept get them again.
-/

namespace Cartridge

open Run

variable {R α : Type} [Quantity R] [Inhabited R]

/-! ## What a studio keeps -/

namespace Studio

/-- No result that is kept is too old to be given a second time. -/
def Fresh (s : Studio R) : Prop := ∀ t, s.transpiler? = some t → Workbench.Fresh ⟨s.session, t⟩

/-- The studio keeps the results of some requests, and no others. -/
structure Stocked (done : List (Request × Conversion R)) (s : Studio R) : Prop where
  held : ∀ t, s.transpiler? = some t → Workbench.Stocked done ⟨s.session, t⟩
  unused : s.transpiler? = none → done = []

variable {s s₁ : Studio R} {task : Workbench.Task R α} {a : α}

theorem work_of_some {t : Transpiler R} (h : s.transpiler? = some t) (task : Workbench.Task R α) :
    work task s = ((task ⟨s.session, t⟩).1, s.putBack (task ⟨s.session, t⟩).2) :=
  bind_ok (ready_of_some h)

/-- A task that ends was done with the transpiler of the studio, or with a new one. -/
theorem work_ok (h : work task s = (.ok a, s₁)) :
    ∃ w w', task w = (.ok a, w') ∧ s₁ = s.putBack w' ∧
      (s.transpiler? = some w.transpiler ∧ w.session.clock = s.session.clock ∨
        s.transpiler? = none ∧ w.transpiler.cache.entries = []) := by
  cases ht : s.transpiler? with
  | some t =>
    rw [work_of_some ht] at h
    cases htask : task ⟨s.session, t⟩ with
    | mk r w' =>
      rw [htask] at h
      cases h
      exact ⟨⟨s.session, t⟩, w', htask, rfl, .inl ⟨rfl, rfl⟩⟩
  | none =>
    unfold work at h
    obtain ⟨t, s₂, hready, htask⟩ := bind_eq_ok h
    unfold ready at hready
    rw [ht] at hready
    dsimp only at hready
    cases hcreate : Transpiler.create s.config s.config.serviceProviders s.session with
    | mk r session =>
      rw [hcreate] at hready
      cases r with
      | error e => cases hready
      | ok t' =>
        cases hready
        dsimp only at htask
        cases hdone : task ⟨session, t⟩ with
        | mk r w' =>
          rw [hdone] at htask
          cases htask
          exact ⟨⟨session, t⟩, w', hdone, rfl,
            .inr ⟨rfl, (Workbench.create_rules hcreate).2⟩⟩

omit [Quantity R] [Inhabited R] in
theorem Stocked.bench {done : List (Request × Conversion R)} (h : s.Stocked done) {w : Workbench R}
    (hw : s.transpiler? = some w.transpiler ∧ w.session.clock = s.session.clock ∨
      s.transpiler? = none ∧ w.transpiler.cache.entries = []) : Workbench.Stocked done w := by
  rcases hw with ⟨ht, -⟩ | ⟨hnone, hempty⟩
  · exact (h.held _ ht).of_cache rfl
  · rw [h.unused hnone]
    exact Workbench.stocked_of_empty hempty

omit [Inhabited R] in
theorem Fresh.bench (h : s.Fresh) {w : Workbench R}
    (hw : s.transpiler? = some w.transpiler ∧ w.session.clock = s.session.clock ∨
      s.transpiler? = none ∧ w.transpiler.cache.entries = []) : w.Fresh := by
  rcases hw with ⟨ht, hclock⟩ | ⟨-, hempty⟩
  · exact (h _ ht).of_cache rfl hclock
  · intro e he
    rw [hempty] at he
    cases he

theorem work_config (task : Workbench.Task R α) : Keeps Studio.config (work task) := by
  refine .bind (fun s => ?_) fun t s => rfl
  unfold ready
  split
  · rfl
  · split <;> rfl

end Studio

namespace Project

/-! ## The first run -/

variable {requests : List Request} {rs : List (Conversion R)} {s s' : Studio R}
  {done : List (Request × Conversion R)}

/-- While requests are made one after another, no result that is kept gets too old. -/
def StaysFresh (requests : List Request) (s : Studio R) : Prop :=
  ∀ earlier later rs s', requests = earlier ++ later →
    Carries Workbench.transpile earlier s (.ok rs) s' → s'.Fresh

theorem StaysFresh.start (h : StaysFresh requests s) : s.Fresh :=
  h [] requests [] _ rfl (.done id s)

theorem StaysFresh.next {request : Request} {s₁ : Studio R} {r : Conversion R}
    {before : Console → Console} (h : StaysFresh (request :: requests) s)
    (hcall : Studio.work (Workbench.transpile request) (s.said before) = (.ok r, s₁)) :
    StaysFresh requests s₁ := by
  intro earlier later rs s' hsplit hcarries
  exact h (request :: earlier) later (r :: rs) s' (by rw [hsplit]; rfl)
    (.next before hcall hcarries)

theorem carries_rules {outcome : Except (Stop R) (List (Conversion R))}
    (h : Carries Workbench.transpile requests s outcome s') {t : Transpiler R}
    (ht : s.transpiler? = some t) : ∃ t', s'.transpiler? = some t' ∧
      (Workbench.mk s'.session t').rules = (Workbench.mk s.session t).rules := by
  induction h generalizing t with
  | done write s => exact ⟨t, ht, rfl⟩
  | stopped before after hcall =>
    rw [Studio.work_of_some (by exact ht)] at hcall
    obtain ⟨-, rfl⟩ := Prod.mk.inj hcall
    exact ⟨_, rfl, Workbench.transpile_rules _ _⟩
  | next before hcall _ ih =>
    rw [Studio.work_of_some (by exact ht)] at hcall
    obtain ⟨-, rfl⟩ := Prod.mk.inj hcall
    obtain ⟨t', ht', hrules⟩ := ih rfl
    exact ⟨t', ht', hrules.trans (Workbench.transpile_rules _ _)⟩

theorem carries_config {transpile : Request → Workbench.Task R (Conversion R)}
    {outcome : Except (Stop R) (List (Conversion R))}
    (h : Carries transpile requests s outcome s') : s'.config = s.config := by
  induction h with
  | done write s => rfl
  | stopped before after hcall =>
    exact (congrArg (·.2.config) hcall).symm.trans (Studio.work_config _ _)
  | next before hcall _ ih =>
    exact ih.trans ((congrArg (·.2.config) hcall).symm.trans (Studio.work_config _ _))

/-- Requests that are all answered have targets without problems. -/
theorem targets_of_carries (h : Carries Workbench.transpile requests s (.ok rs) s') :
    rs.length = requests.length ∧ ∀ q ∈ requests, q.target.problems.isEmpty = true := by
  generalize hout : Except.ok rs = outcome at h
  induction h generalizing rs with
  | done =>
    cases hout
    exact ⟨rfl, fun q hq => by cases hq⟩
  | stopped => cases hout
  | @next request _ _ _ _ r outcome before hcall _ ih =>
    cases outcome with
    | error e => cases hout
    | ok rest =>
      cases hout
      obtain ⟨hlength, hall⟩ := ih rfl
      refine ⟨congrArg Nat.succ hlength, List.forall_mem_cons.mpr ⟨?_, hall⟩⟩
      obtain ⟨w, w', hresult, -⟩ := Studio.work_ok hcall
      by_contra hproblems
      rw [(Workbench.transpile_badTarget (by simpa using hproblems)).1] at hresult
      cases hresult

/-- After requests in a row, all answered, the results of all of them are kept: if the cache is
used, has room for them, and nothing in it gets too old meanwhile. -/
theorem stocked_of_carries (h : Carries Workbench.transpile requests s (.ok rs) s')
    (hstocked : s.Stocked done) (hfresh : StaysFresh requests s) {t : Transpiler R}
    (ht : s'.transpiler? = some t) (huses : ∀ q ∈ requests, q.useCache = true)
    (henabled : t.config.caching.enabled = true)
    (hroom : (done.length + requests.length : Int) ≤ t.cache.maxSize) :
    s'.Stocked (done ++ requests.zip rs) := by
  generalize hout : Except.ok rs = outcome at h
  induction h generalizing rs done with
  | done write s =>
    cases hout
    rw [List.zip_nil_left, List.append_nil]
    exact ⟨fun t ht => (hstocked.held t ht).of_cache rfl, hstocked.unused⟩
  | stopped => cases hout
  | @next request rest s s₁ s' r outcome before hcall hrest ih =>
    cases outcome with
    | error e => cases hout
    | ok rs' =>
      cases hout
      obtain ⟨w, w', hresult, hput, hw⟩ := Studio.work_ok hcall
      have hw₁ : s₁.transpiler? = some w'.transpiler := by rw [hput]; rfl
      obtain ⟨t', ht', hrules⟩ := carries_rules hrest hw₁
      obtain rfl : t' = t := Option.some.inj (ht'.symm.trans ht)
      have hrules : (Workbench.mk s'.session t').rules = w.rules := by
        rw [hrules, ← Workbench.transpile_rules request w, hresult]
        rfl
      have hsize : t'.cache.maxSize = w.transpiler.cache.maxSize :=
        Workbench.maxSize_of_rules hrules
      have hconfig : t'.config = w.transpiler.config := Workbench.config_of_rules hrules
      rw [List.length_cons] at hroom
      have hnext : Workbench.Stocked (done ++ [(request, r)]) w' := by
        refine Workbench.stocked_next (hstocked.bench hw) (hfresh.start.bench hw) ?_ (by omega)
          hresult
        rw [Workbench.usesCache, huses request List.mem_cons_self, ← hconfig, henabled]
        rfl
      have hstudio : s₁.Stocked (done ++ [(request, r)]) := by
        refine ⟨fun t₁ ht₁ => ?_, fun hnone => by rw [hw₁] at hnone; cases hnone⟩
        obtain rfl : w'.transpiler = t₁ := Option.some.inj (hw₁.symm.trans ht₁)
        exact hnext.of_cache rfl
      have hall := ih hstudio (hfresh.next hcall) ht
        (fun q hq => huses q (List.mem_cons_of_mem _ hq))
        (by rw [List.length_append, List.length_singleton]; push_cast; omega) rfl
      rwa [List.append_assoc] at hall

/-! ## The second run -/

theorem openedOn_rest (t : Transpiler R) (today : String) :
    (t.openedOn today).cache = t.cache ∧ (t.openedOn today).config = t.config := by
  unfold Transpiler.openedOn
  split <;> exact ⟨rfl, rfl⟩

theorem openedOn_openedOn (t : Transpiler R) (today : String) :
    (t.openedOn today).openedOn today = t.openedOn today := by
  unfold Transpiler.openedOn
  split
  · rfl
  · rw [if_pos rfl]

/-- The studio with a transpiler, after something was said. -/
def heard (s : Studio R) (t : Transpiler R) (console : Console) : Studio R :=
  { s with session := { s.session with console }, transpiler? := some t }

/-- The studio keeps the results of some requests, and they can be given a second time. -/
structure Ready (done : List (Request × Conversion R)) (s : Studio R) (t : Transpiler R) : Prop where
  transpiler : s.transpiler? = some t
  stocked : Workbench.Stocked done ⟨s.session, t⟩
  fresh : Workbench.Fresh ⟨s.session, t⟩
  enabled : t.config.caching.enabled = true
  unspent : Quantity.upTo t.config.budget.perDay (t.openedOn s.session.today).spent = false

theorem Ready.heard {t : Transpiler R} (h : Ready done s t) (console : Console) :
    Ready done (heard s (t.openedOn s.session.today) console) (t.openedOn s.session.today) := by
  obtain ⟨hcache, hconfig⟩ := openedOn_rest t s.session.today
  refine ⟨rfl, h.stocked.of_cache hcache, h.fresh.of_cache hcache rfl, ?_, ?_⟩
  · rw [hconfig]
    exact h.enabled
  · show Quantity.upTo _ ((t.openedOn s.session.today).openedOn s.session.today).spent = false
    rw [hconfig, openedOn_openedOn]
    exact h.unspent

/-- A request whose result was asked for before. -/
def Asked (done : List (Request × Conversion R)) (q : Request) (r : Conversion R) : Prop :=
  (q, r) ∈ done ∧ q.useCache = true ∧ q.target.problems.isEmpty = true

theorem work_of_ready {t : Transpiler R} (h : Ready done s t) {q : Request} {r : Conversion R}
    (hasked : Asked done q r) (before : Console → Console) :
    ∃ console, Studio.work (Workbench.transpile q) (s.said before) =
      (.ok (Workbench.again r), heard s (t.openedOn s.session.today) console) := by
  obtain ⟨hmem, huses, htarget⟩ := hasked
  have hstocked : Workbench.Stocked done ⟨(s.said before).session, t⟩ := h.stocked.of_cache rfl
  obtain ⟨console, htranspile⟩ := Workbench.transpile_of_stocked hstocked h.fresh hmem
    (by rw [Workbench.usesCache, huses, h.enabled]; rfl) htarget h.unspent
  refine ⟨console, ?_⟩
  rw [Studio.work_of_some (show (s.said before).transpiler? = some t from h.transpiler), htranspile]
  rfl

/-- Requests in a row whose results are kept and still good get them again, and send no prompt. -/
theorem carries_of_ready {outcome : Except (Stop R) (List (Conversion R))}
    (h : Carries Workbench.transpile requests s outcome s') {t : Transpiler R}
    (hready : Ready done s t) (hasked : List.Forall₂ (Asked done) requests rs) :
    outcome = .ok (rs.map Workbench.again) ∧ ∃ console, s' =
      heard s (if requests = [] then t else t.openedOn s.session.today) console := by
  induction h generalizing rs t with
  | done write s =>
    cases hasked
    refine ⟨rfl, write s.session.console, ?_⟩
    rw [if_pos rfl, heard, ← hready.transpiler]
    rfl
  | stopped before after hcall =>
    cases hasked with
    | cons hfirst _ =>
      obtain ⟨console, hkept⟩ := work_of_ready hready hfirst before
      rw [hkept] at hcall
      cases hcall
  | next before hcall _ ih =>
    cases hasked with
    | cons hfirst hrest =>
      obtain ⟨console, hkept⟩ := work_of_ready hready hfirst before
      obtain ⟨hresult, hstudio⟩ := Prod.mk.inj (hkept.symm.trans hcall)
      cases hresult
      subst hstudio
      obtain ⟨hoc, console', hend⟩ := ih (hready.heard console) hrest
      refine ⟨by rw [hoc]; rfl, console', ?_⟩
      rw [hend, if_neg (List.cons_ne_nil _ _)]
      split
      · rfl
      · exact congrArg (fun t => heard _ t console') (openedOn_openedOn t _)

end Project

end Cartridge
