import Cartridge.Proofs.Learning
import Cartridge.Proofs.Transpiler.Reuse

/-!
# The examples of a transpiler

A transpiler that is to learn makes one example of every request that is answered anew, and of no
other. Whatever else happens to it, its examples are the best of all that it made.

* `Lesson`: the example that is made of a result.
* `Learns`: what becomes of the examples, by how a run ends.
* `settle_learns`, `attempts_learns`, `transpile_learns`: an answer, attempts, and a request.
* `examples_after`: the examples after any events are those that were made, one after another.
* `examples_best`: they are the best of all that were made.
-/

namespace Cartridge

namespace Workbench

open Run

variable {R : Type} [Quantity R] [Inhabited R]

/-! ## Whether there is something to learn -/

/-- Whether examples are wanted, and the examples. -/
def schooling (w : Workbench R) : Bool × List (Example R) :=
  (w.transpiler.config.quality.learning, w.transpiler.examples)

omit [Inhabited R] in
theorem quiet_schooling : Quiet (schooling : Workbench R → _) := ⟨fun _ _ => rfl, fun _ _ => rfl⟩

omit [Inhabited R] in
theorem ask_schooling (job : Job R) : Keeps schooling (ask job) := by
  intro w
  rw [schooling, ask_keeps job w]
  rfl

theorem charge_schooling (job : Job R) (answer : Option String) :
    Keeps schooling (charge job answer) := by
  intro w
  unfold charge
  split <;> rfl

omit [Inhabited R] in
theorem store_schooling (job : Job R) (result : Conversion R) :
    Keeps schooling (store job result) := by
  intro w
  exact Prod.ext (congrArg (fun config => config.quality.learning)
    (config_of_rules (store_keeps plain_rules job result w))) (store_examples job result w)

theorem consider_schooling (request : Request) :
    Keeps (schooling : Workbench R → _) (consider request) := by
  intro w
  have hheard (console : Console) : (heard request w console).schooling = w.schooling := by
    unfold heard opened schooling
    split <;> rfl
  have hconsidered := considered request w
  generalize consider request w = p at hconsidered ⊢
  obtain ⟨r, w'⟩ := p
  cases hconsidered with
  | refused why console => exact hheard console
  | unwritable hlong console => exact hheard console
  | known _ hknown console => exact hheard console
  | new _ hnew console hadmitted =>
    subst hadmitted
    exact hheard console

/-! ## What is learned from an answer -/

/-- The example that is made of the result of a request. -/
structure Lesson (request : Request) (result : Conversion R) (now : R) (e : Example R) : Prop where
  source : e.source = request.source
  code : e.code = result.code
  target : e.target = request.target
  quality : e.quality = result.quality
  performance : Example.performanceOf result.code result.quality = .ok e.performance
  time : e.time = now
  provider : e.provider = result.provider

/-- What becomes of the examples, by how a run ends that is to answer a request. A new result has
the quality of the answer that it was made of. -/
inductive Learns (request : Request) (w : Workbench R) :
    Except (Stop R) (Conversion R) → Workbench R → Prop
  | stopped {why : Stop R} {w' : Workbench R}
      (hsame : w'.transpiler.examples = w.transpiler.examples) : Learns request w (.error why) w'
  | again {result : Conversion R} {w' : Workbench R} (hcached : result.fromCache = true)
      (hsame : w'.transpiler.examples = w.transpiler.examples) : Learns request w (.ok result) w'
  | unwanted {result : Conversion R} {w' : Workbench R}
      (hoff : w.transpiler.config.quality.learning = false)
      (hsame : w'.transpiler.examples = w.transpiler.examples) : Learns request w (.ok result) w'
  | learned {result : Conversion R} {w' : Workbench R} {e : Example R} (answer : String)
      (hanew : result.fromCache = false) (hrated : result.quality = Code.quality answer)
      (hlesson : Lesson request result w'.session.clock e)
      (hexamples : w'.transpiler.examples = Example.remember w.transpiler.examples e) :
      Learns request w (.ok result) w'

theorem Learns.of_schooling {request : Request} {w w₁ w' : Workbench R}
    {r : Except (Stop R) (Conversion R)} (h : Learns request w₁ r w')
    (hsame : w₁.schooling = w.schooling) : Learns request w r w' := by
  have hlearning : w₁.transpiler.config.quality.learning =
      w.transpiler.config.quality.learning := congrArg Prod.fst hsame
  have hexamples : w₁.transpiler.examples = w.transpiler.examples := congrArg Prod.snd hsame
  cases h with
  | stopped hkept => exact .stopped (hkept.trans hexamples)
  | again hcached hkept => exact .again hcached (hkept.trans hexamples)
  | unwanted hoff hkept => exact .unwanted (hlearning.symm.trans hoff) (hkept.trans hexamples)
  | learned answer hanew hrated hlesson hadded =>
    rw [hexamples] at hadded
    exact .learned answer hanew hrated hlesson hadded

theorem learn_learns {job : Job R} {answer : String} {result : Conversion R} {w w' : Workbench R}
    (hanew : result.fromCache = false) (hrated : result.quality = Code.quality answer)
    (hprovider : result.provider = job.name)
    (hlearn : learn job.request.source result.code job.request.target result.quality
      job.name w = (.ok (), w')) (said : Console → Console) :
    Learns job.request w (.ok result) { w' with session := w'.session.say said } := by
  rw [learn_apply] at hlearn
  split at hlearn
  · split at hlearn
    · cases hlearn
    · rename_i performance hperformance
      cases hlearn
      refine .learned answer hanew hrated ?_ rfl
      exact ⟨rfl, rfl, rfl, rfl, hperformance, rfl, hprovider.symm⟩
  · rename_i hoff
    cases hlearn
    exact .unwanted (by simpa using hoff) rfl

theorem settle_learns {job : Job R} {answer : Option String} {duration cost : R}
    {w w' : Workbench R} {r : Except (Stop R) (Conversion R)}
    (h : settle job answer duration cost w = (r, w')) : Learns job.request w r w' := by
  cases settled h with
  | flawed hflaw => exact .stopped rfl
  | broken hexamples => exact .stopped hexamples
  | @accepted result w₁ w₂ hflaw hmade hstore hlearn said =>
    have hstored := store_schooling job result w
    rw [hstore] at hstored
    obtain ⟨ram, warnings, -, rfl⟩ := conversion_ok hmade
    exact (learn_learns rfl rfl rfl hlearn said).of_schooling hstored

/-! ## Attempts -/

theorem tryOnce_learns (job : Job R) (number : Nat) (w : Workbench R) :
    Learns job.request w (tryOnce job number w).1 (tryOnce job number w).2 := by
  have hopen : (asking job number w).workbench.schooling = w.schooling :=
    announce_keeps quiet_schooling job number w
  have hasked := (ask_schooling job (asking job number w).workbench).trans hopen
  rw [tryOnce_apply]
  generalize ask job (asking job number w).workbench = asked at hasked ⊢
  obtain ⟨r, w₁⟩ := asked
  cases r with
  | error e => exact .stopped (congrArg Prod.snd hasked)
  | ok answer =>
    have hcharged := (charge_schooling job answer w₁).trans hasked
    dsimp only
    generalize charge job answer w₁ = charged at hcharged ⊢
    obtain ⟨r, w₂⟩ := charged
    cases r with
    | error e => exact .stopped (congrArg Prod.snd hcharged)
    | ok cost => exact (settle_learns rfl).of_schooling hcharged

theorem attempts_learns (job : Job R) (left number : Nat) (last : Failure R) (w : Workbench R) :
    Learns job.request w (attempts job left number last w).1
      (attempts job left number last w).2 := by
  induction left generalizing number last w with
  | zero =>
    rw [attempts]
    split
    · exact .stopped (congrArg Prod.snd (say_keeps quiet_schooling _ w))
    · exact .stopped rfl
  | succ left ih =>
    rcases permit_apply job w with hpermit | ⟨e, hpermit⟩
    · have hlearns := tryOnce_learns job number w
      have hrules := tryOnce_rules job number w
      rw [attempts_succ hpermit]
      generalize tryOnce job number w = p at hlearns hrules ⊢
      obtain ⟨r, w₁⟩ := p
      cases r with
      | ok result => exact hlearns
      | error e =>
        cases e with
        | broken fault => exact hlearns
        | failed why =>
          cases hlearns with
          | stopped hsame =>
            have hfailed : w₁.schooling = w.schooling := by
              rw [schooling, config_of_rules hrules, hsame]
              rfl
            have hwaited := afterFailure_keeps quiet_schooling number why (left ≠ 0) w₁
            exact (ih (number + 1) why _).of_schooling (hwaited.trans hfailed)
    · rw [attempts, bind_error hpermit]
      exact .stopped rfl

/-! ## Whole requests -/

theorem transpile_learns (request : Request) (w : Workbench R) :
    Learns request w (transpile request w).1 (transpile request w).2 := by
  have hconsidered := considered request w
  have hschooling := consider_schooling request w
  cases hconsider : consider request w with
  | mk r w₁ =>
    rw [hconsider] at hconsidered hschooling
    cases hconsidered with
    | refused why console =>
      rw [transpile, bind_error hconsider]
      exact .stopped (congrArg Prod.snd hschooling)
    | unwritable hlong console =>
      rw [transpile, bind_error hconsider]
      exact .stopped (congrArg Prod.snd hschooling)
    | known _ hknown console =>
      rw [transpile, bind_ok hconsider]
      exact .again rfl (congrArg Prod.snd hschooling)
    | new _ hnew console hadmitted =>
      have hprepared := (prepare_keeps quiet_schooling request (keyOf? request w) w₁).trans
        hschooling
      rw [transpile, bind_ok hconsider]
      dsimp only
      cases hprepare : prepare request (keyOf? request w) w₁ with
      | mk r w₂ =>
        rw [hprepare] at hprepared
        cases r with
        | error e =>
          rw [bind_error hprepare]
          exact .stopped (congrArg Prod.snd hprepared)
        | ok job =>
          obtain ⟨-, rfl, -⟩ := prepare_ok hprepare
          rw [bind_ok hprepare]
          exact (attempts_learns job _ 1 .noAttempt w₂).of_schooling hprepared

/-! ## The examples after any events -/

/-- Whether a request is answered, and not from the cache. -/
def answersAnew (x : Request × Workbench R) : Bool :=
  match (transpile x.1 x.2).1 with
  | .ok result => !result.fromCache
  | .error _ => false

/-- The example that is made when a request is answered. -/
def Teaches (x : Request × Workbench R) (e : Example R) : Prop :=
  ∃ result w', transpile x.1 x.2 = (.ok result, w') ∧ Lesson x.1 result w'.session.clock e

/-- One request to a transpiler that is to learn. -/
theorem teaches_of_anew {request : Request} {w : Workbench R}
    (hlearning : w.transpiler.config.quality.learning = true)
    (hanew : answersAnew (request, w) = true) :
    ∃ e answer, Teaches (request, w) e ∧ e.quality = Code.quality answer ∧
      (transpile request w).2.transpiler.examples = Example.remember w.transpiler.examples e := by
  have hlearns := transpile_learns request w
  unfold answersAnew at hanew
  unfold Teaches
  dsimp only at hanew ⊢
  generalize transpile request w = p at hlearns hanew ⊢
  obtain ⟨r, w'⟩ := p
  cases hlearns with
  | stopped _ => cases hanew
  | again hcached _ => simp [hcached] at hanew
  | unwanted hoff _ =>
    rw [hoff] at hlearning
    cases hlearning
  | @learned result _ e answer _ hrated hlesson hexamples =>
    exact ⟨e, answer, ⟨result, w', rfl, hlesson⟩, hlesson.quality.trans hrated, hexamples⟩

theorem examples_of_not_anew {request : Request} {w : Workbench R}
    (hanew : answersAnew (request, w) = false) :
    (transpile request w).2.transpiler.examples = w.transpiler.examples := by
  have hlearns := transpile_learns request w
  unfold answersAnew at hanew
  dsimp only at hanew
  generalize transpile request w = p at hlearns hanew ⊢
  obtain ⟨r, w'⟩ := p
  cases hlearns with
  | stopped hsame => exact hsame
  | again _ hsame => exact hsame
  | unwanted _ hsame => exact hsame
  | learned _ hnew _ _ _ => simp [hnew] at hanew

/-- The examples after any events are those that were made, added one after another. -/
theorem examples_after (events : List (Event R)) :
    ∀ h : History R, h.workbench.transpiler.config.quality.learning = true →
      ∃ made, List.Forall₂ Teaches ((h.arrivals events).filter answersAnew) made ∧
        (∀ e ∈ made, ∃ answer, e.quality = Code.quality answer) ∧
        (h.after events).workbench.transpiler.examples =
          made.foldl Example.remember h.workbench.transpiler.examples := by
  induction events with
  | nil =>
    intro h _
    exact ⟨[], .nil, by simp, rfl⟩
  | cons event events ih =>
    intro h hlearning
    cases event with
    | outside s => exact ih (h.next (.outside s)) hlearning
    | request r =>
      have hconfig : (h.next (.request r)).workbench.transpiler.config =
          h.workbench.transpiler.config := config_of_rules (transpile_rules r h.workbench)
      have hstill : (h.next (.request r)).workbench.transpiler.config.quality.learning = true := by
        rw [hconfig]
        exact hlearning
      obtain ⟨made, hmade, hrated, hafter⟩ := ih (h.next (.request r)) hstill
      rw [History.arrivals, List.filter_cons]
      cases hanew : answersAnew (r, h.workbench) with
      | true =>
        obtain ⟨e, answer, hteaches, hquality, hexamples⟩ := teaches_of_anew hlearning hanew
        refine ⟨e :: made, .cons hteaches hmade, ?_, ?_⟩
        · exact List.forall_mem_cons.mpr ⟨⟨answer, hquality⟩, hrated⟩
        · rw [List.foldl_cons, ← hexamples]
          exact hafter
      | false =>
        refine ⟨made, hmade, hrated, ?_⟩
        rw [← examples_of_not_anew hanew]
        exact hafter

theorem create_schooling {config : Config R} {providers : Entries (Provider R)} {s s' : Session R}
    {t : Transpiler R} (hcreate : Transpiler.create config providers s = (.ok t, s')) :
    (Workbench.mk s' t).schooling = (config.quality.learning, []) := by
  unfold Transpiler.create at hcreate
  split at hcreate
  · cases hcreate
  · cases hcreate
    rfl

/-! ## The best of all examples -/

/-- Whatever happens to a new transpiler that is to learn, it makes one example of each request that
is answered anew. There is one ranking of these examples by descending quality that leaves equally
good ones in their order. The examples of the transpiler are all of them as long as there are at
most 100, and otherwise the first 100 of the ranking. -/
theorem examples_best {config : Config Float} {providers : Entries (Provider Float)}
    {s s' : Session Float} {t : Transpiler Float}
    (hcreate : Transpiler.create config providers s = (.ok t, s'))
    (hlearning : config.quality.learning = true) (events : List (Event Float)) :
    let h : History Float := ⟨⟨s', t⟩, []⟩
    ∃ made ranking, List.Forall₂ Teaches ((h.arrivals events).filter answersAnew) made ∧
      Example.Ranked made ranking ∧ (∀ other, Example.Ranked made other → other = ranking) ∧
      (h.after events).workbench.transpiler.examples =
        if made.length ≤ 100 then made else ranking.take 100 := by
  intro h
  have hschooling : h.workbench.schooling = (config.quality.learning, []) :=
    create_schooling hcreate
  have hwanted : h.workbench.transpiler.config.quality.learning = true :=
    (congrArg Prod.fst hschooling).trans hlearning
  have hnone : h.workbench.transpiler.examples = [] := congrArg Prod.snd hschooling
  obtain ⟨made, hmade, hrated, hafter⟩ := examples_after events h hwanted
  have hnumbers : ∀ e ∈ made, Example.Rated e := by
    intro e he
    obtain ⟨answer, hanswer⟩ := hrated e he
    rw [Example.Rated, hanswer]
    exact Code.quality_ne_notANumber answer
  refine ⟨made, Example.byQuality made, hmade, Example.ranked_byQuality hnumbers, ?_, ?_⟩
  · intro other hother
    exact hother.eq_byQuality hnumbers
  · rw [hafter, hnone]
    exact Example.foldl_remember [] made hnumbers

/-- More requests than there is room for, to a provider that answers each of them. -/
theorem examples_best_of_steady_provider :
    let providers : Entries (Provider Float) := [("steady", Provider.scripted "steady" 0 (some 0))]
    let s : Session Float :=
      { clock := 0
        today := "2024-01-01"
        scripts := [("steady",
          List.replicate 150 ⟨1, .text (some "void main(void) \x7b unsigned char x; \x7d")⟩)] }
    let events := List.replicate 150 (.request { source := "let x = 1;", useCache := false })
    ∃ s' t, Transpiler.create (Config.standard "gbdk") providers s = (.ok t, s') ∧
      (Config.standard "gbdk" : Config Float).quality.learning = true ∧
      let h : History Float := ⟨⟨s', t⟩, []⟩
      ∃ made ranking, List.Forall₂ Teaches ((h.arrivals events).filter answersAnew) made ∧
        Example.Ranked made ranking ∧ (∀ other, Example.Ranked made other → other = ranking) ∧
        (h.after events).workbench.transpiler.examples =
          if made.length ≤ 100 then made else ranking.take 100 := by
  intro providers s events
  have hcreate : Transpiler.create (Config.standard "gbdk") providers s = (.ok _, _) := rfl
  have hlearning : (Config.standard "gbdk" : Config Float).quality.learning = true := rfl
  exact ⟨_, _, hcreate, hlearning, examples_best hcreate hlearning events⟩

end Workbench

end Cartridge
