import Cartridge.Project.Output
import Cartridge.Proofs.Project.Kept
import Cartridge.Proofs.Transpiler.Scripted

/-!
# Converting a project twice

A second conversion of a project with nothing changed makes the requests of the first one. If the
first began with nothing kept, and all its results are kept and still good, each request gets its
result again, no prompt is sent, and the code is the same.

* `FileResults.unique`: the results of files are made of the conversions of their chunks.
* `convert_again`: the second conversion of a project by a studio.
* `convertAt_again`: the second conversion of what stands at a path.
-/

namespace Cartridge.Project

open Run

variable {R : Type} [Quantity R] [Inhabited R] {rs : List (Conversion R)} {s s' : Studio R}

/-! ## Results that are the same -/

omit [Quantity R] [Inhabited R] in
/-- Items of two lists with the same parts, in the same numbers, have the same parts one by one. -/
theorem chunks_unique {results results' : List (FileResult R)}
    (hids : results.map (fun r => (r.path, r.chunks.map (·.id))) =
      results'.map (fun r => (r.path, r.chunks.map (·.id))))
    (hchunks : results.flatMap (·.chunks) = results'.flatMap (·.chunks)) :
    results.map (fun r => (r.path, r.chunks)) = results'.map (fun r => (r.path, r.chunks)) := by
  induction results generalizing results' with
  | nil =>
    cases results' with
    | nil => rfl
    | cons r' rest' => cases hids
  | cons r rest ih =>
    cases results' with
    | nil => cases hids
    | cons r' rest' =>
      rw [List.map_cons, List.map_cons] at hids
      obtain ⟨hfirst, hrest⟩ := List.cons.inj hids
      obtain ⟨hpath, hid⟩ := Prod.mk.inj hfirst
      have hlength : r.chunks.length = r'.chunks.length := by
        simpa using congrArg List.length hid
      rw [List.flatMap_cons, List.flatMap_cons] at hchunks
      obtain ⟨hown, hothers⟩ := List.append_inj hchunks hlength
      rw [List.map_cons, List.map_cons, hpath, hown, ih hrest hothers]

theorem fileResult_congr {f f' : SourceFile} (h : f.path = f'.path)
    (chunks : List (ChunkResult R)) : fileResult f chunks = fileResult f' chunks := by
  unfold fileResult
  rw [h]

/-- The results of files are made of the conversions of their chunks, whether these were given
before or not. -/
theorem FileResults.unique {files : List SourceFile} {results results' : List (FileResult R)}
    (h : FileResults files rs results)
    (h' : FileResults files (rs.map Workbench.again) results') : results' = results := by
  have hagain (chunk : Source.Chunk) (r : Conversion R) :
      chunkResult chunk (Workbench.again r) = chunkResult chunk r := rfl
  have hchunks : results'.flatMap (·.chunks) = results.flatMap (·.chunks) := by
    rw [h'.chunks.2, h.chunks.2, List.zipWith_map_right]
    simp only [hagain]
  have hpairs := chunks_unique (h'.entries.trans h.entries.symm) hchunks
  -- a result is put together from its path and its chunks
  let put (x : String × List (ChunkResult R)) : FileResult R :=
    fileResult { location := "", path := x.1, content := "" } x.2
  have hput {l : List (FileResult R)}
      (hl : ∀ r ∈ l, r.chunks ≠ [] ∧ ∃ f ∈ files, r = fileResult f r.chunks) :
      (l.map fun r => (r.path, r.chunks)).map put = l := by
    rw [List.map_map]
    refine (List.map_congr_left fun r hr => ?_).trans (List.map_id l)
    obtain ⟨-, f, -, hr⟩ := hl r hr
    exact (fileResult_congr (congrArg FileResult.path hr) r.chunks).trans hr.symm
  rw [← hput h'.figures, hpairs, hput h.figures]

/-! ## The second conversion of a project -/

theorem ordered_ne_nil {p : Project} (h : p.files ≠ []) : p.ordered ≠ [] := by
  obtain ⟨f, hf⟩ := List.exists_mem_of_ne_nil _ h
  rw [ordered_eq_filterMap]
  cases hfind : p.file? f.path with
  | none => simpa using List.find?_eq_none.mp hfind f hf
  | some found =>
    exact List.ne_nil_of_mem (List.mem_reverse.mpr
      (List.mem_filterMap.mpr ⟨f.path, path_mem_visited hf, hfind⟩))

theorem plan_ne_nil {p : Project} (h : p.files ≠ []) (o : Settings) : p.plan o ≠ [] := by
  obtain ⟨f, hf⟩ := List.exists_mem_of_ne_nil _ (ordered_ne_nil h)
  intro hnone
  exact parts_ne_nil f (List.map_eq_nil_iff.mp (List.flatMap_eq_nil_iff.mp hnone f hf))

theorem useCache_of_mem_plan {p : Project} {o : Settings} {q : Request} (h : q ∈ p.plan o) :
    q.useCache = o.useCache := by
  obtain ⟨f, -, hq⟩ := List.mem_flatMap.mp h
  obtain ⟨chunk, -, rfl⟩ := List.mem_map.mp hq
  rfl

theorem convert_makes {p : Project} (hfiles : p.files ≠ []) (path : String) (o : Settings)
    (transpile : Request → Workbench.Task R (Conversion R)) :
    Makes transpile (convert transpile path (.ok p) o) (p.plan o) fun rs result =>
      FileResults p.ordered rs result.files ∧ result = p.resultOf result.files result.duration := by
  unfold convert
  refine Makes.after_say _ ?_
  have hsome : p.files.isEmpty = false := by simpa using hfiles
  show Makes transpile (if p.files.isEmpty then _ else _) _ _
  rw [hsome]
  exact Makes.after_say _ (convertFiles_makes p o)

/-- A conversion that succeeds has a project with files. -/
theorem found_of_convert {path : String} {found : Except Fault Project} {o : Settings}
    {transpile : Request → Workbench.Task R (Conversion R)} {result : ProjectResult R}
    (h : (convert transpile path found o s).1 = .ok result) :
    ∃ p, found = .ok p ∧ p.files ≠ [] := by
  cases found with
  | error fault => cases h
  | ok p =>
    refine ⟨p, rfl, fun hnone => ?_⟩
    have hempty : p.files.isEmpty = true := by rw [hnone]; rfl
    have happly : convert transpile path (.ok p) o s =
        (if p.files.isEmpty then _ else _ : Studio.Task R (ProjectResult R)) (s.said _) := rfl
    rw [happly, if_pos hempty] at h
    cases h

/-- The chunks that are counted are those for which requests are made. -/
theorem chunkCount_eq {p : Project} {o : Settings} {result : ProjectResult R}
    (hfiles : FileResults p.ordered rs result.files)
    (hresult : result = p.resultOf result.files result.duration) :
    result.notes.chunkCount = (p.plan o).length := by
  have hcount : result.notes.chunkCount = (result.files.map (·.chunks.length)).sum := by
    rw [hresult]
    rfl
  obtain ⟨hlength, hchunks⟩ := hfiles.chunks
  rw [hcount, ← List.length_flatMap, hchunks, List.length_zipWith, hlength, Nat.min_self]
  simp [plan, List.length_flatMap]

/-- The second conversion of a project by a studio that began with nothing kept. -/
theorem convert_again {path : String} {found : Except Fault Project} {o : Settings}
    {result : ProjectResult R} (hfirst : convert Workbench.transpile path found o s = (.ok result, s'))
    (hempty : ∀ t, s.transpiler? = some t → t.cache.entries = []) {t : Transpiler R}
    (ht : s'.transpiler? = some t) (huses : o.useCache = true)
    (henabled : t.config.caching.enabled = true)
    (hsize : (result.notes.chunkCount : Int) ≤ t.cache.maxSize)
    (hstays : ∀ p, found = .ok p → StaysFresh (p.plan o) s) (session : Session R)
    (hfresh : Workbench.Fresh ⟨session, t⟩)
    (hspent : Quantity.upTo t.config.budget.perDay (t.openedOn session.today).spent = false) :
    ∃ duration console, convert Workbench.transpile path found o { s' with session } =
      (.ok { result with duration }, { s' with
        session := { session with console }
        transpiler? := some (t.openedOn session.today) }) := by
  obtain ⟨p, rfl, hfiles⟩ := found_of_convert (by rw [hfirst])
  obtain ⟨outcome, hcarries, hends⟩ := convert_makes hfiles path o Workbench.transpile s
  rw [hfirst] at hcarries hends
  cases hends with
  | @ok rs _ hright =>
    obtain ⟨hresults, hfigures⟩ := hright
    -- what the first run leaves
    rw [chunkCount_eq (o := o) hresults hfigures] at hsize
    have hnothing : s.Stocked [] :=
      ⟨fun t ht => Workbench.stocked_of_empty (hempty t ht), fun _ => rfl⟩
    have hstocked := stocked_of_carries hcarries hnothing (hstays p rfl) ht
      (fun q hq => (useCache_of_mem_plan hq).trans huses) henabled (by simpa using hsize)
    obtain ⟨hlength, htargets⟩ := targets_of_carries hcarries
    -- what the second run makes of it
    have hready : Ready ((p.plan o).zip rs) { s' with session } t :=
      ⟨ht, (hstocked.held t ht).of_cache rfl, hfresh, henabled, hspent⟩
    have hasked : List.Forall₂ (Asked ((p.plan o).zip rs)) (p.plan o) rs := by
      refine List.forall₂_iff_zip.mpr ⟨hlength.symm, fun {q r} hmem => ?_⟩
      have hq := (List.of_mem_zip hmem).1
      exact ⟨hmem, (useCache_of_mem_plan hq).trans huses, htargets q hq⟩
    obtain ⟨outcome', hcarries', hends'⟩ :=
      convert_makes hfiles path o Workbench.transpile { s' with session }
    obtain ⟨rfl, console, hend⟩ := carries_of_ready hcarries' hready hasked
    rw [if_neg (plan_ne_nil hfiles o)] at hend
    generalize convert Workbench.transpile path (.ok p) o { s' with session } = second at *
    obtain ⟨outcome', s''⟩ := second
    cases hends' with
    | @ok _ result' hright' =>
      obtain ⟨hresults', hfigures'⟩ := hright'
      have hsame : result'.files = result.files := hresults.unique hresults'
      refine ⟨result'.duration, console, Prod.ext (congrArg Except.ok ?_) hend⟩
      calc result' = p.resultOf result.files result'.duration := by rw [← hsame]; exact hfigures'
        _ = { p.resultOf result.files result.duration with duration := result'.duration } := rfl
        _ = { result with duration := result'.duration } := by rw [← hfigures]

theorem config_of_convert {path : String} {found : Except Fault Project} {o : Settings}
    {result : ProjectResult R}
    (h : convert Workbench.transpile path found o s = (.ok result, s')) : s'.config = s.config := by
  obtain ⟨p, rfl, hfiles⟩ := found_of_convert (by rw [h])
  obtain ⟨outcome, hcarries, -⟩ := convert_makes hfiles path o Workbench.transpile s
  rw [h] at hcarries
  exact carries_config hcarries

/-- The project that a conversion in a workshop finds. -/
def foundAt (path : String) (w : Workshop R) : Except Fault Project :=
  scan w.studio.config.project w.disk (Path.ofString path)

theorem convertAt_apply (path : String) (o : Settings) (w : Workshop R) :
    convertAt path o w =
      ((convert Workbench.transpile path (foundAt path w) o w.studio).1,
        { w with studio := (convert Workbench.transpile path (foundAt path w) o w.studio).2 }) := rfl

/-- A conversion leaves the disk and the rules as they were, so it finds the same when it is done
again. -/
theorem foundAt_again {path : String} {o : Settings} {w : Workshop R} {result : ProjectResult R}
    {s' : Studio R}
    (h : convert Workbench.transpile path (foundAt path w) o w.studio = (.ok result, s'))
    (session : Session R) :
    foundAt path { w with studio := { s' with session } } = foundAt path w := by
  unfold foundAt at h ⊢
  dsimp only
  rw [config_of_convert h]

/-! ## A file and a steady provider -/

/-- A file, and a transpiler whose provider always gives the same program, for one dollar. -/
def steady : Workshop ℚ where
  studio :=
    { config := .standard "gbdk"
      session :=
        { clock := 0
          today := "2024-01-01"
          scripts := [("steady",
            [⟨1, .text (some "void main(void) \x7b unsigned char x; \x7d")⟩])] }
      transpiler? := some
        { config := .standard "gbdk"
          providers := [("steady", .scripted "steady" 0 (some 1))]
          cache := { maxSize := 1000, lifetime := .whole 86400 }
          spent := 0
          day := "2024-01-01" } }
  disk :=
    ⟨.folder [("main.ts", .file "let x = 1;".toUTF8 FileTree.fileMode)] FileTree.folderMode, []⟩
  tools := fun _ => .cannotStart ""

theorem plan_of_single {p : Project} {f : SourceFile} (h : p.files = [f]) (o : Settings) :
    p.plan o = (parts f).map (requestFor (Schema.ofProject p) o f) := by
  have horder : p.ordered = [f] := by
    have hperm := (ordered_perm_files p (by rw [h]; exact List.nodup_singleton _)).2
    rw [h] at hperm
    exact List.perm_singleton.mp hperm
  rw [plan, horder]
  exact List.append_nil _

/-- A request that nothing speaks against. -/
structure Ordinary (q : Request) : Prop where
  uses : q.useCache = true
  attempts : 0 < q.attempts
  short : Text.Short q.attempts
  target : q.target.problems.isEmpty = true
  writable : q.target.Writable

/-- One request is made for the file. -/
theorem foundAt_steady : ∃ p, foundAt "/main.ts" steady = .ok p ∧ p.files ≠ [] ∧
    ∃ q, p.plan {} = [q] ∧ Ordinary q := by
  let file : SourceFile := analyzed {} "/main.ts" "main.ts" "let x = 1;"
  have hfound : foundAt "/main.ts" steady = .ok (ofFiles [file]) := by
    have hplace : steady.disk.current.resolve (Path.ofString "/main.ts") = ⟨"/", ["main.ts"]⟩ := by
      decide +kernel
    have hnull : (Path.ofString "/main.ts").hasNull = false := by decide +kernel
    have hentry : steady.disk.entry ⟨"/", ["main.ts"]⟩ =
        .ok (.file "let x = 1;".toUTF8 FileTree.fileMode) := by
      have hlocate : steady.disk.locate ⟨"/", ["main.ts"]⟩ = .ok ["main.ts"] := by decide +kernel
      rw [Disk.entry, hlocate]
      rfl
    have htext : steady.disk.readText (Path.append ⟨"/", []⟩ ⟨"", ["main.ts"]⟩) =
        .ok "let x = 1;" := by
      decide +kernel
    have hread : readSource {} steady.disk ⟨"/", []⟩ ["main.ts"] = .ok file := by
      unfold readSource
      dsimp only
      rw [htext]
      rfl
    unfold foundAt
    rw [scan_file hnull (hplace ▸ hentry) rfl, hplace]
    show (readSource {} steady.disk ⟨"/", []⟩ ["main.ts"]).map _ = _
    rw [hread]
    rfl
  have hparts : parts file = [wholeFile file] := parts_of_uncut rfl
  let q := requestFor (Schema.ofProject (ofFiles [file])) {} file (wholeFile file)
  have hplan : (ofFiles [file]).plan {} = [q] := by
    rw [plan_of_single rfl, hparts, List.map_singleton]
  exact ⟨ofFiles [file], hfound, List.cons_ne_nil _ _, q, hplan, rfl, by decide, by decide, rfl,
    by decide⟩

/-- The request for the file is answered, whatever was said before. -/
theorem work_steady {q : Request} (h : Ordinary q) (before : Console → Console) :
    ∃ r s₁ t, Studio.work (Workbench.transpile q) (steady.studio.said before) = (.ok r, s₁) ∧
      s₁.transpiler? = some t ∧ t.config = .standard "gbdk" ∧ t.cache.maxSize = 1000 ∧
      t.spent = 1 ∧ t.day = "2024-01-01" ∧ Workbench.Fresh ⟨s₁.session, t⟩ := by
  obtain ⟨t, ht⟩ : ∃ t, steady.studio.transpiler? = some t := ⟨_, rfl⟩
  have hstart := Option.some.inj ht
  have hbudget : 0 < (Config.standard "gbdk" : Config ℚ).budget.perDay := by decide
  have hlimit : 0 ≤ (Config.standard "gbdk" : Config ℚ).budget.perConversion := by decide
  obtain ⟨r, w', hresult, -, hspent, hterms, hcache⟩ :=
    Workbench.transpile_of_unused (w := ⟨(steady.studio.said before).session, t⟩)
      (show t.providers = [("steady", .scripted "steady" 0 (some 1))] by rw [← hstart])
      (by rw [← hstart]) (by rw [← hstart]) (by rw [← hstart]; rfl)
      (show t.preferred = .ok ("steady", true) by rw [← hstart]; rfl) rfl rfl
      (by rw [← hstart]; exact hbudget) (by rw [← hstart]; exact hlimit)
      (by rw [← hstart]; exact (by decide : (0 : Int) < 1000))
      (by rw [Workbench.usesCache, h.uses, ← hstart]; rfl) h.target h.writable h.attempts h.short
      (by decide +kernel)
      (by rw [← hstart]; exact ⟨by decide +kernel, fun _ => ⟨1, by decide +kernel, rfl, rfl⟩⟩)
  refine ⟨r, steady.studio.putBack w', w'.transpiler, ?_, rfl, ?_, ?_, hspent, ?_, ?_⟩
  · rw [Studio.work_of_some (show (steady.studio.said before).transpiler? = some t from ht), hresult]
    rfl
  · rw [show w'.transpiler.config = t.config from congrArg (·.1) hterms, ← hstart]
  · rw [hcache, ← hstart]
  · rw [show w'.transpiler.day = t.day from congrArg (·.2.2) hterms, ← hstart]
  · show ∀ e ∈ w'.transpiler.cache.entries,
      w'.transpiler.cache.expired e.time w'.session.clock = false
    rw [hcache, ← hstart]
    intro e he
    rw [List.mem_singleton.mp he, Cache.expired, sub_self]
    exact (by decide : (!(Number.whole 86400 : Number ℚ).isZero &&
      (Number.whole 86400).isBelow (0 : ℚ)) = false)

theorem stays_steady {q : Request} (h : Ordinary q) : StaysFresh [q] steady.studio := by
  intro earlier later rs s' hsplit hcarries
  generalize Except.ok rs = outcome at hcarries
  cases hcarries with
  | done write =>
    intro t ht e he
    cases ht
    cases he
  | stopped before after hcall =>
    obtain ⟨rfl, -⟩ := List.cons.inj hsplit
    obtain ⟨r, s₁, t, hdone, -⟩ := work_steady h before
    rw [hdone] at hcall
    cases hcall
  | @next request rest _ s₁ _ r outcome before hcall hrest =>
    obtain ⟨rfl, hrest'⟩ := List.cons.inj hsplit
    obtain ⟨rfl, rfl⟩ := List.append_eq_nil_iff.mp hrest'.symm
    obtain ⟨r, s₁, t, hdone, ht, -, -, -, -, hfresh⟩ := work_steady h before
    obtain ⟨-, hs⟩ := Prod.mk.inj (hdone.symm.trans hcall)
    subst hs
    cases hrest with
    | done write =>
      intro t' ht'
      obtain rfl : t = t' := Option.some.inj (ht.symm.trans ht')
      exact hfresh.of_cache rfl rfl

/-- The first conversion of the file. -/
theorem first_of_steady : ∃ result w₁ t, convertAt "/main.ts" {} steady = (.ok result, w₁) ∧
    w₁.studio.transpiler? = some t ∧ t.config = .standard "gbdk" ∧ t.cache.maxSize = 1000 ∧
    t.spent = 1 ∧ t.day = "2024-01-01" ∧ result.notes.chunkCount = 1 ∧
    Workbench.Fresh ⟨w₁.studio.session, t⟩ ∧
    ∀ p, foundAt "/main.ts" steady = .ok p → StaysFresh (p.plan {}) steady.studio := by
  obtain ⟨p, hfound, hfiles, q, hplan, h⟩ := foundAt_steady
  have hwork := work_steady h
  have hstays : ∀ p', foundAt "/main.ts" steady = .ok p' →
      StaysFresh (p'.plan {}) steady.studio := by
    intro p' hp'
    cases hfound.symm.trans hp'
    rw [hplan]
    exact stays_steady h
  obtain ⟨outcome, hcarries, hends⟩ :=
    convert_makes hfiles "/main.ts" {} Workbench.transpile steady.studio
  rw [hplan] at hcarries
  rw [convertAt_apply, hfound]
  rw [hfound] at hstays
  generalize convert Workbench.transpile "/main.ts" (.ok p) {} steady.studio = converted at *
  obtain ⟨r, s'⟩ := converted
  dsimp only at hcarries hends ⊢
  cases hcarries with
  | stopped before after hcall =>
    obtain ⟨r, s₁, t, hdone, -⟩ := hwork before
    rw [hdone] at hcall
    cases hcall
  | next before hcall hrest =>
    obtain ⟨r, s₁, t, hdone, ht, hconfig, hsize, hspent, hday, hfresh⟩ := hwork before
    obtain ⟨hr, hs⟩ := Prod.mk.inj (hdone.symm.trans hcall)
    cases hr
    subst hs
    cases hrest with
    | done write =>
      cases hends with
      | @ok _ result hright =>
        refine ⟨result, _, t, rfl, ht, hconfig, hsize, hspent, hday, ?_,
          hfresh.of_cache rfl rfl, hstays⟩
        rw [chunkCount_eq (o := {}) hright.1 hright.2, hplan]
        rfl

/-! ## The second conversion in a workshop -/

/-- A project is converted a second time, with the same disk and settings, some time after a first
conversion that succeeded. If nothing was kept when the first one began, the cache is used and has
room for a result for each chunk, no result got too old until the second conversion, and the budget
of its day is not spent: then the second one gives the same code for each file and for the project,
sends no prompt, and changes nothing but what is said and, on a new day, the account. -/
theorem convertAt_again {path : String} {o : Settings} {w w₁ : Workshop R} {result : ProjectResult R}
    (hfirst : convertAt path o w = (.ok result, w₁))
    (hempty : ∀ t, w.studio.transpiler? = some t → t.cache.entries = []) {t : Transpiler R}
    (ht : w₁.studio.transpiler? = some t) (huses : o.useCache = true)
    (henabled : t.config.caching.enabled = true)
    (hsize : (result.notes.chunkCount : Int) ≤ t.cache.maxSize)
    (hstays : ∀ p, foundAt path w = .ok p → StaysFresh (p.plan o) w.studio) (session : Session R)
    (hfresh : Workbench.Fresh ⟨session, t⟩)
    (hspent : Quantity.upTo t.config.budget.perDay (t.openedOn session.today).spent = false) :
    ∃ duration console, convertAt path o { w₁ with studio := { w₁.studio with session } } =
      (.ok { result with duration }, { w₁ with studio := { w₁.studio with
        session := { session with console }
        transpiler? := some (t.openedOn session.today) } }) := by
  rw [convertAt_apply] at hfirst
  cases hconvert : convert Workbench.transpile path (foundAt path w) o w.studio with
  | mk r s' =>
    rw [hconvert] at hfirst
    cases hfirst
    obtain ⟨duration, console, hagain⟩ :=
      convert_again hconvert hempty ht huses henabled hsize hstays session hfresh hspent
    refine ⟨duration, console, ?_⟩
    rw [convertAt_apply, foundAt_again hconvert]
    dsimp only
    rw [hagain]

/-- The file is converted a second time at once. -/
theorem convertAt_again_of_steady : ∃ result w₁ t, convertAt "/main.ts" {} steady = (.ok result, w₁) ∧
    w₁.studio.transpiler? = some t ∧ ∃ duration console,
      convertAt "/main.ts" {} w₁ = (.ok { result with duration }, { w₁ with studio :=
        { w₁.studio with
          session := { w₁.studio.session with console }
          transpiler? := some (t.openedOn w₁.studio.session.today) } }) := by
  obtain ⟨result, w₁, t, hfirst, ht, hconfig, hsize, hspent, hday, hcount, hfresh, hstays⟩ :=
    first_of_steady
  refine ⟨result, w₁, t, hfirst, ht, ?_⟩
  refine convertAt_again hfirst (fun t ht => by cases ht; rfl) ht rfl (by rw [hconfig]; rfl)
    (by rw [hcount, hsize]; decide) hstays w₁.studio.session hfresh ?_
  unfold Transpiler.openedOn
  split
  · rw [hconfig, hspent]
    decide
  · rw [hconfig]
    exact (by decide : Quantity.upTo (Config.standard "gbdk" : Config ℚ).budget.perDay
      (Quantity.ofNat 0) = false)

/-- The file is converted a second time on the next day: the account is a new one, although nothing
was paid. -/
theorem convertAt_on_next_day : ∃ result w₁ t, convertAt "/main.ts" {} steady = (.ok result, w₁) ∧
    w₁.studio.transpiler? = some t ∧ t.config.caching.enabled = true ∧
    (result.notes.chunkCount : Int) ≤ t.cache.maxSize ∧
    (∀ p, foundAt "/main.ts" steady = .ok p → StaysFresh (p.plan {}) steady.studio) ∧
    let later : Session ℚ := { w₁.studio.session with today := "2024-01-02" }
    Workbench.Fresh ⟨later, t⟩ ∧ Quantity.upTo t.config.budget.perDay t.spent = false ∧
    ∃ t', (convertAt "/main.ts" {} { w₁ with studio :=
      { w₁.studio with session := later } }).2.studio.transpiler? = some t' ∧ t'.spent ≠ t.spent := by
  obtain ⟨result, w₁, t, hfirst, ht, hconfig, hsize, hspent, hday, hcount, hfresh, hstays⟩ :=
    first_of_steady
  have henabled : t.config.caching.enabled = true := by rw [hconfig]; rfl
  have hroom : (result.notes.chunkCount : Int) ≤ t.cache.maxSize := by rw [hcount, hsize]; decide
  refine ⟨result, w₁, t, hfirst, ht, henabled, hroom, hstays, ?_⟩
  intro later
  have hlater : Workbench.Fresh ⟨later, t⟩ := hfresh.of_cache rfl rfl
  have hopened : (t.openedOn later.today).spent = 0 := by
    rw [Transpiler.openedOn, hday, if_neg (show "2024-01-02" ≠ "2024-01-01" by decide)]
    rfl
  refine ⟨hlater, by rw [hconfig, hspent]; decide, t.openedOn later.today, ?_, ?_⟩
  · rw [convertAt_apply] at hfirst
    cases hconvert : convert Workbench.transpile "/main.ts" (foundAt "/main.ts" steady) {}
        steady.studio with
    | mk r s' =>
      rw [hconvert] at hfirst
      cases hfirst
      obtain ⟨duration, console, hagain⟩ := convert_again hconvert (fun t ht => by cases ht; rfl) ht
        rfl henabled hroom hstays later hlater (by rw [hopened, hconfig]; decide)
      rw [convertAt_apply, foundAt_again hconvert]
      dsimp only
      rw [hagain]
  · rw [hopened, hspent]
    decide

end Cartridge.Project
