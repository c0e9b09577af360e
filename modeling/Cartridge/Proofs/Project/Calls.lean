import Cartridge.Project.Conversion
import Cartridge.Proofs.Project.Order
import Cartridge.Proofs.Project.Sources
import Cartridge.Proofs.Quantity
import Cartridge.Proofs.Run

/-!
# The calls of a conversion

A conversion gives the chunks of a project to a transpiler, file by file and chunk by chunk within
a file. Apart from that it only shows messages, and the first call that is stopped is the last one.

* `Carries`: requests that are made one after another, up to the first that is stopped.
* `Makes`: a task that makes requests and ends as they do.
* `convertChunk_makes`, `convertFile_makes`, `convertFiles_makes`: what the steps of a conversion
  ask for and give.
* `convert_carries_plan`: a conversion asks for every chunk once and in order, and its result has
  every file and every chunk.
-/

namespace Cartridge

variable {R : Type} [Quantity R] [Inhabited R] {α β : Type}

/-- The studio once a message was shown. -/
def Studio.said (write : Console → Console) (s : Studio R) : Studio R :=
  { s with session := s.session.say write }

namespace Project

/-! ## Requests in a row -/

section Calls

variable (transpile : Request → Workbench.Task R (Conversion R))

/-- Requests are made one after another, with nothing but messages in between, and the first that
is stopped is the last. A request makes the transpiler if it is not there. -/
inductive Carries :
    List Request → Studio R → Except (Stop R) (List (Conversion R)) → Studio R → Prop
  | done (write : Console → Console) (s : Studio R) : Carries [] s (.ok []) (s.said write)
  | stopped {request : Request} {rest : List Request} {s s' : Studio R} {e : Stop R}
      (before after : Console → Console)
      (hcall : Studio.work (transpile request) (s.said before) = (.error e, s')) :
      Carries (request :: rest) s (.error e) (s'.said after)
  | next {request : Request} {rest : List Request} {s s₁ s' : Studio R} {r : Conversion R}
      {outcome : Except (Stop R) (List (Conversion R))} (before : Console → Console)
      (hcall : Studio.work (transpile request) (s.said before) = (.ok r, s₁))
      (hrest : Carries rest s₁ outcome s') :
      Carries (request :: rest) s (outcome.map (r :: ·)) s'

/-- A run that makes requests ends as they do: it is stopped where they are, or gives a value that
is right for what came of them. -/
inductive Ends (right : List (Conversion R) → α → Prop) :
    Except (Stop R) (List (Conversion R)) → Except (Stop R) α → Prop
  | ok {rs : List (Conversion R)} {a : α} (h : right rs a) : Ends right (.ok rs) (.ok a)
  | stopped (e : Stop R) : Ends right (.error e) (.error e)

/-- A task makes requests, and nothing else but messages, and ends as they do. -/
def Makes (x : Studio.Task R α) (requests : List Request)
    (right : List (Conversion R) → α → Prop) : Prop :=
  ∀ s, ∃ outcome, Carries transpile requests s outcome (x s).2 ∧ Ends right outcome (x s).1

end Calls

variable {transpile : Request → Workbench.Task R (Conversion R)} {requests later : List Request}
  {s s₁ s' : Studio R} {outcome : Except (Stop R) (List (Conversion R))}

namespace Carries

theorem said_before {write : Console → Console}
    (h : Carries transpile requests (s.said write) outcome s') :
    Carries transpile requests s outcome s' := by
  cases h with
  | done after => exact .done (after ∘ write) s
  | stopped before after hcall => exact .stopped (before ∘ write) after hcall
  | next before hcall hrest => exact .next (before ∘ write) hcall hrest

theorem append_stopped {e : Stop R} (h : Carries transpile requests s (.error e) s') :
    Carries transpile (requests ++ later) s (.error e) s' := by
  generalize hout : Except.error e = outcome at h
  induction h with
  | done => cases hout
  | stopped before after hcall =>
    cases hout
    exact .stopped before after hcall
  | @next _ _ _ _ _ _ outcome before hcall _ ih =>
    cases outcome with
    | ok rs => cases hout
    | error e' =>
      cases hout
      exact .next before hcall (ih rfl)

theorem append {rs : List (Conversion R)} (h : Carries transpile requests s (.ok rs) s₁)
    (hlater : Carries transpile later s₁ outcome s') :
    Carries transpile (requests ++ later) s (outcome.map (rs ++ ·)) s' := by
  -- the induction is on the first row; the later one begins where that one ends
  generalize hout : Except.ok rs = first at h
  induction h generalizing rs with
  | done write =>
    cases hout
    have hsame : outcome.map (([] : List (Conversion R)) ++ ·) = outcome := by cases outcome <;> rfl
    rw [hsame]
    exact hlater.said_before
  | stopped => cases hout
  | @next _ _ _ _ _ r first before hcall _ ih =>
    cases first with
    | error e => cases hout
    | ok rs' =>
      cases hout
      have hmore := Carries.next before hcall (ih hlater rfl)
      have hsame : (outcome.map (rs' ++ ·)).map (r :: ·) = outcome.map (r :: rs' ++ ·) := by
        cases outcome <;> rfl
      rwa [hsame] at hmore

end Carries

omit [Quantity R] [Inhabited R] in
theorem Ends.mono {right right' : List (Conversion R) → α → Prop} {result : Except (Stop R) α}
    (h : Ends right outcome result) (hright : ∀ rs a, right rs a → right' rs a) :
    Ends right' outcome result := by
  cases h with
  | ok h => exact .ok (hright _ _ h)
  | stopped e => exact .stopped e

/-! ## Tasks that make requests -/

namespace Makes

theorem mono {x : Studio.Task R α} {right right' : List (Conversion R) → α → Prop}
    (h : Makes transpile x requests right) (hright : ∀ rs a, right rs a → right' rs a) :
    Makes transpile x requests right' := by
  intro s
  obtain ⟨outcome, hcarries, hends⟩ := h s
  exact ⟨outcome, hcarries, hends.mono hright⟩

theorem pure (a : α) : Makes transpile (Pure.pure a) [] fun rs b => rs = [] ∧ b = a :=
  fun s => ⟨.ok [], .done id s, .ok ⟨rfl, rfl⟩⟩

theorem bind {x : Studio.Task R α} {f : α → Studio.Task R β}
    {right : List (Conversion R) → α → Prop} {right' : α → List (Conversion R) → β → Prop}
    (hx : Makes transpile x requests right) (hf : ∀ a, Makes transpile (f a) later (right' a)) :
    Makes transpile (x >>= f) (requests ++ later) fun rs b =>
      ∃ rs₁ a rs₂, rs = rs₁ ++ rs₂ ∧ right rs₁ a ∧ right' a rs₂ b := by
  intro s
  obtain ⟨outcome, hcarries, hends⟩ := hx s
  rw [Run.bind_apply]
  generalize x s = first at *
  obtain ⟨result, s₁⟩ := first
  cases hends with
  | stopped e => exact ⟨.error e, hcarries.append_stopped, .stopped e⟩
  | @ok rs₁ a hright =>
    obtain ⟨outcome', hcarries', hends'⟩ := hf a s₁
    refine ⟨outcome'.map (rs₁ ++ ·), hcarries.append hcarries', ?_⟩
    dsimp only
    generalize (f a s₁).1 = result' at hends'
    cases hends' with
    | stopped e => exact .stopped e
    | ok hright' => exact .ok ⟨rs₁, a, _, rfl, hright, hright'⟩

theorem after_say {x : Studio.Task R α} {right : List (Conversion R) → α → Prop}
    (write : Console → Console) (h : Makes transpile x requests right) :
    Makes transpile (do Studio.say write; x) requests right := by
  intro s
  obtain ⟨outcome, hcarries, hends⟩ := h (s.said write)
  exact ⟨outcome, hcarries.said_before, hends⟩

theorem after_say_if {c : Prop} [Decidable c] {x : Studio.Task R α}
    {right : List (Conversion R) → α → Prop} (write : Console → Console)
    (h : Makes transpile x requests right) :
    Makes transpile (if c then do Studio.say write; x else x) requests right := by
  split
  · exact h.after_say write
  · exact h

theorem after_get {f : Studio R → Studio.Task R α} {right : List (Conversion R) → α → Prop}
    (h : ∀ s, Makes transpile (f s) requests right) :
    Makes transpile (Run.get >>= f) requests right :=
  fun s => h s s

/-- What is done with the value of a task makes no more requests. -/
theorem finish {x : Studio.Task R α} {f : α → Studio.Task R β}
    {right : List (Conversion R) → α → Prop} {finished : α → β → Prop}
    (hx : Makes transpile x requests right)
    (hf : ∀ a, Makes transpile (f a) [] fun rs b => rs = [] ∧ finished a b) :
    Makes transpile (x >>= f) requests fun rs b => ∃ a, right rs a ∧ finished a b := by
  have h := hx.bind hf
  rw [List.append_nil] at h
  refine h.mono ?_
  rintro _ b ⟨rs, a, _, rfl, hright, rfl, hb⟩
  rw [List.append_nil]
  exact ⟨a, hright, hb⟩

/-- A task for each item makes the requests of the items one after another. -/
theorem each {f : α → Studio.Task R β} {requests : α → List Request}
    {right : α → List (Conversion R) → β → Prop}
    (all : List α → List (Conversion R) → List β → Prop)
    (h : ∀ a, Makes transpile (f a) (requests a) (right a)) (hnil : all [] [] [])
    (hcons : ∀ a rest rs rs' b bs, right a rs b → all rest rs' bs →
      all (a :: rest) (rs ++ rs') (b :: bs)) (items : List α) :
    Makes transpile (Run.each f items) (items.flatMap requests) (all items) := by
  induction items with
  | nil =>
    refine (pure []).mono ?_
    rintro _ _ ⟨rfl, rfl⟩
    exact hnil
  | cons a rest ih =>
    have hrest (b : β) : Makes transpile (do let bs ← Run.each f rest; return b :: bs)
        (rest.flatMap requests) fun rs bs' => ∃ bs, all rest rs bs ∧ bs' = b :: bs :=
      ih.finish fun bs => pure (b :: bs)
    refine ((h a).bind hrest).mono ?_
    rintro _ _ ⟨rs, b, rs', rfl, hright, bs, hall, rfl⟩
    exact hcons a rest rs rs' b bs hright hall

end Makes

/-! ## Chunks and files -/

/-- Results of chunks, one for each of them in order, as their conversions have them. -/
def ChunkResults (chunks : List Source.Chunk) (rs : List (Conversion R))
    (results : List (ChunkResult R)) : Prop :=
  rs.length = chunks.length ∧ results = List.zipWith chunkResult chunks rs

omit [Quantity R] [Inhabited R] in
theorem ChunkResults.map_id {chunks : List Source.Chunk} {rs : List (Conversion R)}
    {results : List (ChunkResult R)} (h : ChunkResults chunks rs results) :
    results.map (·.id) = chunks.map (·.id) := by
  obtain ⟨hlength, rfl⟩ := h
  induction chunks generalizing rs with
  | nil => rfl
  | cons chunk rest ih =>
    cases rs with
    | nil => cases hlength
    | cons r rs =>
      rw [List.zipWith_cons_cons, List.map_cons, List.map_cons, ih (Nat.succ.inj hlength)]
      rfl

/-- Results of files, one for each of them in order, with results of all their chunks. -/
structure FileResults (files : List SourceFile) (rs : List (Conversion R))
    (results : List (FileResult R)) : Prop where
  entries : results.map (fun r => (r.path, r.chunks.map (·.id))) =
    files.map fun f => (f.path, (parts f).map (·.id))
  chunks : ChunkResults (files.flatMap parts) rs (results.flatMap (·.chunks))
  /-- The figures of a file are taken over its chunks, and there is one at least. -/
  figures : ∀ r ∈ results, r.chunks ≠ [] ∧ ∃ f ∈ files, r = fileResult f r.chunks

theorem FileResults.nil : FileResults (R := R) [] [] [] :=
  ⟨rfl, ⟨rfl, rfl⟩, fun r hr => by cases hr⟩

theorem FileResults.cons {f : SourceFile} {rest : List SourceFile} {rs rs' : List (Conversion R)}
    {chunks : List (ChunkResult R)} {results : List (FileResult R)}
    (hfirst : ChunkResults (parts f) rs chunks) (hrest : FileResults rest rs' results) :
    FileResults (f :: rest) (rs ++ rs') (fileResult f chunks :: results) := by
  have hids := hfirst.map_id
  obtain ⟨hlength, hchunks⟩ := hfirst
  obtain ⟨hlength', hchunks'⟩ := hrest.chunks
  refine ⟨?_, ⟨?_, ?_⟩, ?_⟩
  · rw [List.map_cons, List.map_cons, hrest.entries]
    show (f.path, chunks.map (·.id)) :: _ = _
    rw [hids]
  · rw [List.length_append, List.flatMap_cons, List.length_append, hlength, hlength']
  · rw [List.flatMap_cons, List.flatMap_cons, List.zipWith_append hlength.symm, ← hchunks']
    show chunks ++ _ = _
    rw [hchunks]
  · intro r hr
    rcases List.mem_cons.mp hr with rfl | hr
    · refine ⟨?_, f, List.mem_cons_self, rfl⟩
      rintro hnone
      have hnone : chunks = [] := hnone
      rw [hnone, List.map_nil] at hids
      exact parts_ne_nil f (List.map_eq_nil_iff.mp hids.symm)
    · obtain ⟨hne, f', hf', hr⟩ := hrest.figures r hr
      exact ⟨hne, f', List.mem_cons_of_mem f hf', hr⟩

/-! ## What the steps of a conversion ask for -/

/-- The requests for the chunks of a project, file by file in the order of the files. -/
def plan (p : Project) (o : Settings) : List Request :=
  p.ordered.flatMap fun f => (parts f).map (requestFor (Schema.ofProject p) o f)

theorem convertChunk_makes (sc : Schema) (o : Settings) (f : SourceFile) (chunk : Source.Chunk) :
    Makes transpile (convertChunk transpile sc o f chunk) [requestFor sc o f chunk]
      fun rs result => ∃ r, rs = [r] ∧ result = chunkResult chunk r := by
  intro s
  unfold convertChunk
  rw [Run.bind_apply, Run.attempt]
  cases hcall : Studio.work (transpile (requestFor sc o f chunk)) s with
  | mk result s₁ =>
    cases result with
    | error e => exact ⟨.error e, .stopped id _ hcall, .stopped e⟩
    | ok r =>
      have hdone (write : Console → Console) : Carries transpile [requestFor sc o f chunk] s
          (.ok [r]) (s₁.said write) := .next id hcall (.done write s₁)
      refine ⟨.ok [r], ?_⟩
      dsimp only
      split
      · exact ⟨hdone _, .ok ⟨r, rfl, rfl⟩⟩
      · exact ⟨hdone id, .ok ⟨r, rfl, rfl⟩⟩

theorem convertChunks_makes (sc : Schema) (o : Settings) (f : SourceFile)
    (chunks : List Source.Chunk) :
    Makes transpile (Run.each (convertChunk transpile sc o f) chunks)
      (chunks.map (requestFor sc o f)) (ChunkResults chunks) := by
  rw [List.map_eq_flatMap]
  refine Makes.each ChunkResults (convertChunk_makes sc o f) ⟨rfl, rfl⟩ ?_ chunks
  rintro chunk rest _ rs _ results ⟨r, rfl, rfl⟩ ⟨hlength, rfl⟩
  exact ⟨congrArg Nat.succ hlength, rfl⟩

theorem convertFile_makes (sc : Schema) (o : Settings) (count : Nat) (file : SourceFile × Nat) :
    Makes transpile (convertFile transpile sc o count file)
      ((parts file.1).map (requestFor sc o file.1)) fun rs result =>
        ∃ chunks, ChunkResults (parts file.1) rs chunks ∧ result = fileResult file.1 chunks :=
  ((convertChunks_makes sc o file.1 (parts file.1)).finish fun chunks =>
    (Makes.pure (fileResult file.1 chunks)).after_say _).after_say _

theorem convertAll_makes (sc : Schema) (o : Settings) (count start : Nat)
    (files : List SourceFile) :
    Makes transpile (Run.each (convertFile transpile sc o count) (files.zipIdx start))
      (files.flatMap fun f => (parts f).map (requestFor sc o f)) (FileResults files) := by
  have hall : Makes transpile (Run.each (convertFile transpile sc o count) (files.zipIdx start))
      ((files.zipIdx start).flatMap fun file => (parts file.1).map (requestFor sc o file.1))
      (FileResults ((files.zipIdx start).map (·.1))) := by
    refine Makes.each (fun numbered => FileResults (R := R) (numbered.map (·.1)))
      (convertFile_makes sc o count) .nil ?_ _
    rintro file rest rs rs' _ results ⟨chunks, hchunks, rfl⟩ hrest
    exact hrest.cons hchunks
  have hnumbers : (files.zipIdx start).map (·.1) = files := List.zipIdx_map_fst start files
  have hplan : (files.flatMap fun f => (parts f).map (requestFor sc o f)) =
      (files.zipIdx start).flatMap fun file => (parts file.1).map (requestFor sc o file.1) := by
    conv_lhs => rw [← hnumbers, List.flatMap_map]
  rw [hnumbers, ← hplan] at hall
  exact hall

theorem convertFiles_makes (p : Project) (o : Settings) :
    Makes transpile (convertFiles transpile p o) (p.plan o) fun rs result =>
      FileResults p.ordered rs result.files ∧ result = p.resultOf result.files result.duration := by
  have hend (start : R) (results : List (FileResult R)) : Makes transpile (do
      let result := p.resultOf results ((← Run.get).session.clock - start)
      Studio.say (·.success "Project transpilation completed!")
      Studio.say (·.info (resultMessage result))
      return result) [] fun rs result =>
        rs = [] ∧ ∃ duration, result = p.resultOf results duration := by
    refine Makes.after_get fun s => (((Makes.pure _).after_say _).after_say _).mono ?_
    rintro rs result ⟨hrs, hresult⟩
    exact ⟨hrs, _, hresult⟩
  unfold convertFiles
  refine Makes.after_say _ (Makes.after_say _ (Makes.after_get fun s => ?_))
  refine Makes.after_say_if _ (Makes.after_say _ (Makes.after_get fun s => ?_))
  refine Makes.after_say _ (((convertAll_makes _ o _ 1 p.ordered).finish (hend _)).mono ?_)
  rintro rs _ ⟨results, hresults, duration, rfl⟩
  exact ⟨hresults, rfl⟩

/-! ## Conversions of projects -/

/-- What a conversion makes of a project and the conversions of its chunks. -/
structure Converted (p : Project) (rs : List (Conversion R)) (result : ProjectResult R) : Prop where
  files : FileResults p.ordered rs result.files
  files_ne_nil : result.files ≠ []
  /-- The figures of the project are taken over its files. -/
  figures : result = p.resultOf result.files result.duration

theorem FileResults.ne_nil {files : List SourceFile} {rs : List (Conversion R)}
    {results : List (FileResult R)} (h : FileResults files rs results) (hfiles : files ≠ []) :
    results ≠ [] := by
  rintro rfl
  exact hfiles (List.map_eq_nil_iff.mp h.entries.symm)

theorem parts_of_cut {f : SourceFile} {chunks : List Source.Chunk} (h : f.chunks = some chunks)
    (hne : chunks ≠ []) : parts f = chunks := by
  cases chunks with
  | nil => exact absurd rfl hne
  | cons chunk rest => rw [parts, h]

theorem parts_of_uncut {f : SourceFile} (h : f.chunks.getD [] = []) : parts f = [wholeFile f] := by
  unfold parts
  split
  · rename_i hchunks
    rw [hchunks] at h
    cases h
  · rfl

/-- The conversion of a project that was found on a disk, with one file at least, makes the request
for each chunk of each file once: file by file, in the order of the files, which has each of them
once, and chunk by chunk, where a file that was not cut is one chunk. It makes no other request and
none after the first that is stopped. If none is, the result has an entry for each file, in that
order, with a result for each chunk, in order; no average is taken over nothing. -/
theorem convert_carries_plan {rules : Config.ProjectRules} {d : Disk} {path : String} {p : Project}
    (hroot : d.root.Proper) (hscan : scan rules d (Path.ofString path) = .ok p)
    (hfiles : p.files ≠ []) (transpile : Request → Workbench.Task R (Conversion R)) (o : Settings)
    (s : Studio R) :
    p.ordered.Perm p.files ∧
      (∀ f ∈ p.files, parts f ≠ [] ∧
        (∀ chunks, f.chunks = some chunks → chunks ≠ [] → parts f = chunks) ∧
        (f.chunks.getD [] = [] → ∃ chunk, parts f = [chunk] ∧ chunk.content = f.content)) ∧
      ∃ outcome, Carries transpile (p.plan o) s outcome
          (convert transpile path (scan rules d (Path.ofString path)) o s).2 ∧
        Ends (Converted p) outcome
          (convert transpile path (scan rules d (Path.ofString path)) o s).1 := by
  have hpaths : (p.files.map (·.path)).Nodup := nodup_paths hroot hscan
  have horder : p.ordered.Perm p.files :=
    (List.perm_ext_iff_of_nodup (nodup_ordered p) (List.Nodup.of_map _ hpaths)).mpr
      (mem_ordered_iff hpaths)
  have hordered : p.ordered ≠ [] := fun hnone => hfiles (List.nil_perm.mp (hnone ▸ horder))
  refine ⟨horder, fun f _ => ⟨parts_ne_nil f, fun _ h => parts_of_cut h, fun h => ?_⟩, ?_⟩
  · exact ⟨wholeFile f, parts_of_uncut h, rfl⟩
  have hconvert : Makes transpile (convert transpile path (.ok p) o) (p.plan o) (Converted p) := by
    unfold convert
    refine Makes.after_say _ ?_
    have hsome : p.files.isEmpty = false := by simpa using hfiles
    show Makes transpile (if p.files.isEmpty then _ else _) _ _
    rw [hsome]
    refine Makes.after_say _ ((convertFiles_makes p o).mono ?_)
    rintro rs result ⟨hresults, hfigures⟩
    exact ⟨hresults, hresults.ne_nil hordered, hfigures⟩
  rw [hscan]
  exact hconvert s

/-- A folder with two files, the first of which needs the second. -/
theorem convert_carries_plan_of_two_files :
    let mainText := "import \x7b x \x7d from './player';"
    let playerText := "export const x = 1;"
    let entries : Entries FileTree := [("main.ts", .file mainText.toUTF8 FileTree.fileMode),
      ("player.ts", .file playerText.toUTF8 FileTree.fileMode)]
    let game : FileTree := .folder entries FileTree.folderMode
    let d : Disk := ⟨.folder [("game", game)] FileTree.folderMode, []⟩
    let s : Studio ℚ :=
      { config := .standard "gbdk", session := { clock := 0, today := "2024-01-01" } }
    let found := scan {} d (Path.ofString "/game")
    d.root.Proper ∧ ∃ p, found = .ok p ∧ p.files ≠ [] ∧
      (p.plan {}).map (·.source) = [playerText, mainText] ∧
      ∃ outcome, Carries Workbench.transpile (p.plan {}) s outcome
          (convert Workbench.transpile "/game" found {} s).2 ∧
        Ends (Converted p) outcome (convert Workbench.transpile "/game" found {} s).1 := by
  intro mainText playerText entries game d s found
  have hroot : d.root.Proper := by
    refine .folder (by decide) (by decide) fun e he => ?_
    rw [List.mem_singleton.mp he]
    refine .folder (by decide) (by decide) fun e he => ?_
    rcases List.mem_cons.mp he with rfl | he
    · exact .file _ _
    · rw [List.mem_singleton.mp he]
      exact .file _ _
  have hplace : d.current.resolve (Path.ofString "/game") = ⟨"/", ["game"]⟩ := by decide +kernel
  have hentry : d.entry ⟨"/", ["game"]⟩ = .ok game := by
    have hlocate : d.locate ⟨"/", ["game"]⟩ = .ok ["game"] := by decide +kernel
    rw [Disk.entry, hlocate]
    rfl
  have hsources : sourcesOf game (listsBelow d ⟨"/", ["game"]⟩) = [["main.ts"], ["player.ts"]] := by
    have hown : ownSources entries = ["main.ts", "player.ts"] :=
      congrArg Entries.names (List.mergeSort_of_pairwise (by decide))
    have hbelow : byName (sourcesBelow entries (listsBelow d ⟨"/", ["game"]⟩)) = [] :=
      List.mergeSort_of_pairwise .nil
    rw [sourcesOf, if_pos (by decide +kernel), hown, hbelow]
    rfl
  let file (name text : String) : SourceFile :=
    analyzed {} (Path.append ⟨"/", ["game"]⟩ ⟨"", [name]⟩).toString
      (Path.toString ⟨"", [name]⟩) text
  have hread (name text : String)
      (htext : d.readText (Path.append ⟨"/", ["game"]⟩ ⟨"", [name]⟩) = .ok text) :
      readSource {} d ⟨"/", ["game"]⟩ [name] = .ok (file name text) := by
    unfold readSource
    dsimp only
    rw [htext]
    rfl
  let p := ofFiles [file "main.ts" mainText, file "player.ts" playerText]
  have hscan : found = .ok p := by
    have hnull : (Path.ofString "/game").hasNull = false := by decide +kernel
    have hfolder : found = ((sourcesOf game
        (listsBelow d (d.current.resolve (Path.ofString "/game")))).mapM
          (readSource {} d (d.current.resolve (Path.ofString "/game")))).map ofFiles :=
      scan_folder hnull (hplace ▸ hentry) rfl
    rw [hfolder, hplace, hsources, List.mapM_cons, List.mapM_cons, List.mapM_nil]
    rw [hread "main.ts" mainText (by decide +kernel),
      hread "player.ts" playerText (by decide +kernel)]
    rfl
  have hfiles : p.files ≠ [] := List.cons_ne_nil _ _
  have hplan : (p.plan {}).map (·.source) = [playerText, mainText] := by decide +kernel
  obtain ⟨-, -, outcome, hcarries, hends⟩ :=
    convert_carries_plan hroot hscan hfiles Workbench.transpile {} s
  exact ⟨hroot, p, hscan, hfiles, hplan, outcome, hcarries, hends⟩

end Project

end Cartridge
