import Cartridge.Proofs.Toolchain.Artifacts
import Cartridge.Proofs.Toolchain.Calls

/-!
# Chains of steps

The steps of a build know of each other only by the files that they find. Each step looks for its
inputs, makes its calls, and is over when they are; the first call that fails or is broken off, and
the first step that lacks its inputs, ends the build. So which calls are made follows from the disk,
the tools and the steps that are left, and what the user is told follows from the last call.

* `Found`, `found_iff`: the files of a kind, sorted by their names.
* `Ready`, `Cut`: when a step makes which calls, and with what it ends if it makes none.
* `Chain`: what comes of steps one after another.
* `compileAll_follows`, `all_follows`: the steps of a build are such a chain.
* `work_chain`: so it is for each command, with the code and the message at the end.
-/

namespace Cartridge

namespace Build

open Run Workshop

variable {R : Type} {α : Type}

/-! ## Files in the order of their names -/

/-- The files with a suffix that a step takes for a source, and the folder that they are in: all of
a folder that can be listed, each once and sorted by name, or the one that is named after a file, if
it is there. -/
inductive Found (d : Disk) (source : Path) (suffix : String) : Path → List Path → Prop
  | ofFolder {es : List (String × FileTree)} {mode : Nat} {names : List String}
      (hsource : d.entry source = .ok (.folder es mode))
      (hread : (FileTree.folder es mode).allows .read = true)
      (hsame : names.Perm ((Entries.names es).filter (Text.endsWith · suffix)))
      (hsorted : names.Pairwise (· ≤ ·)) : Found d source suffix source (names.map source.child)
  | ofClosed {es : List (String × FileTree)} {mode : Nat}
      (hsource : d.entry source = .ok (.folder es mode))
      (hread : (FileTree.folder es mode).allows .read = false) : Found d source suffix source []
  | ofFile (hsource : d.hasFolder source = .ok false)
      (hthere : d.has (source.withSuffix suffix) = .ok true) :
      Found d source suffix source.parent [source.withSuffix suffix]
  | nothing (hsource : d.hasFolder source = .ok false)
      (hmissing : d.has (source.withSuffix suffix) = .ok false) :
      Found d source suffix source.parent []

variable {d : Disk} {source folder : Path} {suffix path : String} {files : List Path}

theorem endingWith_of_entry {es : List (String × FileTree)} {mode : Nat}
    (h : d.entry source = .ok (.folder es mode))
    (hread : (FileTree.folder es mode).allows .read = true) :
    d.endingWith source suffix =
      (((Entries.names es).filter (Text.endsWith · suffix)).mergeSort (· ≤ ·)).map
        source.child := by
  rw [Disk.endingWith, Disk.found?, h]
  dsimp only [Except.toOption]
  rw [Option.filter_some, hread]
  rfl

/-- A folder that cannot be listed seems to be empty. -/
theorem endingWith_of_closed {t : FileTree} (h : d.entry source = .ok t)
    (hread : t.allows .read = false) : d.endingWith source suffix = [] := by
  rw [Disk.endingWith, Disk.found?, h]
  dsimp only [Except.toOption]
  rw [Option.filter_some, hread]
  exact congrArg (List.map source.child) (List.mergeSort_of_pairwise .nil)

theorem hasFolder_eq_true : d.hasFolder source = .ok true ↔
    ∃ es mode, d.entry source = .ok (.folder es mode) := by
  unfold Disk.hasFolder Disk.holds
  cases d.entry source with
  | error e => cases e <;> simp [Fault.meansAbsence]
  | ok t => cases t <;> simp [FileTree.isFolder]

theorem sorted_unique {names names' : List String} (hperm : names.Perm names')
    (h : names.Pairwise (· ≤ ·)) (h' : names'.Pairwise (· ≤ ·)) : names = names' :=
  hperm.eq_of_pairwise (fun _ _ _ _ => String.le_antisymm) h h'

theorem sorted_mergeSort (names : List String) : (names.mergeSort (· ≤ ·)).Pairwise (· ≤ ·) :=
  Entries.pairwise_sortedBy id names

/-- These are the files that the steps look for. -/
theorem found_iff : Found d source suffix folder files ↔
    artifacts source suffix d = .ok files ∧ folderOf source d = .ok folder := by
  unfold artifacts folderOf
  constructor
  · rintro (⟨hsource, hread, hsame, hsorted⟩ | ⟨hsource, hread⟩ | ⟨hsource, hthere⟩ |
      ⟨hsource, hmissing⟩)
    · rw [hasFolder_eq_true.mpr ⟨_, _, hsource⟩]
      refine ⟨?_, rfl⟩
      show Except.ok (d.endingWith source suffix) = _
      rw [endingWith_of_entry hsource hread, sorted_unique
        (hsame.trans (List.mergeSort_perm _ _).symm) hsorted (sorted_mergeSort _)]
    · rw [hasFolder_eq_true.mpr ⟨_, _, hsource⟩]
      exact ⟨congrArg Except.ok (endingWith_of_closed hsource hread), rfl⟩
    · rw [hsource]
      refine ⟨?_, rfl⟩
      show (d.has (source.withSuffix suffix) >>= _) = _
      rw [hthere]
      rfl
    · rw [hsource]
      refine ⟨?_, rfl⟩
      show (d.has (source.withSuffix suffix) >>= _) = _
      rw [hmissing]
      rfl
  · rintro ⟨hfiles, hfolder⟩
    cases hsource : d.hasFolder source with
    | error e =>
      rw [hsource] at hfiles
      cases hfiles
    | ok isFolder =>
      rw [hsource] at hfiles hfolder
      cases isFolder with
      | true =>
        cases hfolder
        obtain ⟨es, mode, hentry⟩ := hasFolder_eq_true.mp hsource
        have hfiles : Except.ok (d.endingWith source suffix) = Except.ok files := hfiles
        rw [← Except.ok.inj hfiles]
        cases hread : (FileTree.folder es mode).allows .read with
        | true =>
          rw [endingWith_of_entry hentry hread]
          exact .ofFolder hentry hread (List.mergeSort_perm _ _) (sorted_mergeSort _)
        | false =>
          rw [endingWith_of_closed hentry hread]
          exact .ofClosed hentry hread
      | false =>
        cases hfolder
        have hfiles : (d.has (source.withSuffix suffix) >>= fun isThere =>
          pure (if isThere then [source.withSuffix suffix] else [])) = .ok files := hfiles
        cases hthere : d.has (source.withSuffix suffix) with
        | error e =>
          rw [hthere] at hfiles
          cases hfiles
        | ok isThere =>
          rw [hthere] at hfiles
          cases isThere with
          | true =>
            cases hfiles
            exact .ofFile hsource hthere
          | false =>
            cases hfiles
            exact .nothing hsource hthere

theorem Found.normal (h : Found d source suffix folder files) (hsource : Path.Normal source) :
    Path.Normal folder := by
  cases h with
  | ofFolder _ _ _ _ => exact hsource
  | ofClosed _ _ => exact hsource
  | ofFile _ _ => exact hsource.parent
  | nothing _ _ => exact hsource.parent

/-! ## Steps -/

/-- The steps of a build. -/
inductive Step where
  | translate
  | make
  | compile
  | link
  | image
  deriving DecidableEq

/-- What the steps of a build call. -/
structure Kit where
  library : Path
  translator : String
  script : String → String

/-- What the steps call in a workshop. -/
def kit (w : Workshop R) : Kit where
  library := library w.studio.config
  translator := w.studio.config.tools.ts2cCommand
  script := script w

/-- A step has its inputs, and these are the calls that it makes. -/
inductive Ready (k : Kit) (source : Path) (d : Disk) : Step → List ToolCall → Prop
  | translate (hsource : d.has source = .ok true) :
      Ready k source d .translate [⟨[k.translator, source.name], source.parent.toString⟩]
  | make (hlibrary : d.hasFolder k.library = .ok true) :
      Ready k source d .make [⟨["make"], k.library.toString⟩]
  | compile {folder : Path} {files : List Path} (hfiles : Found d source ".c" folder files)
      (hsome : files ≠ []) :
      Ready k source d .compile
        (files.map fun file => ⟨[k.script "gbdk-n-compile", file.name], folder.toString⟩)
  | link {folder : Path} {files : List Path} {name : String}
      (hfiles : Found d source ".rel" folder files) (hsome : files ≠ [])
      (hname : imageName source d = .ok name) :
      Ready k source d .link
        [⟨k.script "gbdk-n-link" :: (files.map Path.name ++ ["-o", name ++ ".ihx"]),
          folder.toString⟩]
  | image {folder : Path} {name : String} (hfolder : folderOf source d = .ok folder)
      (hname : imageName source d = .ok name)
      (hlinked : d.has (folder.child (name ++ ".ihx")) = .ok true) :
      Ready k source d .image
        [⟨[k.script "gbdk-n-make-rom", name ++ ".ihx", name ++ ".gb"], folder.toString⟩]

/-- The failure of a step that lacks its inputs. -/
inductive Lack (path : String) (d : Disk) : Step → Failure R → Prop
  | translate : Lack path d .translate (.sourceMissing path)
  | make : Lack path d .make (.build .noToolchain)
  | compile : Lack path d .compile (.build (.nothingToCompile path))
  | link : Lack path d .link (.build (.nothingToLink path))
  | image {folder : Path} {name : String} (hfolder : folderOf (Path.ofString path) d = .ok folder)
      (hname : imageName (Path.ofString path) d = .ok name) :
      Lack path d .image (.build (.missing (folder.child (name ++ ".ihx")).toString))

/-- Where a step looks for its inputs. -/
def looks (k : Kit) (source : Path) (d : Disk) : Step → List Path
  | .translate => [source]
  | .make => [k.library]
  | .compile => [source, source.withSuffix ".c"]
  | .link => [source, source.withSuffix ".rel"]
  | .image => [source, source.child ((d.current.resolve source).name ++ ".ihx"),
      source.parent.child (source.stem ++ ".ihx")]

/-- With what a step ends that makes no calls: a failure that says what it lacks, or a fault that it
meets where it looks. -/
def Cut (k : Kit) (path : String) (d : Disk) (step : Step) : Stop R → Prop
  | .failed why => Lack path d step why
  | .broken fault => ∃ p ∈ looks k (Path.ofString path) d step, d.has p = .error fault

/-- How the failure of a call is told. -/
def Step.report : Step → BuildFailure → Failure R
  | .translate => .translator
  | _ => .build

/-- What comes of steps one after another: how they end, the calls that are made, and the disk. -/
inductive Chain (k : Kit) (path : String) (tools : List ToolCall → ToolOutcome) :
    List ToolCall → Disk → List Step → Except (Stop R) Unit → List ToolCall → Disk → Prop
  | done (before : List ToolCall) (d : Disk) : Chain k path tools before d [] (.ok ()) [] d
  /-- The inputs of a step are missing. -/
  | cut {before : List ToolCall} {d : Disk} {step : Step} {rest : List Step} {e : Stop R}
      (hlacks : ∀ calls, ¬ Ready k (Path.ofString path) d step calls) (hcut : Cut k path d step e) :
      Chain k path tools before d (step :: rest) (.error e) [] d
  /-- A call of a step fails or is broken off. -/
  | failed {before calls made : List ToolCall} {d d' : Disk} {step : Step} {rest : List Step}
      {why : Trouble} (hready : Ready k (Path.ofString path) d step calls)
      (hcalls : InTurn tools before d calls (some why) made d') :
      Chain k path tools before d (step :: rest) (.error (why.stop step.report)) made d'
  | next {before calls made made' : List ToolCall} {d d₁ d' : Disk} {step : Step}
      {rest : List Step} {r : Except (Stop R) Unit}
      (hready : Ready k (Path.ofString path) d step calls)
      (hcalls : InTurn tools before d calls none made d₁)
      (hrest : Chain k path tools (made.reverse ++ before) d₁ rest r made' d') :
      Chain k path tools before d (step :: rest) r (made ++ made') d'

/-! ## What is said -/

/-- The message that a build has made an image. -/
def imageMade : Message := ⟨.output, "✓ ROM built"⟩

/-- Something is shown that does not say that an image was made. -/
def Quiet (write : Console → Console) : Prop :=
  ∀ c, (write c).messages.count imageMade = c.messages.count imageMade

theorem count_show (c : Console) (stream : Stream) (text : String) :
    (c.show_ stream text).messages.count imageMade =
      c.messages.count imageMade + if (⟨stream, text⟩ : Message) = imageMade then 1 else 0 := by
  have hmessages : (c.show_ stream text).messages = c.messages ++ [⟨stream, text⟩] :=
    List.reverse_cons
  rw [hmessages, List.count_append, List.count_singleton]
  simp only [beq_iff_eq]

theorem quiet_show (stream : Stream) {text : String}
    (h : (⟨stream, text⟩ : Message) ≠ imageMade) : Quiet (·.show_ stream text) := by
  intro c
  rw [count_show, if_neg h, Nat.add_zero]

theorem quiet_start (text : String) : Quiet (·.start text) := by
  refine fun c => quiet_show .output (fun h => ?_) c
  have htexts : ("⏳ " ++ (text ++ "...")).toList = "✓ ROM built".toList := by
    rw [← String.append_assoc]
    exact congrArg (fun m : Message => m.text.toList) h
  rw [String.toList_append] at htexts
  exact absurd (List.head_eq_of_cons_eq htexts) (by decide)

theorem quiet_success {text : String} (h : text ≠ "ROM built") : Quiet (·.success text) := by
  refine fun c => quiet_show .output (fun hsame => h ?_) c
  have htexts : ("✓ " ++ text).toList = "✓ ".toList ++ "ROM built".toList :=
    congrArg (fun m : Message => m.text.toList) hsame
  rw [String.toList_append] at htexts
  exact String.toList_inj.mp (List.append_cancel_left htexts)

theorem quiet_error (text : String) : Quiet (·.error text) :=
  fun c => quiet_show .error (fun h => by cases congrArg Message.stream h) c

theorem quiet_stop : Quiet (·.stop) := by
  intro c
  show (Console.stop c).messages.count imageMade = _
  unfold Console.stop
  split
  · split
    · rfl
    · exact quiet_show .error (fun h => by cases congrArg Message.stream h) c
  · rfl

/-! ## Runs that take a step -/

section Steps

variable {step : Step} {rest : List Step} {calls made made' : List ToolCall} {d' : Disk}
  {w w' w'' : Workshop R} {x y : Task R Unit}

/-- A workshop is left as calls leave it. What was shown besides does not say that an image was
made. -/
def Leaves (w : Workshop R) (made : List ToolCall) (d : Disk) (w' : Workshop R) : Prop :=
  ∃ studio : Studio R, studio.config = w.studio.config ∧
    studio.session.console.messages.count imageMade = w.messages.count imageMade ∧
    w' = { after w made d with studio }

theorem Leaves.refl (w : Workshop R) : Leaves w [] w.disk w := ⟨w.studio, rfl, rfl, rfl⟩

theorem Leaves.say (w : Workshop R) {write : Console → Console} (h : Quiet write) :
    Leaves w [] w.disk (Workshop.say write w).2 :=
  ⟨(Workshop.say write w).2.studio, rfl, h _, rfl⟩

theorem Leaves.trans (h : Leaves w made d w') (h' : Leaves w' made' d' w'') :
    Leaves w (made ++ made') d' w'' := by
  obtain ⟨studio, hconfig, hcount, rfl⟩ := h
  obtain ⟨studio', hconfig', hcount', rfl⟩ := h'
  refine ⟨studio', hconfig'.trans hconfig, hcount'.trans hcount, ?_⟩
  rw [← after_after w made made' d d']
  rfl

theorem Leaves.kit (h : Leaves w made d w') : kit w' = kit w := by
  obtain ⟨studio, hconfig, -, rfl⟩ := h
  unfold Build.kit library script library
  dsimp only [after]
  rw [hconfig]
  rfl

/-- A run takes a step: it ends at once for want of its inputs, or with the calls of the step. -/
inductive Performs (path : String) (step : Step) (x : Task R Unit) (w : Workshop R) : Prop
  | cut {e : Stop R} {w' : Workshop R}
      (hlacks : ∀ calls, ¬ Ready (kit w) (Path.ofString path) w.disk step calls)
      (hcut : Cut (kit w) path w.disk step e) (hx : x w = (.error e, w'))
      (hleaves : Leaves w [] w.disk w')
  | calls {calls made : List ToolCall} {why : Option Trouble} {d : Disk} {w' : Workshop R}
      (hready : Ready (kit w) (Path.ofString path) w.disk step calls)
      (hcalls : InTurn w.tools w.toolCalls w.disk calls why made d)
      (hx : x w = (outcome step.report why, w')) (hleaves : Leaves w made d w')

/-- A step says something before its calls and after them. -/
theorem performs_of_runs {x : Task R α}
    (hready : Ready (kit w) (Path.ofString path) w.disk step calls)
    (hreport : (step.report : BuildFailure → Failure R) = .build) (hruns : Runs calls x)
    {first last : Console → Console} (hfirst : Quiet first) (hlast : Quiet last) :
    Performs path step (do Workshop.say first; let _ ← x; Workshop.say last) w := by
  have hsay : Workshop.say first w =
      ((.ok () : Except (Stop R) Unit), (Workshop.say first w).2) := rfl
  obtain ⟨why, made, d, a, hcalls, hx⟩ := hruns (Workshop.say first w).2
  have hleaves : Leaves w made d (after (Workshop.say first w).2 made d) :=
    ⟨(Workshop.say first w).2.studio, rfl, hfirst _, rfl⟩
  cases why with
  | none =>
    have hends := hleaves.trans (.say _ hlast)
    rw [List.append_nil] at hends
    refine .calls hready hcalls ?_ hends
    rw [bind_ok hsay, bind_ok hx]
    rfl
  | some why =>
    refine .calls hready hcalls ?_ hleaves
    rw [bind_ok hsay, bind_error hx, hreport]
    rfl

theorem Performs.congr (h : Performs path step y w) (hxy : x w = y w) : Performs path step x w := by
  cases h with
  | cut hlacks hcut hy hleaves => exact .cut hlacks hcut (hxy.trans hy) hleaves
  | calls hready hcalls hy hleaves => exact .calls hready hcalls (hxy.trans hy) hleaves

theorem performs_of_lack {why : BuildFailure}
    (hlacks : ∀ calls, ¬ Ready (kit w) (Path.ofString path) w.disk step calls)
    (hlack : Lack path w.disk step (.build why : Failure R)) :
    Performs path step (refuse why : Task R Unit) w :=
  .cut (e := .failed (.build why)) hlacks hlack rfl (.refl w)

/-- A step looks for something and goes on, unless it meets a fault. -/
theorem performs_of_look {read : Disk → Except Fault α} {f : α → Task R Unit}
    (hlacks : ∀ fault, read w.disk = .error fault →
      ∀ calls, ¬ Ready (kit w) (Path.ofString path) w.disk step calls)
    (hlooks : ∀ fault, read w.disk = .error fault →
      ∃ p ∈ looks (kit w) (Path.ofString path) w.disk step, w.disk.has p = .error fault)
    (hgoes : ∀ a, read w.disk = .ok a → Performs path step (f a) w) :
    Performs path step (look read >>= f) w := by
  cases hread : read w.disk with
  | error fault =>
    exact .cut (e := .broken fault) (hlacks fault hread) (hlooks fault hread)
      (bind_error (look_of_error hread)) (.refl w)
  | ok a => exact (hgoes a hread).congr (bind_ok (look_of_ok hread))

/-! ## The steps -/

theorem has_of_hasFolder {p : Path} {fault : Fault} (h : d.hasFolder p = .error fault) :
    d.has p = .error fault := by
  unfold Disk.hasFolder Disk.holds at h
  unfold Disk.has Disk.holds
  cases hentry : d.entry p with
  | ok t =>
    rw [hentry] at h
    cases h
  | error e =>
    rw [hentry] at h
    exact h

theorem makeLibrary_performs (path : String) (w : Workshop R) :
    Performs path .make (makeLibrary : Task R Unit) w := by
  have hlacks (h : w.disk.hasFolder (library w.studio.config) ≠ .ok true) (calls : List ToolCall) :
      ¬ Ready (kit w) (Path.ofString path) w.disk .make calls := by
    rintro ⟨⟩
    rename_i hlibrary
    exact h hlibrary
  refine Performs.congr (performs_of_look (fun fault h => hlacks (by rw [h]; simp)) (fun fault h =>
    ⟨_, List.mem_singleton_self _, has_of_hasFolder h⟩) fun isThere hthere => ?_) rfl
  cases isThere with
  | false => exact performs_of_lack (hlacks (by rw [hthere]; simp)) .make
  | true =>
    exact performs_of_runs (.make hthere) rfl (runs_run _ _ (Path.normal_ofString _))
      (quiet_start _) (quiet_success (by decide))

/-- What is there of a source cannot be told only if the system does not let one look at it. -/
theorem has_of_artifacts_error {fault : Fault} (h : artifacts source suffix d = .error fault) :
    ∃ p ∈ [source, source.withSuffix suffix], d.has p = .error fault := by
  unfold artifacts at h
  cases hsource : d.hasFolder source with
  | error e =>
    rw [hsource] at h
    cases h
    exact ⟨source, List.mem_cons_self, has_of_hasFolder hsource⟩
  | ok isFolder =>
    rw [hsource] at h
    cases isFolder with
    | true => cases h
    | false =>
      have h : (d.has (source.withSuffix suffix) >>= fun isThere =>
        pure (if isThere then [source.withSuffix suffix] else [])) = .error fault := h
      cases hthere : d.has (source.withSuffix suffix) with
      | ok isThere =>
        rw [hthere] at h
        cases h
      | error e =>
        rw [hthere] at h
        cases h
        exact ⟨_, List.mem_cons_of_mem _ (List.mem_singleton_self _), hthere⟩

/-- Where the artifacts of a source are known, so are their folder and the name of its image. -/
theorem places_of_artifacts (h : artifacts source suffix d = .ok files) :
    ∃ folder name, folderOf source d = .ok folder ∧ imageName source d = .ok name := by
  unfold artifacts at h
  unfold folderOf imageName
  cases hsource : d.hasFolder source with
  | error e =>
    rw [hsource] at h
    cases h
  | ok isFolder => exact ⟨_, _, rfl, rfl⟩

/-- A step that takes the files with a suffix. -/
theorem performs_of_artifacts {why : BuildFailure} {go : List Path → Path → Task R Unit}
    (hneeds : ∀ calls, Ready (kit w) (Path.ofString path) w.disk step calls →
      ∃ folder files, Found w.disk (Path.ofString path) suffix folder files ∧ files ≠ [])
    (hlooks : [Path.ofString path, (Path.ofString path).withSuffix suffix] ⊆
      looks (kit w) (Path.ofString path) w.disk step)
    (hlack : Lack path w.disk step (.build why : Failure R))
    (hgoes : ∀ folder files, Found w.disk (Path.ofString path) suffix folder files → files ≠ [] →
      Performs path step (go files folder) w) :
    Performs path step (do
      let files ← look (artifacts (Path.ofString path) suffix)
      if files.isEmpty then refuse why
      else
        let folder ← look (folderOf (Path.ofString path))
        go files folder) w := by
  refine performs_of_look (fun fault h calls hready => ?_) (fun fault h => ?_)
    fun files hfiles => ?_
  · obtain ⟨folder, files, hfound, -⟩ := hneeds calls hready
    rw [(found_iff.mp hfound).1] at h
    cases h
  · obtain ⟨p, hp, hfault⟩ := has_of_artifacts_error h
    exact ⟨p, hlooks hp, hfault⟩
  · obtain ⟨folder, name, hfolder, -⟩ := places_of_artifacts hfiles
    cases files with
    | nil =>
      refine performs_of_lack (fun calls hready => ?_) hlack
      obtain ⟨folder, files, hfound, hsome⟩ := hneeds calls hready
      rw [(found_iff.mp hfound).1] at hfiles
      cases hfiles
      exact hsome rfl
    | cons file rest =>
      have hfound := found_iff.mpr ⟨hfiles, hfolder⟩
      exact (hgoes folder _ hfound (List.cons_ne_nil _ _)).congr (bind_ok (look_of_ok hfolder))

theorem compile_performs (path : String) (w : Workshop R) :
    Performs path .compile (compile path : Task R Unit) w := by
  refine Performs.congr (performs_of_artifacts (fun calls hready => ?_) (fun _ hp => hp) .compile
    fun folder files hfound hsome => ?_) rfl
  · cases hready with
    | compile hfound hsome => exact ⟨_, _, hfound, hsome⟩
  · have hnormal := hfound.normal (Path.normal_ofString path)
    exact performs_of_runs (.compile hfound hsome) rfl
      (Runs.each (fun _ => runs_run _ _ hnormal) files) (quiet_start _)
      (quiet_success (Path.append_ne_append _ _ "" "ROM built" rfl rfl (by decide)))

theorem link_performs (path : String) (w : Workshop R) :
    Performs path .link (link path : Task R Unit) w := by
  refine Performs.congr (performs_of_artifacts (fun calls hready => ?_) (fun _ hp => hp) .link
    fun folder files hfound hsome => ?_) rfl
  · cases hready with
    | link hfound hsome hname => exact ⟨_, _, hfound, hsome⟩
  · have hnormal := hfound.normal (Path.normal_ofString path)
    obtain ⟨_, name, -, hname⟩ := places_of_artifacts (found_iff.mp hfound).1
    have hlinked : "Linked " ++ (name ++ ".ihx") ≠ "ROM built" := by
      rw [← String.append_assoc]
      exact Path.append_ne_append _ _ "" "ROM built" rfl rfl (by decide)
    exact (performs_of_runs (.link hfound hsome hname) rfl (runs_run _ _ hnormal) (quiet_start _)
      (quiet_success hlinked)).congr (bind_ok (look_of_ok hname))

theorem has_of_folderOf_error {fault : Fault} (h : folderOf source d = .error fault) :
    d.has source = .error fault := by
  unfold folderOf at h
  cases hsource : d.hasFolder source with
  | error e =>
    rw [hsource] at h
    cases h
    exact has_of_hasFolder hsource
  | ok isFolder =>
    rw [hsource] at h
    cases h

/-- An image is looked for in the place of a folder or beside a file. -/
theorem linked_of_folderOf (k : Kit) (h : folderOf source d = .ok folder) :
    ∃ name, imageName source d = .ok name ∧
      folder.child (name ++ ".ihx") ∈ looks k source d .image := by
  unfold folderOf at h
  unfold imageName
  cases hsource : d.hasFolder source with
  | error e =>
    rw [hsource] at h
    cases h
  | ok isFolder =>
    rw [hsource] at h
    cases isFolder with
    | true =>
      cases h
      exact ⟨_, rfl, List.mem_cons_of_mem _ List.mem_cons_self⟩
    | false =>
      cases h
      exact ⟨_, rfl, List.mem_cons_of_mem _ (List.mem_cons_of_mem _ (List.mem_singleton_self _))⟩

theorem makeImage_performs (path : String) (w : Workshop R) :
    Performs path .image (makeImage path : Task R Unit) w := by
  refine Performs.congr (performs_of_look
    (fun fault h calls hready => ?_) (fun fault h => ?_) fun folder hfolder => ?_) rfl
  · cases hready with
    | image hfolder hname hlinked =>
      rw [hfolder] at h
      cases h
  · exact ⟨_, List.mem_cons_self, has_of_folderOf_error h⟩
  obtain ⟨name, hname, hlooks⟩ := linked_of_folderOf (kit w) hfolder
  have hlacks (h : w.disk.has (folder.child (name ++ ".ihx")) ≠ .ok true)
      (calls : List ToolCall) : ¬ Ready (kit w) (Path.ofString path) w.disk .image calls := by
    intro hready
    cases hready with
    | image hfolder' hname' hlinked =>
      obtain rfl := Except.ok.inj (hfolder.symm.trans hfolder')
      obtain rfl := Except.ok.inj (hname.symm.trans hname')
      exact h hlinked
  refine Performs.congr (performs_of_look
    (fun fault h => hlacks (by rw [h]; simp)) (fun fault h => ⟨_, hlooks, h⟩)
    fun isThere hthere => ?_) (bind_ok (look_of_ok hname))
  cases isThere with
  | false => exact performs_of_lack (hlacks (by rw [hthere]; simp)) (.image hfolder hname)
  | true =>
    have hnormal := normal_of_folderOf (Path.normal_ofString path) hfolder
    exact performs_of_runs (.image hfolder hname hthere) rfl (runs_run _ _ hnormal) (quiet_start _)
      (quiet_success (Path.append_ne_append _ _ "" "ROM built" rfl rfl (by decide)))

/-- The failure of the translator is told in another way. -/
theorem performs_translate (hsource : Path.Normal source)
    (hready : Ready (kit w) (Path.ofString path) w.disk .translate
      [⟨[(kit w).translator, source.name], source.parent.toString⟩]) :
    Performs path .translate (translate source : Task R Unit) w := by
  let first : Workshop R :=
    (Workshop.say (·.start "Transpiling TypeScript → C with ts2c") w).2
  obtain ⟨why, made, d, _, hcalls, hrun⟩ := runs_run (kit w).translator [source.name]
    hsource.parent first
  have hattempt : Run.attempt (Workshop.run (kit w).translator [source.name] source.parent) first =
      (.ok (outcome .build why), after first made d) := by
    unfold Run.attempt
    rw [hrun]
    cases why <;> rfl
  have hleaves : Leaves w made d (after first made d) :=
    ⟨first.studio, rfl, quiet_start "Transpiling TypeScript → C with ts2c" _, rfl⟩
  have hsay : (Workshop.say (·.start "Transpiling TypeScript → C with ts2c") : Task R Unit) w =
      (.ok (), first) := rfl
  have hget : (Run.get : Task R (Workshop R)) first = (.ok first, first) := rfl
  cases why with
  | none =>
    have hends := hleaves.trans
      (.say _ (quiet_success (by decide : "Transpiled TypeScript → C" ≠ "ROM built")))
    rw [List.append_nil] at hends
    exact .calls hready hcalls
      ((bind_ok hsay).trans ((bind_ok hget).trans ((bind_ok hattempt).trans rfl))) hends
  | some why =>
    refine .calls hready hcalls
      ((bind_ok hsay).trans ((bind_ok hget).trans ((bind_ok hattempt).trans ?_))) hleaves
    cases why <;> rfl

theorem translate_performs [Quantity R] [Inhabited R] (path : String) (w : Workshop R)
    (htranslator : w.studio.config.tools.translator = "ts2c")
    (hfolder : w.disk.hasFolder (Path.ofString path) ≠ .ok true) :
    Performs path .translate (transpile path : Task R Unit) w := by
  have hlacks (h : w.disk.has (Path.ofString path) ≠ .ok true) (calls : List ToolCall) :
      ¬ Ready (kit w) (Path.ofString path) w.disk .translate calls := by
    rintro ⟨⟩
    rename_i hsource
    exact h hsource
  have happly := transpile_apply path w
  cases hisFolder : w.disk.hasFolder (Path.ofString path) with
  | error fault =>
    have hfault := has_of_hasFolder hisFolder
    rw [hisFolder] at happly
    exact .cut (e := .broken fault) (hlacks (by rw [hfault]; simp))
      ⟨_, List.mem_singleton_self _, hfault⟩ happly (.refl w)
  | ok isFolder =>
    cases isFolder with
    | true => exact absurd hisFolder hfolder
    | false =>
      rw [hisFolder] at happly
      cases hthere : w.disk.has (Path.ofString path) with
      | error fault =>
        rw [hthere] at happly
        exact .cut (e := .broken fault) (hlacks (by rw [hthere]; simp))
          ⟨_, List.mem_singleton_self _, hthere⟩ happly (.refl w)
      | ok isThere =>
        rw [hthere] at happly
        cases isThere with
        | false =>
          exact .cut (e := .failed (.sourceMissing path)) (hlacks (by rw [hthere]; simp)) .translate
            happly (.refl w)
        | true =>
          dsimp only at happly
          rw [if_pos htranslator] at happly
          exact (performs_translate (Path.normal_ofString path) (.translate hthere)).congr happly

/-! ## The chain -/

/-- A run takes steps one after another. -/
def Follows (path : String) (steps : List Step) (x : Task R Unit) (w : Workshop R) : Prop :=
  ∃ r made d w', Chain (kit w) path w.tools w.toolCalls w.disk steps r made d ∧ x w = (r, w') ∧
    Leaves w made d w'

theorem follows_done (path : String) (w : Workshop R) : Follows path [] (Run.done ()) w :=
  ⟨_, _, _, w, .done _ _, rfl, .refl w⟩

theorem Performs.andThen (hx : Performs path step x w) (hy : ∀ w', Follows path rest y w') :
    Follows path (step :: rest) (x >>= fun _ => y) w := by
  cases hx with
  | cut hlacks hcut hx hleaves =>
    exact ⟨_, _, _, _, .cut hlacks hcut, bind_error hx, hleaves⟩
  | @calls calls made why d w₁ hready hcalls hx hleaves =>
    cases why with
    | some why => exact ⟨_, _, _, _, .failed hready hcalls, bind_error hx, hleaves⟩
    | none =>
      obtain ⟨r, made', d', w', hchain, hy, hleaves'⟩ := hy w₁
      refine ⟨r, made ++ made', d', w', .next hready hcalls ?_, (bind_ok hx).trans hy,
        hleaves.trans hleaves'⟩
      rw [hleaves.kit] at hchain
      obtain ⟨studio, -, -, rfl⟩ := hleaves
      exact hchain

theorem Performs.last (h : Performs path step x w) : Follows path [step] x w := by
  obtain ⟨r, made, d, w', hchain, hx, hleaves⟩ := h.andThen (follows_done path)
  refine ⟨r, made, d, w', hchain, ?_, hleaves⟩
  rw [← hx, bind_apply]
  split <;> (rename_i heq; exact heq)

/-- Every step from C to an image. -/
theorem compileAll_follows (path : String) (w : Workshop R) :
    Follows path [.make, .compile, .link, .image] (compileAll path : Task R Unit) w :=
  (makeLibrary_performs path w).andThen fun w => (compile_performs path w).andThen fun w =>
    (link_performs path w).andThen fun w => (makeImage_performs path w).last

/-- Every step from a source to an image, where the translator is no language model. -/
theorem all_follows [Quantity R] [Inhabited R] (path : String) (w : Workshop R)
    (htranslator : w.studio.config.tools.translator = "ts2c")
    (hfolder : w.disk.hasFolder (Path.ofString path) ≠ .ok true) :
    Follows path [.translate, .make, .compile, .link, .image] (all path : Task R Unit) w :=
  (translate_performs path w htranslator hfolder).andThen (compileAll_follows path)

end Steps

end Build

namespace CommandLine

open Build Run Workshop

/-- The steps of a command. -/
def Command.chain : Command → List Step
  | .all => [.translate, .make, .compile, .link, .image]
  | .transpile => [.translate]
  | .compile => [.make, .compile, .link, .image]
  | .build => [.image]

/-- How the program ends when the steps of a command do. -/
def ending : Except (Stop Float) Unit → Except (Stop Float) Ending
  | .ok () => .ok (.finished 0)
  | .error (.failed _) => .ok (.finished 1)
  | .error (.broken fault) => .error (.broken fault)

theorem run_follows {c : Command} {path : String} {w : Workshop Float}
    (h : .translate ∈ c.chain → w.studio.config.tools.translator = "ts2c" ∧
      w.disk.hasFolder (Path.ofString path) ≠ .ok true) :
    Follows path c.chain (c.run path) w := by
  cases c with
  | all => exact all_follows path w (h (by decide)).1 (h (by decide)).2
  | transpile => exact (translate_performs path w (h (by decide)).1 (h (by decide)).2).last
  | compile => exact compileAll_follows path w
  | build => exact (makeImage_performs path w).last

/-- The calls of a command are those of its steps in a row, as far as they come. The program ends
with code zero if all of them are over, and says so if they give an image; else it ends with code
one and does not say so, unless a fault ends it. -/
theorem work_chain (config : Config Float) (c : Command) (path : String) (w : Workshop Float)
    (h : .translate ∈ c.chain → config.tools.translator = "ts2c" ∧
      w.disk.hasFolder (Path.ofString path) ≠ .ok true) :
    ∃ r made d,
      Chain (kit (prepared config w)) path w.tools w.toolCalls w.disk c.chain r made d ∧
      (c.run path (prepared config w)).1 = r ∧
      ∃ w', work config c path w = (ending r, w') ∧
        w'.toolCalls = made.reverse ++ w.toolCalls ∧ w'.disk = d ∧
        w'.messages.count imageMade = w.messages.count imageMade +
          if r.isOk ∧ c.givesImage then 1 else 0 := by
  obtain ⟨r, made, d, v, hchain, hrun, studio, -, hcount, hv⟩ :=
    run_follows (w := prepared config w) h
  refine ⟨r, made, d, hchain, congrArg Prod.fst hrun, ?_⟩
  have hattempt : Run.attempt (c.run path) (prepared config w) = (.ok r, v) := by
    unfold Run.attempt
    rw [hrun]
  have hcalls : v.toolCalls = made.reverse ++ w.toolCalls := by rw [hv]; rfl
  have hdisk : v.disk = d := by rw [hv]; rfl
  have hquiet : v.messages.count imageMade = w.messages.count imageMade := by
    rw [hv]
    exact hcount
  have hprepare : (Run.update (prepared config) : Task Float Unit) w =
      (.ok (), prepared config w) := rfl
  have hwork {outcome : Except (Stop Float) Ending × Workshop Float} (hends : _ = outcome) :
      work config c path w = outcome := (bind_ok hprepare).trans ((bind_ok hattempt).trans hends)
  cases r with
  | error e =>
    cases e with
    | broken fault => exact ⟨v, hwork rfl, hcalls, hdisk, hquiet⟩
    | failed why =>
      refine ⟨_, hwork rfl, hcalls, hdisk, ?_⟩
      exact (quiet_error _ _).trans ((quiet_stop _).trans hquiet)
  | ok done =>
    have hmade : (Workshop.say (·.success "ROM built") v).2.messages.count imageMade =
        w.messages.count imageMade + 1 :=
      (count_show _ .output "✓ ROM built").trans (congrArg (· + 1) hquiet)
    cases c with
    | transpile => exact ⟨v, hwork rfl, hcalls, hdisk, hquiet⟩
    | all => exact ⟨_, hwork rfl, hcalls, hdisk, hmade⟩
    | compile => exact ⟨_, hwork rfl, hcalls, hdisk, hmade⟩
    | build => exact ⟨_, hwork rfl, hcalls, hdisk, hmade⟩

/-- The tools of a toolchain. The compiler finds a fault in what the translator left. -/
def faultyTools : List ToolCall → ToolOutcome
  | ⟨["ts2c", _], _⟩ :: _ => .ended 0 "" [("hero.c", .empty)]
  | ⟨[_, "hero.c"], _⟩ :: _ => .ended 1 "hero.c:1: syntax error\n" []
  | _ => .ended 0 "" []

/-- A workshop with a source and a toolchain. -/
def faultyWorkshop : Workshop Float where
  studio := { config := .standard "bin", session := { clock := 0, today := "" } }
  disk :=
    { root := .folder [("hero.ts", .file .empty FileTree.fileMode), ("bin", .newFolder)]
        FileTree.folderMode
      here := [] }
  tools := faultyTools

/-- A configuration with the translator that is no language model. -/
def plainConfig : Config Float :=
  { Config.standard "bin" with tools := { libraryPath := "bin", translator := "ts2c" } }

/-- Why a call failed, if one did. -/
def failure? : Except (Stop Float) Unit → Option BuildFailure
  | .error (.failed (.build why)) => some why
  | _ => none

theorem eq_of_failure? {r : Except (Stop Float) Unit} {why : BuildFailure}
    (h : failure? r = some why) : r = .error (.failed (.build why)) := by
  unfold failure? at h
  split at h
  · rw [Option.some.inj h]
  · cases h

/-- The compiler ends the build, and nothing is linked. -/
theorem work_chain_of_faulty_file :
    (plainConfig.tools.translator = "ts2c" ∧
      faultyWorkshop.disk.hasFolder (Path.ofString "hero.ts") ≠ .ok true) ∧
    ∃ made d, Chain (kit (prepared plainConfig faultyWorkshop)) "hero.ts" faultyTools []
        faultyWorkshop.disk Command.all.chain
        (.error (.failed (.build (.exited "gbdk-n-compile.sh" 1 "hero.c:1: syntax error")) :
          Stop Float)) made d ∧
      made.map (·.command) =
        [["ts2c", "hero.ts"], ["make"], ["bin/bin/gbdk-n-compile.sh", "hero.c"]] ∧
      ∃ w', work plainConfig .all "hero.ts" faultyWorkshop = (.ok (.finished 1), w') ∧
        w'.messages.count imageMade = 0 := by
  have hsource : plainConfig.tools.translator = "ts2c" ∧
      faultyWorkshop.disk.hasFolder (Path.ofString "hero.ts") ≠ .ok true :=
    ⟨rfl, by decide +kernel⟩
  have hfails : failure? (Command.all.run "hero.ts" (prepared plainConfig faultyWorkshop)).1 =
      some (.exited "gbdk-n-compile.sh" 1 "hero.c:1: syntax error") := by decide +kernel
  have hmade :
      (work plainConfig .all "hero.ts" faultyWorkshop).2.toolCalls.reverse.map (·.command) =
        [["ts2c", "hero.ts"], ["make"], ["bin/bin/gbdk-n-compile.sh", "hero.c"]] := by
    decide +kernel
  obtain ⟨r, made, d, hchain, hrun, w', hwork, hcalls, -, hcount⟩ :=
    work_chain plainConfig .all "hero.ts" faultyWorkshop fun _ => hsource
  rw [hrun] at hfails
  obtain rfl := eq_of_failure? hfails
  rw [hwork, hcalls, show faultyWorkshop.toolCalls = [] from rfl, List.append_nil,
    List.reverse_reverse] at hmade
  exact ⟨hsource, made, d, hchain, hmade, w', hwork, hcount⟩

end CommandLine

end Cartridge
