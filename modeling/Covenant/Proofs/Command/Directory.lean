/-
# What is written is all that changes

Carrying out steps that only print leaves a directory as it is. One step that
writes changes the file that its path leads to, if it leads to one in the
directory, and nothing else; the file can then be read under the same path:
`d.Stores path content d'`. A path that leads nowhere, or to a device that takes
nothing, cannot be written to, and then nothing has changed. What a script comes
to is `Host.run` over `Directory.host`.

Key definitions: `Directory.Accepts`, `Directory.Stores`, `OnlyPrints`,
`Directory.perform`, `Directory.Report.WritesOnly`.
Key theorems: `Directory.resolve_of_folders`, `Directory.write?_eq_none`,
`Directory.stores_of_write?`, `Directory.perform_writesOnly`,
`Request.script_congr`, `Directory.run_of_read`.
-/
import Covenant.Command.Directory
import Covenant.Proofs.Except
import Covenant.Proofs.Ordered

namespace Covenant

/-- Every step is a `print`. -/
def OnlyPrints (steps : List Step) : Prop := ∀ step ∈ steps, ∃ text, step = .print text

namespace OnlyPrints

variable {steps steps' : List Step}

theorem nil : OnlyPrints [] := nofun

theorem cons (text : String) (h : OnlyPrints steps) : OnlyPrints (.print text :: steps) :=
  List.forall_mem_cons.mpr ⟨⟨text, rfl⟩, h⟩

theorem append (h : OnlyPrints steps) (h' : OnlyPrints steps') : OnlyPrints (steps ++ steps') :=
  List.forall_mem_append.mpr ⟨h, h'⟩

theorem map {α : Type} (text : α → String) (l : List α) :
    OnlyPrints (l.map fun a => .print (text a)) :=
  List.forall_mem_map.mpr fun a _ => ⟨text a, rfl⟩

end OnlyPrints

/-! ### What a script depends on -/

section

variable {files files' : Files} {path : String}

theorem Files.snapshot_congr (h : files path = files' path) :
    files.snapshot path = files'.snapshot path := by
  unfold snapshot
  rw [h]

theorem Files.data_congr (h : files path = files' path) : files.data path = files'.data path := by
  unfold data
  rw [h]

theorem Files.log_congr (h : files path = files' path) : files.log path = files'.log path := by
  unfold log
  rw [data_congr h]

theorem Files.market_congr : ∀ {path? : Option String},
    (∀ path ∈ path?.toList, files path = files' path) → files.market path? = files'.market path?
  | none, _ => rfl
  | some _, h => by
    unfold market
    simp only [data_congr (h _ (List.mem_singleton.mpr rfl))]

/-- The script of a request depends on the files that it names, `Request.paths`, and on no other. -/
theorem Request.script_congr {request : Request}
    (h : ∀ path ∈ request.paths, files path = files' path) :
    request.script files = request.script files' := by
  cases request with
  | showcase => rfl
  | elect c =>
    obtain ⟨hsnapshot, hmarket⟩ := List.forall_mem_cons.mp h
    show Script.of (c.steps files) = Script.of (c.steps files')
    unfold ElectCommand.steps
    rw [Files.snapshot_congr hsnapshot, Files.market_congr hmarket]
  | replayLog c =>
    obtain ⟨hsnapshot, hrest⟩ := List.forall_mem_cons.mp h
    obtain ⟨hlog, hmarket⟩ := List.forall_mem_cons.mp hrest
    show Script.of (c.steps files) = Script.of (c.steps files')
    unfold ReplayCommand.steps
    rw [Files.snapshot_congr hsnapshot, Files.log_congr hlog, Files.market_congr hmarket]

end

namespace Directory

variable {d d' : Directory} {path content : String}

/-! ### Paths after a change of files -/

theorem isFolder_of_folders (h : d'.folders = d.folders) (place : Location) :
    d'.isFolder place = d.isFolder place := by
  unfold isFolder
  rw [h]

/-- Only `folders` decide where the parts of a path lead, if they lead anywhere. -/
theorem follow_of_folders (h : d'.folders = d.folders) {target : Target} :
    ∀ {parts : List String} {here : Location}, d.follow here parts = .ok target →
      d'.follow here parts = .ok target
  | [], _, hfollow => nomatch hfollow
  | part :: rest, here, hfollow => by
    unfold follow at hfollow ⊢
    rw [isFolder_of_folders h]
    split_ifs at hfollow ⊢ with hsame hup hlong hfolder hlast
    · exact follow_of_folders h hfollow
    · exact follow_of_folders h hfollow
    · exact follow_of_folders h hfollow
    · exact hfollow

theorem resolve_of_folders (h : d'.folders = d.folders) {target : Target}
    (hpath : d.resolve path = .ok target) : d'.resolve path = .ok target := by
  unfold resolve at hpath ⊢
  split_ifs at hpath ⊢ with hlong
  exact follow_of_folders h hpath

/-! ### Writing -/

/-- Something can be written to the path: `resolve` leads somewhere, and not to the device
`full`. -/
def Accepts (d : Directory) (path : String) : Prop :=
  ∃ target, d.resolve path = .ok target ∧ target ≠ .device .full

/-- `d'` is `d` with `content` written to `path`: the file that the path leads to holds it, and can
be read under this path; every other file, and every folder, is as it was. -/
structure Stores (d : Directory) (path content : String) (d' : Directory) : Prop where
  folders : d'.folders = d.folders
  others : ∀ name, d.resolve path ≠ .ok (.name name) → d'.files.get? name = d.files.get? name
  holds : ∀ name, d.resolve path = .ok (.name name) →
    d'.files.get? name = some (Text.bytes content) ∧ d'.read path = .ok (Text.bytes content)

/-- A directory is unchanged by a text that is written elsewhere, to a path that leads to no `name`
in it. -/
theorem Stores.of_elsewhere (h : ∀ name, d.resolve path ≠ .ok (.name name)) :
    d.Stores path content d :=
  ⟨rfl, fun _ _ => rfl, fun name hname => absurd hname (h name)⟩

theorem Stores.of_name {name : String} (h : d.resolve path = .ok (.name name)) :
    d.Stores path content { d with files := d.files.insert name (Text.bytes content) } where
  folders := rfl
  others other hother := by
    have hne : other ≠ name := fun heq => hother (heq ▸ h)
    rw [OrderedMap.get?_insert, if_neg hne]
  holds other hother := by
    obtain rfl : name = other := by
      rw [h] at hother
      cases hother
      rfl
    have hholds : (d.files.insert name (Text.bytes content)).get? name =
        some (Text.bytes content) := by
      rw [OrderedMap.get?_insert, if_pos rfl]
    refine ⟨hholds, ?_⟩
    have hresolve : ({ d with files := d.files.insert name (Text.bytes content) } :
        Directory).resolve path = .ok (.name name) := resolve_of_folders (by rfl) h
    refine bind_eq_ok.mpr ⟨_, hresolve, ?_⟩
    simp only [hholds]

/-- `write?` refuses a text exactly if the directory does not accept the path. -/
theorem write?_eq_none : d.write? path content = none ↔ ¬d.Accepts path := by
  unfold write? Accepts
  cases d.resolve path with
  | error fault => simp
  | ok target => cases target with
    | name => simp
    | outside => simp
    | device device => cases device <;> simp

/-- What `write?` has written is stored. -/
theorem stores_of_write? {printed : List String} (h : d.write? path content = some (d', printed)) :
    d.Stores path content d' := by
  unfold write? at h
  cases hresolve : d.resolve path with
  | error fault =>
    rw [hresolve] at h
    cases h
  | ok target =>
    rw [hresolve] at h
    cases target with
    | name name =>
      cases h
      exact Stores.of_name hresolve
    | outside =>
      cases h
      exact Stores.of_elsewhere fun name hname => by rw [hresolve] at hname; cases hname
    | device device =>
      have helsewhere : ∀ name, d.resolve path ≠ .ok (.name name) := fun name hname => by
        rw [hresolve] at hname
        cases hname
      cases device with
      | full => cases h
      | null | screen =>
        cases h
        exact Stores.of_elsewhere helsewhere

/-! ### Steps -/

/-- `host.perform` does a step as `step?` does it on the directory, and prints behind what was
printed before, or nothing is. -/
theorem perform_eq (step : Step) (s : Session) :
    host.perform step s = match s.directory.step? step with
      | none => (false, s)
      | some (d, printed) => (true, ⟨d, s.output ++ printed⟩) := by
  unfold host
  dsimp only [bind, StateT.bind, get, getThe, MonadStateOf.get, StateT.get, pure]
  cases s.directory.step? step <;> rfl

/-- The first step is done, and `rest` on what it leaves; or it ends the run. -/
theorem carryOut_cons (error : Option CommandError) (step : Step) (rest : List Step) (s : Session) :
    host.carryOut error (step :: rest) s = match s.directory.step? step with
      | none => (.failed step.failure, s)
      | some (d, printed) => host.carryOut error rest ⟨d, s.output ++ printed⟩ := by
  rw [Host.carryOut]
  show (host.perform step >>= _) s = _
  dsimp only [bind, StateT.bind]
  rw [perform_eq]
  cases s.directory.step? step <;> rfl

/-- Lines that are printed change nothing but what has been printed. -/
theorem carryOut_prints_append {error : Option CommandError} {rest : List Step} :
    ∀ {lines : List Step}, OnlyPrints lines → ∀ s : Session, ∃ output,
      host.carryOut error (lines ++ rest) s = host.carryOut error rest ⟨s.directory, output⟩
  | [], _, s => ⟨s.output, rfl⟩
  | step :: lines, h, s => by
    obtain ⟨⟨text, rfl⟩, hlines⟩ := List.forall_mem_cons.mp h
    rw [List.cons_append, carryOut_cons]
    exact carryOut_prints_append hlines ⟨s.directory, s.output ++ [text ++ "\n"]⟩

/-! ### Carrying out -/

/-- What comes of carrying a script out in a directory, with `host`. -/
def carryOut (d : Directory) (script : Script) : Report :=
  d.report (host.carryOut script.error script.steps)

/-- What comes of the `steps` of a command, or of the reason why it comes to none. -/
def perform (d : Directory) (result : Except CommandError (List Step)) : Report :=
  d.carryOut (.of result)

/-- A run that `OnlyPrints` is done, and leaves the directory as it is. -/
theorem carryOut_prints {lines : List Step} (h : OnlyPrints lines) (s : Session) : ∃ output,
    host.carryOut none lines s = (.done, ⟨s.directory, output⟩) := by
  obtain ⟨output, happend⟩ := @carryOut_prints_append none [] _ h s
  rw [List.append_nil] at happend
  exact ⟨output, happend⟩

theorem perform_prints {lines : List Step} (h : OnlyPrints lines) :
    (d.perform (.ok lines)).exit = 0 ∧ (d.perform (.ok lines)).directory = d := by
  obtain ⟨output, hlines⟩ := carryOut_prints h ⟨d, []⟩
  show (d.report (host.carryOut none lines)).exit = 0 ∧
    (d.report (host.carryOut none lines)).directory = d
  simp only [report, StateT.run, hlines, Ending.exit, and_self]

theorem perform_error (e : CommandError) : (d.perform (.error e)).exit = 1 ∧
    (d.perform (.error e)).directory = d := ⟨rfl, rfl⟩

/-- A run writes `content` or nothing: its `exit` is zero exactly if the directory accepts the path,
and then all that has changed is the file that holds it. -/
structure Report.WritesOnly (r : Report) (d : Directory) (path content : String) : Prop where
  exit_eq_zero : r.exit = 0 ↔ d.Accepts path
  kept : r.exit ≠ 0 → r.directory = d
  stores : d.Accepts path → d.Stores path content r.directory

/-- **One text is written, and nothing else changes.** -/
theorem perform_writesOnly {before after : List Step} (hbefore : OnlyPrints before)
    (hafter : OnlyPrints after) :
    (d.perform (.ok (before ++ .write path content :: after))).WritesOnly d path content := by
  obtain ⟨output, hrun⟩ :=
    @carryOut_prints_append none (.write path content :: after) _ hbefore ⟨d, []⟩
  rw [carryOut_cons] at hrun
  have hreport : d.perform (.ok (before ++ .write path content :: after)) =
      d.report (host.carryOut none (before ++ .write path content :: after)) := rfl
  rw [hreport]
  cases hwrite : d.write? path content with
  | none =>
    have hrefused := write?_eq_none.mp hwrite
    simp only [step?, hwrite] at hrun
    simp only [report, StateT.run, hrun]
    exact ⟨iff_of_false Nat.one_ne_zero hrefused, fun _ => rfl, fun h => absurd h hrefused⟩
  | some written =>
    obtain ⟨d', printed⟩ := written
    have haccepts : d.Accepts path := by
      by_contra hnot
      rw [write?_eq_none.mpr hnot] at hwrite
      cases hwrite
    simp only [step?, hwrite] at hrun
    obtain ⟨output', hend⟩ := carryOut_prints hafter ⟨d', output ++ printed⟩
    simp only [report, StateT.run, hrun, hend]
    exact ⟨iff_of_true rfl haccepts, fun h => absurd rfl h, fun _ => stores_of_write? hwrite⟩

/-! ### Running -/

/-- `host.readAll` finds what `d.read` finds, and leaves the directory as it is. -/
theorem readAll_eq : ∀ (paths : List String) (s : Session), ∃ files : Files,
    host.readAll paths s = (files, s) ∧ ∀ path ∈ paths, files path = s.directory.read path
  | [], s => ⟨_, rfl, nofun⟩
  | path :: rest, s => by
    obtain ⟨files, hfiles, hrest⟩ := readAll_eq rest s
    refine ⟨fun other => if other = path then s.directory.read path else files other, ?_,
      fun other hother => ?_⟩
    · have hread : host.read path s = (s.directory.read path, s) := rfl
      show (host.read path >>= fun content => host.readAll rest >>= _) s = _
      dsimp only [bind, StateT.bind]
      rw [hread]
      dsimp only
      rw [hfiles]
      rfl
    · dsimp only
      by_cases heq : other = path
      · rw [if_pos heq, heq]
      · rw [if_neg heq]
        exact hrest other ((List.mem_cons.mp hother).resolve_left heq)

/-- A command that is understood comes to its script, from the files of the directory: `d.run`
carries out `request.script d.read`. -/
theorem run_of_read {program : Program} {words : List String} {request : Request}
    (h : program.read words = .ok request) :
    d.run program words = d.carryOut (request.script d.read) := by
  obtain ⟨files, hread, hfiles⟩ := readAll_eq request.paths ⟨d, []⟩
  rw [← Request.script_congr hfiles]
  have hrun : host.run program words ⟨d, []⟩ =
      host.carryOut (request.script files).error (request.script files).steps ⟨d, []⟩ := by
    unfold Host.run
    simp only [h]
    show (host.readAll request.paths >>= _) _ = _
    dsimp only [bind, StateT.bind]
    rw [hread]
  unfold run carryOut report
  simp only [StateT.run, hrun]

/-- A command line that `program.read` refuses changes nothing. -/
theorem directory_run_of_refused {program : Program} {words : List String} {refusal : Refusal}
    (h : program.read words = .error refusal) : (d.run program words).directory = d := by
  unfold run Host.run
  rw [h]
  rfl

end Directory
end Covenant
