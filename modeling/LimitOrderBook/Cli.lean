import LimitOrderBook.Replay.Mode
import LimitOrderBook.Replay.Persistence
import LimitOrderBook.Simulator.Generator
import LimitOrderBook.Simulator.Runner
import LimitOrderBook.Simulator.Scenarios

/-!
# `Cli` — the command line (`src/main.rs`)

The program from its arguments and the disk to what it prints, what it leaves on the disk and how it exits. What is
printed stands as the values that are formatted, not as text.

* **Arguments.** `CliConfig.fromArgs` reads the options, with the defaults of the source for what is missing or is no
  number, and `commandsForScenario` the six scenarios by their names.
* **Runs.** `runCommands` runs a scenario on an empty book and makes its report, with the metrics.
* **Output.** A `Program` prints lines and writes files, and each write may fail or break off (`RunFates`). The
  optional artifacts come first, then the run itself, as text or as JSON.
* **The program.** `runProgram` replays a file if it is asked to, or runs a scenario, and exits.
-/

namespace LimitOrderBook

/-! ## Arguments -/

/-- A number may have a plus sign. -/
def unsignedDigits (s : String) : List Char :=
  match s.toList with
  | '+' :: digits => digits
  | digits => digits

/-- `str::parse::<usize>`. -/
def parseUsize (s : String) : Option Nat :=
  let digits := unsignedDigits s
  if digits.isEmpty || !digits.all Char.isDigit then none
  else
    let n := Nat.ofDigitChars 10 digits 0
    if n < 2 ^ 64 then some n else none

/-- The argument behind the first one that is the flag. -/
def flagValue (args : List String) (flag : String) : Option String :=
  ((args.zip args.tail).find? fun window => window.1 == flag).map Prod.snd

/-- First positional argument is the scenario name. -/
def scenarioName (args : List String) : String := args[1]?.getD "simple-cross"

/-- Optional synthetic order count. -/
def syntheticCount (args : List String) : Nat := ((flagValue args "--count").bind parseUsize).getD 100

structure CliConfig where
  scenarioName : String
  syntheticCount : Nat
  outputJson : Bool
  outputDir : Option String
  saveEventsPath : Option String
  replayEventsPath : Option String
deriving DecidableEq, Repr

def CliConfig.fromArgs (args : List String) : CliConfig where
  scenarioName := LimitOrderBook.scenarioName args
  syntheticCount := LimitOrderBook.syntheticCount args
  outputJson := args.any fun arg => arg == "--json"
  outputDir := flagValue args "--output-dir"
  saveEventsPath := flagValue args "--save-events"
  replayEventsPath := flagValue args "--replay-events"

/-! ## Commands -/

def defaultGeneratorConfig (orderCount : Nat) : GeneratorConfig where
  orderCount := orderCount
  startOrderId := 1
  basePrice := 100
  tickSize := 1
  priceLevels := 10
  quantity := 5

/-- The commands of a scenario; the program exits on an unknown one. -/
def commandsForScenario (scenarioName : String) (syntheticCount : Nat) : Option (List ScenarioCommand) :=
  match scenarioName with
  | "simple-cross" => some simpleCross
  | "buy-sweeps-asks" => some buySweepsAsks
  | "cancel-and-modify" => some cancelAndModifyFlow
  | "two-sided-book" => some twoSidedBook
  | "synthetic" => some (generateTwoSidedOrders (defaultGeneratorConfig syntheticCount))
  | "synthetic-crossing" => some (generateCrossingOrders (defaultGeneratorConfig syntheticCount))
  | _ => none

/-! ## Output -/

/-- What `run_json` and `print_run_output` show of a run. -/
structure RunOutput where
  scenario : String
  events : List BookEvent
  trades : List Trade
  report : ReplayReport
deriving DecidableEq

/-- The values of `summary_json`. -/
structure RunSummary where
  scenario : String
  orderCount : Nat
  bestBid : Option Price
  bestAsk : Option Price
  restingOrders : Nat
  bookMetrics : BookMetrics
  tradeMetrics : TradeMetrics
deriving DecidableEq

inductive Line where
  | savedArtifacts (dir : String)
  | savedEvents (path : String)
  | json (run : RunOutput)
  | text (run : RunOutput)
  | replayed (path : String) (report : ReplayReport)
deriving DecidableEq

/-- How the program exits. -/
inductive Exit where
  | ok
  | failed (e : RunError)
  | unknownScenario
deriving DecidableEq, Repr

def serializeLevel (level : Price × List Order) : Json :=
  .array [serializeWord level.1, .array (level.2.map Order.serialize)]

def BookSnapshot.serialize (snapshot : BookSnapshot) : Json :=
  .object [("bids", .array (snapshot.bids.map serializeLevel)), ("asks", .array (snapshot.asks.map serializeLevel))]

/-- `PathBuf::join` with the name of a file. -/
def joinPath (dir name : String) : String :=
  if dir.isEmpty || dir.toList.getLast? == some '/' then dir ++ name else dir ++ "/" ++ name

/-! ## The program -/

/-- What becomes of the directory and of the files that a run writes. -/
structure RunFates where
  dirCreated : Bool
  events : Fate
  snapshot : Fate
  summary : Fate
  saved : Fate
deriving DecidableEq, Repr

structure Console (κ : Type) where
  disk : Disk κ
  stdout : List Line

/-- Code that writes to the disk and prints, and ends with the first error. -/
abbrev Program (κ : Type) := ExceptT RunError (StateM (Console κ))

section Program

variable {κ : Type} [DecidableEq κ] (serde : SerdeJson) (summaryText : RunSummary → Text) (fates : RunFates)

omit [DecidableEq κ] in
def println (line : Line) : Program κ Unit := modify fun console => { console with stdout := console.stdout ++ [line] }

def writeText (fate : Fate) (path : String) (text : Text) : Program κ Unit := do
  let console ← get
  let (disk, result) := writeFile console.disk fate path text
  set { console with disk := disk }
  ofExcept result

omit [DecidableEq κ] in
def createDirAll (created : Bool) : Program κ Unit := if created then pure () else throw .file

omit [DecidableEq κ] in
/-- Keep JSON mode clean so tools can parse stdout. -/
def printlnUnlessJson (config : CliConfig) (line : Line) : Program κ Unit :=
  if config.outputJson then pure () else println line

def summaryJson (config : CliConfig) (run : RunOutput) : RunSummary where
  scenario := config.scenarioName
  orderCount := config.syntheticCount
  bestBid := run.report.bestBid
  bestAsk := run.report.bestAsk
  restingOrders := run.report.restingOrders
  bookMetrics := run.report.bookMetrics
  tradeMetrics := run.report.tradeMetrics

def writeRunArtifacts (config : CliConfig) (run : RunOutput) (outputDir : String) : Program κ Unit := do
  createDirAll fates.dirCreated
  writeText fates.events (joinPath outputDir "events.json") (serde.toWriterPretty (serializeEvents run.events))
  writeText fates.snapshot (joinPath outputDir "snapshot.json") (serde.toWriterPretty run.report.snapshot.serialize)
  writeText fates.summary (joinPath outputDir "summary.json") (summaryText (summaryJson config run))
  printlnUnlessJson config (.savedArtifacts outputDir)

def writeOptionalArtifacts (config : CliConfig) (run : RunOutput) : Program κ Unit := do
  config.outputDir.forM (writeRunArtifacts serde summaryText fates config run)
  config.saveEventsPath.forM fun path => do
    writeText fates.saved path (serde.toWriterPretty (serializeEvents run.events))
    printlnUnlessJson config (.savedEvents path)

omit [DecidableEq κ] in
def printRunOutput (config : CliConfig) (run : RunOutput) : Program κ Unit :=
  println (if config.outputJson then .json run else .text run)

omit [DecidableEq κ] in
/-- What a replay of the file prints. -/
def replayFile (disk : Disk κ) (path : String) : Except Fault (Console κ × Exit) :=
  match loadEventsFromFile serde disk path with
  | .error e => pure (⟨disk, []⟩, .failed e)
  | .ok events => do
      match ← runReplayMode events with
      | .error e => pure (⟨disk, []⟩, .failed (.book e))
      | .ok report => pure (⟨disk, [.replayed path report]⟩, .ok)

/-- A run of the scenario, up to its output. -/
def runCommands (scenario : String) (commands : List ScenarioCommand) :
    Except Fault (Except OrderBookError RunOutput) := do
  match ← runScenario commands with
  | .error e => pure (.error e)
  | .ok result =>
      let snapshot ← result.book.snapshot
      pure (.ok {
        scenario := scenario
        events := result.events
        trades := result.trades
        report := {
          bestBid := result.book.bestBid
          bestAsk := result.book.bestAsk
          restingOrders := result.book.restingOrderCount
          snapshot := snapshot
          bookMetrics := calculateBookMetrics snapshot
          tradeMetrics := calculateTradeMetrics result.trades } })

/-- `main`. -/
def runProgram (disk : Disk κ) (args : List String) : Except Fault (Console κ × Exit) :=
  let config := CliConfig.fromArgs args
  match config.replayEventsPath with
  | some path => replayFile serde disk path
  | none =>
      match commandsForScenario config.scenarioName config.syntheticCount with
      | none => pure (⟨disk, []⟩, .unknownScenario)
      | some commands => do
          match ← runCommands config.scenarioName commands with
          | .error e => pure (⟨disk, []⟩, .failed (.book e))
          | .ok run =>
              let output : Program κ Unit := do
                writeOptionalArtifacts serde summaryText fates config run
                printRunOutput config run
              match output.run.run ⟨disk, []⟩ with
              | (.error e, console) => pure (console, .failed e)
              | (.ok (), console) => pure (console, .ok)

end Program
end LimitOrderBook
