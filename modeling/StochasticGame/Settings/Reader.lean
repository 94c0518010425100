import StochasticGame.Json.Record
import StochasticGame.Settings.Basic

/-!
# StochasticGame.Settings.Reader

**Settings files.** Settings are a JSON record of two records; every field may
be left out.
-/

namespace StochasticGame

open Json (Reader RecordField)

/-- The fields that choose reduction passes. -/
def Passes.fields : List (RecordField Passes) :=
  [⟨"promote_sinks", do let b ← Reader.bool; pure fun p => { p with promoteSinks := b }⟩,
   ⟨"prune_sinks", do let b ← Reader.bool; pure fun p => { p with pruneSinks := b }⟩,
   ⟨"fuse_nodes", do let b ← Reader.bool; pure fun p => { p with fuseNodes := b }⟩,
   ⟨"delete_self_loops", do let b ← Reader.bool; pure fun p => { p with deleteSelfLoops := b }⟩,
   ⟨"correct_probabilities",
     do let b ← Reader.bool; pure fun p => { p with correctProbabilities := b }⟩]

/-- Read a number of 64 bits. -/
def Settings.word : Reader UInt64 := do
  let n ← Reader.natural 64 "u64"
  pure n.toUInt64

/-- The searches by their names in a settings file. -/
def ApproximantKind.variants : List (String × ApproximantKind) :=
  [("stern_brocot", .sternBrocot), ("table", .table)]

/-- The fields that set up the solver. -/
def SolverSettings.fields : List (RecordField SolverSettings) :=
  [⟨"check_interval", do
      let n ← Reader.natural 32 "u32"
      pure fun s => { s with checkInterval := n.toUInt32 }⟩,
   ⟨"timeout_secs", do let n ← Settings.word; pure fun s => { s with timeoutSecs := n }⟩,
   ⟨"denominator_cap", do let n ← Settings.word; pure fun s => { s with denominatorCap := n }⟩,
   ⟨"approximant", do
      let kind ← Reader.variant ApproximantKind.variants
      pure fun s => { s with approximant := kind }⟩,
   ⟨"table_max_denominator",
     do let n ← Settings.word; pure fun s => { s with tableMaxDenominator := n }⟩]

namespace Settings

/-- The two records. -/
def fields : List (RecordField Settings) :=
  [⟨"reduce", do
      let passes ← Reader.record "ReduceConfig" Passes.fields {}
      pure fun s => { s with reduce := passes }⟩,
   ⟨"solver", do
      let solver ← Reader.record "SolverConfig" SolverSettings.fields {}
      pure fun s => { s with solver := solver }⟩]

/-- Read settings from a JSON text. -/
def ofJson (text : String) : Except Json.Failure Settings :=
  Reader.readAll (Reader.record "Config" fields {}) text.toList

end Settings

end StochasticGame
