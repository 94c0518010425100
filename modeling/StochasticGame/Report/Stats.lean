import StochasticGame.Report.Solve

/-!
# StochasticGame.Report.Stats

**Reports of a reduction.** What a reduction did to the size of a game, as a
document or as a table with columns of ten characters.
-/

namespace StochasticGame.Report

/-- The document of a reduction's effect. -/
def sizes (s : ReductionStats) : Document := .record
  [("nodes_before", .number s.nodesBefore), ("edges_before", .number s.edgesBefore),
   ("nodes_after", .number s.nodesAfter), ("edges_after", .number s.edgesAfter),
   ("before", census s.labelsBefore), ("after", census s.labelsAfter)]

/-- The width of a column. -/
def columnWidth : Nat := 10

/-- The spaces that fill a column beside a text. -/
def padding (s : String) : String := String.ofList (List.replicate (columnWidth - s.length) ' ')

/-- A line of the table: a name at the left and two entries at the right. -/
def row (name before after : String) : String :=
  name ++ padding name ++ padding before ++ before ++ padding after ++ after ++ "\n"

/-- The table of a reduction's effect. -/
def sizeTable (s : ReductionStats) : String :=
  let line (name : String) (before after : Nat) : String :=
    row name (toString before) (toString after)
  let old := s.labelsBefore
  let new := s.labelsAfter
  String.join
    [row "" "before" "after",
     line "nodes" s.nodesBefore s.nodesAfter,
     line "edges" s.edgesBefore s.edgesAfter,
     line "max" old.max new.max,
     line "min" old.min new.min,
     line "average" old.average new.average,
     line "sink 0" old.sinkZero new.sinkZero,
     line "sink 1" old.sinkOne new.sinkOne]

end StochasticGame.Report
