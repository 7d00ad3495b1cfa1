import MixedProgram.Bench.Summary
import MixedProgram.Text.Column

/-! The printed forms of benchmark records. -/
namespace MixedProgram.Bench

/-- Bytes in units of 2^20, with three places; a dash stands for a missing value. -/
def megabytes : Option Float → String
  | none => "-"
  | some bytes => Number.fixed 3 (bytes / 1048576.0)

/-- Two columns of words and five of numbers. -/
def tableLine (caseName stage samples mean most meanRss mostRss : String) : String :=
  " ".intercalate
    [Text.padRight 16 caseName, Text.padRight 18 stage, Text.padLeft 7 samples,
      Text.padLeft 12 mean, Text.padLeft 12 most, Text.padLeft 14 meanRss,
      Text.padLeft 14 mostRss]

def tableHeader : String :=
  tableLine "case" "stage" "samples" "mean_ms" "max_ms" "mean_rss_mb" "max_rss_mb"

def SummaryRow.line (r : SummaryRow) : String :=
  tableLine r.caseName r.stage (toString r.samples) (Number.fixed 3 r.meanMilliseconds)
    (Number.fixed 3 r.maxMilliseconds) (megabytes r.meanGrowth)
    (megabytes (r.maxRss.map fun n => Float.ofNat n.toNat))

def tableLines (rows : List SummaryRow) : List String := tableHeader :: rows.map SummaryRow.line

/-- One compact object a line. -/
def ndjsonLines (records : List Record) : List String := records.map (·.toJson.compact)

def prettyJson (records : List Record) : String := (Json.array (records.map Record.toJson)).pretty

/-- Every line ends with a line feed. -/
def unlines (lines : List String) : String := String.join (lines.map (· ++ "\n"))

/-- The lines of a report in the format asked for. -/
def reportLines : OutputFormat → List Record → List String
  | .table, records => tableLines (summarize records)
  | .json, records => [prettyJson records]
  | .ndjson, records => ndjsonLines records

/-- Writes one record behind what is written already, with a line feed after it. -/
def writeRecord (written : String) (r : Record) : String := written ++ r.toJson.compact ++ "\n"

/-- The content of the artifact file, to which the records are written one by one. -/
def artifact (records : List Record) : String := records.foldl writeRecord ""

end MixedProgram.Bench
