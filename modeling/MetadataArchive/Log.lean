import MetadataArchive.Json.Basic

/-!
# Log entries

A line in a log is a message with named fields. All lines are of one level.
-/

namespace MetadataArchive

/-- A line in a log. Fields hold strings or numbers. -/
structure LogEntry where
  message : String
  fields : List (String × Json)

/-- The level of every line. -/
def LogEntry.level : String :=
  "DEBUG"

end MetadataArchive
