/-!
Paths of files: their steps, and their form without steps that lead nowhere.
-/

namespace CloudOffers.Path

def isAbsolute (path : String) : Bool := path.startsWith "/"

/-- The steps of a path that lead somewhere. -/
def steps (path : String) : List String :=
  (path.splitOn "/").filter (fun step ↦ step ≠ "" && step ≠ ".")

/-- A path below the current directory without the steps that lead nowhere. -/
def plain (path : String) : String := if isAbsolute path then path else "/".intercalate (steps path)

/-- A path that starts in a directory; an absolute one does not. -/
def under (directory path : String) : String :=
  if isAbsolute path || directory.isEmpty then path
  else if directory.endsWith "/" then directory ++ path
  else directory ++ "/" ++ path

end CloudOffers.Path
