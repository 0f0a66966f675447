import CloudOffers.Json.Lexeme
import CloudOffers.Source.Error
import CloudOffers.Text.Path
/-!
A directory tree as it is seen from its top: what there is to read at a path.
-/

namespace CloudOffers

/-- Files with the steps that lead to them. -/
structure Directory where
  files : List (List String × Json.Bytes)

namespace Directory

def nameLimit : Nat := 255

def hasDirectory (d : Directory) (steps : List String) : Bool :=
  steps.isEmpty || d.files.any (fun f ↦ steps.isPrefixOf f.1 && steps.length < f.1.length)

/-- Follows a path step by step. Only directories lead on, and only they lead back. -/
def follow (d : Directory) : List String → List String → Except SourceError (List String)
  | done, [] => .ok done
  | done, step :: rest =>
    if d.hasDirectory done then
      if step = ".." then
        if done.isEmpty then .error .noSuchFile else d.follow done.dropLast rest
      else if nameLimit < step.utf8ByteSize then .error .nameTooLong
      else d.follow (done ++ [step]) rest
    else if d.files.any (·.1 = done) then .error .notADirectory
    else .error .noSuchFile

def read (d : Directory) (path : String) : Except SourceError Json.Bytes := do
  if path.toList.contains '\x00' then .error .nameWithNull
  else if Path.isAbsolute path then .error .noSuchFile
  else
    let steps ← d.follow [] (Path.steps path)
    match d.files.find? (·.1 = steps) with
    | some (_, content) => .ok content
    | none => .error (if d.hasDirectory steps then .isADirectory else .noSuchFile)

end Directory

end CloudOffers
