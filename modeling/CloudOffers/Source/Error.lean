import CloudOffers.Json.Error
/-!
Failures of a source of offers. A failure is never the same as having nothing to offer.
-/

namespace CloudOffers

inductive SourceError where
  | unavailable (reason : String)
  | unknownService (name : String)
  | unknownRegion (id : String)
  | invalidCatalog (reason : String)
  | unreadable (reason : String)
deriving DecidableEq

namespace SourceError

def message : SourceError → String
  | .unavailable reason => "provider unavailable: " ++ reason
  | .unknownService name => "unknown service: " ++ name
  | .unknownRegion id => "unknown region: " ++ id
  | .invalidCatalog reason => "invalid catalog: " ++ reason
  | .unreadable reason => "io error: " ++ reason

def ofJson (e : Json.Error) : SourceError := .invalidCatalog e.message

def noSuchFile : SourceError := .unreadable "No such file or directory (os error 2)"

def notADirectory : SourceError := .unreadable "Not a directory (os error 20)"

def isADirectory : SourceError := .unreadable "Is a directory (os error 21)"

def nameTooLong : SourceError := .unreadable "File name too long (os error 36)"

def nameWithNull : SourceError := .unreadable "file name contained an unexpected NUL byte"

end SourceError

end CloudOffers
