/-!
Log events: a level, a message and named fields.
-/

namespace CloudOffers.Log

inductive Level where
  | debug
  | info
  | warn
  | error
deriving DecidableEq

namespace Level

def severity : Level → Nat
  | .debug => 0
  | .info => 1
  | .warn => 2
  | .error => 3

def name : Level → String
  | .debug => "DEBUG"
  | .info => "INFO"
  | .warn => "WARN"
  | .error => "ERROR"

end Level

structure Event where
  level : Level
  message : String
  fields : List (String × String)
deriving DecidableEq

def debug (message : String) (fields : List (String × String)) : Event := ⟨.debug, message, fields⟩

def info (message : String) (fields : List (String × String)) : Event := ⟨.info, message, fields⟩

def warn (message : String) (fields : List (String × String)) : Event := ⟨.warn, message, fields⟩

def error (message : String) (fields : List (String × String)) : Event := ⟨.error, message, fields⟩

end CloudOffers.Log
