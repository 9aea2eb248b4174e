import Promises.Folder
import Promises.Text.Quoted

namespace Promises

structure Config where
  /-- The most objects that may live in the heap. -/
  heapLimit : Nat
  /-- How many handles the table makes room for at first. -/
  handleCapacity : Nat
deriving DecidableEq

inductive ConfigError
  | unreadable (path : String) (cause : ReadError)
  /-- A text that is not a list of settings. -/
  | malformed
  /-- A heap without room. -/
  | noHeap
deriving DecidableEq

def ConfigError.message : ConfigError → String
  | unreadable path cause =>
    "failed to read config at " ++ Text.quote path ++ ": " ++ cause.message
  | malformed => "failed to parse config: "
  | noHeap => "invalid config: heap_limit must be at least 1"

namespace Config

def default : Config := ⟨65536, 256⟩

instance : Inhabited Config := ⟨default⟩

/-- Whether an isolate can be made from the configuration. -/
def isValid (c : Config) : Bool := 1 ≤ c.heapLimit

def validate (c : Config) : Except ConfigError Config :=
  if c.isValid then .ok c else .error .noHeap

end Config

end Promises
