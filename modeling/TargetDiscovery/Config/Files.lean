import TargetDiscovery.Bytes

/-!
# Paths and files

A configuration is loaded from files, of which only the reading by a path matters. Key files are
named relative to the directory of the configuration.
-/

set_option autoImplicit false

namespace TargetDiscovery

namespace Path

def separator : UInt8 := byte '/'

def isAbsolute (path : Bytes) : Bool := path.head? == some separator

/-- A path taken relative to a directory, unless it is absolute or no directory is given. -/
def within (directory path : Bytes) : Bytes :=
  if isAbsolute path || directory.isEmpty then path
  else if directory.getLast? == some separator then directory ++ path
  else directory ++ separator :: path

def directory (path : Bytes) : Bytes :=
  match Bytes.cutLast separator path with
  | some (before, _) => Bytes.dropTrailing separator before
  | none => []

end Path

/-- What reading the file at a path gives, if it can be opened. -/
structure Files where
  read? : Bytes → Option Bytes

namespace Files

/-- Files of which the readings are known; all other paths cannot be opened. -/
def ofReadings (readings : List (Bytes × Option Bytes)) : Files :=
  ⟨fun path => (readings.find? fun r => r.1 == path).bind Prod.snd⟩

end Files

end TargetDiscovery
