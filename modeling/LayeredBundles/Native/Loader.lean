import LayeredBundles.Failure
import LayeredBundles.Native.Status

/-! # Loading libraries before those that need them

A shared binary names the libraries it needs. Each of them is loaded before it, and so is what they need
in turn. What was asked for once is not asked for again, whatever became of it, so the record grows with
every step and circles end.

* **`HostCall`**, **`Host`** — what the host is asked to load, and its verdict; **`Host.ofLinker`** is that of the
  platform;
* **`Locator`** — where bundled copies of libraries are found;
* **`Loader.loadOnce`** — load a library and what it needs;
* **`Loader.loadNeeds`** — load all that a file needs. -/

namespace LayeredBundles

/-- What the host is asked to load. -/
inductive HostCall where
  /-- The file at a path. -/
  | path (path : String)
  /-- The library of that name, from the system. -/
  | library (name : String)
  deriving DecidableEq, Repr

/-- What was asked for, in words. -/
def HostCall.target : HostCall → String
  | .path p => p
  | .library name => name

/-- A host: its verdict on a call, given all calls before it, the last one first. A refusal has a reason. -/
abbrev Host : Type := List HostCall → HostCall → Except String Unit

/-- The host of the platform. Its linker is asked only for targets that it can be told: a zero character would end the
target early. -/
def Host.ofLinker (linker : Host) : Host := fun calls call =>
  if Text.hasChar (Char.ofNat 0) call.target then .error (call.target ++ ": name contains a NUL byte")
  else linker calls call

/-- Where bundled copies of libraries are found. -/
structure Locator where
  /-- The names that may be found; others are not looked for. -/
  names : List String
  /-- The path of the bundled copy, if there is one. -/
  locate : String → Work ImportFailure (Option String)

/-- The locator that finds nothing. -/
def Locator.none : Locator := ⟨[], fun _ => return Option.none⟩

/-- What loading works on. -/
structure LoaderState where
  /-- The workspace. -/
  workspace : Workspace
  /-- What was loaded. -/
  record : LoadTable
  /-- What the host was asked for, the last call first. -/
  calls : List HostCall

/-- A loading step: it does not fail, for failures are recorded. -/
abbrev Loading (α : Type) : Type := StateM LoaderState α

namespace Loader

/-- The outcome of an operation on the workspace. -/
def outcomeOf {ε α : Type} (a : Work ε α) : Loading (Except ε α) := fun s =>
  let (r, w) := a.outcome s.workspace
  (r, { s with workspace := w })

/-- Record what became of a library. -/
def note (name : String) (outcome : LoadStatus) : Loading Unit :=
  modify fun s => { s with record := Table.insert name outcome s.record }

/-- Ask the host. -/
def ask (host : Host) (call : HostCall) : Loading (Except String Unit) := fun s =>
  (host s.calls call, { s with calls := call :: s.calls })

/-- The bundled copy of a library, if one is found. -/
def locate (locator : Locator) (name : String) : Loading (Option String) := do
  if name ∈ locator.names then
    match ← outcomeOf (locator.locate name) with
    | .ok found => return found
    | .error _ => return none
  else return none

/-- What becomes of a library by the host's verdict. -/
def verdict (host : Host) (call : HostCall) (loaded : LoadStatus) : Loading LoadStatus := do
  match ← ask host call with
  | .ok () => return loaded
  | .error reason => return .failed reason

/-- Load a library unless that was tried before: what its bundled copy needs first, then the copy; or the
library of the system if there is no copy. At most `depth` libraries are open at a time. -/
def loadOnce (host : Host) (locator : Locator) : Nat → String → Loading Unit
  | 0, _ => return
  | depth + 1, name => do
    if Table.contains (← get).record name then return
    -- noted before what it needs is loaded, so that circles end
    note name .pending
    match ← locate locator name with
    | some path =>
      match ← outcomeOf (Elf.neededOf path) with
      | .ok needs => needs.forM (loadOnce host locator depth)
      -- a copy that cannot be understood is loaded all the same
      | .error _ => pure ()
      note name (← verdict host (.path path) (.bundled path))
    | none => note name (← verdict host (.library name) .system)

/-- The number of libraries that may be open at a time: each but the last one has a bundled copy. -/
def depth (locator : Locator) : Nat := locator.names.length + 1

/-- Load all that the file at a path needs. Only this file has to be understood. -/
def loadNeeds (host : Host) (locator : Locator) (path : String) : Fallible LoaderState NeedsFailure Unit :=
  .ofOutcome fun s =>
    match (outcomeOf (Elf.neededOf path)).run s with
    | (.error e, s) => (.error e, s)
    | (.ok needs, s) =>
      let (_, s) := (needs.forM (loadOnce host locator (depth locator))).run s
      (.ok (), s)

end Loader

end LayeredBundles
