import LayeredBundles.Build.Record
import LayeredBundles.Storage.FileTree

/-! # The workspace

A workspace is all that outlives an operation and is shared by everything that runs in one process: the
tree of files, the locks held on it, and records kept in memory. Operations on it either answer or fail,
and what they did before failing stays done.

* **`Workspace`** — tree, with those before it, locks, records, clock;
* **`Fallible`** — an operation on a state that may fail, with `attempt`, `failingAs` and `onto` to pass
  between kinds of failure and of state;
* **`Workspace.createDirectories`** — create a directory and all that it stands below;
* **`Workspace.removeDirectories`** — remove a directory with all that it holds. -/

namespace LayeredBundles

/-- An operation on a state `σ` that answers an `α` or fails with an `ε`. Either way the state is what the
operation left. -/
abbrev Fallible (σ ε α : Type) : Type := ExceptT ε (StateM σ) α

namespace Fallible

variable {σ τ ε ε' α : Type}

/-- The outcome and the state after running in a state. -/
def outcome (a : Fallible σ ε α) (s : σ) : Except ε α × σ := StateT.run (ExceptT.run a) s

/-- The operation of the given outcomes. -/
def ofOutcome (f : σ → Except ε α × σ) : Fallible σ ε α := fun s => f s

/-- The same operation, its failure counted as an answer. -/
def attempt (a : Fallible σ ε α) : Fallible σ ε' (Except ε α) :=
  ofOutcome fun s => let (r, s) := a.outcome s; (.ok r, s)

/-- The same operation, its failures seen as others. -/
def failingAs (f : ε → ε') (a : Fallible σ ε α) : Fallible σ ε' α :=
  ofOutcome fun s => let (r, s) := a.outcome s; (r.mapError f, s)

/-- The same operation on a state of which `σ` is a part. -/
def onto (part : τ → σ) (put : σ → τ → τ) (a : Fallible σ ε α) : Fallible τ ε α :=
  ofOutcome fun t => let (r, s) := a.outcome (part t); (r, put s t)

/-- An answer that does not depend on the state, or a failure. -/
def ofExcept (r : Except ε α) : Fallible σ ε α := ofOutcome fun s => (r, s)

end Fallible

/-- A lock that is held: the ticket its holder got, and the place of the lock file. -/
structure HeldLock where
  /-- The ticket of the holder. -/
  ticket : Nat
  /-- The place of the lock file. -/
  place : Place
  deriving DecidableEq, Repr

/-- What operations work on. -/
structure Workspace where
  /-- The files. -/
  tree : FileTree
  /-- The trees before, the last one first: what was done on the way can be told from them. -/
  past : List FileTree
  /-- The locks that are held. -/
  held : List HeldLock
  /-- The ticket of the next lock. -/
  ticket : Nat
  /-- Build records kept in memory. -/
  records : BuildRecords
  /-- The number of the process, part of the names of temporary files. -/
  process : Nat
  /-- The number of the next temporary file. -/
  serial : Nat
  /-- The time. -/
  clock : Instant

/-- An operation on the workspace. -/
abbrev Work (ε α : Type) : Type := Fallible Workspace ε α

namespace Workspace

/-- A workspace over a tree, with nothing else in it. -/
def ofTree (tree : FileTree) : Workspace := ⟨tree, [], [], 0, [], 1, 0, Instant.epoch⟩

/-- The workspace with another tree. A lock ends with its file. -/
def withTree (w : Workspace) (tree : FileTree) : Workspace :=
  { w with
    tree
    past := w.tree :: w.past
    -- a lock ends with the file it is on
    held := w.held.filter fun l => (tree.node? l.place).any Node.isFile }

/-- The time as a timestamp. -/
def now (w : Workspace) : Timestamp := ⟨w.clock.seconds, w.clock.nanos⟩

variable [Charset]

/-! ## (1) Single steps -/

/-- An answer from the tree as it is. -/
def ask {α : Type} (f : FileTree → Except FileError α) : Work FileError α :=
  .ofOutcome fun w => (f w.tree, w)

/-- A change of the tree, made whole or refused. -/
def change (f : FileTree → Except FileError FileTree) : Work FileError Unit :=
  .ofOutcome fun w =>
    match f w.tree with
    | .ok t => (.ok (), w.withTree t)
    | .error e => (.error e, w)

/-- The bytes of a file. -/
def read (path : String) : Work FileError ByteArray := ask (·.read path)

/-- Create a file, or replace what it holds. -/
def write (path : String) (contents : ByteArray) : Work FileError Unit :=
  .ofOutcome fun w => (change fun t => t.write path contents w.clock).outcome w

/-- Remove a file. -/
def remove (path : String) : Work FileError Unit := change (·.remove path)

/-- Move a file over another path. A lock on the file that stood there ends. -/
def move (source target : String) : Work FileError Unit :=
  .ofOutcome fun w =>
    match w.tree.move source target with
    | .error e => (.error e, w)
    | .ok t =>
      let replaced := match w.tree.locate false target with
        | .ok (p, _) => some p
        | .error _ => none
      (.ok (), { w with held := w.held.filter fun l => some l.place ≠ replaced }.withTree t)

/-- Remove a file, if that is possible. -/
def discard {ε : Type} (path : String) : Work ε Unit := do
  let _ ← (remove path).attempt

/-! ## (2) Whole directories -/

/-- Create the first of some directories, each of which stands in the next one, creating those that are
missing. A directory that is there already is no failure. -/
def createLineage : List String → Work FileError Unit
  | [] => .ofExcept (.error .notFound)
  | path :: above => do
    if path = "" then return
    match ← (change (·.createDirectory path)).attempt with
    | .ok () => return
    | .error e =>
      -- only what is missing above it is made
      if e ≠ .notFound then unlessDirectory path e
      else
        createLineage above
        match ← (change (·.createDirectory path)).attempt with
        | .ok () => return
        | .error e => unlessDirectory path e
where
  /-- A failure, unless there is a directory. -/
  unlessDirectory (path : String) (e : FileError) : Work FileError Unit :=
    ask fun t => if t.hasDirectory path then .ok () else .error e

/-- Create a directory and all that it stands below. -/
def createDirectories (path : String) : Work FileError Unit := createLineage (DiskPath.lineage path)

/-- Remove all that a directory holds. -/
def emptyDirectory (path : String) : Work FileError Unit :=
  change fun t =>
    match t.locate true path with
    | .error e => .error e
    | .ok (p, _) => .ok (t.unbindBelow p)

/-- Remove a directory with all that it holds. Of a link only the link is removed. -/
def removeDirectories (path : String) : Work FileError Unit := do
  match ← ask (·.look false path) with
  | .link _ => remove path
  | .file .. => throw .notADirectory
  | .directory =>
    emptyDirectory path
    match ← (change (·.removeDirectory path)).attempt with
    | .ok () | .error .notFound => return
    | .error e => throw e

end Workspace

end LayeredBundles
