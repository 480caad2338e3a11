import LayeredBundles.Archive.Layer
import LayeredBundles.Failure

/-! # Extraction directories

An **artifact** is the copy of a layer's file on disk. It stands below the extraction directory at the
path it has in the layer, and carries the size and time of its entry; an artifact that does so is taken to
be current and is not written again. Artifacts are written under a temporary name and moved into place.

* **`Extraction.artifactPath`** — where the artifact of a path stands;
* **`Extraction.isFresh`** — whether an artifact need not be written;
* **`Extraction.makeArtifact`** — make an artifact;
* **`Extraction.removeAll`** — remove an extraction directory;
* **`Extraction.removeTemporaries`** — remove temporary files that were left behind;
* **`Extraction.countArtifacts`** — the number of artifacts. -/

namespace LayeredBundles

namespace Extraction

/-! ## (1) Where artifacts stand -/

/-- The path itself, if it cannot leave the directory it is joined to. -/
def contained (path : String) : Except ImportFailure String :=
  if DiskPath.isContained path then .ok path else .error (.accessDenied path)

/-- Where the artifact of a path stands. -/
def artifactPath (dir path : String) : Except ImportFailure String :=
  (contained path).map (DiskPath.join dir)

/-- Whether a file of the entry's size and time stands there. -/
def isFresh (t : FileTree) (dest : String) (e : Entry) : Bool :=
  match t.look false dest with
  | .ok (.file contents modified) => contents.size = e.size && modified.wholeSeconds = e.timestamp
  | _ => false

/-! ## (2) Making artifacts -/

/-- What the names of temporary files end with. -/
def temporarySuffix : String := ".part"

/-- The name under which an artifact is written. -/
def temporaryName (name : String) (process serial : Nat) : String :=
  "." ++ name ++ "." ++ toString process ++ "-" ++ toString serial ++ temporarySuffix

/-- Whether a file name is that of a temporary file. -/
def isTemporary (fileName : String) : Bool :=
  Text.startsWith "." fileName && Text.endsWith temporarySuffix fileName

/-- A path for a temporary file that no other one gets. -/
def newTemporary (dir name : String) : Work ImportFailure String := do
  let w ← get
  set { w with serial := w.serial + 1 }
  return DiskPath.join dir (temporaryName name w.process w.serial)

/-- Write an entry's bytes to a path and give it the entry's time. -/
def writeEntry (l : Layer) (e : Entry) (path : String) : Work ImportFailure Unit := do
  let (out, r) := l.writeOut e.path
  -- what was read before a failure is written too; the caller removes the file
  (Workspace.write path out).failingAs .ofFile
  let _ ← .ofExcept (r.mapError ImportFailure.ofArchive)
  (Workspace.change (·.stamp path e.modified)).failingAs .ofFile

/-- Move a finished file to its destination, or remove it if that fails. -/
def moveOrDiscard (temporary dest : String) : Work ImportFailure Unit := do
  match ← (Workspace.move temporary dest).attempt with
  | .ok () => return
  | .error e =>
    Workspace.discard temporary
    throw (.ofFile e)

/-- Move a finished file to its destination, in place of a file or a whole directory there. -/
def moveIntoPlace (temporary dest : String) : Work ImportFailure Unit := do
  let w ← get
  -- a file is replaced by the move itself
  match w.tree.look false dest with
  | .ok .directory => (Workspace.removeDirectories dest).failingAs .ofFile
  | _ => pure ()
  moveOrDiscard temporary dest

/-- Make the artifact of an entry at its destination. -/
def produce (l : Layer) (e : Entry) (dest : String) : Work ImportFailure Unit := do
  let some parent := DiskPath.parent? dest | throw (.accessDenied e.path)
  (Workspace.createDirectories parent).failingAs .ofFile
  let temporary ← newTemporary parent e.name
  match ← (writeEntry l e temporary).attempt with
  | .ok () => moveIntoPlace temporary dest
  | .error cause =>
    Workspace.discard temporary
    throw cause

/-- Make the artifact of a layer's file, unless it is current; where it stands. -/
def makeArtifact (dir : String) (l : Layer) (path : String) : Work ImportFailure String := do
  let e ← .ofExcept ((l.entry path).mapError ImportFailure.ofArchive)
  if e.isDir then throw (.directory e.path)
  let dest ← .ofExcept (artifactPath dir e.path)
  if isFresh (← get).tree dest e then return dest
  produce l e dest
  return dest

/-! ## (3) The directory as a whole -/

/-- Remove an extraction directory, if there is one. -/
def removeAll (dir : String) : Work ImportFailure Unit := do
  match ← (Workspace.removeDirectories dir).attempt with
  | .ok () | .error .notFound => return
  | .error e => throw (.ofFile e)

/-- The places and names of the files in an extraction directory. If a file stands in its stead, that file
is the only one. -/
def filesIn (t : FileTree) (dir : String) : List (Place × String) :=
  match t.look false dir, t.locate true dir with
  | .ok (.file ..), .ok (p, _) => [(p, (DiskPath.fileName? dir).getD dir)]
  | .ok _, .ok (p, _) => (t.listBelow p).filterMap fun n =>
      if n.2.isFile then some (n.1, n.1.getLast?.getD "") else none
  | _, _ => []

/-- Remove temporary files that were left behind; their number. -/
def removeTemporaries (dir : String) : Work ImportFailure Nat := do
  let w ← get
  let left := (filesIn w.tree dir).filter fun f => isTemporary f.2
  set (w.withTree (left.foldl (fun t f => t.unbind f.1) w.tree))
  return left.length

/-- The number of files in an extraction directory that are not temporary. -/
def countArtifacts (t : FileTree) (dir : String) : Nat :=
  ((filesIn t dir).filter fun f => !isTemporary f.2).length

end Extraction

end LayeredBundles
