import LayeredBundles.Extraction

/-! # Search roots

A root is a list of layers that share one extraction directory, by which the root is known. A layer that
could not be opened keeps its position: nothing is found through such a root.

* **`Root`** — layers, extraction directory and settings;
* **`Root.tokens`** — what tells one build of the layers from another;
* **`Root.checkBuild`** — remove everything extracted from another build;
* **`Root.unpackPackage`** — make the artifacts of a package's data files;
* **`Root.locateLibrary`** — the artifact of a bundled library. -/

namespace LayeredBundles

/-- A position among the layers of a root. -/
inductive Slot where
  /-- An open layer, with its token if one was given. -/
  | opened (layer : Layer) (token : Option String)
  /-- A layer that is not open. -/
  | broken (name : String) (reason : BrokenReason)

/-- The name of the layer at a position. -/
def Slot.name : Slot → String
  | .opened layer _ => layer.name
  | .broken name _ => name

/-- A **search root**. -/
structure Root where
  /-- The extraction directory. -/
  dir : String
  /-- The layers, in order of priority. -/
  slots : List Slot
  /-- Top-level packages whose source has to stand on disk. -/
  extractPackages : List String
  /-- How long to wait for the lock of the directory, in milliseconds. -/
  lockTimeout : Nat

/-- What operations on a root work on. -/
structure RootState where
  /-- The workspace. -/
  workspace : Workspace
  /-- The packages whose data files were extracted. -/
  extracted : List String

/-- An operation on a root. -/
abbrev RootWork (α : Type) : Type := Fallible RootState ImportFailure α

/-- An operation on the workspace alone. -/
def RootWork.ofWork {α : Type} (a : Work ImportFailure α) : RootWork α :=
  a.onto (·.workspace) fun w s => { s with workspace := w }

/-- What a check of the build found. -/
inductive BuildCheck where
  /-- The build is the same, and everything extracted was kept. -/
  | unchanged
  /-- The build is another one, and everything extracted was removed. Without a record of the build before
  it, no layer is named. -/
  | invalidated (changed : List String)
  deriving DecidableEq, Repr

namespace Root

/-- How long to wait for a lock when nothing is said, in milliseconds. -/
def standardLockTimeout : Nat := 30000

/-- A root without layers. -/
def empty (dir : String) : Root := ⟨dir, [], [], standardLockTimeout⟩

/-- The root with one more layer, last in priority. -/
def push (r : Root) (s : Slot) : Root := { r with slots := r.slots ++ [s] }

/-- The root with more packages whose source has to stand on disk; they are kept in order, each once. -/
def withPackages (r : Root) (packages : List String) : Root :=
  { r with
    extractPackages := Table.keys (Table.ofPairs ((r.extractPackages ++ packages).map fun p => (p, ()))) }

/-! ## (1) Layers -/

/-- The open layers with their positions. -/
def openLayers (r : Root) : List (Nat × Layer) :=
  r.slots.zipIdx.filterMap fun
    | (.opened layer _, i) => some (i, layer)
    | (.broken .., _) => none

/-- The error for a layer that is not open. -/
def notOpen (r : Root) (name : String) (reason : BrokenReason) : ImportFailure :=
  .corruptArchive r.dir name reason

/-- The layer at a position. -/
def layerAt (r : Root) (i : Nat) : Except ImportFailure Layer :=
  match r.slots[i]? with
  | some (.opened layer _) => .ok layer
  | some (.broken name reason) => .error (r.notOpen name reason)
  | none => .error (.notFound ("layer " ++ toString i ++ " of " ++ r.dir))

/-- Refuse a root with a layer that is not open, naming the first one. -/
def requireOpen (r : Root) : Except ImportFailure Unit :=
  match r.slots.findSome? fun
    | .broken name reason => some (name, reason)
    | .opened .. => none with
  | some (name, reason) => .error (r.notOpen name reason)
  | none => .ok ()

/-- The token of a layer that is not open. -/
def unopenedToken : String := "unreadable"

/-- The token of the layer at a position: the one given for it, else its digest. -/
def tokenOf : Slot → String
  | .opened layer token => token.getD layer.digest
  | .broken .. => unopenedToken

/-- Add the tokens of positions to those of the positions before them. A name that is taken is told apart
by the position. -/
def addTokens (known : Tokens) : List (Slot × Nat) → Tokens
  | [] => known
  | (s, i) :: rest =>
    -- equal names happen only in roots that were put together by hand
    let key := if Table.contains known s.name then s.name ++ "#" ++ toString i else s.name
    addTokens (Table.insert key (tokenOf s) known) rest

/-- The token of every layer, by name. -/
def tokens (r : Root) : Tokens := addTokens [] r.slots.zipIdx

/-- Whether the source of a top-level package has to stand on disk. -/
def requiresSource (r : Root) (topLevel : String) : Bool := r.extractPackages.contains topLevel

/-- Whether a directory is a package: some layer has a marker file in it. -/
def hasMarker (r : Root) (layout : Layout) (dir : String) : Bool :=
  r.openLayers.any fun l => layout.markers.any fun marker => l.2.isFile (dir ++ "/" ++ marker)

/-! ## (2) The build -/

/-- Do something while holding the lock of the extraction directory. -/
def holdingLock {α : Type} (r : Root) (act : RootWork α) : RootWork α := do
  let ticket ← .ofWork ((Lock.acquire r.dir r.lockTimeout).failingAs .lock)
  let out ← act.attempt
  modify fun s => { s with workspace := Lock.release ticket s.workspace }
  .ofExcept out

/-- What the record of a root says about the tokens it has now. -/
def compareBuild (record : Option BuildRecord) (current : Tokens) : BuildCheck :=
  match record with
  | none => .invalidated []
  | some record =>
    match record.differing current with
    | [] => .unchanged
    | changed => .invalidated changed

/-- The key of a root among build records: the text that its directory is shown as. -/
def key (r : Root) : String := Charset.text r.dir

/-- Where paths are text, a root is recorded under its directory as it is. -/
@[simp] theorem key_eq (r : Root) : r.key = r.dir := rfl

/-- Compare the tokens of the layers with those recorded. If they differ, remove everything extracted and
record the new ones, in that order; else remove temporary files only. -/
def checkBuild (r : Root) (store : RecordStore) : RootWork BuildCheck :=
  r.holdingLock do
    let record ← .ofWork ((store.get r.key).failingAs .ofStore)
    let check := compareBuild record r.tokens
    match check with
    | .unchanged =>
      let _ ← .ofWork (Extraction.removeTemporaries r.dir)
    | .invalidated _ =>
      -- recorded last: a failure on the way leaves the old record, and the next check removes again
      .ofWork (Extraction.removeAll r.dir)
      modify fun s => { s with extracted := [] }
      let now := (← get).workspace.now
      .ofWork ((store.put r.key (.new r.tokens now)).failingAs .ofStore)
    return check

/-! ## (3) Artifacts -/

/-- Make the artifact of a file of the layer at a position. -/
def makeArtifact (r : Root) (i : Nat) (path : String) : RootWork String := do
  let layer ← .ofExcept (r.layerAt i)
  .ofWork (Extraction.makeArtifact r.dir layer path)

/-- The data files of a layer below a directory, in the order of names: those that are not importable.
Directories that are packages are left out. At most `depth` levels are visited. -/
def dataFiles (r : Root) (layout : Layout) (layer : Layer) : Nat → String → List String
  | 0, _ => []
  | depth + 1, dir =>
    (layer.catalog.children? dir |>.getD []).flatMap fun child =>
      let path := dir ++ "/" ++ child
      if layer.isDirectory path then
        -- a marker in any layer makes a package of the directory in all of them
        if r.hasMarker layout path then [] else dataFiles r layout layer depth path
      else if layout.isUnitFile child then []
      else [path]

/-- The data files of a package in a layer. No path has more levels than the layer has entries. -/
def packageData (r : Root) (layout : Layout) (layer : Layer) (package : String) : List String :=
  if layer.isDirectory package then r.dataFiles layout layer (layer.catalog.size + 1) package else []

/-- Make the artifacts of a package's data files from every layer, unless that was done before. Their
number. -/
def unpackPackage (r : Root) (layout : Layout) (package : String) : RootWork Nat := do
  if (← get).extracted.contains package then return 0
  let files := r.openLayers.flatMap fun l => (r.packageData layout l.2 package).map fun path => (l.2, path)
  for (layer, path) in files do
    let _ ← .ofWork (Extraction.makeArtifact r.dir layer path)
  -- remembered only when every file was made
  modify fun s => { s with extracted := package :: s.extracted }
  return files.length

/-! ## (4) Bundled libraries -/

/-- The layer and path of a library: the first of the given directories in which some layer has it. A name
with a slash is no library of a bundle. -/
def findLibrary? (r : Root) (dirs : List String) (name : String) : Option (Layer × String) :=
  if name = "" || Text.hasChar '/' name then none
  else
    dirs.findSome? fun dir =>
      let path := DiskPath.withoutSlashes dir ++ "/" ++ name
      (r.openLayers.find? fun l => l.2.isFile path).map fun l => (l.2, path)

/-- The artifact of a bundled library; nothing if no layer has it. -/
def locateLibrary (r : Root) (dirs : List String) (name : String) :
    Work ImportFailure (Option String) :=
  match r.findLibrary? dirs name with
  | none => return none
  | some (layer, path) => return some (← Extraction.makeArtifact r.dir layer path)

/-- The names by which some layer's files can be located as libraries: their last segments, and `.` for a
library directory that is itself a file. -/
def libraryNames (r : Root) : List String :=
  "." :: r.openLayers.flatMap fun l => (l.2.entries.filter (!·.isDir)).map (·.name)

end Root

end LayeredBundles
