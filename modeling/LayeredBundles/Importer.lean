import LayeredBundles.Config.Settings
import LayeredBundles.Distribution
import LayeredBundles.Native.Loader
import LayeredBundles.Resolution

/-! # Importers

An importer is a list of search roots and all that is needed to resolve, read and load units from them.

* **`Importer`** — the roots and how they are used; **`ImporterState`** is what changes;
* **`Importer.resolve`**, **`unitBytes`** — find a unit by its dotted name, and read it;
* **`Importer.dataBytes`**, **`makeDataArtifact`** — data files by their path;
* **`Importer.subunits`** — the units right below a path;
* **`Importer.prepareBinary`**, **`loadBinary`** — load what a shared binary needs, and the binary;
* **`Importer.ofSettings`**, **`start`** — an importer from settings. -/

namespace LayeredBundles

/-- An **importer**. -/
structure Importer where
  /-- The roots, in order of priority. -/
  roots : List Root
  /-- How names map to paths. -/
  layout : Layout
  /-- Directories inside each layer in which bundled libraries stand. -/
  libraryDirs : List String
  /-- Who loads shared binaries. -/
  host : Host

/-- What operations of an importer work on. -/
structure ImporterState extends LoaderState where
  /-- The packages whose data files were extracted, by the position of the root. -/
  extracted : Table Nat (List String)

/-- An operation of an importer. -/
abbrev Importing (α : Type) : Type := Fallible ImporterState ImportFailure α

/-- A unit right below a path. -/
structure ListedUnit where
  /-- Its name. -/
  name : String
  /-- Whether it is a package. -/
  isPackage : Bool
  deriving DecidableEq, Repr

namespace ImporterState

/-- The state of the root at a position. -/
def root (s : ImporterState) (i : Nat) : RootState :=
  ⟨s.workspace, (Table.find? s.extracted i).getD []⟩

/-- The state with that of the root at a position replaced. -/
def withRoot (i : Nat) (r : RootState) (s : ImporterState) : ImporterState :=
  { s with workspace := r.workspace, extracted := Table.insert i r.extracted s.extracted }

/-- A state over a workspace in which nothing was done. -/
def ofWorkspace (w : Workspace) : ImporterState := ⟨⟨w, [], []⟩, []⟩

end ImporterState

namespace Importing

/-- An operation on the root at a position. -/
def onRoot {α : Type} (i : Nat) (a : RootWork α) : Importing α :=
  a.onto (·.root i) (ImporterState.withRoot i)

/-- An operation on the workspace alone. -/
def ofWork {ε α : Type} (failure : ε → ImportFailure) (a : Work ε α) : Importing α :=
  (a.failingAs failure).onto (·.workspace) fun w s => { s with workspace := w }

end Importing

namespace Importer

/-- The importer of some roots, with the library directory in use when none is given. -/
def new (roots : List Root) (layout : Layout) (host : Host) : Importer :=
  ⟨roots, layout, [Settings.standardLibraryDir], host⟩

/-- The root at a position. -/
def root (m : Importer) (i : Nat) : Except ImportFailure Root :=
  match m.roots[i]? with
  | some r => .ok r
  | none => .error (.notFound ("search root " ++ toString i))

/-- The roots with their positions. -/
def indexed (m : Importer) : List (Root × Nat) := m.roots.zipIdx

/-- Check the build of every root in turn. -/
def checkBuilds (m : Importer) (store : RecordStore) : Importing (List BuildCheck) :=
  m.indexed.mapM fun (r, i) => .onRoot i (r.checkBuild store)

/-! ## (1) Units -/

/-- Look a dotted name up in roots with their positions. A root with a layer that is not open ends the
search. -/
def resolveIn (layout : Layout) (name : String) : List (Root × Nat) → Importing FoundUnit
  | [] => throw (.notFound name)
  | (r, i) :: rest => do
    -- only a root that is reached is asked whether its layers are open
    .ofExcept r.requireOpen
    match r.find? layout (UnitName.path name) with
    | none => resolveIn layout name rest
    | some hit =>
      let artifact ← .onRoot i (hit.realize r layout name)
      .ofExcept (hit.unit r i name artifact)

/-- Find the unit of a dotted name, and make the artifacts it asks for. -/
def resolve (m : Importer) (name : String) : Importing FoundUnit :=
  if UnitName.isValid name then resolveIn m.layout name m.indexed else throw (.notFound name)

/-- The bytes of the file at a path in a layer, if there is one. -/
def readFrom (layer : Except ImportFailure Layer) (path : String) :
    Except Layer.Stop (Except ImportFailure ByteArray) :=
  match layer with
  | .error e => .ok (.error e)
  | .ok l => (l.read path).map (·.mapError .ofArchive)

/-- The bytes of a unit, from its layer. -/
def unitBytes (m : Importer) (u : FoundUnit) : Except Layer.Stop (Except ImportFailure ByteArray) :=
  readFrom (do (← m.root u.rootIndex).layerAt u.layerIndex) u.path

/-! ## (2) Data files -/

/-- The first layer that has a file at a path, and its root with its position; `sawDirectory` tells whether
a layer before had a directory there. -/
def locateDataIn (path : String) (sawDirectory : Bool) :
    List (Root × Nat) → Except ImportFailure (Root × Nat × Nat)
  | [] => .error (if sawDirectory then .directory path else .notFound path)
  | (r, i) :: rest => do
    r.requireOpen
    match r.openLayers.find? fun l => l.2.isFile path with
    | some (j, _) => return (r, i, j)
    -- a directory does not end the search: a root further down may have a file there
    | none => locateDataIn path (sawDirectory || r.openLayers.any fun l => l.2.isDirectory path) rest

/-- Where a data file is taken from: the root, its position and that of the layer. -/
def locateData (m : Importer) (path : String) : Except ImportFailure (Root × Nat × Nat) := do
  let _ ← Extraction.contained path
  locateDataIn path false m.indexed

/-- The bytes of a data file. Nothing is written. -/
def dataBytes (m : Importer) (path : String) : Except Layer.Stop (Except ImportFailure ByteArray) :=
  readFrom (do let (r, _, j) ← m.locateData path; r.layerAt j) path

/-- The artifact of a data file. -/
def makeDataArtifact (m : Importer) (path : String) : Importing String := do
  let (r, i, j) ← .ofExcept (m.locateData path)
  .onRoot i (r.makeArtifact j path)

/-! ## (3) Listing -/

/-- The unit that a name in a directory of a layer stands for, if any: the name and whether it is a
package. A marker file is none, and neither is a file whose stem holds a point. -/
def subunit? (layout : Layout) (r : Root) (layer : Layer) (dir child : String) :
    Option (String × Bool) :=
  let path := ArchivePath.child dir child
  if layer.isDirectory path then
    if r.hasMarker layout path then some (child, true) else none
  else
    match layout.kindAndStem? child with
    | some (_, stem) =>
      if stem ≠ layout.packageMarker && !Text.hasChar '.' stem then some (stem, false) else none
    | none => none

/-- Add a unit: a package stands before a module of the same name. -/
def addListed (found : Table String Bool) (u : String × Bool) : Table String Bool :=
  -- a module of the same name gives way, wherever it was found
  if u.2 || !Table.contains found u.1 then Table.insert u.1 u.2 found else found

/-- The units right below a directory that a root holds, with repetitions. -/
def unitsOf (layout : Layout) (dir : String) (r : Root) : List (String × Bool) :=
  r.openLayers.flatMap fun l =>
    ((l.2.childrenOf dir).toOption.getD []).filterMap (subunit? layout r l.2 dir)

/-- The units right below a path in any layer of any root, by name. -/
def subunits (m : Importer) (path : String) : Except ImportFailure (List ListedUnit) := do
  let dir := Text.dropStartWhile (· = '/') (DiskPath.withoutSlashes path)
  m.roots.forM fun r => r.requireOpen
  let found := (m.roots.flatMap (unitsOf m.layout dir)).foldl addListed []
  return found.map fun u => ⟨u.1, u.2⟩

/-- The distribution that a name belongs to. -/
def findOwner? (m : Importer) (name : String) : Except Layer.Stop (Option Distribution) :=
  Distribution.findOwner? m.roots name

/-! ## (4) Shared binaries -/

/-- Where the bundled libraries of a root are found. -/
def locator (m : Importer) (r : Root) : Locator := ⟨r.libraryNames, r.locateLibrary m.libraryDirs⟩

/-- Make the artifact of a shared binary and load all that it needs; where the artifact stands. -/
def prepareBinary (m : Importer) (u : FoundUnit) : Importing String := do
  if u.kind ≠ .native then throw (.wrongKind u.name u.kind .native)
  let r ← .ofExcept (m.root u.rootIndex)
  let path ← .onRoot u.rootIndex (r.makeArtifact u.layerIndex u.path)
  (Loader.loadNeeds m.host (m.locator r) path).failingAs .native
    |>.onto (·.toLoaderState) fun l s => { s with toLoaderState := l }
  return path

/-- Load a shared binary after all that it needs; where its artifact stands. -/
def loadBinary (m : Importer) (u : FoundUnit) : Importing String := do
  let path ← m.prepareBinary u
  -- asked anew on every call: the record is about libraries only
  let verdict ← (Fallible.ofOutcome fun (s : ImporterState) =>
    let (v, l) := (Loader.ask m.host (.path path)).run s.toLoaderState
    (.ok v, { s with toLoaderState := l }) : Importing (Except String Unit))
  match verdict with
  | .ok () => return path
  | .error reason => throw (.loadFailed path reason)

/-! ## (5) Importers from settings -/

/-- Open the bundle in a file, under the name of the file. No bytes can be read from a directory, so it has
the form of no known container. -/
def openLayer (path : String) : Work BundleError Layer := do
  let name := (DiskPath.fileName? path).getD path
  match ← (Workspace.read path).attempt with
  | .ok d => .ofExcept (Layer.ofBytes name d)
  | .error .isADirectory => throw (.corrupt name .unknownFormat)
  | .error e => throw (.io (.refused e))

/-- The position of a layer of the settings: open under the name given there, or not open. -/
def openSlot (l : LayerSettings) : Work ConfigError Slot := do
  match ← (openLayer l.path).attempt with
  | .ok layer => return .opened (layer.withName l.name) l.token
  | .error e => return .broken l.name (.opening e)

/-- The root of the settings, with every layer opened that can be. -/
def openRoot (lockTimeout : Nat) (r : RootSettings) : Work ConfigError Root := do
  let slots ← r.layers.mapM openSlot
  let root := (Root.empty r.extractDir).withPackages r.extractPackages
  return { root with slots, lockTimeout }

/-- The importer of some settings. -/
def ofSettings (s : Settings) (host : Host) : Work ConfigError Importer := do
  .ofExcept s.check
  let roots ← s.roots.mapM (openRoot s.lockTimeout)
  return ⟨roots, s.layout, s.libraryDirs, host⟩

/-- The importer of some settings, its builds checked if the settings name a store. -/
def start (s : Settings) (host : Host) : Importing Importer := do
  let m ← .ofWork .config (ofSettings s host)
  match s.recordFile with
  | some path =>
    let _ ← m.checkBuilds (.file path)
  | none => pure ()
  return m

end Importer

end LayeredBundles
