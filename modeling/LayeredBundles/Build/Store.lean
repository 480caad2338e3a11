import LayeredBundles.Storage.Workspace

/-! # Stores of build records

* **`RecordStore`** — where records are kept: in memory, or in one file;
* **`RecordStore.get`** — the record of a root;
* **`RecordStore.put`** — keep a record; those of other roots stay.

A file that cannot be understood counts as a store without records, so that everything is made anew. The
file is replaced as a whole, so it never holds half of a store. -/

namespace LayeredBundles

/-- Where build records are kept. -/
inductive RecordStore where
  /-- In memory: they are gone when the process ends. -/
  | memory
  /-- In a file. -/
  | file (path : String)
  deriving DecidableEq, Repr

/-- Why a store cannot be used. -/
inductive StoreError where
  /-- The path of the store has no file name. -/
  | notAFile (path : String)
  /-- The file cannot be read or written. -/
  | io (cause : FileError)
  deriving DecidableEq, Repr

namespace RecordStore

/-- The records in the bytes of a file; none if they cannot be understood. -/
def recordsOf (d : ByteArray) : BuildRecords :=
  match String.fromUTF8? d with
  | some s => (BuildRecords.parse? s).getD []
  | none => []

/-- The records in a file; none if it is missing. -/
def readRecords (path : String) : Work StoreError BuildRecords := do
  match ← (Workspace.read path).attempt with
  | .ok d => return recordsOf d
  | .error .notFound => return []
  | .error e => throw (.io e)

/-- The directory of a store's file. -/
def directory (path : String) : String :=
  match DiskPath.parent? path with
  | some parent => if parent = "" then "." else parent
  | none => "."

/-- The name under which a new store is written before it takes the old one's place. -/
def temporaryName (name : String) (process : Nat) : String :=
  "." ++ name ++ "." ++ toString process ++ ".tmp"

/-- Write bytes under a temporary name, then move them to their path. -/
def replaceFile (temporary path : String) (contents : ByteArray) : Work FileError Unit := do
  Workspace.write temporary contents
  Workspace.move temporary path

/-- Put records into a file, in place of those it holds. -/
def writeRecords (path : String) (records : BuildRecords) : Work StoreError Unit := do
  let dir := directory path
  (Workspace.createDirectories dir).failingAs .io
  match DiskPath.fileName? path with
  | none => throw (.notAFile path)
  | some name =>
    let temporary := DiskPath.join dir (temporaryName name (← get).process)
    match ← (replaceFile temporary path records.render.toUTF8).attempt with
    | .ok () => return
    | .error e =>
      Workspace.discard temporary
      throw (.io e)

/-- The record of a root, if there is one. -/
def get (store : RecordStore) (root : String) : Work StoreError (Option BuildRecord) :=
  match store with
  | .memory => return Table.find? (← getThe Workspace).records root
  | .file path => return Table.find? (← readRecords path) root

/-- Keep the record of a root, in place of the one there is. -/
def put (store : RecordStore) (root : String) (record : BuildRecord) : Work StoreError Unit :=
  match store with
  | .memory => modify fun w => { w with records := Table.insert root record w.records }
  | .file path => do
    let records ← readRecords path
    writeRecords path (Table.insert root record records)

end RecordStore

end LayeredBundles
