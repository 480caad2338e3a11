import LayeredBundles.Storage.Workspace

/-! # Locks on extraction directories

The lock of a directory is a file beside it, never inside it, so that removing the directory leaves the
lock alone. At most one holder has a lock at a time. It is named for the text that the directory's name is shown
as, so names that are no text can have one lock.

* **`Lock.path`** — the lock file of a directory;
* **`Lock.acquire`** — take the lock, and the ticket to give it back with;
* **`Lock.release`** — give a lock back. -/

namespace LayeredBundles

/-- Why a lock is not taken. -/
inductive LockFailure where
  /-- Somebody held it for the whole time, given in milliseconds. -/
  | timeout (path : String) (milliseconds : Nat)
  /-- The directory has no name, or stands in no other. -/
  | noParent (dir : String)
  /-- The lock file cannot be made. -/
  | io (cause : FileError)
  deriving DecidableEq, Repr

/-- A span of time in words: milliseconds below a second, else seconds with the places they need. -/
def spanText (milliseconds : Nat) : String :=
  if milliseconds = 0 then "0ns"
  else if milliseconds < 1000 then toString milliseconds ++ "ms"
  else
    let places := (Timestamp.padded 3 (milliseconds % 1000)).toList.reverse.dropWhile (· = '0')
    toString (milliseconds / 1000) ++ (if places.isEmpty then "" else "." ++ String.ofList places.reverse)
      ++ "s"

variable [Charset]

/-- The error in words. -/
def LockFailure.message : LockFailure → String
  | .timeout path milliseconds => "timed out after " ++ spanText milliseconds ++ " waiting for " ++ Charset.text path
  | .noParent dir => "extraction directory has no parent: " ++ Charset.text dir
  | .io cause => "I/O error: " ++ cause.message

namespace Lock

/-- The name of the lock file of a directory of that name: the text that the name is shown as, between a point and an
ending. -/
def fileName (name : String) : String := Charset.spell ("." ++ Charset.text name ++ ".lock")

/-- The lock file of a directory: beside it, and named for it. -/
def path (dir : String) : Except LockFailure String :=
  match DiskPath.parent? dir, DiskPath.fileName? dir with
  | some parent, some name =>
    if parent = "" then .error (.noParent dir)
    else .ok (DiskPath.join parent (fileName name))
  | _, _ => .error (.noParent dir)

/-- Whether somebody holds the lock of that place. -/
def isHeld (w : Workspace) (p : Place) : Bool := w.held.any (·.place = p)

/-- Take the lock whose file has that path, creating the file if it is missing. -/
def take (path : String) (timeout : Nat) : Work LockFailure Nat :=
  .ofOutcome fun w =>
    match w.tree.ensureFile path w.clock with
    | .error e => (.error (.io e), w)
    | .ok (p, t) =>
      -- the file is made even when the lock is not got
      let w := w.withTree t
      if isHeld w p then (.error (.timeout path timeout), w)
      else (.ok w.ticket, { w with held := ⟨w.ticket, p⟩ :: w.held, ticket := w.ticket + 1 })

/-- Take the lock of a directory, which is not created; what it stands in is. Nobody else runs meanwhile,
so a lock that is held stays held for any `timeout`. -/
def acquire (dir : String) (timeout : Nat) : Work LockFailure Nat := do
  let lock ← .ofExcept (path dir)
  match DiskPath.parent? lock with
  | some parent => (Workspace.createDirectories parent).failingAs .io
  | none => pure ()
  take lock timeout

/-- Give the lock of that ticket back. -/
def release (ticket : Nat) (w : Workspace) : Workspace :=
  { w with held := w.held.filter (·.ticket ≠ ticket) }

end Lock

end LayeredBundles
