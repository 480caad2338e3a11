/-! # Refusals of the file system and damaged data

* **`FileError`** — why the file system refuses an operation;
* **`IoError`** — a refusal, or data that could be read but not unpacked. -/

namespace LayeredBundles

/-- Why the file system refuses an operation. -/
inductive FileError where
  /-- Nothing stands there. -/
  | notFound
  /-- Something stands there already. -/
  | alreadyExists
  /-- A directory is needed, and something else stands there. -/
  | notADirectory
  /-- A file is needed, and a directory stands there. -/
  | isADirectory
  /-- The directory still holds something. -/
  | directoryNotEmpty
  /-- The path is no path, for it holds a zero character. -/
  | invalidPath
  /-- A directory cannot be removed by the name `.`. -/
  | dotEnding
  /-- A segment of the path, or the path, is too long. -/
  | invalidName
  /-- Too many symbolic links on the way. -/
  | linkLoop
  /-- The directory is in use. -/
  | busy
  /-- The text of the file is not UTF-8. -/
  | invalidText
  deriving DecidableEq, Repr

/-- A refusal in words. -/
def FileError.message : FileError → String
  | .notFound => "no such file or directory"
  | .alreadyExists => "file exists"
  | .notADirectory => "not a directory"
  | .isADirectory => "is a directory"
  | .directoryNotEmpty => "directory not empty"
  | .invalidPath => "path holds a zero character"
  | .dotEnding => "invalid argument"
  | .invalidName => "file name too long"
  | .linkLoop => "too many levels of symbolic links"
  | .busy => "resource busy"
  | .invalidText => "stream did not contain valid UTF-8"

/-- Why bytes could not be read or written. -/
inductive IoError where
  /-- The file system refused. -/
  | refused (cause : FileError)
  /-- The packed data do not unpack to what was recorded. -/
  | damaged
  deriving DecidableEq, Repr

/-- A failure in words. -/
def IoError.message : IoError → String
  | .refused cause => cause.message
  | .damaged => "damaged data"

end LayeredBundles
