import LayeredBundles.Native.Elf
import LayeredBundles.Storage.Workspace

/-! # What a file on disk needs

* **`NeedsFailure`** — why that cannot be told;
* **`Elf.neededOf`** — the names of the libraries that the file at a path needs. -/

namespace LayeredBundles

/-- Why it cannot be told what a file needs. -/
inductive NeedsFailure where
  /-- It is no ELF file that can be understood. -/
  | elf (path : String) (cause : ElfFault)
  /-- It cannot be read. -/
  | io (cause : FileError)
  deriving DecidableEq, Repr

/-- The error in words. -/
def NeedsFailure.message : NeedsFailure → String
  | .elf path cause => "cannot read dependency metadata of " ++ path ++ ": " ++ cause.message
  | .io cause => "I/O error: " ++ cause.message

/-- The names of the libraries that the file at a path needs. -/
def Elf.neededOf (path : String) : Work NeedsFailure (List String) := do
  let d ← (Workspace.read path).failingAs .io
  .ofExcept ((Elf.needed d).mapError (.elf path))

end LayeredBundles
