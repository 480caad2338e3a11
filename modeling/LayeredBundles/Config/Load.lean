import LayeredBundles.Config.Settings
import LayeredBundles.Storage.Workspace

/-! # Settings and manifests in files

* **`Settings.load`** — settings from a file, relative paths seen from its directory;
* **`PackingList.load`** — a build manifest from a file. -/

namespace LayeredBundles

/-- The text of a file of the configuration. -/
def readConfigText (path : String) : Work ConfigError String :=
  (Workspace.ask (·.readText path)).failingAs (.unreadable path)

/-- Settings from a file. Relative paths in it are seen from the directory of the file. -/
def Settings.load (path : String) : Work ConfigError Settings := do
  let s ← .ofExcept (Settings.parse (← readConfigText path))
  match DiskPath.parent? path with
  | some base => return s.seenFrom base
  | none => return s

/-- A build manifest from a file. -/
def PackingList.load (path : String) : Work ConfigError PackingList := do
  .ofExcept (PackingList.parse (← readConfigText path))

end LayeredBundles
