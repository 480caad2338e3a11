import LayeredBundles.Root
import LayeredBundles.Text.Blank
import LayeredBundles.Text.Lowercase
import LayeredBundles.Text.Utf8

/-! # Distributions

A distribution is described by a directory at the top of a layer, whose name gives the name and version of
the distribution. A file in it may list the top-level modules that belong to it.

* **`Distribution`** — a distribution in a layer;
* **`Distribution.canonical`** — the form in which names are compared;
* **`Distribution.parse?`** — name and version of a directory name;
* **`Layer.distributions`** — the distributions of a layer;
* **`Distribution.findOwner?`** — the distribution that a name belongs to. -/

namespace LayeredBundles

/-- A distribution in a layer. -/
structure Distribution where
  /-- The name, as it is spelled in the directory name. -/
  name : String
  /-- The version. -/
  version : String
  /-- The position of the root. -/
  rootIndex : Nat
  /-- The position of the layer. -/
  layerIndex : Nat
  /-- The name of the layer. -/
  layer : String
  /-- The directory that describes the distribution. -/
  directory : String
  /-- The top-level modules of the distribution. -/
  topLevel : List String
  deriving DecidableEq, Repr

namespace Distribution

/-! ## (1) Names -/

/-- Whether a character separates the parts of a name. -/
def isSeparator (c : Char) : Bool := c = '-' || c = '_' || c = '.'

/-- Characters with `_` for each run of separators; `inRun` tells whether one has just begun. -/
def joinRuns (inRun : Bool) : List Char → List Char
  | [] => []
  | c :: cs =>
    if isSeparator c then (if inRun then joinRuns true cs else '_' :: joinRuns true cs)
    else c :: joinRuns false cs

/-- The form in which names are compared: lower case, and one `_` for each run of separators. -/
def canonical (name : String) : String := Text.lowercase (String.ofList (joinRuns false name.toList))

/-- The name in the form in which names are compared. -/
def canonicalName (d : Distribution) : String := canonical d.name

/-! ## (2) Directories -/

/-- What the name of a describing directory ends with. -/
def directorySuffix : String := ".dist-info"

/-- Whether characters make the name of a distribution: ASCII letters, digits, points and underscores, a
letter or digit first. -/
def isName : List Char → Bool
  | [] => false
  | c :: cs => c.isAlphanum && cs.all fun c => c.isAlphanum || c = '.' || c = '_'

/-- Whether characters make a version: there are some, and neither a dash nor a slash is among them. -/
def isVersion (cs : List Char) : Bool := !cs.isEmpty && cs.all fun c => c ≠ '-' && c ≠ '/'

/-- Name and version of the name of a describing directory. A name holds no dash, so the first dash ends
it. -/
def parse? (directory : String) : Option (String × String) := do
  let stem ← Text.dropEnd? directorySuffix directory
  let name := stem.toList.takeWhile (· ≠ '-')
  match stem.toList.drop name.length with
  | _ :: version =>
    if isName name && isVersion version then some (String.ofList name, String.ofList version) else none
  | [] => none

/-- The file that lists top-level modules. -/
def moduleListFile : String := "top_level.txt"

/-- The lines of a list of modules, without blanks around them and without empty ones. -/
def linesOf (d : ByteArray) : List String :=
  ((Text.split '\n' (Utf8.lossy d)).map Text.trim).filter (· ≠ "")

end Distribution

namespace Layer

/-- The directories at the top of a layer that describe a distribution, each with the name and the version in its own
name, in the order of directory names. -/
def describing (l : Layer) : List (String × String × String) :=
  (((l.childrenOf "").toOption.getD []).filter l.isDirectory).filterMap fun child =>
    (Distribution.parse? child).map fun parts => (child, parts)

/-- The modules that are listed in a directory. A list that cannot be read counts as empty, unless there is no room for
it. -/
def readModules (l : Layer) (directory : String) : Except Stop (List String) := do
  let listed ← l.read (directory ++ "/" ++ Distribution.moduleListFile)
  return (listed.toOption.map Distribution.linesOf).getD []

/-- The distributions of a layer at the given positions, in the order of directory names. -/
def distributions (l : Layer) (rootIndex layerIndex : Nat) : Except Stop (List Distribution) :=
  l.describing.mapM fun (directory, name, version) => do
    return ⟨name, version, rootIndex, layerIndex, l.name, directory, ← l.readModules directory⟩

end Layer

namespace Distribution

/-- All distributions of some roots: root by root, layer by layer. -/
def all (roots : List Root) : Except Layer.Stop (List Distribution) := do
  let found ← (roots.zipIdx.flatMap fun r => r.1.openLayers.map fun l => (r.2, l)).mapM fun (i, j, l) =>
    l.distributions i j
  return found.flatten

/-- The distribution that a name belongs to: the first of that name, else the first that lists the first
segment of the name. -/
def findOwner? (roots : List Root) (name : String) : Except Layer.Stop (Option Distribution) := do
  let found ← all roots
  return (found.find? fun d => d.canonicalName = canonical name).orElse fun _ =>
    found.find? fun d => d.topLevel.contains (UnitName.topLevel name)

end Distribution

end LayeredBundles
