import LayeredBundles.Root

/-! # Resolving names

A dotted name is looked up in one root after another. Within a root, packages come before modules, then
kinds, then layers, then suffixes are tried in order of priority.

* **`Hit`** — where a root holds a name; **`Root.find?`** is the first one;
* **`FoundUnit`** — a unit that was found;
* **`Hit.realize`** — make the artifacts that a unit asks for. -/

namespace LayeredBundles

/-- Where a root holds a name. -/
structure Hit where
  /-- The form of the unit. -/
  form : Form
  /-- The position of the layer. -/
  layer : Nat
  /-- The kind of the unit. -/
  kind : Kind
  /-- The path in the layer. -/
  path : String
  deriving DecidableEq, Repr

/-- A unit that was found. -/
structure FoundUnit where
  /-- The dotted name. -/
  name : String
  /-- The kind of the unit. -/
  kind : Kind
  /-- The form of the unit. -/
  form : Form
  /-- The position of the root. -/
  rootIndex : Nat
  /-- The extraction directory of the root. -/
  root : String
  /-- The position of the layer. -/
  layerIndex : Nat
  /-- The name of the layer. -/
  layer : String
  /-- The path in the layer. -/
  path : String
  /-- The artifact, if one was made. -/
  artifact : Option String
  deriving DecidableEq, Repr

namespace FoundUnit

/-- Whether the unit is a package. -/
def isPackage (u : FoundUnit) : Bool := u.form = .package

/-- The directory in the layer that holds the unit's file. -/
def directory (u : FoundUnit) : String := ArchivePath.parent u.path

end FoundUnit

/-- The first place in which a root holds a unit of the given path. -/
def Root.find? (r : Root) (layout : Layout) (path : String) : Option Hit :=
  Form.all.findSome? fun form =>
    Kind.all.findSome? fun kind =>
      r.openLayers.findSome? fun l =>
        (layout.suffixes kind).findSome? fun suffix =>
          let p := layout.pathFor path form suffix
          if l.2.isFile p then some ⟨form, l.1, kind, p⟩ else none

/-- Make the artifacts that a unit asks for: the data files of a top-level package, and the source of a
package that has to stand on disk. -/
def Hit.realize (h : Hit) (r : Root) (layout : Layout) (name : String) : RootWork (Option String) := do
  if h.form = .package ∧ !Text.hasChar '.' name then
    let _ ← r.unpackPackage layout (UnitName.path name)
  if h.kind = .source ∧ r.requiresSource (UnitName.topLevel name) then
    return some (← r.makeArtifact h.layer h.path)
  return none

/-- The unit at a hit in the root of the given position. -/
def Hit.unit (h : Hit) (r : Root) (rootIndex : Nat) (name : String) (artifact : Option String) :
    Except ImportFailure FoundUnit :=
  (r.layerAt h.layer).map fun layer =>
    ⟨name, h.kind, h.form, rootIndex, r.dir, h.layer, layer.name, h.path, artifact⟩

end LayeredBundles
