import LayeredBundles.Proofs.Paths
import Mathlib.Algebra.Group.Int.Defs

/-! # What a layer says of a path

A layer is asked about paths in any spelling and answers by their steps. A **copy** of a layer's file is
what its artifact should be: the contents, and the time of the entry.

* **`Catalog.ofList_induction`** — what every insertion keeps holds of every catalog;
* **`Instant.wholeSeconds_eq`** — an instant is rounded down, the first of them all excepted;
* **`Layer.entry_path`** — an entry has the path in normal form;
* **`Layer.isFile_iff`** — a file is an entry that is no directory;
* **`Layer.contents_entry`** — the bytes do not depend on the spelling;
* **`Layer.IsCopy`** — a node is the copy of a layer's file;
* **`Layer.ofFiles`** — the layer of some files. -/

namespace LayeredBundles

/-! ## (1) Catalogs -/

namespace Catalog

/-- The proper beginnings of a path are beginnings of it. -/
theorem mem_properBeginnings {xs segs : List String} (h : xs ∈ ArchivePath.properBeginnings segs) :
    xs <+: segs := by
  induction segs using ArchivePath.properBeginnings.induct generalizing xs with
  | case1 => cases h
  | case2 => cases h
  | case3 s t rest ih =>
    rcases List.mem_cons.1 h with rfl | h
    · exact List.prefix_append [s] (t :: rest)
    · obtain ⟨ys, hys, rfl⟩ := List.mem_map.1 h
      exact (List.prefix_cons_inj s).2 (ih hys)

/-- What stands above a path is in normal form. -/
theorem normalize_of_mem_ancestors {path above : String} (h : above ∈ ArchivePath.ancestors path) :
    ArchivePath.normalize above = above := by
  obtain ⟨segs, hsegs, rfl⟩ := List.mem_map.1 h
  rw [ArchivePath.normalize, ArchivePath.segments_ofSegments fun s hs =>
    ArchivePath.isSegment_of_mem_segments ((mem_properBeginnings hsegs).subset hs)]

section Induction

variable {P : Table String Entry → Prop}
  (hinsert : ∀ t e, P t → ArchivePath.normalize e.path = e.path → P (Table.insert e.path e t))

include hinsert

/-- What holds of a table and is kept by implied directories holds after any number of them. -/
theorem foldl_implyDirectory {paths : List String} (hpaths : ∀ p ∈ paths, ArchivePath.normalize p = p)
    {t : Table String Entry} (ht : P t) : P (paths.foldl implyDirectory t) := by
  induction paths generalizing t with
  | nil => exact ht
  | cons p paths ih =>
    refine ih (fun p' hp' => hpaths p' (List.mem_cons_of_mem _ hp')) ?_
    unfold implyDirectory
    split
    · exact ht
    · exact hinsert t (Entry.directory p 0) ht (hpaths p (by simp))

/-- **What is kept by implied directories and by new entries** is kept by inserting an entry. -/
theorem insert_induction {c : Catalog} (hc : P c.entries) (e : Entry) : P (c.insert e).entries := by
  have hpaths : ∀ p ∈ ArchivePath.ancestors (ArchivePath.normalize e.path), ArchivePath.normalize p = p :=
    fun p hp => normalize_of_mem_ancestors hp
  simp only [Catalog.insert]
  split
  · exact hc
  · split
    · exact hc
    -- The directories above come first, and then the entry.
    · generalize ArchivePath.ancestors (ArchivePath.normalize e.path) = paths at hpaths
      have hancestors := foldl_implyDirectory hinsert hpaths hc
      generalize paths.foldl implyDirectory c.entries = t at hancestors
      exact hinsert t { e with path := ArchivePath.normalize e.path } hancestors
        (ArchivePath.normalize_normalize _)

/-- **What holds of no entries, and still holds with an entry under its path in normal form**, holds of every
catalog. -/
theorem ofList_induction (hnil : P []) (es : List Entry) : P (ofList es).entries := by
  have hfold : ∀ (es : List Entry) (c : Catalog), P c.entries → P (es.foldl insert c).entries := by
    intro es
    induction es with
    | nil => exact fun c hc => hc
    | cons e es ih => exact fun c hc => ih _ (insert_induction hinsert hc e)
  exact hfold es empty hnil

end Induction

/-- Every entry stands under its own path. -/
def Keyed (t : Table String Entry) : Prop := ∀ k e, Table.find? t k = some e → e.path = k

/-- **Every entry of a catalog stands under its own path.** -/
theorem keyed_ofList (es : List Entry) : Keyed (ofList es).entries := by
  refine ofList_induction (fun t e ht _ k e' he' => ?_) (fun k e h => nomatch h) es
  rw [Table.find?_insert] at he'
  split at he'
  · next hk => cases he'; exact hk.symm
  · exact ht k e' he'

/-- **The keys of a catalog are paths in normal form.** -/
theorem normal_ofList (es : List Entry) : ∀ p ∈ (ofList es).entries, ArchivePath.normalize p.1 = p.1 := by
  refine ofList_induction (P := fun t => ∀ p ∈ t, ArchivePath.normalize p.1 = p.1) (fun t e ht he p hp => ?_)
    (fun p hp => nomatch hp) es
  rcases Table.mem_insert hp with rfl | hp
  · exact he
  · exact ht p hp

end Catalog

/-- **The recorded time as an instant** has the same seconds, and no nanoseconds. -/
theorem Entry.modified_eq (e : Entry) : e.modified.seconds = e.timestamp ∧ e.modified.nanos = 0 := by
  have htotal : e.modified = Instant.ofTotal (e.timestamp * 1000000000) := by
    have hepoch : Instant.epoch.total = 0 := rfl
    unfold modified
    dsimp only
    split
    · have heq : (0 : Int) + ((e.timestamp.natAbs * 1000000000 : Nat) : Int) = e.timestamp * 1000000000 := by omega
      rw [Instant.add, hepoch, heq]
    · have heq : (0 : Int) - ((e.timestamp.natAbs * 1000000000 : Nat) : Int) = e.timestamp * 1000000000 := by omega
      rw [Instant.sub, hepoch, heq]
  rw [htotal]
  exact ⟨Int.mul_fdiv_cancel _ (by decide), by simp [Instant.ofTotal, Int.mul_fmod_left]⟩

/-- **An instant in whole seconds** is rounded down, as long as the seconds are a signed number of 64 bits. The first
instant of them all is the exception: its distance from 1970 is one second too long to be counted. -/
theorem Instant.wholeSeconds_eq (i : Instant) (hlow : -(2 ^ 63) ≤ i.seconds) (hhigh : i.seconds < 2 ^ 63) :
    i.wholeSeconds = if i.seconds = -(2 ^ 63) ∧ i.nanos = 0 then i.seconds + 1 else i.seconds := by
  have htotal : i.total = i.seconds * 1000000000 + i.nanos := rfl
  have hnanos := i.nanos_lt
  unfold wholeSeconds sinceEpoch maxSeconds
  split
  · next d hd =>
    split at hd <;> cases hd
    split <;> omega
  · next d hd =>
    split at hd <;> cases hd
    dsimp only
    split <;> split <;> omega

/-- **The recorded time is found again in whole seconds**, if it is a number of 63 bits in either direction. -/
theorem Entry.wholeSeconds_modified (e : Entry) (hlow : -(2 ^ 63) < e.timestamp) (hhigh : e.timestamp < 2 ^ 63) :
    e.modified.wholeSeconds = e.timestamp := by
  obtain ⟨hseconds, -⟩ := e.modified_eq
  rw [← hseconds] at hlow hhigh
  rw [Instant.wholeSeconds_eq _ (Int.le_of_lt hlow) hhigh, if_neg fun hfirst => Int.ne_of_gt hlow hfirst.1, hseconds]

namespace Layer

variable {l : Layer} {path : String} {e : Entry}

/-! ## (2) Entries -/

/-- A layer has the entries of its catalog. -/
theorem entry_eq_ok : l.entry path = .ok e ↔ l.catalog.get? path = some e := by
  unfold entry
  cases l.catalog.get? path <;> simp

/-- An entry has the path that was asked for, in normal form. -/
theorem entry_path (h : l.entry path = .ok e) : e.path = ArchivePath.normalize path := by
  rw [entry_eq_ok, Catalog.get?, l.catalog_eq] at h
  exact Catalog.keyed_ofList _ _ _ h

/-- Asking by the normal form is asking for the same entry. -/
theorem entry_normalize (l : Layer) (path : String) : l.entry (ArchivePath.normalize path) = l.entry path := by
  simp [entry, Catalog.get?]

/-- What is a file has an entry that is no directory. -/
theorem isFile_iff : l.isFile path = true ↔ ∃ e, l.entry path = .ok e ∧ e.isDir = false := by
  simp only [isFile, Catalog.isFile, Option.any_eq_true, Bool.not_eq_eq_eq_not, Bool.not_true, entry_eq_ok]

/-- A file is one however its path is written. -/
theorem isFile_normalize (l : Layer) (path : String) :
    l.isFile (ArchivePath.normalize path) = l.isFile path := by
  simp [isFile, Catalog.isFile, Catalog.get?]

/-! ## (3) Bytes -/

/-- What is written out does not depend on how the path is written. -/
theorem writeOut_normalize (l : Layer) (path : String) :
    l.writeOut (ArchivePath.normalize path) = l.writeOut path := by
  simp [writeOut, readable, entry_normalize]

/-- Nor does what is read. -/
theorem contents_normalize (l : Layer) (path : String) :
    l.contents (ArchivePath.normalize path) = l.contents path := by
  simp [contents, writeOut_normalize]

/-- An entry is read by its own path. -/
theorem contents_entry (h : l.entry path = .ok e) : l.contents e.path = l.contents path := by
  rw [entry_path h, contents_normalize]

/-- `l.IsCopy path n`: the node is a copy of the layer's file at that path. -/
def IsCopy (l : Layer) (path : String) (n : Node) : Prop :=
  ∃ e c, l.entry path = .ok e ∧ e.isDir = false ∧ l.contents path = .ok c ∧ n = .file c e.modified

/-- Copies of a file are those of its path in normal form. -/
theorem isCopy_normalize {n : Node} : l.IsCopy (ArchivePath.normalize path) n ↔ l.IsCopy path n := by
  simp [IsCopy, entry_normalize, contents_normalize]

/-- Only files have copies. -/
theorem IsCopy.isFile {n : Node} (h : l.IsCopy path n) : l.isFile path = true := by
  obtain ⟨e, c, he, hdir, -, -⟩ := h
  exact isFile_iff.2 ⟨e, he, hdir⟩

/-- There is but one copy of a file. -/
theorem IsCopy.unique {n n' : Node} (h : l.IsCopy path n) (h' : l.IsCopy path n') : n = n' := by
  obtain ⟨e, c, he, -, hc, rfl⟩ := h
  obtain ⟨e', c', he', -, hc', rfl⟩ := h'
  rw [he] at he'
  rw [hc] at hc'
  cases he'
  cases hc'
  rfl

/-- A copy does not depend on the spelling of the path. -/
theorem IsCopy.of_steps {path' : String} {n : Node} (h : l.IsCopy path' n)
    (hsteps : DiskPath.steps path' = DiskPath.steps path) : l.IsCopy path n := by
  have hnormal : ArchivePath.normalize path' = ArchivePath.normalize path :=
    congrArg ArchivePath.ofSegments hsteps
  rwa [← isCopy_normalize, ← hnormal, isCopy_normalize]

/-! ## (4) Layers of given files -/

/-- Members for files whose bytes stand one after another from an offset on. -/
def storedFrom (timestamp : Int) : Nat → List (String × ByteArray) → List Member
  | _, [] => []
  | offset, (path, contents) :: rest =>
    ⟨Entry.file path contents.size timestamp, none, .span offset contents.size⟩ ::
      storedFrom timestamp (offset + contents.size) rest

/-- The layer of some files, all of the same time. -/
def ofFiles (name : String) (timestamp : Int) (files : List (String × ByteArray)) : Layer :=
  let members := storedFrom timestamp 0 files
  ⟨name, .tar, Medium.ofBytes (files.foldl (fun d f => d ++ f.2) .empty), members,
    Catalog.ofList (members.map (·.entry)), rfl⟩

end Layer

end LayeredBundles
