import LayeredBundles.Proofs.DataFiles
import LayeredBundles.Proofs.Merging

/-! # Where data files are found

A data file is looked for root by root and, inside a root, layer by layer. A file ends the search, and so does a root
with a layer that is not open; a directory does not, all it does is to change the error when no file is found. What the
search comes to is told here by what the roots have, without the search itself.

* **`Root.HasFile`**, **`Root.HasDirectory`** — what the open layers of a root have at a path;
* **`Root.Passes`** — the search goes on behind a root;
* **`Importer.Located`** — what looking for a data file comes to;
* **`Importer.locateDataIn_append`** — the search behind roots that it passes;
* **`Importer.locateData_verdict`** — looking for a data file comes to just that, and reading it and making its artifact
  follow. -/

namespace LayeredBundles

open Fallible

/-! ## (1) What a root has at a path -/

namespace Root

variable {r : Root} {path name : String} {reason : BrokenReason} {l : Layer} {token : Option String}
  {above below : List Slot}

/-- An open layer of the root has a file at the path. -/
def HasFile (r : Root) (path : String) : Prop := ∃ l, r.Opens l ∧ l.isFile path = true

/-- An open layer of the root has a directory at the path. -/
def HasDirectory (r : Root) (path : String) : Prop := ∃ l, r.Opens l ∧ l.isDirectory path = true

/-- `r.Passes path`: the search for a data file goes on behind the root. -/
structure Passes (r : Root) (path : String) : Prop where
  /-- All its layers are open. -/
  opened : ¬ r.IsBroken
  /-- None of them has a file there. -/
  absent : ¬ r.HasFile path

/-- Whether some open layer of the root has a directory at the path, as the search asks it. -/
def showsDirectory (r : Root) (path : String) : Bool := r.openLayers.any fun l => l.2.isDirectory path

/-- A root shows a directory if one of its open layers has one there. -/
theorem showsDirectory_iff : r.showsDirectory path = true ↔ r.HasDirectory path := by
  simp only [showsDirectory, HasDirectory, List.any_eq_true, opens_iff]
  constructor
  · intro ⟨⟨i, l⟩, hl, hdirectory⟩
    exact ⟨l, ⟨i, hl⟩, hdirectory⟩
  · intro ⟨l, ⟨i, hl⟩, hdirectory⟩
    exact ⟨(i, l), hl, hdirectory⟩

/-- No layer comes first if none has the file. -/
theorem first?_eq_none : r.first? path = none ↔ ¬ r.HasFile path := by
  rw [first?, List.find?_eq_none]
  constructor
  · rintro hnone ⟨l, hl, hfile⟩
    obtain ⟨i, hi⟩ := opens_iff.1 hl
    exact hnone (i, l) hi hfile
  · intro hnot l hl hfile
    exact hnot ⟨l.2, opens_iff.2 ⟨l.1, hl⟩, hfile⟩

/-- The layer that a path is taken from stands behind layers without a file there. -/
theorem first?_eq_some {j : Nat} : r.first? path = some (j, l) ↔ ∃ above token below,
    r.slots = above ++ .opened l token :: below ∧ above.length = j ∧ l.isFile path = true ∧
      ∀ l' token', .opened l' token' ∈ above → l'.isFile path = false := by
  rw [first?_eq_some_iff, mem_openLayers]
  constructor
  · rintro ⟨⟨token, hslot⟩, hfile, hleast⟩
    obtain ⟨hj, hget⟩ := List.getElem?_eq_some_iff.1 hslot
    refine ⟨r.slots.take j, token, r.slots.drop (j + 1), ?_, List.length_take_of_le (Nat.le_of_lt hj), hfile,
      fun l' token' hmem => ?_⟩
    · rw [← hget, ← List.drop_eq_getElem_cons hj, List.take_append_drop]
    · obtain ⟨k, hk, hget'⟩ := List.mem_take_iff_getElem.1 hmem
      by_contra hfile'
      have hslot' : r.slots[k]? = some (.opened l' token') := hget' ▸ List.getElem?_eq_getElem (by omega)
      have hle := hleast (k, l') (mem_openLayers.2 ⟨token', hslot'⟩) (by simpa using hfile')
      omega
  · rintro ⟨above, token, below, hslots, rfl, hfile, habove⟩
    refine ⟨⟨token, by simp [hslots]⟩, hfile, fun ⟨k, l'⟩ hmem hfile' => ?_⟩
    obtain ⟨token', hslot'⟩ := mem_openLayers.1 hmem
    by_contra hlt
    rw [hslots, List.getElem?_append_left (by omega)] at hslot'
    have hnot := habove l' token' (List.mem_of_getElem? hslot')
    rw [hfile'] at hnot
    cases hnot

/-- The first layer that is not open is what a root is refused for. -/
theorem BrokenBy.requireOpen_eq (h : r.BrokenBy name reason) :
    r.requireOpen = .error (.corruptArchive r.dir name reason) := by
  obtain ⟨before, after, hslots, hbefore⟩ := h
  obtain ⟨dir, slots, packages, timeout⟩ := r
  dsimp only at hslots
  subst hslots
  induction before with
  | nil => rfl
  | cons s before ih =>
    obtain ⟨l, token, rfl⟩ := hbefore s List.mem_cons_self
    exact ih fun s' hs' => hbefore s' (List.mem_cons_of_mem _ hs')

/-- A root with no broken layer is open. -/
theorem requireOpen_of_not_isBroken (h : ¬ r.IsBroken) : r.requireOpen = .ok () := by
  rcases r.requireOpen_verdict with ⟨-, hopen⟩ | ⟨name, reason, hbroken, -⟩
  · exact hopen
  · exact absurd hbroken.isBroken h

end Root

/-! ## (2) The search among roots -/

namespace Importer

variable {m : Importer} {path : String} {r : Root} {i j : Nat} {l : Layer} {saw : Bool}
  {before rest : List (Root × Nat)} {out : Except ImportFailure (Root × Nat × Nat)}

/-- A root with a layer that is not open ends the search. -/
theorem locateDataIn_broken {name : String} {reason : BrokenReason} (h : r.BrokenBy name reason) :
    locateDataIn path saw ((r, i) :: rest) = .error (.corruptArchive r.dir name reason) := by
  rw [locateDataIn, h.requireOpen_eq]
  rfl

/-- A file ends the search. -/
theorem locateDataIn_found (hopen : ¬ r.IsBroken) (hfirst : r.first? path = some (j, l)) :
    locateDataIn path saw ((r, i) :: rest) = .ok (r, i, j) := by
  have hfind : r.openLayers.find? (fun l => l.2.isFile path) = some (j, l) := hfirst
  rw [locateDataIn, Root.requireOpen_of_not_isBroken hopen]
  simp only [bind, Except.bind, hfind]
  rfl

/-- **One step**: behind a root that it passes the search goes on, and keeps in mind whether there was a directory. -/
theorem locateDataIn_passes (h : r.Passes path) :
    locateDataIn path saw ((r, i) :: rest) = locateDataIn path (saw || r.showsDirectory path) rest := by
  have hfind : r.openLayers.find? (fun l => l.2.isFile path) = none := Root.first?_eq_none.2 h.absent
  rw [locateDataIn, Root.requireOpen_of_not_isBroken h.opened]
  simp only [bind, Except.bind, hfind]
  rfl

/-- **The search behind roots that it passes.** -/
theorem locateDataIn_append (hbefore : ∀ p ∈ before, p.1.Passes path) :
    locateDataIn path saw (before ++ rest) =
      locateDataIn path (saw || before.any fun p => p.1.showsDirectory path) rest := by
  induction before generalizing saw with
  | nil => simp
  | cons p before ih =>
    rw [List.cons_append, locateDataIn_passes (hbefore p List.mem_cons_self),
      ih fun q hq => hbefore q (List.mem_cons_of_mem p hq), List.any_cons, Bool.or_assoc]

/-! ## (3) The verdict -/

/-- `m.Located path out`: this is what looking for a data file comes to. -/
inductive Located (m : Importer) (path : String) : Except ImportFailure (Root × Nat × Nat) → Prop where
  /-- The path may lead out of a directory. Nothing is asked of any root then. -/
  | refused (hpath : DiskPath.isContained path = false) : Located m path (.error (.accessDenied path))
  /-- Behind roots that pass the search on there is one with all its layers open, and in it, behind layers without a
  file there, a layer with one. -/
  | found {before after : List Root} {r : Root} {above below : List Slot} {l : Layer} {token : Option String}
      (hpath : DiskPath.isContained path = true) (hroots : m.roots = before ++ r :: after)
      (hbefore : ∀ q ∈ before, q.Passes path) (hopen : ¬ r.IsBroken)
      (hslots : r.slots = above ++ .opened l token :: below) (hfile : l.isFile path = true)
      (habove : ∀ l' token', .opened l' token' ∈ above → l'.isFile path = false) :
      Located m path (.ok (r, before.length, above.length))
  /-- Behind roots that pass the search on there is one with a layer that is not open; the first of these is named. -/
  | broken {before after : List Root} {r : Root} {name : String} {reason : BrokenReason}
      (hpath : DiskPath.isContained path = true) (hroots : m.roots = before ++ r :: after)
      (hbefore : ∀ q ∈ before, q.Passes path) (hbroken : r.BrokenBy name reason) :
      Located m path (.error (.corruptArchive r.dir name reason))
  /-- All roots pass the search on, and one of them has a directory there. -/
  | directory (hpath : DiskPath.isContained path = true) (hpasses : ∀ r ∈ m.roots, r.Passes path)
      (hdirectory : ∃ r ∈ m.roots, r.HasDirectory path) : Located m path (.error (.directory path))
  /-- All roots pass the search on, and none of them has a directory there. -/
  | missing (hpath : DiskPath.isContained path = true) (hpasses : ∀ r ∈ m.roots, r.Passes path)
      (hnone : ∀ r ∈ m.roots, ¬ r.HasDirectory path) : Located m path (.error (.notFound path))

/-- A path that stays inside is looked for in the roots. -/
theorem locateData_of_isContained (hpath : DiskPath.isContained path = true) :
    m.locateData path = locateDataIn path false m.indexed := by
  rw [locateData, Extraction.contained, if_pos hpath]
  rfl

/-- The search at a root behind roots that it passes. -/
theorem locateData_append {before after : List Root} (hpath : DiskPath.isContained path = true)
    (hroots : m.roots = before ++ r :: after) (hbefore : ∀ q ∈ before, q.Passes path) :
    ∃ saw rest, m.locateData path = locateDataIn path saw ((r, before.length) :: rest) := by
  rw [locateData_of_isContained hpath, indexed, hroots, List.zipIdx_append, List.zipIdx_cons,
    locateDataIn_append fun p hp => hbefore p.1 (List.fst_mem_of_mem_zipIdx hp), Nat.zero_add]
  exact ⟨_, _, rfl⟩

/-- The search among roots that it passes, all of them. -/
theorem locateData_of_passes (hpath : DiskPath.isContained path = true) (hpasses : ∀ r ∈ m.roots, r.Passes path) :
    m.locateData path =
      .error (if m.roots.any fun r => r.showsDirectory path then .directory path else .notFound path) := by
  have hany : (m.roots.any fun r => r.showsDirectory path) = m.indexed.any fun p => p.1.showsDirectory path := by
    conv_lhs => rw [← List.zipIdx_map_fst 0 m.roots, List.any_map]
    rfl
  have hrun : locateDataIn path false (m.indexed ++ []) =
      locateDataIn path (false || m.indexed.any fun p => p.1.showsDirectory path) [] :=
    locateDataIn_append fun p hp => hpasses p.1 (List.fst_mem_of_mem_zipIdx hp)
  rw [List.append_nil] at hrun
  rw [locateData_of_isContained hpath, hrun, hany, Bool.false_or]
  rfl

/-- **Looking for a data file comes to nothing else.** -/
theorem Located.locateData_eq (h : m.Located path out) : m.locateData path = out := by
  cases h with
  | refused hpath => rw [locateData, Extraction.contained, hpath]; rfl
  | found hpath hroots hbefore hopen hslots hfile habove =>
    obtain ⟨saw, rest, hsearch⟩ := locateData_append hpath hroots hbefore
    rw [hsearch, locateDataIn_found hopen (Root.first?_eq_some.2 ⟨_, _, _, hslots, rfl, hfile, habove⟩)]
  | broken hpath hroots hbefore hbroken =>
    obtain ⟨saw, rest, hsearch⟩ := locateData_append hpath hroots hbefore
    rw [hsearch, locateDataIn_broken hbroken]
  | directory hpath hpasses hdirectory =>
    obtain ⟨r, hr, hdirectory⟩ := hdirectory
    rw [locateData_of_passes hpath hpasses,
      if_pos (List.any_eq_true.2 ⟨r, hr, Root.showsDirectory_iff.2 hdirectory⟩)]
  | missing hpath hpasses hnone =>
    have hnot : ¬ (m.roots.any fun r => r.showsDirectory path) = true := by
      intro hany
      obtain ⟨r, hr, hdirectory⟩ := List.any_eq_true.1 hany
      exact hnone r hr (Root.showsDirectory_iff.1 hdirectory)
    rw [locateData_of_passes hpath hpasses, if_neg hnot]

/-- Roots either all pass the search on, or there is a first one that does not. -/
theorem passes_or_first (path : String) (roots : List Root) : (∀ r ∈ roots, r.Passes path) ∨
    ∃ before r after, roots = before ++ r :: after ∧ (∀ q ∈ before, q.Passes path) ∧ ¬ r.Passes path := by
  induction roots with
  | nil => exact .inl (List.forall_mem_nil _)
  | cons r roots ih =>
    by_cases hr : r.Passes path
    · rcases ih with hall | ⟨before, r', after, rfl, hbefore, hr'⟩
      · exact .inl (List.forall_mem_cons.2 ⟨hr, hall⟩)
      · exact .inr ⟨r :: before, r', after, rfl, List.forall_mem_cons.2 ⟨hr, hbefore⟩, hr'⟩
    · exact .inr ⟨[], r, roots, rfl, List.forall_mem_nil _, hr⟩

/-- **Looking for a data file comes to something**, whatever the roots. -/
theorem exists_located (m : Importer) (path : String) : ∃ out, m.Located path out := by
  by_cases hpath : DiskPath.isContained path = true
  · rcases passes_or_first path m.roots with hall | ⟨before, r, after, hroots, hbefore, hr⟩
    · by_cases hdirectory : ∃ r ∈ m.roots, r.HasDirectory path
      · exact ⟨_, .directory hpath hall hdirectory⟩
      · exact ⟨_, .missing hpath hall fun r hr hdir => hdirectory ⟨r, hr, hdir⟩⟩
    · rcases r.requireOpen_verdict with ⟨hopen, -⟩ | ⟨name, reason, hbroken, -⟩
      · rcases hfirst : r.first? path with _ | ⟨j, l⟩
        · exact absurd ⟨hopen, Root.first?_eq_none.1 hfirst⟩ hr
        · obtain ⟨above, token, below, hslots, -, hfile, habove⟩ := Root.first?_eq_some.1 hfirst
          exact ⟨_, .found hpath hroots hbefore hopen hslots hfile habove⟩
      · exact ⟨_, .broken hpath hroots hbefore hbroken⟩
  · exact ⟨_, .refused (by simpa using hpath)⟩

/-- A data file that is not found is neither read nor made. -/
theorem refused_of_locateData {e : ImportFailure} (h : m.locateData path = .error e) :
    m.dataBytes path = .ok (.error e) ∧ ∀ s, (m.makeDataArtifact path).outcome s = (.error e, s) := by
  constructor
  · rw [dataBytes, h]
    rfl
  · intro s
    rw [makeDataArtifact, h]
    exact outcome_bind_error (outcome_ofExcept _ _) _

/-- **Where a data file is found.** For every importer and every path, looking for a data file comes to exactly one of
five things, told by what the roots have there:

1. a path that may lead out of a directory is refused, whatever the roots are;
2. else it is the first layer, in the order of roots and of layers in them, that has a file there, provided that up to
   its root, this one included, no root has a layer that is not open;
3. if a root with a layer that is not open comes first, it fails with the first such layer of that root;
4. if no layer of any root has a file there, it fails with a directory if some layer has one, however early,
5. and as missing if none has.

Reading the file and making its artifact both choose like that. If the search fails they fail in the same way, and
nothing is changed; else the bytes and the artifact are those of the layer that was found. -/
theorem locateData_verdict (m : Importer) (path : String) :
    (∀ out, m.locateData path = out ↔ m.Located path out) ∧
    (∀ e, m.Located path (.error e) →
      m.dataBytes path = .ok (.error e) ∧ ∀ s, (m.makeDataArtifact path).outcome s = (.error e, s)) ∧
    ∀ r i j, m.Located path (.ok (r, i, j)) → ∃ l token, r.slots[j]? = some (.opened l token) ∧
      m.dataBytes path = (l.read path).map (·.mapError .ofArchive) ∧
      ∀ s, ((m.makeDataArtifact path).outcome s).1 = ((Extraction.makeArtifact r.dir l path).outcome s.workspace).1 ∧
        ((m.makeDataArtifact path).outcome s).2.workspace
          = ((Extraction.makeArtifact r.dir l path).outcome s.workspace).2 := by
  refine ⟨fun out => ⟨fun hout => ?_, Located.locateData_eq⟩, fun e h => refused_of_locateData h.locateData_eq,
    fun r i j h => ?_⟩
  · obtain ⟨out', hlocated⟩ := m.exists_located path
    rwa [← hout, hlocated.locateData_eq]
  · have hlocate := h.locateData_eq
    obtain ⟨-, l, hfirst⟩ := first?_of_locateData hlocate
    obtain ⟨token, hslot⟩ := Root.mem_openLayers.1 (Root.mem_of_first? hfirst)
    exact ⟨l, token, hslot, dataBytes_eq hlocate hfirst, outcome_makeDataArtifact hlocate hfirst⟩

/-- A root with a directory at "d/f" in its first layer and a file there in its second. -/
def shadowedRoot : Root where
  dir := "/x"
  slots := [.opened (.ofFiles "a" 1 [("d/f/g", .empty)]) none, .opened (.ofFiles "b" 1 [("d/f", .empty)]) none]
  extractPackages := []
  lockTimeout := 1

/-- An importer with that root in front of one whose layer is not open. -/
def shadowed : Importer :=
  new [shadowedRoot, ⟨"/y", [.broken "c" (.stated "gone")], [], 1⟩] Layout.standard fun _ _ => .ok ()

/-- The directory does not hide the file, and the second root is of no account for it; a file that the first root does
not have is refused for the sake of the second. -/
theorem shadowed_verdict : shadowed.Located "d/f" (.ok (shadowedRoot, 0, 1)) ∧
    shadowed.locateData "d/f" = .ok (shadowedRoot, 0, 1) ∧
    (∃ l token, shadowedRoot.slots[1]? = some (.opened l token) ∧
      shadowed.dataBytes "d/f" = (l.read "d/f").map (·.mapError .ofArchive)) ∧
    shadowed.Located "e" (.error (.corruptArchive "/y" "c" (.stated "gone"))) ∧
    shadowed.dataBytes "e" = .ok (.error (.corruptArchive "/y" "c" (.stated "gone"))) := by
  have hopen : ¬ shadowedRoot.IsBroken := by simp [Root.IsBroken, shadowedRoot]
  have hslots : shadowedRoot.slots = [.opened (.ofFiles "a" 1 [("d/f/g", .empty)]) none] ++
      .opened (.ofFiles "b" 1 [("d/f", .empty)]) none :: [] := rfl
  have hroots : shadowed.roots = [] ++ shadowedRoot :: [⟨"/y", [.broken "c" (.stated "gone")], [], 1⟩] := rfl
  have habove : (Layer.ofFiles "a" 1 [("d/f/g", .empty)]).isFile "d/f" = false := by decide +kernel
  have hfound : shadowed.Located "d/f" (.ok (shadowedRoot, 0, 1)) := by
    have h : DiskPath.isContained "d/f" = true := by decide +kernel
    exact Located.found h hroots (List.forall_mem_nil _) hopen hslots (by decide +kernel) (by simpa using habove)
  have habsent : (shadowedRoot.first? "e").isNone = true := by decide +kernel
  have hpasses : shadowedRoot.Passes "e" := ⟨hopen, Root.first?_eq_none.1 (Option.isNone_iff_eq_none.1 habsent)⟩
  have hroots' : shadowed.roots = [shadowedRoot] ++ ⟨"/y", [.broken "c" (.stated "gone")], [], 1⟩ :: [] := rfl
  have hbroken : shadowed.Located "e" (.error (.corruptArchive "/y" "c" (.stated "gone"))) :=
    .broken (by decide +kernel) hroots' (by simpa using hpasses) ⟨[], [], rfl, List.forall_mem_nil _⟩
  obtain ⟨-, -, hbytes⟩ := locateData_verdict shadowed "d/f"
  obtain ⟨-, hrefused, -⟩ := locateData_verdict shadowed "e"
  obtain ⟨l, token, hslot, hread, -⟩ := hbytes shadowedRoot 0 1 hfound
  exact ⟨hfound, hfound.locateData_eq, ⟨l, token, hslot, hread⟩, hbroken, (hrefused _ hbroken).1⟩

end Importer

end LayeredBundles
