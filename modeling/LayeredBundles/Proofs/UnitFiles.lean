import LayeredBundles.Config.Settings
import LayeredBundles.Proofs.Unpacking

/-! # The file of a unit that was found

The artifact of a unit can be written by whoever finds the unit, asks for its path as a data file, or needs it
as a library; all of them take it from the first layer that has it. Unpacking a package takes files from every
layer, but none that has the name of a unit. So a file with the name of a unit that stands in an extraction
directory is the copy of the first layer's file.

* **`Layout.IsSound`** — what the check of settings says of a layout;
* **`Importer.unitSupply`** — files with the name of a unit are taken from the first layer;
* **`Importer.Past`** — what an importer was asked for, each unit after it was found;
* **`Importer.Embodies`** — a file on disk has the bytes and the time of a unit;
* **`Importer.embodies_of_past`** — a unit's file on disk is the unit. -/

namespace LayeredBundles

open FileTree Fallible

/-! ## (1) Names of unit files -/

namespace Text

variable {sep c : Char} {a b : String}

/-- What is added to the last piece stands at the end of the whole. -/
theorem joinChars_append_last (sep : Char) (front : List (List Char)) (last more : List Char) :
    joinChars sep (front ++ [last ++ more]) = joinChars sep (front ++ [last]) ++ more := by
  induction front with
  | nil => rfl
  | cons s front ih =>
    cases front with
    | nil => simp [joinChars]
    | cons t rest =>
      simp only [List.cons_append, joinChars] at ih ⊢
      rw [ih, List.append_assoc, List.cons_append]

/-- The same for texts. -/
theorem join_append_last (sep : Char) (front : List String) (last more : String) :
    join sep (front ++ [last ++ more]) = join sep (front ++ [last]) ++ more := by
  apply String.toList_injective
  simp [join, joinChars_append_last]

/-- A text that begins with one that has no point does not begin with a point. -/
theorem not_startsWith_point (ha : a ≠ "") (hdot : '.' ∉ a.toList) (b : String) : startsWith "." (a ++ b) = false := by
  obtain ⟨c, cs, hc⟩ := List.exists_cons_of_ne_nil (show a.toList ≠ [] by simpa using ha)
  have hne : c ≠ '.' := by
    rintro rfl
    exact hdot (by simp [hc])
  simp [startsWith, hc, List.isPrefixOf, Ne.symm hne]

/-- What stands before the first separator is the first piece. -/
theorem exists_split (sep : Char) (s : String) : ∃ rest, split sep s = beforeFirst sep s :: rest := by
  have hchars : ∀ cs : List Char, ∃ rest, splitChars sep cs = cs.takeWhile (· ≠ sep) :: rest := by
    intro cs
    induction cs with
    | nil => exact ⟨[], rfl⟩
    | cons c cs ih =>
      by_cases hc : c = sep
      · exact ⟨splitChars sep cs, by simp [splitChars, hc]⟩
      · obtain ⟨rest, hrest⟩ := ih
        exact ⟨rest, by simp [splitChars, hc, hrest, consFirst]⟩
  obtain ⟨rest, hrest⟩ := hchars s.toList
  exact ⟨rest.map String.ofList, by rw [split, hrest, List.map_cons, beforeFirst]⟩

end Text

namespace UnitName

variable {name : String}

/-- A segment is a text without slashes of either kind that is not empty. -/
theorem isSegment_iff : isSegment name = true ↔ name ≠ "" ∧ '/' ∉ name.toList ∧ '\\' ∉ name.toList := by
  simp [isSegment, Text.hasChar, and_assoc]

/-- No segment of a name that can be looked up holds a slash, and none is empty. -/
theorem proper_of_isValid (h : isValid name = true) : ∀ s ∈ segments name, s ≠ "" ∧ '/' ∉ s.toList := by
  intro s hs
  obtain ⟨hne, hslash, -⟩ := isSegment_iff.1 (List.all_eq_true.1 h s hs)
  exact ⟨hne, hslash⟩

/-- The path of a name has the segments of the name. -/
theorem segments_path (h : isValid name = true) : DiskPath.segments (path name) = segments name :=
  Text.split_join (Text.split_ne_nil '.' name) fun s hs => (proper_of_isValid h s hs).2

end UnitName

namespace Layout

/-- What the check of settings says of a layout. -/
structure IsSound (l : Layout) : Prop where
  /-- The marker can name a file. -/
  marker : Settings.isMarker l.packageMarker = true
  /-- Suffixes can end a file name. -/
  suffix : ∀ kind, ∀ s ∈ l.suffixes kind, Settings.isSuffix s = true

/-- Suffixes that pass the check are suffixes. -/
theorem isSuffix_of_checkSuffixes {seen ss : List String} (h : Settings.checkSuffixes seen ss = .ok ()) :
    ∀ s ∈ ss, Settings.isSuffix s = true := by
  induction ss generalizing seen with
  | nil => simp
  | cons s ss ih =>
    unfold Settings.checkSuffixes at h
    split at h
    · cases h
    · next hs =>
      split at h
      · cases h
      · intro s' hs'
        rcases List.mem_cons.1 hs' with rfl | hs'
        · simpa using hs
        · exact ih h s' hs'

/-- **The layout of settings that pass the check is sound.** -/
theorem isSound_of_check {settings : Settings} (h : settings.check = .ok ()) : settings.layout.IsSound := by
  unfold Settings.check at h
  split at h
  · cases h
  · split at h
    · cases h
    · next hmarker =>
      obtain ⟨u, hsuffixes, -⟩ := exists_of_bind_eq_ok h
      have hall := isSuffix_of_checkSuffixes (show Settings.checkSuffixes [] _ = .ok () from hsuffixes)
      refine ⟨by simpa using hmarker, fun kind s hs => hall s ?_⟩
      cases kind <;> simp only [suffixes] at hs <;> simp [hs]

variable {layout : Layout}

/-- A stem with a suffix names the file of a unit. -/
theorem isUnitFile_append {kind : Kind} {stem suffix : String} (hstem : stem ≠ "")
    (hsuffix : suffix ∈ layout.suffixes kind) : layout.isUnitFile (stem ++ suffix) = true := by
  unfold isUnitFile kindAndStem?
  rw [List.findSome?_isSome_iff]
  refine ⟨kind, by cases kind <;> simp [Kind.all], List.findSome?_isSome_iff.2 ⟨suffix, hsuffix, ?_⟩⟩
  rw [Text.dropEnd?_eq_some_iff.2 rfl]
  simp [hstem]

/-- In a sound layout neither suffixes nor markers have slashes. -/
theorem IsSound.slash (h : layout.IsSound) {suffix : String} {kind : Kind} (hsuffix : suffix ∈ layout.suffixes kind) :
    '/' ∉ suffix.toList ∧ '/' ∉ (layout.packageMarker ++ suffix).toList := by
  have hsound := h.suffix kind suffix hsuffix
  have hmarker := h.marker
  simp only [Settings.isSuffix, Settings.isMarker, Text.hasChar, List.contains_eq_mem, Bool.and_eq_true,
    Bool.not_eq_true', decide_eq_false_iff_not] at hsound hmarker
  exact ⟨hsound.2, by simp [hsound.2, hmarker.1.1.2]⟩

/-- The file of a package has the name of the marker, in the directory of the package. -/
theorem IsSound.segments_package (h : layout.IsSound) {name suffix : String} {kind : Kind}
    (hvalid : UnitName.isValid name = true) (hsuffix : suffix ∈ layout.suffixes kind) :
    DiskPath.segments (layout.pathFor (UnitName.path name) .package suffix) =
      UnitName.segments name ++ [layout.packageMarker ++ suffix] := by
  rw [pathFor, String.append_assoc, DiskPath.segments, Text.split_append_slash,
    Text.split_of_not_mem (h.slash hsuffix).2]
  exact congrArg (· ++ _) (UnitName.segments_path hvalid)

/-- The file of a module has the last segment as its name. -/
theorem IsSound.segments_module (h : layout.IsSound) {name suffix last : String} {front : List String} {kind : Kind}
    (hvalid : UnitName.isValid name = true) (hsuffix : suffix ∈ layout.suffixes kind)
    (hlast : UnitName.segments name = front ++ [last]) :
    DiskPath.segments (layout.pathFor (UnitName.path name) .module suffix) = front ++ [last ++ suffix] := by
  have hproper := UnitName.proper_of_isValid hvalid
  rw [hlast] at hproper
  rw [pathFor, UnitName.path, hlast, ← Text.join_append_last, DiskPath.segments]
  refine Text.split_join (by simp) fun s hs => ?_
  rcases List.mem_append.1 hs with hs | hs
  · exact (hproper s (List.mem_append_left _ hs)).2
  · rw [List.mem_singleton.1 hs]
    simp [(hproper last (by simp)).2, (h.slash hsuffix).1]

/-- **Where a unit's file stands**: it has the name of a unit, and no name on its path begins with a point. -/
theorem IsSound.segments_pathFor (h : layout.IsSound) {name suffix : String} {form : Form} {kind : Kind}
    (hvalid : UnitName.isValid name = true) (hsuffix : suffix ∈ layout.suffixes kind) :
    ∃ names nm, DiskPath.segments (layout.pathFor (UnitName.path name) form suffix) = names ++ [nm] ∧
      layout.isUnitFile nm = true ∧ ∀ s ∈ names ++ [nm], s ≠ "" ∧ Text.startsWith "." s = false := by
  -- A segment of a name has no point, for it was split there.
  have hproper : ∀ s ∈ UnitName.segments name, s ≠ "" ∧ '.' ∉ s.toList := fun s hs =>
    ⟨(UnitName.proper_of_isValid hvalid s hs).1, Text.not_mem_of_mem_split hs⟩
  have hvisible : ∀ s ∈ UnitName.segments name, s ≠ "" ∧ Text.startsWith "." s = false := fun s hs =>
    ⟨(hproper s hs).1, by simpa using Text.not_startsWith_point (hproper s hs).1 (hproper s hs).2 ""⟩
  cases form with
  | package =>
    have hmarker := h.marker
    simp only [Settings.isMarker, ne_eq, decide_not, Bool.and_eq_true, Bool.not_eq_eq_eq_not, Bool.not_true,
      decide_eq_false_iff_not] at hmarker
    obtain ⟨⟨⟨hne, -⟩, -⟩, hmarkerdot⟩ := hmarker
    refine ⟨_, _, h.segments_package hvalid hsuffix, isUnitFile_append hne hsuffix, fun s hs => ?_⟩
    rcases List.mem_append.1 hs with hs | hs
    · exact hvisible s hs
    · rw [List.mem_singleton.1 hs]
      exact ⟨fun heq => hne (String.append_eq_empty_iff.1 heq).1,
        Text.not_startsWith_point hne (by simpa [Text.hasChar] using hmarkerdot) suffix⟩
  | module =>
    obtain ⟨front, last, hlast⟩ := List.eq_nil_or_concat (UnitName.segments name) |>.resolve_left
      (Text.split_ne_nil '.' name)
    rw [List.concat_eq_append] at hlast
    rw [hlast] at hproper hvisible
    obtain ⟨hne, hdot⟩ := hproper last (by simp)
    refine ⟨_, _, h.segments_module hvalid hsuffix hlast, isUnitFile_append hne hsuffix, fun s hs => ?_⟩
    rcases List.mem_append.1 hs with hs | hs
    · exact hvisible s (List.mem_append_left _ hs)
    · rw [List.mem_singleton.1 hs]
      exact ⟨fun heq => hne (String.append_eq_empty_iff.1 heq).1, Text.not_startsWith_point hne hdot suffix⟩

end Layout

/-! ## (2) Units that were found -/

namespace Importer

variable {m : Importer} {store : RecordStore} {ds : Nat → Place} {place : Option Place} {s s' s₀ : ImporterState}
  {w w' : Workspace} {us : List FoundUnit} {u : FoundUnit} {r : Root} {l : Layer} {names : List String}
  {nm p : String} {i : Nat}

/-- `m.Found u r l names nm`: the file of a unit is that of the first layer that has it; it has the name of a unit, and
no name on its path begins with a point. -/
structure Found (m : Importer) (u : FoundUnit) (r : Root) (l : Layer) (names : List String) (nm : String) : Prop where
  /-- The root of the unit. -/
  root : m.roots[u.rootIndex]? = some r
  /-- The layer of the unit. -/
  first : r.first? u.path = some (u.layerIndex, l)
  /-- The steps of its path. -/
  steps : DiskPath.steps u.path = names ++ [nm]
  /-- The name of its file. -/
  isUnitFile : m.layout.isUnitFile nm = true
  /-- No name is hidden. -/
  visible : ∀ x ∈ names ++ [nm], Text.startsWith "." x = false

/-- **What is found is a unit of the first layer.** -/
theorem exists_found (hlayout : m.layout.IsSound) {name : String}
    (h : (m.resolve name).outcome s = (.ok u, s')) : ∃ r l names nm, m.Found u r l names nm := by
  obtain ⟨hvalid, r, i, hit, artifact, rs, hr, -, hfind, -, -, hunit⟩ := exists_of_resolve h
  obtain ⟨l', -, rfl⟩ := Hit.exists_of_unit hunit
  obtain ⟨l, hfirst⟩ := Root.first?_of_find? hfind
  obtain ⟨suffix, hsuffix, hpath⟩ := Root.exists_suffix_of_find? hfind
  obtain ⟨names, nm, hsegments, hunitfile, hnames⟩ : ∃ names nm, DiskPath.segments hit.path = names ++ [nm] ∧
      m.layout.isUnitFile nm = true ∧ ∀ s ∈ names ++ [nm], s ≠ "" ∧ Text.startsWith "." s = false := by
    rw [hpath]
    exact hlayout.segments_pathFor hvalid hsuffix
  refine ⟨r, l, names, nm, hr, hfirst, ?_, hunitfile, fun x hx => (hnames x hx).2⟩
  rw [← hsegments]
  refine List.filter_eq_self.2 fun x hx => ?_
  obtain ⟨hne, hvisible⟩ := hnames x (hsegments ▸ hx)
  have hhere : x ≠ "." := by
    rintro rfl
    exact absurd hvisible (by decide)
  simp [DiskPath.counts, hne, hhere]

/-- Files with the name of a unit are taken from the first layer that has them. -/
def unitSupply (m : Importer) : Supply := fun r l path =>
  ∀ names nm, DiskPath.steps path = names ++ [nm] → m.layout.isUnitFile nm = true → r.first? path = some l

/-- All that an importer makes for units is in their supply. -/
theorem admits_unitSupply (m : Importer) : m.Admits m.unitSupply where
  first r _ l path h _ _ _ _ := h
  data r _ l _ package path hpath names nm hsteps hunit := by
    obtain ⟨names', nm', hsegments, hproper, hdata⟩ := Root.segments_of_mem_packageData hpath
    -- A data file has no such name, so for data files there is nothing to be shown.
    have hnm : nm' = nm := by
      have hcounts : DiskPath.counts nm' = true := by
        have := hproper nm' (by simp)
        simp [DiskPath.counts, this.1, this.2.1]
      have hsteps' : DiskPath.steps path
          = (DiskPath.segments package ++ names').filter DiskPath.counts ++ [nm'] := by
        rw [DiskPath.steps, hsegments, ← List.append_assoc, List.filter_append, List.filter_cons_of_pos hcounts,
          List.filter_nil]
      have hlast := (List.append_inj' (hsteps'.symm.trans hsteps) rfl).2
      simpa using hlast
    rw [← hnm, hdata] at hunit
    cases hunit

/-- A unit that was found is supplied from its own layer. -/
theorem Found.supplies (h : m.Found u r l names nm) : m.Supplies m.unitSupply u := by
  intro r' l' hr' hl' _ _ _ _
  cases h.root.symm.trans hr'
  rw [h.first, Root.openLayers_unique (Root.mem_of_first? h.first) hl']

end Importer

/-! ## (3) The file of a unit stays -/

namespace Root

/-- `r.Level`: no path that is a file in one layer stands above an entry of any layer. -/
def Level (r : Root) : Prop :=
  ∀ l ∈ r.openLayers, ∀ l' ∈ r.openLayers, ∀ e ∈ l.2.entries, ∀ e' ∈ l'.2.entries, e.isDir = false →
    ArchivePath.segments e.path <+: ArchivePath.segments e'.path →
    ArchivePath.segments e.path = ArchivePath.segments e'.path

instance (r : Root) : Decidable r.Level :=
  inferInstanceAs (Decidable (∀ l ∈ r.openLayers, ∀ l' ∈ r.openLayers, ∀ e ∈ l.2.entries, ∀ e' ∈ l'.2.entries,
    e.isDir = false → ArchivePath.segments e.path <+: ArchivePath.segments e'.path →
    ArchivePath.segments e.path = ArchivePath.segments e'.path))

variable {r : Root} {l l' : Layer} {i j : Nat} {path path' : String}

/-- A file has an entry with the steps of its path. -/
theorem exists_entry_of_isFile (h : l.isFile path = true) :
    ∃ e ∈ l.entries, e.isDir = false ∧ ArchivePath.segments e.path = DiskPath.steps path := by
  obtain ⟨e, he, hfile⟩ := Layer.isFile_iff.1 h
  refine ⟨e, ?_, hfile, ?_⟩
  · rw [Layer.entry_eq_ok] at he
    exact List.mem_map_of_mem (Table.mem_of_find? he)
  · rw [Layer.entry_path he, ArchivePath.segments_normalize, ← DiskPath.steps_eq_archive]

/-- In a level root, no file stands above another one. -/
theorem Level.eq_of_prefix (h : r.Level) (hl : (i, l) ∈ r.openLayers) (hl' : (j, l') ∈ r.openLayers)
    (hfile : l.isFile path = true) (hfile' : l'.isFile path' = true)
    (hpre : DiskPath.steps path <+: DiskPath.steps path') : DiskPath.steps path = DiskPath.steps path' := by
  obtain ⟨e, he, hdir, hsteps⟩ := exists_entry_of_isFile hfile
  obtain ⟨e', he', -, hsteps'⟩ := exists_entry_of_isFile hfile'
  rw [← hsteps, ← hsteps'] at hpre ⊢
  exact h _ hl _ hl' e he e' he' hdir hpre

end Root

namespace Extraction

variable {w w' : Workspace} {d : Place} {dir dest path : String} {l : Layer} {e : Entry} {t : FileTree}
  {names names' : List String} {name name' : String} {serial : Nat}

/-- A file is seen at its path still after an artifact at the same path was not made. -/
theorem look_after_failure (hsite : w.tree.Site (Outside d) dir d) (hsite' : t.Site (Outside d) dir d)
    (hdest : Inside dir names name dest) (htouches : Touches (Gone (d ++ names ++ [name])
      (temporaryPlace d names' name' w.process serial) w.tree) w.tree t)
    (hserial : w.serial ≤ serial) (hno : NoTemporary w (names ++ [name])) {c : ByteArray} {m : Instant}
    (hlook : w.tree.look false dest = .ok (.file c m)) : t.look false dest = .ok (.file c m) := by
  have hnode := (look_stands (hsite.inside hdest) hlook).1
  -- Only the temporary file can be gone, for at the place itself stands a file and no directory.
  have hinside : ∀ v n, Gone (d ++ names ++ [name]) (temporaryPlace d names' name' w.process serial) w.tree v n →
      d <+: v := by
    rintro v n (place | place | place)
    · rw [place, temporaryPlace, List.append_assoc]
      exact List.prefix_append _ _
    · rw [List.append_assoc] at place
      exact (List.prefix_append _ _).trans (isBelow_iff.1 place).1
    · rw [place, List.append_assoc]
      exact List.prefix_append _ _
  refine look_of_way hsite hsite' hdest htouches.base (fun front hfront y hy => ?_) (fun v hv y hy => ?_) hlook
  · rcases htouches.node (d ++ front) with hsame | ⟨hnone, -⟩ | hgone
    · exact hsame.trans hy
    · rw [hy] at hnone; cases hnone
    · generalize t.node? (d ++ front) = n at hgone
      cases hgone with
      | hidden place =>
        rw [temporaryPlace, List.append_assoc, List.append_cancel_left_eq] at place
        exact absurd rfl (hno _ (hfront.subset (by simp [place])) name' serial hserial)
      | below place =>
        obtain ⟨hle, hne⟩ := isBelow_iff.1 place
        rw [List.append_assoc] at hle hne
        have hback := (List.prefix_append_right_inj d).1 hle
        exact absurd (congrArg (d ++ ·) (hfront.eq_of_length_le hback.length_le)) hne
      | directory place before => rw [hnode] at before; cases before
  · rcases htouches.node v with hsame | ⟨hnone, -⟩ | hgone
    · exact hsame.trans hy
    · rw [hy] at hnone; cases hnone
    · exact absurd (hinside v _ hgone) hv

end Extraction

namespace Importer

variable {m : Importer} {store : RecordStore} {ds : Nat → Place} {place : Option Place} {s s' s₀ : ImporterState}
  {w w' : Workspace} {us : List FoundUnit} {u : FoundUnit} {r : Root} {l : Layer} {names : List String}
  {nm p : String} {i : Nat}

/-- Where the artifact of a unit was made, the copy of its file stands. -/
theorem Stock.copy_of_make (h : m.Stock m.unitSupply store ds place w) (hu : m.Found u r l names nm)
    (hmake : (Extraction.makeArtifact r.dir l u.path).outcome w = (.ok p, w')) :
    p = Extraction.destination r.dir (names ++ [nm]) ∧ Inside r.dir names nm p ∧
      ∃ n, w'.tree.look false p = .ok n ∧ l.IsCopy u.path n := by
  have hmade := (Extraction.makeArtifact_yields (h.site _ r hu.root) l u.path).of_outcome hmake
  have hnames : ∀ {names' nm' e}, Extraction.Target r.dir l u.path names' nm' e p → names' = names ∧ nm' = nm := by
    intro names' nm' e htarget
    simpa using htarget.steps.symm.trans hu.steps
  cases hmade with
  | current target fresh =>
    obtain ⟨rfl, rfl⟩ := hnames target
    obtain ⟨c, modified, hlook, -⟩ := Extraction.exists_of_isFresh fresh
    -- What was there is a copy from the supply, and the supply has but one layer for it.
    obtain ⟨k, later, path', hk, hP, hsteps, hcopy⟩ := h.exists_copy hu.root target hlook
    have hfirst := hP _ _ (hsteps.trans hu.steps) hu.isUnitFile
    rw [Root.first?_of_steps hsteps, hu.first] at hfirst
    cases hfirst
    exact ⟨target.dest_eq_destination, target.inside, _, hlook, hcopy⟩
  | arrived target stale keeps next touches arrived =>
    obtain ⟨rfl, rfl⟩ := hnames target
    obtain ⟨c, hcontents, hlook, -⟩ := arrived
    rw [Layer.contents_entry target.entry] at hcontents
    exact ⟨target.dest_eq_destination, target.inside, _, hlook, _, c, target.entry, target.file, hcontents, rfl⟩

/-- **The copy of a unit's file stays** while artifacts of other files, or its own, are made. -/
theorem Stock.preserves_copy (hu : m.Found u r l names nm) (hlevel : r.Level) {n : Node}
    (hcopy : l.IsCopy u.path n) (hp : p = Extraction.destination r.dir (names ++ [nm]))
    (hinside : Inside r.dir names nm p) {k : Nat} {l' : Layer} {path : String}
    (hfirst : r.first? path = some (k, l')) : (Extraction.makeArtifact r.dir l' path).Preserves fun w =>
      m.Stock m.unitSupply store ds place w ∧ w.tree.look false p = .ok n := by
  rintro w ⟨hstock, hlook⟩
  have hmem := Root.mem_of_first? hfirst
  have hsupply : m.unitSupply.at r l' path := ⟨k, hmem, fun _ _ _ _ => hfirst⟩
  have hstock' := Stock.preserves_makeArtifact hu.root hsupply w hstock
  have hmade := Extraction.makeArtifact_yields (hstock.site _ r hu.root) l' path
  unfold Yields at hstock' hmade ⊢
  refine ⟨hstock', ?_⟩
  have hno : Extraction.NoTemporary w (names ++ [nm]) := Extraction.noTemporary_of_visible hu.visible w
  have hsite := hstock.site _ r hu.root
  have hsite' := hstock'.site _ r hu.root
  -- An artifact at other names is not in the way.
  have helsewhere : ∀ {names' nm'}, DiskPath.steps path = names' ++ [nm'] → names' ++ [nm'] ≠ names ++ [nm] →
      ¬ names' ++ [nm'] <+: names ++ [nm] := by
    intro names' nm' hsteps hne hpre
    rw [← hsteps, ← hu.steps] at hpre hne
    exact hne (hlevel.eq_of_prefix hmem (Root.mem_of_first? hu.first) (Root.isFile_of_first? hfirst)
      (Root.isFile_of_first? hu.first) hpre)
  generalize ((Extraction.makeArtifact r.dir l' path).outcome w).1 = out,
    ((Extraction.makeArtifact r.dir l' path).outcome w).2 = w' at hmade hsite'
  cases hmade with
  | refused => exact hlook
  | current => exact hlook
  | @failed names' nm' e dest target stale x _ keeps serial next touches =>
    by_cases hsame : names' ++ [nm'] = names ++ [nm]
    · obtain ⟨hnames, hnm⟩ := List.append_inj' hsame rfl
      simp only [List.cons.injEq, and_true] at hnm
      subst hnames hnm
      obtain ⟨e', c, -, -, -, rfl⟩ := hcopy
      exact Extraction.look_after_failure hsite hsite' hinside touches next hno hlook
    · rw [List.append_assoc] at touches
      exact Extraction.look_elsewhere (l := l') (e := e) hsite hsite' hinside (touches.mono fun _ _ hv => .gone hv) next
        hno (helsewhere target.steps hsame) hlook
  | @arrived names' nm' e dest target stale _ keeps serial next touches arrived =>
    by_cases hsame : names' ++ [nm'] = names ++ [nm]
    · obtain ⟨c, hcontents, hlook', -⟩ := arrived
      rw [Layer.contents_entry target.entry] at hcontents
      have hsteps : DiskPath.steps path = DiskPath.steps u.path :=
        target.steps.trans (hsame.trans hu.steps.symm)
      rw [Root.first?_of_steps hsteps, hu.first] at hfirst
      cases hfirst
      have hcopy' : l.IsCopy path (.file c e.modified) := ⟨e, c, target.entry, target.file, hcontents, rfl⟩
      have hdest : dest = p := by rw [target.dest_eq_destination, hsame, hp]
      rw [hcopy.unique (hcopy'.of_steps hsteps), ← hdest, hlook']
    · rw [List.append_assoc] at touches
      exact Extraction.look_elsewhere hsite hsite' hinside touches next.1 hno (helsewhere target.steps hsame) hlook

/-- Copies of a unit's file stay while libraries are located. -/
theorem Stock.preserves_locateLibrary (hu : m.Found u r l names nm) (hlevel : r.Level) {n : Node}
    (hcopy : l.IsCopy u.path n) (hp : p = Extraction.destination r.dir (names ++ [nm]))
    (hinside : Inside r.dir names nm p) (name : String) : (r.locateLibrary m.libraryDirs name).Preserves fun w =>
      m.Stock m.unitSupply store ds place w ∧ w.tree.look false p = .ok n := by
  refine Root.preserves_locateLibrary fun l' path hfind => ?_
  obtain ⟨k, hfirst⟩ := Root.first?_of_findLibrary? hfind
  exact Stock.preserves_copy hu hlevel hcopy hp hinside hfirst

/-! ## (4) Sequences of requests -/

/-- `m.Past store s₀ us s`: beginning in `s₀`, an importer was asked for one thing after another, for units only after
they were found; `us` are the units found so far, and `s` is the state now. -/
inductive Past (m : Importer) (store : RecordStore) (s₀ : ImporterState) : List FoundUnit → ImporterState → Prop where
  /-- Nothing was asked for. -/
  | start : Past m store s₀ [] s₀
  /-- One more request, whether it ended well or not. -/
  | step {us : List FoundUnit} {s : ImporterState} (past : Past m store s₀ us s) (q : Request)
      (units : ∀ u ∈ q.units, u ∈ us) :
      Past m store s₀ (us ++ ((q.perform m store).outcome s).1.toOption.getD []) ((q.perform m store).outcome s).2

/-- Every unit that a request finds is the answer to a name. -/
theorem Request.exists_of_perform {q : Request} (h : (q.perform m store).outcome s = (.ok us, s')) (hu : u ∈ us) :
    ∃ name s₁, (m.resolve name).outcome s = (.ok u, s₁) := by
  cases q with
  | resolve name =>
    obtain ⟨u', s₁, hresolve, hout⟩ := exists_of_outcome_bind_ok h
    cases hout
    cases List.mem_singleton.1 hu
    exact ⟨name, _, hresolve⟩
  | makeData _ | readData _ | prepare _ | load _ | checkBuilds =>
    obtain ⟨_, _, -, hout⟩ := exists_of_outcome_bind_ok h
    cases hout
    cases hu

/-- **Whatever an importer was asked for**, its units are those of first layers, and its directories hold nothing
else under the names of units. -/
theorem Past.stock (hlayout : m.layout.IsSound) (hbegins : m.Begins store ds place s₀.workspace)
    (h : m.Past store s₀ us s) : m.Stock m.unitSupply store ds place s.workspace ∧
      ∀ u ∈ us, ∃ r l names nm, m.Found u r l names nm := by
  induction h with
  | start => exact ⟨hbegins.stock _, by simp⟩
  | @step us s past q units ih =>
    refine ⟨?_, fun u hu => ?_⟩
    · refine (conserves_stock m m.unitSupply store ds place).perform (admits_unitSupply m) (fun u hu => ?_) s ih.1
      obtain ⟨r, l, names, nm, hfound⟩ := ih.2 u (units u hu)
      exact hfound.supplies
    · rcases List.mem_append.1 hu with hu | hu
      · exact ih.2 u hu
      · rcases hout : (q.perform m store).outcome s with ⟨x | us', s'⟩
        · rw [hout] at hu
          cases hu
        · rw [hout] at hu
          obtain ⟨name, s₁, hresolve⟩ := Request.exists_of_perform hout hu
          exact exists_found hlayout hresolve

/-! ## (5) Units on disk -/

/-- `m.Embodies w u p`: the file at `p` has the bytes of the unit's file in its layer, and the time recorded there. They
are the bytes that are read, unless the entry says more than there can be room for. -/
def Embodies (m : Importer) (w : Workspace) (u : FoundUnit) (p : String) : Prop :=
  ∃ r l e c modified, m.root u.rootIndex = .ok r ∧ r.layerAt u.layerIndex = .ok l ∧ l.entry u.path = .ok e ∧
    w.tree.look false p = .ok (.file c modified) ∧ l.contents u.path = .ok c ∧
    m.unitBytes u = (if e.size ≤ Layer.maxRoom then .ok (.ok c) else .error .noRoom) ∧
    modified.seconds = e.timestamp ∧ modified.nanos = 0

/-- A copy of its file embodies a unit. -/
theorem Found.embodies (hu : m.Found u r l names nm) {n : Node} (hcopy : l.IsCopy u.path n)
    (hlook : w.tree.look false p = .ok n) : m.Embodies w u p := by
  obtain ⟨e, c, hentry, hfile, hcontents, rfl⟩ := hcopy
  have hroot : m.root u.rootIndex = .ok r := root_eq_ok.2 hu.root
  have hlayer : r.layerAt u.layerIndex = .ok l := Root.layerAt_eq_ok.2 (Root.mem_of_first? hu.first)
  refine ⟨r, l, e, c, e.modified, hroot, hlayer, hentry, hlook, hcontents, ?_, e.modified_eq⟩
  simp only [unitBytes, readFrom, hroot, hlayer, Layer.read_eq hentry hfile, hcontents, Bind.bind, Except.bind]
  split <;> rfl

/-- The artifact that comes with a unit embodies it. -/
theorem Stock.embodies_of_resolve (hlayout : m.layout.IsSound) (h : m.Stock m.unitSupply store ds place s.workspace)
    {name : String} (hok : (m.resolve name).outcome s = (.ok u, s')) (hp : u.artifact = some p) :
    m.Embodies s'.workspace u p := by
  obtain ⟨r, l, names, nm, hu⟩ := exists_found hlayout hok
  obtain ⟨-, r', i, hit, artifact, rs, hr, -, hhit, hrealize, rfl, hunit⟩ := exists_of_resolve hok
  obtain ⟨l', hlayer, rfl⟩ := Hit.exists_of_unit hunit
  cases hu.root.symm.trans hr
  cases hp
  have hunpack : (r.unpackPackage m.layout (UnitName.path name)).Preserves
      (Root.Has (m.Stock m.unitSupply store ds place)) :=
    Root.preserves_unpackPackage fun l hl path hpath =>
      (conserves_stock m m.unitSupply store ds place).artifact r (List.mem_of_getElem? hr) l hl path
        ((admits_unitSupply m).data r (List.mem_of_getElem? hr) l hl _ path hpath)
  obtain ⟨l₁, w, hw, hlayer₁, hmake⟩ := Hit.exists_of_realize hunpack h hrealize
  have hl₁ : l₁ = l := Root.openLayers_unique (Root.layerAt_eq_ok.1 hlayer₁) (Root.mem_of_first? hu.first)
  rw [hl₁] at hmake
  obtain ⟨-, -, n, hlook, hcopy⟩ := hw.copy_of_make hu hmake
  exact hu.embodies hcopy hlook

/-- The artifact of a binary that was prepared embodies it: libraries do not take its place. -/
theorem Stock.embodies_of_prepareBinary (h : m.Stock m.unitSupply store ds place s.workspace)
    (hu : m.Found u r l names nm) (hlevel : r.Level) (hok : (m.prepareBinary u).outcome s = (.ok p, s')) :
    m.Embodies s'.workspace u p := by
  obtain ⟨r', l', w, hroot, hlayer, hmake, hrest⟩ := exists_of_prepareBinary hok
  cases hu.root.symm.trans (root_eq_ok.1 hroot)
  have hl' : l' = l := Root.openLayers_unique (Root.layerAt_eq_ok.1 hlayer) (Root.mem_of_first? hu.first)
  rw [hl'] at hmake
  obtain ⟨hp, hinside, n, hlook, hcopy⟩ := h.copy_of_make hu hmake
  have hsupply : m.unitSupply.at r l u.path :=
    ⟨_, Root.mem_of_first? hu.first, hu.supplies r l hu.root (Root.mem_of_first? hu.first)⟩
  have hstock := (Stock.preserves_makeArtifact hu.root hsupply _ h).of_outcome hmake
  exact hu.embodies hcopy (hrest _ (Stock.preserves_locateLibrary hu hlevel hcopy hp hinside) ⟨hstock, hlook⟩).2

/-- **A unit's file on disk is the unit**, when the unit is found with an artifact, when it is prepared, and when it
is loaded, whatever the importer was asked for since its directories were absent. -/
theorem embodies_of_past {settings : Settings} (hcheck : settings.check = .ok ()) (hlayout : settings.layout = m.layout)
    (hlevel : ∀ r ∈ m.roots, r.Level) (hbegins : m.Begins store ds place s₀.workspace)
    (hpast : m.Past store s₀ us s) :
    (∀ name u p s', (m.resolve name).outcome s = (.ok u, s') → u.artifact = some p → m.Embodies s'.workspace u p) ∧
    (∀ u ∈ us, ∀ p s', (m.prepareBinary u).outcome s = (.ok p, s') → m.Embodies s'.workspace u p) ∧
    ∀ u ∈ us, ∀ p s', (m.loadBinary u).outcome s = (.ok p, s') → m.Embodies s'.workspace u p := by
  have hsound : m.layout.IsSound := hlayout ▸ Layout.isSound_of_check hcheck
  obtain ⟨hstock, hfound⟩ := hpast.stock hsound hbegins
  have hprepare : ∀ u ∈ us, ∀ p s', (m.prepareBinary u).outcome s = (.ok p, s') → m.Embodies s'.workspace u p := by
    intro u hu p s' hok
    obtain ⟨r, l, names, nm, hunit⟩ := hfound u hu
    exact hstock.embodies_of_prepareBinary hunit (hlevel r (List.mem_of_getElem? hunit.root)) hok
  refine ⟨fun name u p s' hok hp => hstock.embodies_of_resolve hsound hok hp, hprepare, fun u hu p s' hok => ?_⟩
  obtain ⟨s₁, hprepared, hworkspace⟩ := exists_of_loadBinary hok
  rw [hworkspace]
  exact hprepare u hu p s₁ hprepared

/-! ## (6) A directory whose path passes itself -/

/-- A shared binary that needs the library `libz.so`: a header with words of four bytes, the headers of two sections, a
dynamic table and its strings. -/
def needingZ : ByteArray :=
  Bytes.ofList ([0x7f, 0x45, 0x4c, 0x46, 1, 1] ++ List.replicate 26 0 ++ [52] ++ List.replicate 13 0 ++ [28, 0, 2]
    ++ List.replicate 7 0 ++ [6] ++ List.replicate 11 0 ++ [108, 0, 0, 0, 9, 0, 0, 0, 1] ++ List.replicate 19 0
    ++ [117] ++ List.replicate 11 0 ++ [1, 0, 0, 0, 1] ++ List.replicate 5 0 ++ "libz.so".toUTF8.toList ++ [0])

/-- The importer of a shared binary and the library it needs. -/
def withLibrary (dir : String) : Importer :=
  .new [⟨dir, [.opened (.ofFiles "a" 1 [("m.so", needingZ), ("lib/libz.so", .empty)]) none], [], 1⟩] Layout.standard
    fun _ _ => .ok ()

/-- The binary, as it is found. -/
def withLibraryUnit (dir : String) : FoundUnit := ⟨"m", .native, .module, 0, dir, 0, "a", "m.so", none⟩

/-- The state in which it was found. -/
def withLibraryFound (dir : String) : ImporterState :=
  (((Request.resolve "m").perform (withLibrary dir) .memory).outcome (.ofWorkspace (.ofTree .empty))).2

/-- The binary is found, and nothing else was asked for. -/
theorem withLibrary_past {dir : String} (h : (((Request.resolve "m").perform (withLibrary dir) .memory).outcome
      (.ofWorkspace (.ofTree .empty))).1.toOption.getD [] = [withLibraryUnit dir]) :
    (withLibrary dir).Past .memory (.ofWorkspace (.ofTree .empty)) [withLibraryUnit dir] (withLibraryFound dir) := by
  have hstart : (withLibrary dir).Past .memory (.ofWorkspace (.ofTree .empty)) [] (.ofWorkspace (.ofTree .empty)) :=
    .start
  have hpast := hstart.step (.resolve "m") (by simp [Request.units])
  rwa [h] at hpast

/-- A path that passes the library on its way to the directory: making the library's artifact breaks it, and the
binary is no longer there. -/
def throughLibrary : String := "/x/lib/libz.so/../../../x"

/-- Preparing the example ends well, yet no binary stands where it should. -/
theorem throughLibrary_prepared : (((withLibrary throughLibrary).prepareBinary (withLibraryUnit throughLibrary)).outcome
      (withLibraryFound throughLibrary)).1 = .ok (throughLibrary ++ "/m.so") ∧
    (((withLibrary throughLibrary).prepareBinary (withLibraryUnit throughLibrary)).outcome
      (withLibraryFound throughLibrary)).2.workspace.tree.look false (throughLibrary ++ "/m.so")
        = .error .notFound := by
  decide +kernel

/-- **A unit's file is not on disk** when the path of the directory passes it. -/
theorem throughLibrary_not_embodied : Settings.standard.check = .ok () ∧
    Settings.standard.layout = (withLibrary throughLibrary).layout ∧
    (∀ r ∈ (withLibrary throughLibrary).roots, r.Level) ∧
    ∃ u s p s', (withLibrary throughLibrary).Past .memory (.ofWorkspace (.ofTree .empty)) [u] s ∧
      ((withLibrary throughLibrary).prepareBinary u).outcome s = (.ok p, s') ∧
      ¬ (withLibrary throughLibrary).Embodies s'.workspace u p := by
  have hlevel : ∀ r ∈ (withLibrary throughLibrary).roots, r.Level := by decide +kernel
  have hpast : (withLibrary throughLibrary).Past _ _ _ _ := withLibrary_past (by decide +kernel)
  obtain ⟨hprepare, hgone⟩ := throughLibrary_prepared
  refine ⟨by decide, rfl, hlevel, _, _, _, _, hpast, outcome_eq_of_fst hprepare, ?_⟩
  rintro ⟨r, l, e, c, modified, -, -, -, hlook, -⟩
  rw [hgone] at hlook
  cases hlook

/-- Where the path of the directory is its name, the same binary is on disk. -/
theorem withLibrary_embodied : Settings.standard.check = .ok () ∧
    Settings.standard.layout = (withLibrary "/x").layout ∧ (∀ r ∈ (withLibrary "/x").roots, r.Level) ∧
    (withLibrary "/x").Begins .memory (fun _ => ["x"]) none (.ofTree .empty) ∧
    ∃ u s s', (withLibrary "/x").Past .memory (.ofWorkspace (.ofTree .empty)) [u] s ∧
      ((withLibrary "/x").prepareBinary u).outcome s = (.ok "/x/m.so", s') ∧
      (withLibrary "/x").Embodies s'.workspace u "/x/m.so" := by
  have hcheck : Settings.standard.check = .ok () := by decide
  have hlevel : ∀ r ∈ (withLibrary "/x").roots, r.Level := by decide +kernel
  have hbegins : (withLibrary "/x").Begins .memory (fun _ => ["x"]) none (.ofTree .empty) :=
    begins_alone rfl (by decide) (by decide)
  have hpast : (withLibrary "/x").Past _ _ _ _ := withLibrary_past (by decide +kernel)
  have hprepare := outcome_eq_of_fst (a := (withLibrary "/x").prepareBinary (withLibraryUnit "/x"))
    (s := withLibraryFound "/x") (r := .ok "/x/m.so") (by decide +kernel)
  refine ⟨hcheck, rfl, hlevel, hbegins, _, _, _, hpast, hprepare, ?_⟩
  exact (embodies_of_past hcheck rfl hlevel hbegins hpast).2.1 _ (by simp) _ _ hprepare

end Importer

end LayeredBundles
