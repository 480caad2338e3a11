import LayeredBundles.Proofs.Copies
import LayeredBundles.Proofs.Packages
import LayeredBundles.Proofs.Territories
import LayeredBundles.Proofs.UnitPaths

/-! # What a lookup leaves alone

Resolving a name writes to disk, but only when the root in which the search ends holds the name, and only what that
root has to extract for it. Whatever becomes of that, the other roots are bystanders: nothing at or below their
directories changes, and no package of theirs is remembered.

* **`Extraction.makeArtifact_beside`** — an artifact leaves a directory alone that its path does not pass;
* **`Importer.Secluded`** — no path of a directory passes a directory; **`Importer.secluded_after`** — it is so again
  after any requests, so that a lookup leaves bystanders alone whenever it is asked for;
* **`Importer.Serves`** — what making artifacts of one root leaves;
* **`Layout.Heads`** — names that begin with the first segment of a dotted name;
* **`Importer.Hits`** — where a lookup reaches a hit; **`ImportFailure.Missed`** — that it reached none;
* **`Importer.resolve_spares`** — what a lookup may change at all; **`Importer.detours_disturb`** — where a path passes
  a directory, or a link stands in one, it is otherwise. -/

namespace LayeredBundles

open FileTree Fallible

/-! ## (1) Beside an artifact -/

namespace Extraction

variable {w w' : Workspace} {A : Place → Prop} {dir path : String} {d d' v : Place} {l : Layer}
  {r : Except ImportFailure String}

/-- **An artifact leaves another directory alone**, if the path of the extraction directory does not pass it, and
directories stand wherever that path begins in it. -/
theorem makeArtifact_beside (hsite : w.tree.Site A dir d) (hA : ∀ v, A v → Outside d' v)
    (hstart : ∀ v, v <+: w.tree.start dir → d' <+: v → w.tree.node? v = some .directory) (hd : ¬ d <+: d')
    (hd' : ¬ d' <+: d) (l : Layer) (path : String) :
    (makeArtifact dir l path).Yields w fun _ w' => ∀ v, d' <+: v → w'.tree.node? v = w.tree.node? v := by
  refine (makeArtifact_cases w dir l path).mono ?_
  rintro r w' (⟨-, rfl⟩ | ⟨names, name, e, dest, htarget, ⟨-, -, rfl⟩ | ⟨-, out, hout, -⟩⟩) v hv
  · rfl
  · rfl
  · obtain ⟨front, hfront, hsteps, habs⟩ :=
      DiskPath.exists_parent (htarget.inside.steps_eq.trans (List.append_assoc _ _ _).symm)
    have hsame : w.tree.start front = w.tree.start dir := by
      rw [FileTree.start, FileTree.start, habs, htarget.inside.isAbsolute_eq]
    -- The directories that are created lie on the way to the extraction directory, or below that.
    obtain ⟨n, hway⟩ := hsite.leads_inside fun s hs => (htarget.inside.isName s (List.mem_append_left _ hs)).up
    rw [← hsame, ← hsteps] at hway
    have haround : ∀ v, Around A (d ++ names) v → Outside d' v := by
      rintro v (hv | hv) hle
      · exact hA v hv hle
      · exact comparable hd hd' (List.prefix_append d names) (hle.trans hv)
    have hnil : d' ≠ [] := by
      rintro rfl
      exact hd' List.nil_prefix
    have hcreate := Workspace.createDirectories_outside haround hnil (hsame ▸ hstart) hway
    have hworks := produce_works (l := l) hsite htarget.inside htarget.name_eq hfront
    have hv' : isBelow d v = false := by
      rw [← Bool.not_eq_true]
      exact fun hbelow => comparable hd hd' (isBelow_iff.1 hbelow).1 hv
    rw [Yields] at hcreate hworks
    rw [hout] at hworks
    exact (hworks.tree.outside hv').trans (hcreate v hv)

/-- A file that stands somewhere after an artifact was made stood there before, or is the artifact. -/
theorem Made.file_cases {c : ByteArray} {m : Instant} (h : Made dir l path d w r w')
    (hfile : w'.tree.node? v = some (.file c m)) :
    w.tree.node? v = some (.file c m) ∨ v = d ++ DiskPath.steps path := by
  cases h with
  | refused => exact .inl hfile
  | current => exact .inl hfile
  | failed target stale x keeps next touches =>
    rcases touches.node v with hsame | ⟨-, hdir⟩ | hgone
    · exact .inl (hsame ▸ hfile)
    · cases hdir.symm.trans hfile
    · rw [hfile] at hgone
      nomatch hgone
  | @arrived names name e dest target stale _ keeps serial next touches arrived =>
    rcases touches.node v with hsame | ⟨-, hdir⟩ | hchange
    · exact .inl (hsame ▸ hfile)
    · cases hdir.symm.trans hfile
    · rw [hfile] at hchange
      cases hchange with
      | gone hgone => nomatch hgone
      | copied place => exact .inr (by rw [place, target.steps, List.append_assoc])

end Extraction

/-! ## (2) Directories that are out of each other's way -/

namespace Importer

variable {m : Importer} {ds : Nat → Place} {w w' : Workspace} {i k : Nat} {r : Root}

/-- `m.Secluded ds w`: in a workspace, the root at position `i` has its directory at `ds i`, with no links in it, and
no path of a directory passes a directory. -/
structure Secluded (m : Importer) (ds : Nat → Place) (w : Workspace) : Prop where
  /-- Where the directories stand. -/
  sites : ∀ i r, m.roots[i]? = some r →
    w.tree.Site (fun v => ∀ j, j < m.roots.length → Outside (ds j) v) r.dir (ds i)
  /-- No directory is another one or stands in it. -/
  apart : ∀ i j, i < m.roots.length → j < m.roots.length → i ≠ j → ¬ ds i <+: ds j
  /-- If a path begins in the directory of another root, then directories stand where it begins. -/
  starts : ∀ i j r, m.roots[i]? = some r → j < m.roots.length → i ≠ j →
    ∀ v, v <+: w.tree.start r.dir → ds j <+: v → w.tree.node? v = some .directory

/-- Where the links are the same, the directories are as far out of the way as they were. -/
theorem Secluded.sameLinks (h : m.Secluded ds w) (hlinks : SameLinks w.tree w'.tree)
    (hstart : ∀ (i j : Nat) (r : Root), m.roots[i]? = some r → j < m.roots.length →
      Outside (ds j) (w.tree.start r.dir)) : m.Secluded ds w' where
  sites i r hr := (h.sites i r hr).congr hlinks.base (fun v target _ => hlinks.link_iff v target)
    fun v hv target hlink => (h.sites i r hr).plain v hv target ((hlinks.link_iff v target).1 hlink)
  apart := h.apart
  starts i j r hr hj _ v hle hv := by
    rw [FileTree.start, hlinks.base] at hle
    exact absurd (hv.trans hle) (hstart i j r hr hj)

/-- `m.Rests store ds place w₀ w`: the directories, locks and store do not get in each other's way, and since `w₀` no
link has come or gone. -/
structure Rests (m : Importer) (store : RecordStore) (ds : Nat → Place) (place : Option Place) (w₀ w : Workspace) :
    Prop extends m.Ground store ds place w where
  /-- The links. -/
  links : SameLinks w₀.tree w.tree
  /-- The process. -/
  process : w.process = w₀.process

/-- **Artifacts and checks let all links rest**, if none is put in place of the store. -/
theorem conserves_rests (m : Importer) (store : RecordStore) (ds : Nat → Place) {place : Option Place} {w₀ : Workspace}
    (hshifts : ∀ v, ¬ w₀.Shifts place v) :
    m.Conserves (fun _ _ _ => True) store (m.Rests store ds place w₀) where
  artifact r hr l _ path _ w h := by
    obtain ⟨i, hi⟩ := List.getElem?_of_mem hr
    have hlt := (List.getElem?_eq_some_iff.1 hi).1
    refine (Extraction.makeArtifact_fills (h.site i r hi) l.2 path).mono fun _ w' hfills => ?_
    exact ⟨h.toGround.fills hlt hfills, h.links.trans ⟨hfills.tree.touches.base, hfills.tree.link_iff (h.plain hlt)⟩,
      hfills.keeps.process.trans h.process⟩
  check r hr s h := by
    obtain ⟨i, hi⟩ := List.getElem?_of_mem hr
    have hplain := h.plain (List.getElem?_eq_some_iff.1 hi).1
    have hnone : ∀ v, ¬ s.workspace.Shifts place v := fun v hv =>
      hshifts v (Workspace.shifts_of_fewer h.process (fun v target _ => (h.links.link_iff v target).1) v hv)
    refine ((Ground.preserves_checkBuild hi s h.toGround).and (Root.checkBuild_yields (h.checkable hi) fun _ _ =>
      hplain _ (List.prefix_refl _))).mono ?_
    rintro out s' ⟨hground, hchecks, -⟩
    have hsteady := hchecks.tidies.steady
    exact ⟨hground, h.links.trans ⟨hsteady.base, fun v => hsteady.link_iff (hplain v) (hnone v)⟩,
      hchecks.process.trans h.process⟩

/-- **Requests leave the directories out of each other's way**, if the locks and the store are kept elsewhere, no path
begins in a directory, and no link is put in place of the store. -/
theorem secluded_after {store : RecordStore} {place : Option Place} {s : ImporterState}
    (hground : m.Ground store ds place s.workspace) (h : m.Secluded ds s.workspace)
    (hstart : ∀ (i j : Nat) (r : Root), m.roots[i]? = some r → j < m.roots.length →
      Outside (ds j) (s.workspace.tree.start r.dir))
    (hshifts : ∀ v, ¬ s.workspace.Shifts place v) (qs : List Request) :
    m.Secluded ds (m.after store s qs).workspace := by
  have hrests : m.Rests store ds place s.workspace (m.after store s qs).workspace :=
    (conserves_rests m store ds hshifts).after ⟨fun _ _ _ _ _ => trivial, fun _ _ _ _ _ _ _ => trivial⟩
      (fun _ _ _ _ _ _ _ _ => trivial) ⟨hground, ⟨rfl, fun _ _ => .rfl⟩, rfl⟩
  exact h.sameLinks hrests.links hstart

/-- The places of directories whose paths are straight. -/
def places (m : Importer) (i : Nat) : Place := (m.roots[i]?.map fun r => DiskPath.steps r.dir).getD []

/-- A directory with a straight path has the place of its steps. -/
theorem places_eq (hr : m.roots[i]? = some r) : m.places i = DiskPath.steps r.dir := by
  rw [places, hr, Option.map_some, Option.getD_some]

/-- **Directories that stand apart are out of each other's way** where there are no links. -/
theorem Apart.secluded (h : m.Apart) (hlinks : w.tree.LinkFree) (hnil : ∀ r ∈ m.roots, DiskPath.steps r.dir ≠ []) :
    m.Secluded m.places w := by
  have habove : ∀ {i j : Nat} {r r' : Root}, m.roots[i]? = some r → m.roots[j]? = some r' →
      DiskPath.steps r.dir <+: DiskPath.steps r'.dir → i = j := by
    intro i j r r' hi hj hle
    by_contra hij
    have hne : r ≠ r' := by
      rintro rfl
      exact hij (h.position_eq hi hj)
    exact h.not_territory (List.mem_of_getElem? hi) (List.mem_of_getElem? hj) hne (.inl hle)
  have hstart : ∀ {i : Nat} {r : Root}, m.roots[i]? = some r → w.tree.start r.dir = [] := fun hi =>
    if_pos (h.straight _ (List.mem_of_getElem? hi)).absolute
  refine ⟨fun i r hr => ⟨?_, fun v _ => hlinks v⟩, fun i j hi hj hij hle => ?_, fun i j r hr hj _ v hle hv => ?_⟩
  · obtain ⟨xs, name, hsteps⟩ := (List.eq_nil_or_concat _).resolve_left (hnil r (List.mem_of_getElem? hr))
    rw [List.concat_eq_append] at hsteps
    have hnames := (h.straight r (List.mem_of_getElem? hr)).names
    rw [hsteps] at hnames
    refine ⟨⟨0, xs, xs, name, hsteps, hnames name (by simp), (places_eq hr).trans hsteps, ?_⟩, fun target => hlinks _ _⟩
    rw [hstart hr]
    refine leads_names (fun s hs => hnames s (List.mem_append_left _ hs)) (fun v _ hv _ j hj hle => ?_)
      fun v _ _ _ => hlinks v
    -- What stands above the directory is at or below no directory.
    have hj' := List.getElem?_eq_getElem hj
    rw [places_eq hj'] at hle
    have hup : DiskPath.steps m.roots[j].dir <+: xs := hle.trans hv
    obtain rfl := habove hj' hr (hup.trans (hsteps ▸ List.prefix_append xs [name]))
    cases hj'.symm.trans hr
    rw [hsteps] at hup
    simpa using hup.length_le
  · rw [places_eq (List.getElem?_eq_getElem hi), places_eq (List.getElem?_eq_getElem hj)] at hle
    exact hij (habove (List.getElem?_eq_getElem hi) (List.getElem?_eq_getElem hj) hle)
  · rw [hstart hr] at hle
    rw [List.prefix_nil.1 hle, places_eq (List.getElem?_eq_getElem hj)] at hv
    exact absurd (List.prefix_nil.1 hv) (hnil _ (List.getElem_mem hj))

/-- What making artifacts of the root at position `k` leaves whose names satisfy `B`. -/
structure Serves (m : Importer) (ds : Nat → Place) (k : Nat) (B : List String → Prop) (w w' : Workspace) : Prop where
  /-- Its directory is filled. -/
  fills : w.Fills (ds k) w'
  /-- Those of other roots are left alone. -/
  others : ∀ j, j < m.roots.length → k ≠ j → ∀ v, ds j <+: v → w'.tree.node? v = w.tree.node? v
  /-- Every new file has such names. -/
  files : ∀ v c modified, w'.tree.node? v = some (.file c modified) →
    w.tree.node? v = some (.file c modified) ∨ ∃ names, v = ds k ++ names ∧ B names

/-- To do nothing serves any root. -/
theorem Serves.refl (m : Importer) (ds : Nat → Place) (k : Nat) (B : List String → Prop) (w : Workspace) :
    m.Serves ds k B w w := ⟨.refl _ w, fun _ _ _ _ _ => rfl, fun _ _ _ hfile => .inl hfile⟩

/-- **An artifact serves its root only.** -/
theorem Secluded.preserves_makeArtifact {w₀ : Workspace} {B : List String → Prop} {l : Layer} {path : String}
    (h : m.Secluded ds w₀) (hr : m.roots[k]? = some r) (hB : B (DiskPath.steps path)) :
    (Extraction.makeArtifact r.dir l path).Preserves (m.Serves ds k B w₀) := by
  intro w hw
  have hk := (List.getElem?_eq_some_iff.1 hr).1
  have hsite := hw.fills.tree.site (h.sites k r hr).plain (h.sites k r hr)
  have hfills := Extraction.makeArtifact_fills hsite l path
  have hmade := Extraction.makeArtifact_yields ⟨hsite.stands.mono fun v hv => hv k hk, hsite.plain⟩ l path
  have hbeside : ∀ j, j < m.roots.length → k ≠ j → (Extraction.makeArtifact r.dir l path).Yields w fun _ w' =>
      ∀ v, ds j <+: v → w'.tree.node? v = w.tree.node? v := by
    intro j hj hkj
    refine Extraction.makeArtifact_beside hsite (fun v hv => hv j hj) (fun v hle hv => ?_) (h.apart k j hk hj hkj)
      (h.apart j k hj hk (Ne.symm hkj)) l path
    rw [FileTree.start, hw.fills.tree.touches.base] at hle
    exact (hw.others j hj hkj v hv).trans (h.starts k j r hr hj hkj v hle hv)
  unfold Yields at hfills hmade hbeside ⊢
  refine ⟨hw.fills.trans hfills, fun j hj hkj v hv => (hbeside j hj hkj v hv).trans (hw.others j hj hkj v hv),
    fun v c modified hfile => ?_⟩
  rcases hmade.file_cases hfile with hold | rfl
  · exact hw.files v c modified hold
  · exact .inr ⟨_, rfl, hB⟩

end Importer

/-! ## (3) The first segment of a name -/

namespace Layout

variable {layout : Layout} {name suffix path : String} {form : Form} {kind : Kind} {r : Root} {l : Layer}

/-- `layout.Heads name names`: the names begin with the first segment of a dotted name, alone or with a suffix. -/
def Heads (layout : Layout) (name : String) (names : List String) : Prop :=
  ∃ first rest, names = first :: rest ∧ (first = UnitName.topLevel name ∨
    ∃ kind, ∃ suffix ∈ layout.suffixes kind, first = UnitName.topLevel name ++ suffix)

/-- **The file of a unit** stands under the first segment of its name. -/
theorem IsSound.heads_pathFor (h : layout.IsSound) (hvalid : UnitName.isValid name = true)
    (hsuffix : suffix ∈ layout.suffixes kind) :
    layout.Heads name (DiskPath.steps (layout.pathFor (UnitName.path name) form suffix)) := by
  obtain ⟨rest, hrest⟩ := Text.exists_split '.' name
  have hsegments : UnitName.segments name = UnitName.topLevel name :: rest := hrest
  have hsteps : DiskPath.steps (layout.pathFor (UnitName.path name) form suffix) =
      DiskPath.segments (layout.pathFor (UnitName.path name) form suffix) :=
    List.filter_eq_self.2 fun s hs => (h.isName_of_mem_pathFor hvalid hsuffix s hs).counts
  rw [hsteps]
  cases form with
  | package => exact ⟨_, _, by rw [h.segments_package hvalid hsuffix, hsegments, List.cons_append], .inl rfl⟩
  | module =>
    -- The suffix is put behind the last segment, which may be the first one.
    rcases List.eq_nil_or_concat rest with rfl | ⟨front, last, rfl⟩
    · have hmodule := h.segments_module hvalid hsuffix (show UnitName.segments name = [] ++ [_] from hsegments)
      exact ⟨_, _, hmodule, .inr ⟨kind, suffix, hsuffix, rfl⟩⟩
    · rw [List.concat_eq_append, ← List.cons_append] at hsegments
      exact ⟨_, _, h.segments_module hvalid hsuffix hsegments, .inl rfl⟩

/-- **The data files of a package** stand under the first segment of its name. -/
theorem heads_of_mem_packageData (hvalid : UnitName.isValid name = true)
    (h : path ∈ r.packageData layout l (UnitName.path name)) : layout.Heads name (DiskPath.steps path) := by
  obtain ⟨names, last, hsegments, -, -⟩ := Root.segments_of_mem_packageData h
  obtain ⟨rest, hrest⟩ := Text.exists_split '.' name
  have hname : UnitName.segments name = UnitName.topLevel name :: rest := hrest
  have hmem : UnitName.topLevel name ∈ UnitName.segments name := by simp [hname]
  have hcounts : DiskPath.counts (UnitName.topLevel name) = true := by
    have hpoint : UnitName.topLevel name ≠ "." := fun heq =>
      Text.not_mem_of_mem_split hmem (heq ▸ by decide)
    simp [DiskPath.counts, (UnitName.proper_of_isValid hvalid _ hmem).1, hpoint]
  rw [UnitName.segments_path hvalid, hname, List.cons_append] at hsegments
  exact ⟨_, _, by rw [DiskPath.steps, hsegments, List.filter_cons_of_pos hcounts], .inl rfl⟩

end Layout

/-! ## (4) What a hit asks for -/

namespace Hit

variable {hit : Hit} {r : Root} {layout : Layout} {name : String} {s : RootState} {extracted : List String}

/-- `hit.Unpacks name extracted`: the hit is a package at the top level that was not extracted yet. -/
def Unpacks (hit : Hit) (name : String) (extracted : List String) : Prop :=
  hit.form = .package ∧ Text.hasChar '.' name = false ∧ UnitName.path name ∉ extracted

/-- `hit.Copies r name`: the hit is source of a package whose source has to stand on disk. -/
def Copies (hit : Hit) (r : Root) (name : String) : Prop :=
  hit.kind = .source ∧ UnitName.topLevel name ∈ r.extractPackages

/-- **A hit that asks for nothing** changes nothing. -/
theorem outcome_realize_idle (hunpacks : ¬ hit.Unpacks name s.extracted) (hcopies : ¬ hit.Copies r name) :
    (hit.realize r layout name).outcome s = (.ok none, s) := by
  have hsource : ¬ (hit.kind = .source ∧ r.requiresSource (UnitName.topLevel name)) := by
    simpa [Copies, Root.requiresSource] using hcopies
  have hidle : hit.extractSource r name = pure none := if_neg hsource
  rw [realize_eq, hidle]
  split
  · next hform =>
    have hmem : UnitName.path name ∈ s.extracted := by
      by_contra hno
      exact hunpacks ⟨hform.1, by simpa using hform.2, hno⟩
    exact outcome_bind_ok (Root.outcome_unpackPackage_of_mem hmem) _
  · rfl

/-- **At most the package itself is remembered**, if it was to be unpacked. -/
theorem realize_remembers : (hit.realize r layout name).Yields s fun _ s' => s'.extracted = s.extracted ∨
    hit.Unpacks name s.extracted ∧ s'.extracted = UnitName.path name :: s.extracted := by
  -- Extracting the file of the hit itself leaves no mark.
  have hrest : ∀ marks : List String, (hit.extractSource r name).Preserves fun s => s.extracted = marks := by
    intro marks
    unfold extractSource
    split
    · exact (Preserves.ofExcept_bind fun _ _ _ hs => hs).bind fun _ => preserves_pure _
    · exact preserves_pure _
  rw [realize_eq]
  split
  · next hform =>
    have hunpack : (r.unpackPackage layout (UnitName.path name)).Yields s fun _ s' => s'.extracted = s.extracted ∨
        hit.Unpacks name s.extracted ∧ s'.extracted = UnitName.path name :: s.extracted := by
      rw [Yields]
      by_cases hmem : UnitName.path name ∈ s.extracted
      · rw [Root.outcome_unpackPackage_of_mem hmem]
        exact .inl rfl
      · obtain ⟨out, s', hmakes, hout⟩ := Root.exists_makes_of_unpackPackage hmem
        rw [hout]
        cases out with
        | ok => exact .inr ⟨⟨hform.1, by simpa using hform.2, hmem⟩, by rw [hmakes.extracted]⟩
        | error => exact .inl hmakes.extracted
    exact hunpack.bind (fun _ s' hs' => (hrest _ s' rfl).mono fun _ _ hsame => by rwa [hsame]) fun _ _ hs' => hs'
  · exact (hrest _ s rfl).mono fun _ _ => .inl

end Hit

/-! ## (5) Where a lookup ends -/

namespace ImportFailure

/-- A failure of a lookup that has reached no hit: nothing has the name, or a layer is not open. -/
def Missed (e : ImportFailure) : Prop :=
  (∃ name, e = .notFound name) ∨ ∃ root layer reason, e = .corruptArchive root layer reason

/-- A refusal of the file system is no miss. -/
theorem not_missed_ofFile (e : FileError) : ¬ (ofFile e).Missed := by
  rintro (⟨_, h⟩ | ⟨_, _, _, h⟩) <;> cases h

/-- Nor is an error of a bundle, if it is not that there is no such entry. -/
theorem not_missed_ofArchive {e : BundleError} (h : ∀ path, e ≠ .notFound path) : ¬ (ofArchive e).Missed := by
  rintro (⟨_, hmissed⟩ | ⟨_, _, _, hmissed⟩)
  · exact found_ofArchive h _ hmissed
  · cases e <;> cases hmissed

end ImportFailure

/-- What a hit asks for is never missed. -/
theorem Hit.raises_realize_not_missed {hit : Hit} {r : Root} {l : Layer} (hsound : ∀ l ∈ r.openLayers, l.2.Sound)
    (hlayer : (hit.layer, l) ∈ r.openLayers) (hfile : l.isFile hit.path = true) (layout : Layout) (name : String) :
    (hit.realize r layout name).Raises fun e => ¬ e.Missed := by
  have hmake : ∀ {l : Layer} {path : String}, l.Sound → l.isFile path = true →
      (Extraction.makeArtifact r.dir l path).Raises fun e => ¬ e.Missed := fun hl hlisted =>
    Extraction.raises_makeArtifact_of_isFile hlisted ImportFailure.not_missed_ofFile
      (fun _ _ hfile hx => ImportFailure.not_missed_ofArchive fun p heq => hl.writeOut_ne_notFound hfile p (heq ▸ hx))
      fun _ hmissed => by rcases hmissed with ⟨_, h⟩ | ⟨_, _, _, h⟩ <;> cases h
  exact raises_realize (fun _ l hl _ hpath => hmake (hsound l hl) (Root.isFile_of_mem_packageData hpath)) hlayer
    (hmake (hsound _ hlayer) hfile) name

namespace ImporterState

variable {s : ImporterState} {rs : RootState} {j k : Nat}

/-- The state of a root is the one that was put there. -/
theorem root_withRoot_self : (s.withRoot k rs).root k = rs := by
  simp [root, withRoot]

/-- What another root has extracted is still remembered. -/
theorem root_withRoot_of_ne (h : j ≠ k) : ((s.withRoot k rs).root j).extracted = (s.root j).extracted := by
  simp [root, withRoot, Table.find?_insert_of_ne h]

end ImporterState

namespace Importer

variable {m : Importer} {name : String} {k k' : Nat} {r r' : Root} {hit hit' : Hit} {s : ImporterState}
  {ds : Nat → Place}

/-- `m.Hits name k r hit`: looking the name up reaches a hit in the root at position `k`. -/
structure Hits (m : Importer) (name : String) (k : Nat) (r : Root) (hit : Hit) : Prop where
  /-- The name can be looked up. -/
  valid : UnitName.isValid name = true
  /-- The search ends in this root. -/
  first : m.First name r k
  /-- All its layers are open. -/
  opened : r.requireOpen = .ok ()
  /-- It holds the name. -/
  found : r.find? m.layout (UnitName.path name) = some hit

/-- **A name is hit in one root**, and in one way. -/
theorem Hits.unique (h : m.Hits name k r hit) (h' : m.Hits name k' r' hit') : k = k' ∧ r = r' ∧ hit = hit' := by
  obtain ⟨rfl, rfl⟩ := h.first.unique h'.first
  exact ⟨rfl, rfl, Option.some.inj (h.found.symm.trans h'.found)⟩

/-- The layer of a hit. -/
theorem Hits.exists_layer (h : m.Hits name k r hit) :
    ∃ l, (hit.layer, l) ∈ r.openLayers ∧ l.isFile hit.path = true := by
  obtain ⟨c, hc, hleast⟩ := Root.find?_least h.found
  obtain ⟨l, token, suffix, hslot, -, -, hfile⟩ := hleast.holds
  exact ⟨l, by rw [hc]; exact Root.mem_openLayers.2 ⟨token, hslot⟩, hfile⟩

/-- **A lookup** reaches no hit and changes nothing, or it ends with what the hit comes to. -/
theorem resolve_cases (m : Importer) (name : String) (s : ImporterState) :
    ((∀ k r hit, ¬ m.Hits name k r hit) ∧ ∃ e, e.Missed ∧ (m.resolve name).outcome s = (.error e, s)) ∨
      ∃ k r hit, m.Hits name k r hit ∧
        (m.resolve name).outcome s = (resolveAt m.layout name r k hit).outcome s := by
  rw [resolve]
  by_cases hname : UnitName.isValid name = true
  · rw [if_pos hname]
    rcases resolveIn_cases m.layout name s m.indexed with ⟨hnone, hout⟩ | ⟨before, r, k, after, hroots, hbefore, hout⟩
    · refine .inl ⟨fun k r hit h => ?_, _, .inl ⟨_, rfl⟩, hout⟩
      exact hnone (r, k) (mem_indexed.2 h.first.root) h.first.ends
    · rcases hout with ⟨e, hopen, hout⟩ | ⟨hit, hopen, hfound, hout⟩
      · rcases r.requireOpen_cases with ⟨hok, -⟩ | ⟨first, slot, reason, rest, hslots, -, herror⟩
        · cases hopen.symm.trans hok
        · cases hopen.symm.trans herror
          have hends : r.Ends m.layout (UnitName.path name) := .inl ⟨slot, reason, by simp [hslots]⟩
          refine .inl ⟨fun k' r' hit h => ?_, _, .inr ⟨_, _, _, rfl⟩, hout⟩
          obtain ⟨-, rfl⟩ := (First.of_indexed hroots hbefore hends).unique h.first
          cases hopen.symm.trans h.opened
      · obtain ⟨c, -, hleast⟩ := Root.find?_least hfound
        exact .inr ⟨k, r, hit, ⟨hname, .of_indexed hroots hbefore (.inr ⟨c, _, hleast.holds⟩), hopen, hfound⟩, hout⟩
  · rw [if_neg hname]
    exact .inl ⟨fun k r hit h => hname h.valid, _, .inl ⟨name, rfl⟩, rfl⟩

/-- What a hit comes to is what it asks for: the failure, if there is one, is that of making it. -/
theorem Hits.resolveAt_yields (h : m.Hits name k r hit) : (resolveAt m.layout name r k hit).Yields s fun out s' =>
    ∃ made rs, (hit.realize r m.layout name).outcome (s.root k) = (made, rs) ∧ s' = s.withRoot k rs ∧
      ∀ e, out = .error e → made = .error e := by
  obtain ⟨l, hl, -⟩ := h.exists_layer
  unfold resolveAt
  refine Yields.bind (P := fun made s' => ∃ rs, (hit.realize r m.layout name).outcome (s.root k) = (made, rs) ∧
    s' = s.withRoot k rs) ⟨_, rfl, rfl⟩ ?_ ?_
  · rintro artifact s' ⟨rs, hrealize, rfl⟩
    refine ⟨_, rs, hrealize, rfl, fun e he => ?_⟩
    rw [outcome_ofExcept, Hit.unit, Root.layerAt_eq_ok.2 hl] at he
    cases he
  · rintro e s' ⟨rs, hrealize, rfl⟩
    exact ⟨_, rs, hrealize, rfl, fun _ he => by cases he; rfl⟩

/-! ## (6) What a lookup changes -/

/-- `m.Spares ds name k r hit s s'`: what a lookup that reaches a hit in the root at position `k` leaves. -/
structure Spares (m : Importer) (ds : Nat → Place) (name : String) (k : Nat) (r : Root) (hit : Hit)
    (s s' : ImporterState) : Prop where
  /-- Of other roots the directories stay, and what they remember. -/
  others : ∀ j, j < m.roots.length → j ≠ k → (s'.root j).extracted = (s.root j).extracted ∧
    ∀ v, ds j <+: v → s'.workspace.tree.node? v = s.workspace.tree.node? v
  /-- Only a package to be unpacked or source to be copied changes anything. -/
  idle : ¬ hit.Unpacks name (s.root k).extracted → ¬ hit.Copies r name →
    s'.workspace = s.workspace ∧ (s'.root k).extracted = (s.root k).extracted
  /-- Only a package to be unpacked is remembered. -/
  remembers : (s'.root k).extracted = (s.root k).extracted ∨ hit.Unpacks name (s.root k).extracted ∧
    (s'.root k).extracted = UnitName.path name :: (s.root k).extracted
  /-- New files stand in the directory of the root, under the first segment of the name. -/
  files : ∀ v c modified, s'.workspace.tree.node? v = some (.file c modified) →
    s.workspace.tree.node? v = some (.file c modified) ∨ ∃ names, v = ds k ++ names ∧ m.layout.Heads name names

/-- What a hit asks for spares the rest. -/
theorem Hits.spares (h : m.Hits name k r hit) (hlayout : m.layout.IsSound) (hsecluded : m.Secluded ds s.workspace)
    {made : Except ImportFailure (Option String)} {rs : RootState}
    (hrealize : (hit.realize r m.layout name).outcome (s.root k) = (made, rs)) :
    m.Spares ds name k r hit s (s.withRoot k rs) := by
  have hroot := h.first.root
  obtain ⟨suffix, hsuffix, hpath⟩ := Root.exists_suffix_of_find? h.found
  have hserves := Hit.preserves_realize
    (fun l _ path hdata => hsecluded.preserves_makeArtifact (l := l.2) hroot
      (Layout.heads_of_mem_packageData h.valid hdata))
    (fun l _ => hsecluded.preserves_makeArtifact (l := l) hroot (hpath ▸ hlayout.heads_pathFor h.valid hsuffix))
    (s.root k) (Serves.refl m ds k (m.layout.Heads name) s.workspace)
  have hremembers : (hit.realize r m.layout name).Yields (s.root k) _ := Hit.realize_remembers
  rw [Yields, hrealize] at hserves hremembers
  refine ⟨fun j hj hjk => ⟨ImporterState.root_withRoot_of_ne hjk, fun v hv => hserves.others j hj (Ne.symm hjk) v hv⟩,
    fun hunpacks hcopies => ?_, ?_, hserves.files⟩
  · rw [Hit.outcome_realize_idle hunpacks hcopies] at hrealize
    cases hrealize
    exact ⟨rfl, by rw [ImporterState.root_withRoot_self]⟩
  · rw [ImporterState.root_withRoot_self]
    exact hremembers

/-- **A lookup has no other effects than it should have.** If it ends with a failure of one that has reached no hit, it
has changed nothing, and it ends so exactly if it has reached none. Else it spares all but what the hit asks for, be it
that this is made or not. -/
theorem resolve_spares {settings : Settings} (hcheck : settings.check = .ok ()) (hlayout : m.layout = settings.layout)
    (hsound : ∀ r ∈ m.roots, ∀ l ∈ r.openLayers, l.2.Sound) (hsecluded : m.Secluded ds s.workspace) (name : String) :
    (m.resolve name).Yields s fun out s' =>
      (∀ e, out = .error e → e.Missed → s' = s) ∧
      ((∃ e, out = .error e ∧ e.Missed) ↔ ∀ k r hit, ¬ m.Hits name k r hit) ∧
      ∀ k r hit, m.Hits name k r hit → m.Spares ds name k r hit s s' := by
  rcases resolve_cases m name s with ⟨hnone, e, hmissed, hout⟩ | ⟨k, r, hit, hhits, hout⟩ <;> rw [Yields, hout]
  · exact ⟨fun _ _ _ => rfl, ⟨fun _ => hnone, fun _ => ⟨e, rfl, hmissed⟩⟩, fun k r hit h => absurd h (hnone k r hit)⟩
  · obtain ⟨made, rs, hrealize, hstate, herror⟩ := hhits.resolveAt_yields (s := s)
    obtain ⟨l, hl, hfile⟩ := hhits.exists_layer
    have hlate : ∀ e, ((resolveAt m.layout name r k hit).outcome s).1 = .error e → ¬ e.Missed := fun e he => by
      have hopen := hsound r (List.mem_of_getElem? hhits.first.root)
      exact Hit.raises_realize_not_missed hopen hl hfile m.layout name _ _ _ (herror e he ▸ hrealize)
    rw [hstate]
    refine ⟨fun e he hmissed => absurd hmissed (hlate e he), ⟨?_, fun hnone => absurd hhits (hnone k r hit)⟩, ?_⟩
    · rintro ⟨e, he, hmissed⟩
      exact absurd hmissed (hlate e he)
    · intro k' r' hit' hhits'
      obtain ⟨rfl, rfl, rfl⟩ := hhits.unique hhits'
      exact hhits.spares (hlayout ▸ Layout.isSound_of_check hcheck) hsecluded hrealize

/-- An importer of two roots. The first one holds nothing, the second one a package and a module, whose source has to
stand on disk. -/
def besides (dir dir' : String) : Importer :=
  .new [⟨dir, [.opened (.ofFiles "a" 1 []) none], [], 1⟩,
      ⟨dir', [.opened (.ofFiles "b" 1 [("p/__init__.py", .empty), ("p/d.txt", "1".toUTF8), ("q.py", .empty)]) none],
        ["q"], 1⟩]
    Layout.standard fun _ _ => .ok ()

/-- A lookup in these roots, where nothing is but a tree. -/
def lookUpBeside (t : FileTree) (dir dir' name : String) : Except ImportFailure FoundUnit × ImporterState :=
  ((besides dir dir').resolve name).outcome (.ofWorkspace (.ofTree t))

/-- The tree in which a file stands in the directory of the first root. -/
def standingBeside : FileTree := ⟨[(["y"], .directory), (["y", "d.txt"], .file .empty .epoch)], []⟩

/-- The tree in which a link to the directory of the first root stands in that of the second one. -/
def linkedBeside : FileTree := ⟨[(["x"], .directory), (["x", "p"], .link "/y"), (["y"], .directory)], []⟩

/-- The two directories of the example stand apart. -/
theorem besides_apart : (besides "/y" "/x").Apart := by
  refine ⟨?_, ?_⟩
  · intro r hr
    obtain hdir | hdir : r.dir = "/y" ∨ r.dir = "/x" := by
      simp only [besides, Importer.new, List.mem_cons, List.not_mem_nil, or_false] at hr
      rcases hr with rfl | rfl <;> simp
    all_goals
      rw [hdir]
      exact ⟨by decide +kernel, by decide +kernel⟩
  · have hnone : ¬ Territory (DiskPath.steps "/y") (DiskPath.steps "/x") ∧
        ¬ Territory (DiskPath.steps "/x") (DiskPath.steps "/y") := by
      unfold Territory
      decide +kernel
    simpa [besides, Importer.new] using hnone

/-- A package of the second root is unpacked. What stands in the directory of the first one stays, and only the second
one remembers the package. -/
theorem besides_spares : ∃ r hit, (besides "/y" "/x").Hits "p" 1 r hit ∧
    (lookUpBeside standingBeside "/y" "/x" "p").2.workspace.tree.has "/x/p/d.txt" = true ∧
    (besides "/y" "/x").Spares (besides "/y" "/x").places "p" 1 r hit (.ofWorkspace (.ofTree standingBeside))
      (lookUpBeside standingBeside "/y" "/x" "p").2 := by
  have hsound : ∀ r ∈ (besides "/y" "/x").roots, ∀ l ∈ r.openLayers, l.2.Sound := by decide +kernel
  have hnil : ∀ r ∈ (besides "/y" "/x").roots, DiskPath.steps r.dir ≠ [] := by decide +kernel
  have hsecluded : (besides "/y" "/x").Secluded (besides "/y" "/x").places
      (ImporterState.ofWorkspace (.ofTree standingBeside)).workspace :=
    besides_apart.secluded (linkFree_of_nodes (by decide +kernel)) hnil
  have hfirst : (besides "/y" "/x").roots[0]?.bind (·.find? .standard (UnitName.path "p")) = none := by decide +kernel
  have hunit : (lookUpBeside standingBeside "/y" "/x" "p").1.isOk = true := by decide +kernel
  have hdisk : (lookUpBeside standingBeside "/y" "/x" "p").2.workspace.tree.has "/x/p/d.txt" = true := by decide +kernel
  have hcheck : Settings.standard.check = .ok () := by decide +kernel
  obtain ⟨-, hmissed, hspares⟩ := resolve_spares hcheck rfl hsound hsecluded "p"
  -- What was looked up is found, and not in the first root.
  obtain ⟨k, r, hit, hhits⟩ : ∃ k r hit, (besides "/y" "/x").Hits "p" k r hit := by
    by_contra hno
    simp only [not_exists] at hno
    obtain ⟨e, herror, -⟩ := hmissed.2 hno
    rw [lookUpBeside, herror] at hunit
    cases hunit
  have hroot := hhits.first.root
  obtain rfl : k = 1 := by
    refine Nat.le_antisymm (Nat.le_of_lt_succ (List.getElem?_eq_some_iff.1 hroot).1) (Nat.one_le_iff_ne_zero.2 ?_)
    rintro rfl
    rw [hroot, Option.bind_some] at hfirst
    cases hfirst.symm.trans hhits.found
  exact ⟨r, hit, hhits, hdisk, hspares 1 r hit hhits⟩

/-- **Where directories are in each other's way, a lookup does more.** Where the path of a directory passes that of
another root, that is made. Where it passes itself, a temporary file may be left. And where a link stands in it, that is
followed into the directory of the other root. -/
theorem detours_disturb : Settings.standard.check = .ok () ∧ Settings.standard.layout = .standard ∧
    ((DiskPath.placeFrom [] "/w/y" = ["w", "y"] ∧ DiskPath.placeFrom [] "/w/y/../x" = ["w", "x"]) ∧
      (lookUpBeside .empty "/w/y" "/w/y/../x" "p").1.toOption.map (·.rootIndex) = some 1 ∧
      FileTree.empty.has "/w/y" = false ∧
      (lookUpBeside .empty "/w/y" "/w/y/../x" "p").2.workspace.tree.has "/w/y" = true) ∧
    (DiskPath.placeFrom [] "/x/q.py/../../x" = ["x"] ∧
      (lookUpBeside .empty "/y" "/x/q.py/../../x" "q").1 = .error (.io (.refused .notFound)) ∧
      FileTree.empty.has "/x/.q.py.1-0.part" = false ∧
      (lookUpBeside .empty "/y" "/x/q.py/../../x" "q").2.workspace.tree.read "/x/.q.py.1-0.part" = .ok .empty) ∧
    ((lookUpBeside linkedBeside "/y" "/x" "p").1.toOption.map (·.rootIndex) = some 1 ∧
      linkedBeside.has "/y/d.txt" = false ∧
      (lookUpBeside linkedBeside "/y" "/x" "p").2.workspace.tree.has "/y/d.txt" = true) := by
  refine ⟨by decide +kernel, rfl, by decide +kernel, by decide +kernel, by decide +kernel⟩

end Importer

end LayeredBundles
