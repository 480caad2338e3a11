import LayeredBundles.Proofs.DataFiles

/-! # Unpacking a package

The data files of a package are unpacked from one layer after another into one directory. What stands at a
path in the end is what is laid there by each of the layers in turn: a copy stays if the next layer's file has
its size and time, and makes way for that layer's copy if not.

* **`Layer.accepts`** — whether a layer's file is taken to stand there already;
* **`Extraction.overlay`** — what files laid over each other leave at a path;
* **`Extraction.Laid`** — the tree has at a path what was laid there, or nothing can be reached there;
* **`Extraction.Made.laid`** — making an artifact lays one more file;
* **`Root.unpack_laid`** — unpacking a package lays all of its data files;
* **`Importer.unpacked_iff`** — when what was unpacked is what is read. -/

namespace LayeredBundles

open FileTree Fallible

/-! ## (1) Laying files over each other -/

namespace Layer

variable {l : Layer} {path : String} {e : Entry} {c : ByteArray} {m : Instant} {n : Node}

/-- The copy of a layer's file, if it can be read. -/
def copy? (l : Layer) (path : String) : Option Node :=
  match l.entry path, l.contents path with
  | .ok e, .ok c => some (.file c e.modified)
  | _, _ => none

/-- The copy of a file that is read is its bytes with the time of its entry. -/
theorem copy?_eq (he : l.entry path = .ok e) (hc : l.contents path = .ok c) :
    l.copy? path = some (.file c e.modified) := by
  rw [copy?, he, hc]

/-- Whether what stands somewhere is taken for a layer's file: it has the size and the time. -/
def accepts (l : Layer) (path : String) : Option Node → Bool
  | some (.file c m) =>
    match l.entry path with
    | .ok e => c.size = e.size && m.wholeSeconds = e.timestamp
    | .error _ => false
  | _ => false

/-- A file on disk is taken for a copy by its size and its time in whole seconds. -/
theorem accepts_file (he : l.entry path = .ok e) :
    l.accepts path (some (.file c m)) = (decide (c.size = e.size) && decide (m.wholeSeconds = e.timestamp)) := by
  rw [accepts, he]

end Layer

namespace Extraction

variable {l : Layer} {path dir dest : String} {d : Place} {names ns : List String} {name : String} {e : Entry}
  {t : FileTree} {w w' w₀ : Workspace} {standing : Option Node} {r : Except ImportFailure String}

/-- What a file laid over what stands at `ns` leaves there. -/
def lay (ns : List String) (standing : Option Node) (job : Layer × String) : Option Node :=
  if DiskPath.steps job.2 = ns then
    if job.1.accepts job.2 standing then standing else job.1.copy? job.2
  else standing

/-- What files laid over each other, the first one over nothing, leave at `ns`. -/
def overlay (jobs : List (Layer × String)) (ns : List String) : Option Node := jobs.foldl (lay ns) none

/-- The last job is laid over the others. -/
theorem overlay_concat (jobs : List (Layer × String)) (job : Layer × String) (ns : List String) :
    overlay (jobs ++ [job]) ns = lay ns (overlay jobs ns) job := by
  simp [overlay]

/-- A job leaves what stands elsewhere. -/
theorem lay_of_ne (h : DiskPath.steps path ≠ ns) : lay ns standing (l, path) = standing := if_neg h

/-! ## (2) What stands at the names of a path -/

/-- Where the artifact of a path with the given steps stands. -/
def destination (dir : String) (ns : List String) : String := DiskPath.join dir (ArchivePath.ofSegments ns)

/-- The destination of a target has its names below the directory. -/
theorem Target.dest_eq_destination (h : Target dir l path names name e dest) :
    dest = destination dir (names ++ [name]) := by
  rw [h.dest_eq, ArchivePath.normalize, ← DiskPath.steps_eq_archive, h.steps, destination]

/-- A file stands in the way to `ns` below `d`. -/
def Blocked (t : FileTree) (d : Place) (ns : List String) : Prop :=
  ∃ front more, ns = front ++ more ∧ front ≠ [] ∧ more ≠ [] ∧ ∃ c m, t.node? (d ++ front) = some (.file c m)

/-- `Laid t dir d ns standing`: at `ns` below the directory is what was laid there; or a file stands in the way,
and nothing can be reached there. -/
inductive Laid (t : FileTree) (dir : String) (d : Place) (ns : List String) : Option Node → Prop
  /-- A file was laid and is seen. -/
  | seen {c : ByteArray} {m : Instant} (look : t.look false (destination dir ns) = .ok (.file c m)) :
      Laid t dir d ns (some (.file c m))
  /-- Nothing was laid. -/
  | nothing (free : t.node? (d ++ ns) = none ∨ t.node? (d ++ ns) = some .directory) : Laid t dir d ns none
  /-- A file stands in the way. -/
  | blocked {standing : Option Node} (blocked : Blocked t d ns) : Laid t dir d ns standing

/-- Where something is reached, no file stands in the way. -/
theorem not_blocked (hsite : t.Site (Outside d) dir d) (hdest : Inside dir names name dest)
    (hreaches : t.ReachesInside d names dest name) : ¬ Blocked t d (names ++ [name]) := by
  rintro ⟨front, more, heq, -, hmore, c, m, hnode⟩
  -- A way that is passed leads through directories.
  have hfront : front <+: names := by
    obtain ⟨more, last, rfl⟩ := List.eq_nil_or_concat more |>.resolve_left hmore
    rw [List.concat_eq_append, ← List.append_assoc] at heq
    exact ⟨more, ((List.append_inj' heq rfl).1).symm⟩
  rw [hsite.directory_of_reaches hdest hreaches hfront] at hnode
  cases hnode

/-- What is seen at a path is what was laid there. -/
theorem Laid.eq_of_look (h : Laid t dir d (names ++ [name]) standing) (hsite : t.Site (Outside d) dir d)
    (hdest : Inside dir names name dest) (heq : dest = destination dir (names ++ [name])) {c : ByteArray}
    {m : Instant} (hlook : t.look false dest = .ok (.file c m)) : standing = some (.file c m) := by
  obtain ⟨hnode, hreaches⟩ := look_stands (hsite.inside hdest) hlook
  cases h with
  | seen hseen =>
    rw [heq, hseen] at hlook
    cases hlook
    rfl
  | nothing hfree =>
    rw [← List.append_assoc, hnode] at hfree
    rcases hfree with h | h <;> cases h
  | blocked hblocked => exact absurd hblocked (not_blocked hsite hdest hreaches)

/-! ## (3) One more file -/

/-- None of the names is that of a temporary file yet to be written. -/
def NoTemporary (w : Workspace) (ns : List String) : Prop :=
  ∀ s ∈ ns, ∀ name serial, w.serial ≤ serial → s ≠ temporaryName name w.process serial

/-- Temporary files begin with a point. -/
theorem noTemporary_of_visible (h : ∀ s ∈ ns, Text.startsWith "." s = false) (w : Workspace) : NoTemporary w ns := by
  rintro s hs name serial - rfl
  have hhidden : Text.startsWith "." (temporaryName name w.process serial) = true := by
    refine Text.startsWith_iff.2
      ⟨name ++ "." ++ toString w.process ++ "-" ++ toString serial ++ temporarySuffix, ?_⟩
    simp only [temporaryName, String.append_assoc]
  rw [h _ hs] at hhidden
  cases hhidden

/-- No temporary file stands in the way later, since numbers only rise. -/
theorem NoTemporary.keeps (h : NoTemporary w ns) (hkeeps : w.Keeps w') : NoTemporary w' ns :=
  fun s hs name serial hserial => hkeeps.process ▸ h s hs name serial (Nat.le_trans hkeeps.serial hserial)

section Arrived

variable {names' ns' : List String} {name' : String} {serial : Nat} {n : Option Node}

/-- Making an artifact changes nothing outside. -/
theorem Change.inside {v : Place} (h : Change l e (d ++ ns') (temporaryPlace d names' name' w.process serial) t v n) :
    d <+: v := by
  cases h with
  | gone hgone =>
    cases hgone with
    | hidden place =>
      rw [place, temporaryPlace, List.append_assoc]
      exact List.prefix_append _ _
    | below place => exact (List.prefix_append _ _).trans (isBelow_iff.1 place).1
    | directory place => exact place ▸ List.prefix_append _ _
  | copied place => exact place ▸ List.prefix_append _ _

/-- On the way to `ns`, an artifact that is made changes at most its own place and what is below it. -/
theorem Change.prefix_of_way {front : List String} (h : Change l e (d ++ ns')
      (temporaryPlace d names' name' w.process serial) t (d ++ front) n) (hserial : w.serial ≤ serial)
    (hno : NoTemporary w front) : ns' <+: front := by
  cases h with
  | gone hgone =>
    cases hgone with
    | hidden place =>
      rw [temporaryPlace, List.append_assoc, List.append_cancel_left_eq] at place
      exact absurd rfl (hno _ (by simp [place]) name' serial hserial)
    | below place => exact (List.prefix_append_right_inj d).1 (isBelow_iff.1 place).1
    | directory place =>
      rw [List.append_cancel_left_eq] at place
      exact place ▸ List.prefix_refl _
  | copied place =>
    rw [List.append_cancel_left_eq] at place
    exact place ▸ List.prefix_refl _

/-- On the way to `ns`, what stood there stands there, unless an artifact was put there or in the way. -/
theorem node?_way {front : List String} (htouches : Touches (Change l e (d ++ ns')
      (temporaryPlace d names' name' w.process serial) w.tree) w.tree t) (hserial : w.serial ≤ serial)
    (hno : NoTemporary w front) {x : Node} (hnode : w.tree.node? (d ++ front) = some x) :
    t.node? (d ++ front) = some x ∨ ns' <+: front := by
  rcases htouches.node (d ++ front) with hsame | ⟨hnone, -⟩ | hchange
  · exact .inl (hsame.trans hnode)
  · rw [hnode] at hnone; cases hnone
  · exact .inr (hchange.prefix_of_way hserial hno)

/-- What blocked the way blocks it, or the artifact does. -/
theorem Blocked.touches (h : Blocked w.tree d ns) (htouches : Touches (Change l e (d ++ ns')
      (temporaryPlace d names' name' w.process serial) w.tree) w.tree t) (hserial : w.serial ≤ serial)
    (hno : NoTemporary w ns) (hne : ns' ≠ []) {c : ByteArray} {m : Instant}
    (harrived : t.node? (d ++ ns') = some (.file c m)) : Blocked t d ns := by
  obtain ⟨front, more, rfl, hfront, hmore, c', m', hnode⟩ := h
  have hnofront : NoTemporary w front := fun s hs => hno s (List.mem_append_left _ hs)
  rcases node?_way htouches hserial hnofront hnode with hsame | ⟨rest, rfl⟩
  · exact ⟨front, more, rfl, hfront, hmore, c', m', hsame⟩
  · exact ⟨ns', rest ++ more, by simp, hne, by simp [hmore], c, m, harrived⟩

/-- What is seen at a path is seen there still, if what stands there and on the way does, and nothing is changed
outside. -/
theorem look_of_way (hsite : w.tree.Site (Outside d) dir d) (hsite' : t.Site (Outside d) dir d)
    (hdest : Inside dir names name dest) (hbase : t.base = w.tree.base)
    (hway : ∀ front, front <+: names ++ [name] → ∀ y, w.tree.node? (d ++ front) = some y →
      t.node? (d ++ front) = some y)
    (houtside : ∀ v, Outside d v → ∀ y, w.tree.node? v = some y → t.node? v = some y) {x : Node}
    (hlook : w.tree.look false dest = .ok x) : t.look false dest = .ok x := by
  obtain ⟨hnode, hreaches⟩ := look_stands (hsite.inside hdest) hlook
  have hreaches' : t.ReachesInside d names dest name := by
    refine hreaches.congr hbase fun v hv hpass => ?_
    -- What can be passed on the way is there, so it is not a new directory.
    obtain ⟨y, hy⟩ : ∃ y, w.tree.node? v = some y := hpass.leadsOn.elim (⟨_, ·⟩) fun ⟨_, h⟩ => ⟨_, h⟩
    by_cases hd : d <+: v
    · obtain ⟨front, rfl⟩ := hd
      have hfront : front <+: names := by
        rcases hv with hout | hle
        · exact absurd (List.prefix_append d front) hout
        · exact (List.prefix_append_right_inj d).1 hle
      rw [hy, hway front (hfront.trans (List.prefix_append _ _)) y hy]
    · rw [hy, houtside v hd y hy]
  rw [List.append_assoc] at hnode
  have hnode' := hway _ (List.prefix_refl _) _ hnode
  rw [← List.append_assoc] at hnode'
  exact look_eq (hsite'.inside hdest) hreaches' (hdest.ends_at d) hnode'

/-- Making an artifact takes nothing away outside. -/
theorem node?_outside (htouches : Touches (Change l e (d ++ ns')
      (temporaryPlace d names' name' w.process serial) w.tree) w.tree t) {v : Place} (hv : Outside d v) {y : Node}
    (hy : w.tree.node? v = some y) : t.node? v = some y := by
  rcases htouches.node v with hsame | ⟨hnone, -⟩ | hchange
  · exact hsame.trans hy
  · rw [hy] at hnone; cases hnone
  · exact absurd hchange.inside hv

/-- What is seen at a path is seen there still, if no artifact is put there or in the way. -/
theorem look_elsewhere (hsite : w.tree.Site (Outside d) dir d) (hsite' : t.Site (Outside d) dir d)
    (hdest : Inside dir names name dest)
    (htouches : Touches (Change l e (d ++ ns') (temporaryPlace d names' name' w.process serial) w.tree) w.tree t)
    (hserial : w.serial ≤ serial) (hno : NoTemporary w (names ++ [name])) (hother : ¬ ns' <+: names ++ [name])
    {x : Node} (hlook : w.tree.look false dest = .ok x) : t.look false dest = .ok x := by
  refine look_of_way hsite hsite' hdest htouches.base (fun front hfront y hy => ?_)
    (fun v hv y hy => node?_outside htouches hv hy) hlook
  exact (node?_way htouches hserial (fun s hs => hno s (hfront.subset hs)) hy).resolve_right fun h =>
    hother (h.trans hfront)

/-- An artifact that is made at other names leaves what was laid at `ns`, or blocks the way there. -/
theorem Laid.arrived_elsewhere (h : Laid w.tree dir d (names ++ [name]) standing)
    (hsite : w.tree.Site (Outside d) dir d) (hsite' : t.Site (Outside d) dir d)
    (hdest : Inside dir names name (destination dir (names ++ [name])))
    (htouches : Touches (Change l e (d ++ ns') (temporaryPlace d names' name' w.process serial) w.tree) w.tree t)
    (hserial : w.serial ≤ serial) (hno : NoTemporary w (names ++ [name])) (hne : ns' ≠ [])
    (hother : ns' ≠ names ++ [name]) {c : ByteArray} {m : Instant}
    (harrived : t.node? (d ++ ns') = some (.file c m)) : Laid t dir d (names ++ [name]) standing := by
  cases h with
  | blocked hblocked => exact .blocked (hblocked.touches htouches hserial hno hne harrived)
  | nothing hfree =>
    refine .nothing ?_
    rcases htouches.node (d ++ (names ++ [name])) with hsame | ⟨-, hdir⟩ | hchange
    · exact hsame ▸ hfree
    · exact .inr hdir
    · generalize t.node? (d ++ (names ++ [name])) = n at hchange
      cases hchange with
      | gone hgone => cases hgone <;> exact .inl rfl
      | copied place => exact absurd (List.append_cancel_left place).symm hother
  | @seen c' m' hlook =>
    -- An artifact that stands above is in the way from now on.
    by_cases hpre : ns' <+: names ++ [name]
    · obtain ⟨more, heq⟩ := hpre
      refine .blocked ⟨ns', more, heq.symm, hne, ?_, c, m, harrived⟩
      rintro rfl
      exact hother (by simpa using heq)
    · exact .seen (look_elsewhere hsite hsite' hdest htouches hserial hno hpre hlook)

end Arrived

/-- **Making an artifact lays one more file.** -/
theorem Made.laid (h : Made dir l path d w (.ok dest) w') (hlaid : Laid w.tree dir d (names ++ [name]) standing)
    (hsite : w.tree.Site (Outside d) dir d) (hsite' : w'.tree.Site (Outside d) dir d)
    (hdest : Inside dir names name (destination dir (names ++ [name])))
    (hno : NoTemporary w (names ++ [name])) : Laid w'.tree dir d (names ++ [name])
      (lay (names ++ [name]) standing (l, path)) := by
  cases h with
  | @current names' name' e _ target fresh =>
    by_cases hsteps : DiskPath.steps path = names ++ [name]
    · obtain ⟨rfl, hname⟩ := List.append_inj' (target.steps.symm.trans hsteps) rfl
      simp only [List.cons.injEq, and_true] at hname
      subst hname
      obtain ⟨c, m, hlook, hsize, htime⟩ := exists_of_isFresh fresh
      -- The copy was current, so the file that stands there is accepted.
      have hstanding := hlaid.eq_of_look hsite target.inside target.dest_eq_destination hlook
      have haccepts : l.accepts path standing = true := by
        rw [hstanding, Layer.accepts_file target.entry]
        simp [hsize, htime]
      rwa [lay, if_pos hsteps, if_pos haccepts]
    · rwa [lay_of_ne hsteps]
  | @arrived names' name' e _ target stale _ keeps serial next touches arrived =>
    obtain ⟨c, hcontents, hlook, hnode⟩ := arrived
    rw [Layer.contents_entry target.entry] at hcontents
    rw [List.append_assoc] at touches hnode
    by_cases hsteps : DiskPath.steps path = names ++ [name]
    · obtain ⟨rfl, hname⟩ := List.append_inj' (target.steps.symm.trans hsteps) rfl
      simp only [List.cons.injEq, and_true] at hname
      subst hname
      -- Nothing was in the way, or it still would be.
      have hnot : ¬ Blocked w.tree d (names' ++ [name']) := fun hblocked => by
        have hreaches := (look_stands (hsite'.inside target.inside) hlook).2
        exact not_blocked hsite' target.inside hreaches
          (hblocked.touches touches next.1 hno (by simp) hnode)
      have hstale : l.accepts path standing = false := by
        cases hlaid with
        | seen hseen =>
          rw [isFresh, target.dest_eq_destination, hseen] at stale
          rw [Layer.accepts_file target.entry]
          exact stale
        | nothing => rfl
        | blocked hblocked => exact absurd hblocked hnot
      have hcopy := Layer.copy?_eq target.entry hcontents
      rw [lay, if_pos hsteps, hstale, if_neg (by simp), hcopy]
      exact .seen (target.dest_eq_destination ▸ hlook)
    · rw [lay_of_ne hsteps]
      have hother : names' ++ [name'] ≠ names ++ [name] := fun heq => hsteps (target.steps.trans heq)
      exact hlaid.arrived_elsewhere hsite hsite' hdest touches next.1 hno (by simp) hother hnode

/-- `Layering w₀ dir d names name jobs w`: from `w₀` on, some files were laid over each other. -/
structure Layering (w₀ : Workspace) (dir : String) (d : Place) (names : List String) (name : String)
    (jobs : List (Layer × String)) (w : Workspace) : Prop where
  /-- What is kept. -/
  keeps : w₀.Keeps w
  /-- The directory stands where it stood. -/
  site : w.tree.Site (Outside d) dir d
  /-- What was laid. -/
  laid : Laid w.tree dir d (names ++ [name]) (overlay jobs (names ++ [name]))

/-- One file after another is laid. -/
theorem Layering.concat {jobs : List (Layer × String)} {job : Layer × String}
    (h : Layering w₀ dir d names name jobs w)
    (hdest : Inside dir names name (destination dir (names ++ [name])))
    (hno : NoTemporary w₀ (names ++ [name])) (hok : (makeArtifact dir job.1 job.2).outcome w = (.ok dest, w')) :
    Layering w₀ dir d names name (jobs ++ [job]) w' := by
  have hmade := makeArtifact_yields h.site job.1 job.2
  have hfills := makeArtifact_fills h.site job.1 job.2
  rw [Yields, hok] at hmade hfills
  have hsite' := hfills.tree.site h.site.plain h.site
  refine ⟨h.keeps.trans hfills.keeps, hsite', ?_⟩
  rw [overlay_concat]
  exact hmade.laid h.laid h.site hsite' hdest (hno.keeps h.keeps)

end Extraction

/-! ## (4) What a package is unpacked from -/

/-- The data files of a package in all layers, in the order in which they are unpacked. -/
def Root.unpackJobs (r : Root) (layout : Layout) (package : String) : List (Layer × String) :=
  r.openLayers.flatMap fun l => (r.packageData layout l.2 package).map fun path => (l.2, path)

/-- The files that realizing a hit extracts, in order, when some packages have been unpacked before. -/
def Hit.jobs (h : Hit) (r : Root) (layout : Layout) (name : String) (extracted : List String) :
    List (Layer × String) :=
  (if h.form = .package ∧ !Text.hasChar '.' name ∧ !extracted.contains (UnitName.path name) then
    r.unpackJobs layout (UnitName.path name) else []) ++
  (if h.kind = .source ∧ r.requiresSource (UnitName.topLevel name) then
    (r.layerAt h.layer).toOption.toList.map fun l => (l, h.path) else [])

section Jobs

variable {r : Root} {layout : Layout} {s s' : RootState} {K : List (Layer × String) → Workspace → Prop}

/-- What every artifact carries on holds of all data files after a package is unpacked. -/
theorem Root.of_unpackPackage_ok {package : String} {count : Nat}
    (hround : ∀ done job w w' dest, K done w →
      (Extraction.makeArtifact r.dir job.1 job.2).outcome w = (.ok dest, w') → K (done ++ [job]) w')
    (hs : K [] s.workspace) (h : (r.unpackPackage layout package).outcome s = (.ok count, s')) :
    K (if s.extracted.contains package then [] else r.unpackJobs layout package) s'.workspace := by
  unfold unpackPackage at h
  obtain ⟨s₁, s₂, hget, h⟩ := exists_of_outcome_bind_ok h
  rw [outcome_get, Prod.mk.injEq] at hget
  obtain ⟨hs₁, rfl⟩ := hget
  cases hs₁
  split at h
  · next hextracted =>
    cases h
    rw [if_pos hextracted]
    exact hs
  · next hextracted =>
    rw [if_neg hextracted]
    obtain ⟨u, s₂, hloop, h⟩ := exists_of_outcome_bind_ok h
    obtain ⟨u', s₃, hmodify, h⟩ := exists_of_outcome_bind_ok h
    rw [outcome_modify, Prod.mk.injEq] at hmodify
    obtain ⟨-, rfl⟩ := hmodify
    cases h
    -- The loop runs over the jobs, with one call for each.
    have hall := of_outcome_forIn_ok (K := fun done (s : RootState) => K done s.workspace) ?_ hs hloop
    · exact hall
    rintro done ⟨l, path⟩ s₄ step s₅ hdone hstep
    obtain ⟨dest, s₆, hmake, hstep⟩ := exists_of_outcome_bind_ok hstep
    cases hstep
    rw [RootWork.ofWork, outcome_onto, Prod.mk.injEq] at hmake
    refine ⟨rfl, hround done (l, path) s₄.workspace _ dest hdone (Prod.ext hmake.1 ?_)⟩
    rw [← hmake.2]

/-- Files are extracted from open layers. -/
theorem Hit.exists_of_mem_jobs {h : Hit} {name path : String} {extracted : List String} {l : Layer}
    (hjob : (l, path) ∈ h.jobs r layout name extracted) : ∃ k, (k, l) ∈ r.openLayers := by
  rcases List.mem_append.1 hjob with hjob | hjob
  · split at hjob
    · obtain ⟨⟨k, l'⟩, hl, hpath⟩ := List.mem_flatMap.1 hjob
      obtain ⟨path', -, heq⟩ := List.mem_map.1 hpath
      cases heq
      exact ⟨k, hl⟩
    · cases hjob
  · split at hjob
    · obtain ⟨l', hl, heq⟩ := List.mem_map.1 hjob
      cases heq
      refine ⟨h.layer, Root.layerAt_eq_ok.1 ?_⟩
      cases hlayer : r.layerAt h.layer with
      | error x => rw [hlayer] at hl; cases hl
      | ok l' =>
        rw [hlayer] at hl
        cases List.mem_singleton.1 hl
        rfl
    · cases hjob

/-- What every artifact carries on holds of all files after a hit is realized. -/
theorem Hit.of_realize_ok {h : Hit} {name : String} {artifact : Option String}
    (hround : ∀ done job w w' dest, K done w →
      (Extraction.makeArtifact r.dir job.1 job.2).outcome w = (.ok dest, w') → K (done ++ [job]) w')
    (hs : K [] s.workspace) (hok : (h.realize r layout name).outcome s = (.ok artifact, s')) :
    K (h.jobs r layout name s.extracted) s'.workspace := by
  -- The artifact of the source comes after the data files.
  have hsource : ∀ done s₁, K done s₁.workspace → (h.extractSource r name).outcome s₁ = (.ok artifact, s') →
      K (done ++ if h.kind = .source ∧ r.requiresSource (UnitName.topLevel name) then
        (r.layerAt h.layer).toOption.toList.map fun l => (l, h.path) else []) s'.workspace := by
    intro done s₁ hdone hout
    obtain ⟨hrequired, dest, l, -, hlayer, hmake⟩ | ⟨hrequired, -, rfl⟩ := cases_of_extractSource hout
    · rw [if_pos hrequired, hlayer]
      exact hround done (l, h.path) s₁.workspace _ dest hdone hmake
    · rw [if_neg hrequired, List.append_nil]
      exact hdone
  rw [realize_eq] at hok
  unfold jobs
  by_cases hform : h.form = .package ∧ !Text.hasChar '.' name
  · rw [if_pos hform] at hok
    obtain ⟨count, s₁, hunpack, hok⟩ := exists_of_outcome_bind_ok hok
    have hdata := Root.of_unpackPackage_ok hround hs hunpack
    have hjobs : (if s.extracted.contains (UnitName.path name) then [] else r.unpackJobs layout (UnitName.path name))
        = if h.form = .package ∧ !Text.hasChar '.' name ∧ !s.extracted.contains (UnitName.path name) then
          r.unpackJobs layout (UnitName.path name) else [] := by
      cases hextracted : s.extracted.contains (UnitName.path name) <;> simp [hform.1, hform.2]
    rw [hjobs] at hdata
    exact hsource _ s₁ hdata hok
  · rw [if_neg hform] at hok
    rw [if_neg fun hall => hform ⟨hall.1, hall.2.1⟩]
    exact hsource [] s hs hok

end Jobs

/-! ## (5) Precedence -/

/-- `r.KeepsPrecedence jobs path`: what files laid over each other leave at a path has the bytes that are read of the
first layer's file. -/
def Root.KeepsPrecedence (r : Root) (jobs : List (Layer × String)) (path : String) : Prop :=
  ∃ first c modified, r.first? path = some first ∧ first.2.read path = .ok (.ok c) ∧
    Extraction.overlay jobs (DiskPath.steps path) = some (.file c modified)

namespace Importer

variable {m : Importer} {s s' : ImporterState} {u : FoundUnit} {r : Root} {hit : Hit} {name path : String} {d : Place}
  {l : Layer} {c : ByteArray} {modified : Instant}

/-- A name without points is its own path. -/
theorem path_eq_of_not_dotted (hvalid : UnitName.isValid name = true) (htop : Text.hasChar '.' name = false) :
    UnitName.path name = name ∧ DiskPath.IsName name := by
  have hdot : '.' ∉ name.toList := by simpa [Text.hasChar] using htop
  have hsegments : UnitName.segments name = [name] := Text.split_of_not_mem hdot
  have hsegment : UnitName.isSegment name = true := by
    rw [UnitName.isValid, hsegments] at hvalid
    simpa using hvalid
  simp only [UnitName.isSegment, ne_eq, decide_not, Bool.and_eq_true, Bool.not_eq_eq_eq_not, Bool.not_true,
    decide_eq_false_iff_not] at hsegment
  refine ⟨by simp [UnitName.path, hsegments, Text.join, Text.joinChars], ?_, ?_, ?_⟩
  · simpa [Text.hasChar] using hsegment.1.2
  · have hhere : name ≠ "." := by rintro rfl; exact hdot (by decide)
    simp [DiskPath.counts, hsegment.1.1, hhere]
  · rintro rfl
    exact hdot (by decide)

/-- **What is unpacked is what is laid.** After a name is found, what is seen at the path of one of its data files is
what the layers' files leave when they are laid over each other. -/
theorem unpacked_eq_overlay (hresolve : (m.resolve name).outcome s = (.ok u, s'))
    (hr : m.roots[u.rootIndex]? = some r) (hhit : r.find? m.layout (UnitName.path name) = some hit)
    (hstands : s.workspace.tree.Stands (Outside d) r.dir d)
    (habsent : ∀ v, d <+: v → s.workspace.tree.node? v = none)
    (hjob : (l, path) ∈ hit.jobs r m.layout name (s.root u.rootIndex).extracted)
    (hno : Extraction.NoTemporary s.workspace (DiskPath.steps path))
    (hdisk : s'.workspace.tree.look false (Extraction.destination r.dir (DiskPath.steps path))
      = .ok (.file c modified)) :
    Extraction.overlay (hit.jobs r m.layout name (s.root u.rootIndex).extracted) (DiskPath.steps path)
      = some (.file c modified) ∧
    ∃ names nm e dest, Extraction.Target r.dir l path names nm e dest := by
  obtain ⟨-, r', i, hit', artifact, rs, hr', -, hfind, hrealize, rfl, hunit⟩ := exists_of_resolve hresolve
  obtain ⟨l', -, rfl⟩ := Hit.exists_of_unit hunit
  cases hr.symm.trans hr'
  cases hhit.symm.trans hfind
  -- Every file that was to be unpacked was: the run ended well.
  have htargets : ∀ job ∈ hit.jobs r m.layout name (s.root i).extracted,
      ∃ names nm e dest, Extraction.Target r.dir job.1 job.2 names nm e dest := by
    refine Hit.of_realize_ok (K := fun done _ => ∀ job ∈ done,
      ∃ names nm e dest, Extraction.Target r.dir job.1 job.2 names nm e dest) ?_ (by simp) hrealize
    intro done job w w' dest hdone hmake job' hjob'
    rcases List.mem_append.1 hjob' with hmem | hmem
    · exact hdone job' hmem
    · cases List.mem_singleton.1 hmem
      obtain ⟨names, nm, e, htarget⟩ := Extraction.exists_target_of_ok hmake
      exact ⟨names, nm, e, dest, htarget⟩
  obtain ⟨names, nm, e, dest, htarget⟩ := htargets _ hjob
  have hsteps : DiskPath.steps path = names ++ [nm] := htarget.steps
  rw [hsteps] at hno hdisk
  have hdest := htarget.dest_eq_destination ▸ htarget.inside
  have hsite : s.workspace.tree.Site (Outside d) r.dir d := ⟨hstands, fun v hv target hlink => by
    rw [habsent v hv] at hlink; cases hlink⟩
  have hlayering : Extraction.Layering s.workspace r.dir d names nm
      (hit.jobs r m.layout name (s.root i).extracted) rs.workspace := by
    refine Hit.of_realize_ok (fun done job w w' dest h hmake => h.concat hdest hno hmake) ?_ hrealize
    exact ⟨.refl _, hsite, .nothing (.inl (habsent _ (List.prefix_append _ _)))⟩
  refine ⟨?_, names, nm, e, dest, htarget⟩
  rw [hsteps]
  exact hlayering.laid.eq_of_look hlayering.site hdest rfl hdisk

/-- **Data files on disk follow the order of layers** exactly if the files of later layers, laid over each other,
leave the bytes of the first one. What is read is read by an importer of this root alone. -/
theorem unpacked_iff (hresolve : (m.resolve name).outcome s = (.ok u, s'))
    (hr : m.roots[u.rootIndex]? = some r) (hhit : r.find? m.layout (UnitName.path name) = some hit)
    (htop : Text.hasChar '.' name = false) (hstands : s.workspace.tree.Stands (Outside d) r.dir d)
    (habsent : ∀ v, d <+: v → s.workspace.tree.node? v = none)
    (hjob : (l, path) ∈ hit.jobs r m.layout name (s.root u.rootIndex).extracted)
    (hdata : path ∈ r.packageData m.layout l (UnitName.path name))
    (hno : Extraction.NoTemporary s.workspace (DiskPath.steps path))
    (hdisk : s'.workspace.tree.look false (DiskPath.join r.dir path) = .ok (.file c modified)) :
    (Importer.new [r] m.layout m.host).dataBytes path = .ok (.ok c) ↔
      r.KeepsPrecedence (hit.jobs r m.layout name (s.root u.rootIndex).extracted) path := by
  obtain ⟨hvalid, r', i, hit', artifact, rs, hr', hopen, -, -, -, hunit⟩ := exists_of_resolve hresolve
  obtain ⟨l', -, hu⟩ := Hit.exists_of_unit hunit
  have hi : u.rootIndex = i := by rw [hu]
  rw [hi] at hr
  cases hr.symm.trans hr'
  -- The path is in normal form and is contained.
  obtain ⟨hname, hisname⟩ := path_eq_of_not_dotted hvalid htop
  obtain ⟨names, nm, hsegments, hproper, -⟩ := Root.segments_of_mem_packageData hdata
  rw [hname, hisname.segments] at hsegments
  have hcounts : ∀ x ∈ DiskPath.segments path, DiskPath.counts x = true := by
    intro x hx
    rw [hsegments] at hx
    rcases List.mem_append.1 hx with hx | hx
    · cases List.mem_singleton.1 hx
      exact hisname.counts
    · have hx' := hproper x hx
      simp [DiskPath.counts, hx'.1, hx'.2.1]
  have hsteps : DiskPath.steps path = DiskPath.segments path := List.filter_eq_self.2 hcounts
  have hnormal : ArchivePath.ofSegments (DiskPath.steps path) = path := DiskPath.normalize_eq_self hcounts
  have hdisk' : s'.workspace.tree.look false (Extraction.destination r.dir (DiskPath.steps path))
      = .ok (.file c modified) := by
    rw [Extraction.destination, hnormal, hdisk]
  obtain ⟨hoverlay, names', nm', e, dest, htarget⟩ :=
    unpacked_eq_overlay hresolve (hi ▸ hr') hhit hstands habsent hjob hno hdisk'
  have hcontained : DiskPath.isContained path = true := by
    refine DiskPath.isContained_of_segments fun x hx => htarget.inside.isName x ?_
    rwa [← htarget.steps, hsteps]
  -- The importer of the root alone reads from the first layer.
  obtain ⟨k, hk⟩ := Hit.exists_of_mem_jobs hjob
  have hfile : l.isFile path = true := Layer.isFile_iff.2 ⟨e, htarget.entry, htarget.file⟩
  obtain ⟨first, hfirst⟩ := Root.exists_first? hk hfile
  rw [dataBytes_alone hopen hcontained hfirst, map_ofArchive_eq_ok]
  constructor
  · exact fun hread => ⟨first, c, modified, hfirst, hread, hoverlay⟩
  · rintro ⟨first', c', modified', hfirst', hread, hoverlay'⟩
    cases hfirst.symm.trans hfirst'
    cases hoverlay.symm.trans hoverlay'
    exact hread

/-- The first layer of `threeLayersRoot`. -/
def threeLayersFirst : Layer := .ofFiles "a" 1 [("pkg/__init__.py", .empty), ("pkg/d.txt", "1".toUTF8)]

/-- What is found in `threeLayers`, what is unpacked on the way, and what is read. -/
theorem threeLayers_resolve :
    ((threeLayers.resolve "pkg").outcome (.ofWorkspace (.ofTree .empty))).1
        = .ok ⟨"pkg", .source, .package, 0, "/x", 0, "a", "pkg/__init__.py", none⟩ ∧
      ((threeLayers.resolve "pkg").outcome (.ofWorkspace (.ofTree .empty))).2.workspace.tree.look false
        "/x/pkg/d.txt" = .ok (.file "3".toUTF8 ⟨1, 0, by decide⟩) ∧
      (Importer.new [threeLayersRoot] threeLayers.layout threeLayers.host).dataBytes "pkg/d.txt"
        ≠ .ok (.ok "3".toUTF8) := by
  decide +kernel

/-- **What is unpacked is not what is read**: the last layer's file stands where the first one's should. -/
theorem threeLayers_unpacked_disagree : ∃ u s' c modified,
    (threeLayers.resolve "pkg").outcome (.ofWorkspace (.ofTree .empty)) = (.ok u, s') ∧ u.form = .package ∧
      s'.workspace.tree.look false "/x/pkg/d.txt" = .ok (.file c modified) ∧
      (Importer.new [threeLayersRoot] threeLayers.layout threeLayers.host).dataBytes "pkg/d.txt" ≠ .ok (.ok c) :=
  ⟨_, _, _, _, outcome_eq_of_fst threeLayers_resolve.1, rfl, threeLayers_resolve.2.1, threeLayers_resolve.2.2⟩

/-- The file of the first layer is not what is laid there in the end. -/
theorem threeLayers_not_keepsPrecedence : ∃ (s' : ImporterState) (c : ByteArray) (modified : Instant),
    s'.workspace.tree.look false "/x/pkg/d.txt" = .ok (.file c modified) ∧
    ¬ threeLayersRoot.KeepsPrecedence
      (Hit.jobs ⟨.package, 0, .source, "pkg/__init__.py"⟩ threeLayersRoot .standard "pkg" []) "pkg/d.txt" := by
  obtain ⟨hfound, hlook, hread⟩ := threeLayers_resolve
  have hdata : "pkg/d.txt" ∈ threeLayersRoot.packageData .standard threeLayersFirst "pkg" := by decide +kernel
  have hfirst : (0, threeLayersFirst) ∈ threeLayersRoot.openLayers := Root.mem_openLayers.2 ⟨none, rfl⟩
  have hjob : (threeLayersFirst, "pkg/d.txt") ∈
      Hit.jobs ⟨.package, 0, .source, "pkg/__init__.py"⟩ threeLayersRoot .standard "pkg" [] :=
    List.mem_append_left _ (List.mem_flatMap.2 ⟨_, hfirst, List.mem_map.2 ⟨_, hdata, rfl⟩⟩)
  have hiff := unpacked_iff (outcome_eq_of_fst hfound) rfl (by decide +kernel) (by decide)
    ((threeLayers_begins.stands 0 threeLayersRoot rfl).mono fun _ hv => hv.1)
    (threeLayers_begins.absent 0 (by decide)) hjob hdata
    (Extraction.noTemporary_of_visible (by decide +kernel) _) hlook
  exact ⟨_, _, _, hlook, fun hkeeps => hread (hiff.2 hkeeps)⟩

end Importer

end LayeredBundles
