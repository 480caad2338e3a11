import LayeredBundles.Proofs.Convergence
import LayeredBundles.Proofs.Failures
import LayeredBundles.Proofs.Readers
import LayeredBundles.Proofs.Recorded

/-! # Artifacts are made whole or not at all

Where an artifact is not made, the files are what they were, and where it is made, no file but its own is another one.
Each step of the way there may be refused; what it leaves is told by the places that its paths name.

* **`FileTree.SameFiles`** — the same files stand in two trees;
* **`Extraction.Unhindered`** — no link is in the way of an artifact;
* **`Extraction.arrives_of_produce`** — an artifact that was produced is seen at its path, and what was done for it;
* **`Extraction.makeArtifact_atomic`** — all this together, in trees without links. -/

namespace LayeredBundles

open DiskPath

namespace FileTree

variable {t t' : FileTree} {A B : Place → Prop} {dir p q : Place} {xs : List String} {path other name : String}

/-! ## (1) Files and places -/

/-- The same files stand in both trees, with the same contents and times. -/
def SameFiles (t t' : FileTree) : Prop :=
  ∀ v c m, t'.node? v = some (.file c m) ↔ t.node? v = some (.file c m)

/-- Directories that are added are no files. -/
theorem Adds.sameFiles (h : Adds t t') : SameFiles t t' := by
  intro v c m
  rcases h.node v with hsame | ⟨hnone, hdir⟩ | hfalse
  · rw [hsame]
  · rw [hnone, hdir]
    simp
  · exact hfalse.elim

/-- Where no file was, none is missed. -/
theorem SameFiles.sets {t'' : FileTree} (h : SameFiles t t') (hsets : t'.Sets q none t'')
    (hq : ∀ c m, t.node? q ≠ some (.file c m)) : SameFiles t t'' := by
  intro v c m
  rw [hsets.node]
  split
  · next hv =>
    subst hv
    exact iff_of_false (by simp) (hq c m)
  · exact h v c m

/-- A path with a last name leads to the place of that name. -/
theorem placeFrom_concat (base : Place) (hsteps : steps path = xs ++ [name]) (hup : name ≠ "..") :
    placeFrom base path = walk (startFrom base path) xs ++ [name] := by
  rw [placeFrom, hsteps, walk_append, walk_names (by simpa using hup)]

/-- Without links a path stands for the place that it is written to lead to. -/
theorem LinkFree.stands (h : t.LinkFree) (hsteps : steps path = xs ++ [name]) (hup : name ≠ "..") :
    t.Stands (fun _ => True) path (placeFrom t.base path) :=
  ⟨⟨0, xs, _, name, hsteps, hup, placeFrom_concat t.base hsteps hup, h.leads _ xs⟩, h _⟩

/-- A path names one place. -/
theorem Named.unique (h : t.Named A path p) (h' : t.Named B path q) : p = q := by
  obtain ⟨n, xs, p', name, hsteps, -, rfl, hway⟩ := h.way
  obtain ⟨n', xs', q', name', hsteps', -, rfl, hway'⟩ := h'.way
  obtain ⟨rfl, hname⟩ := List.append_inj' (hsteps.symm.trans hsteps') rfl
  rw [(hway.unique hway').2, hname]

/-- What stands beside a place is named by the same way. -/
theorem Named.beside {next : String} (h : t.Named A path p) (hsteps : steps path = xs ++ [name])
    (hsteps' : steps other = xs ++ [next]) (habs : isAbsolute other = isAbsolute path) (hup : next ≠ "..")
    (hplain : ∀ target, t.node? (p.dropLast ++ [next]) ≠ some (.link target)) :
    t.Stands A other (p.dropLast ++ [next]) := by
  obtain ⟨n, xs', p', name', hsteps'', -, rfl, hway⟩ := h.way
  obtain ⟨rfl, -⟩ := List.append_inj' (hsteps''.symm.trans hsteps) rfl
  have hstart : t.start other = t.start path := by rw [start, start, habs]
  exact ⟨⟨n, xs', p', next, hsteps', hup, by simp, hstart ▸ hway⟩, hplain⟩

/-- A path that is located leads somewhere, links followed. -/
theorem exists_leads_of_locate {slash : Bool} (h : t.locate true path = .ok (p, slash)) :
    ∃ n, Leads t (fun _ => True) n (t.start path) (steps path) p :=
  (arrives_of_locate h).exists_leads

/-- Below what is missing nothing stands. -/
theorem Grounded.node?_below (h : t.Grounded) (hp : t.node? p ≠ some .directory) {v : Place} (hv : p <+: v)
    (hne : v ≠ p) {c : ByteArray} {m : Instant} : t.node? v ≠ some (.file c m) := fun hnode =>
  hp (h.rooted p v _ (isBelow_iff.2 ⟨hv, hne⟩) hnode (by simp))

end FileTree

namespace Extraction

open FileTree Fallible

variable {w w' w₁ : Workspace} {l : Layer} {e : Entry} {dir dest path name : String} {names : List String}
  {p q : Place} {c : ByteArray}

/-! ## (2) Artifacts that are produced -/

/-- Where the temporary file for an artifact at `p` stands. -/
def placeBeside (p : Place) (name : String) (process serial : Nat) : Place :=
  p.dropLast ++ [temporaryName name process serial]

/-- `Unhindered w dest name`: no link stands under the name of the temporary file that is written next for an artifact
at `dest`, and where a link stands at `dest` itself, the way there does not lead through it. -/
structure Unhindered (w : Workspace) (dest name : String) : Prop where
  /-- The temporary file. -/
  hidden : ∀ p, w.tree.Named (fun _ => True) dest p → ∀ target,
    w.tree.node? (placeBeside p name w.process w.serial) ≠ some (.link target)
  /-- The destination. -/
  way : ∀ p, w.tree.Named (fun _ => True) dest p → ∀ target, w.tree.node? p = some (.link target) →
    w.tree.Named (· ≠ p) dest p

/-- Without links nothing hinders an artifact. -/
theorem unhindered_of_linkFree (h : w.tree.LinkFree) (dest name : String) : Unhindered w dest name where
  hidden _ _ target := h _ target
  way p _ target hlink := absurd hlink (h p target)

/-- The temporary file stands beside what its artifact's path names. -/
theorem stands_temporaryPath {A : Place → Prop} (hdest : Inside dir names name dest) (hnamed : w.tree.Named A dest p)
    (hplain : ∀ target, w.tree.node? (placeBeside p name w.process w.serial) ≠ some (.link target)) :
    w.tree.Stands A (temporaryPath w dest name) (placeBeside p name w.process w.serial) := by
  have hhidden := inside_temporaryPath hdest w
  have hname := hhidden.isName (temporaryName name w.process w.serial) (by simp)
  exact hnamed.beside (hdest.steps_eq.trans (List.append_assoc _ _ _).symm)
    (hhidden.steps_eq.trans (List.append_assoc _ _ _).symm) (hhidden.isAbsolute_eq.trans hdest.isAbsolute_eq.symm)
    hname.up hplain

/-- The temporary file is not the artifact itself. -/
theorem placeBeside_ne {A : Place → Prop} {t : FileTree} (hdest : Inside dir names name dest)
    (hnamed : t.Named A dest p) (process serial : Nat) : placeBeside p name process serial ≠ p := by
  obtain ⟨n, xs, p', last, hsteps, -, rfl, -⟩ := hnamed.way
  obtain ⟨-, hlast⟩ := List.append_inj' (hsteps.symm.trans (hdest.steps_eq.trans (List.append_assoc _ _ _).symm)) rfl
  rw [List.singleton_inj.1 hlast]
  simpa [placeBeside] using temporaryName_ne name process serial

/-- An entry that was written went to a file that could be opened. -/
theorem exists_write_of_writeEntry {temporary : String} (h : (writeEntry l e temporary).outcome w = (.ok (), w')) :
    ∃ out t, w.tree.write temporary out w.clock = .ok t := by
  rcases hout : l.writeOut e.path with ⟨out, r⟩
  unfold writeEntry at h
  rw [hout] at h
  obtain ⟨⟨⟩, w₁, hwrite, -⟩ := exists_of_outcome_bind_ok h
  rw [outcome_failingAs, Prod.mk.injEq, mapError_eq_ok, Workspace.outcome_write] at hwrite
  rcases hresult : w.tree.write temporary out w.clock with x | t
  · simp only [hresult] at hwrite
    cases hwrite.1
  · exact ⟨out, t, hresult⟩

/-- Where an artifact was produced, its path names a place. -/
theorem exists_named_of_produce (hdest : Inside dir names name dest) (hname : e.name = name)
    (h : (produce l e dest).outcome w = (.ok (), w')) : ∃ p, w.tree.Named (fun _ => True) dest p := by
  obtain ⟨front, w₁, w₂, -, hcreate, hwrite, -⟩ := exists_of_produce h
  have hprepares := (Workspace.createDirectories_yields w front).of_outcome hcreate
  have hadds : Adds w.tree w₁.tree := hprepares.adds
  rw [hname] at hwrite
  obtain ⟨out, t, hwrite⟩ := exists_write_of_writeEntry hwrite
  unfold FileTree.write at hwrite
  split at hwrite
  · cases hwrite
  next v n hlocate =>
  -- The temporary file was located, so the way to where it was to stand leads somewhere.
  obtain ⟨slash, hlocate, -⟩ := exists_of_locateFile hlocate
  obtain ⟨n, hleads⟩ := exists_leads_of_locate hlocate
  have hhidden := inside_temporaryPath hdest w
  rw [hhidden.steps_eq, ← List.append_assoc] at hleads
  obtain ⟨k, -, P, hway, -⟩ := hleads.divide
  have hstart : w₁.tree.start (temporaryPath w dest name) = w.tree.start dest := by
    rw [start, start, hhidden.isAbsolute_eq, hdest.isAbsolute_eq, hadds.base]
  rw [start, start] at hstart
  obtain ⟨segs, hsegs⟩ := hdest.ends
  refine ⟨P ++ [name], ⟨k, steps dir ++ names, P, name, hdest.steps_eq.trans (List.append_assoc _ _ _).symm,
    (hdest.isName name (by simp)).up, rfl, ?_⟩, fun _ _ => ⟨segs, name, hsegs, List.getLast?_concat⟩⟩
  change Leads w₁.tree _ k (w₁.tree.start (temporaryPath w dest name)) _ P at hway
  rw [start, hstart] at hway
  exact hway.congr fun v target _ => (hadds.link_iff v target).symm

/-- **An artifact that was produced** is seen at its path: the copy was staged, and it replaced what stood there. -/
theorem arrives_of_produce (hdest : Inside dir names name dest) (hname : e.name = name)
    (hway : Unhindered w dest name) (h : (produce l e dest).outcome w = (.ok (), w')) :
    ∃ p c w₁, w.tree.Named (fun _ => True) dest p ∧ Staged l e (placeBeside p name w.process w.serial) c w w₁ ∧
      w'.tree.look false dest = .ok (.file c e.modified) ∧
      Replaces w₁.tree p (placeBeside p name w.process w.serial) c e.modified w'.tree := by
  obtain ⟨p, hnamed⟩ := exists_named_of_produce hdest hname h
  have hplain := hway.hidden p hnamed
  have hstands := stands_temporaryPath hdest hnamed hplain
  have hstage := (produce_stages (l := l) hdest hname hstands).of_outcome h
  rcases hstage with ⟨⟨x, hx⟩, -⟩ | ⟨c, w₁, hstaged, -, hmove⟩
  · cases hx
  -- If a link is replaced, the way is one that does not lead through it.
  obtain ⟨A, hnamed', hA⟩ : ∃ A, w.tree.Named A dest p ∧ ∀ target, w.tree.node? p = some (.link target) → ¬ A p := by
    by_cases hlink : ∃ target, w.tree.node? p = some (.link target)
    · obtain ⟨target, hlink⟩ := hlink
      exact ⟨_, hway.way p hnamed target hlink, fun _ _ hne => hne rfl⟩
    · exact ⟨_, hnamed, fun target htarget => absurd ⟨target, htarget⟩ hlink⟩
  obtain ⟨segs, hsegs⟩ := hdest.ends
  obtain ⟨hlook, hreplaces⟩ := arrives_of_moveIntoPlace (hstaged.named hplain hnamed')
    (fun target hlink => hA target ((hstaged.link_iff hplain p target).1 hlink)) hsegs (hdest.isName name (by simp))
    (hstaged.stands hplain hstands) hstaged.node_hidden hmove
  exact ⟨p, c, w₁, hnamed, hstaged, hlook, hreplaces⟩

/-- When a copy was moved into place, the temporary file is gone. -/
theorem Replaces.node_hidden {t t' : FileTree} {m : Instant} (h : Replaces t p q c m t') (hdiffer : q ≠ p) :
    t'.node? q = none := by
  obtain ⟨t₁, t₂, -, hfirst, hsecond⟩ := h
  rw [hsecond.node, if_neg hdiffer, hfirst.node, if_pos rfl]

/-- What was staged is no other file than the temporary one. -/
theorem Staged.file_iff (h : Staged l e q c w w₁) {v : Place} (hv : v ≠ q) (c' : ByteArray) (m : Instant) :
    w₁.tree.node? v = some (.file c' m) ↔ w.tree.node? v = some (.file c' m) := by
  obtain ⟨t, hadds, -, hsets⟩ := h.tree
  rw [hsets.node, if_neg hv]
  exact hadds.sameFiles v c' m

/-- **An artifact replaces no file but its own**, and what stood below it when it was a directory. -/
theorem Staged.replaced_iff (h : Staged l e q c w w₁) (hgrounded : w.tree.Grounded) (hp : p ≠ []) (hpq : p ≠ q)
    (hq : ∀ c m, w.tree.node? q ≠ some (.file c m)) {t : FileTree} (hreplaces : Replaces w₁.tree p q c e.modified t)
    {v : Place} (hv : v ≠ p) (c' : ByteArray) (m : Instant) :
    t.node? v = some (.file c' m) ↔ w.tree.node? v = some (.file c' m) ∧ ¬ p <+: v := by
  obtain ⟨t₁, t₂, hcleared, hfirst, hsecond⟩ := hreplaces
  rw [hsecond.node, if_neg hv, hfirst.node]
  split
  · next hvq =>
    subst hvq
    exact iff_of_false (by simp) fun hfile => hq c' m hfile.1
  next hvq =>
  rcases hcleared with ⟨hnotdir, rfl⟩ | ⟨-, rfl⟩
  · -- Where no directory stood, no file stood below.
    rw [h.file_iff hvq, iff_self_and]
    intro hfile hpv
    have hdir : w.tree.node? p = some .directory := by
      by_contra hdir
      exact hgrounded.node?_below hdir hpv hv hfile
    obtain ⟨t₀, hadds, -, hsets⟩ := h.tree
    exact hnotdir (by rw [hsets.node, if_neg hpq, hadds.node_of_some hdir])
  · rw [node?_cleared _ hp]
    split
    · next hpv => exact iff_of_false (by simp) fun hfile => hfile.2 hpv
    · next hpv => rw [h.file_iff hvq, iff_self_and]; exact fun _ => hpv

/-! ## (3) Artifacts that are not produced -/

/-- **Where an artifact was not produced, the files are the same**, unless the way to it leads through it. -/
theorem sameFiles_of_produce (hdest : Inside dir names name dest) (hname : e.name = name)
    (hstands : w.tree.Stands (Outside p) dest p)
    (hplain : ∀ target, w.tree.node? (placeBeside p name w.process w.serial) ≠ some (.link target))
    (hfree : ∀ c m, w.tree.node? (placeBeside p name w.process w.serial) ≠ some (.file c m)) {x : ImportFailure}
    (h : (produce l e dest).outcome w = (.error x, w')) : w.tree.SameFiles w'.tree := by
  have hhidden := stands_temporaryPath hdest hstands.named hplain
  have hstage := (produce_stages (l := l) hdest hname hhidden).of_outcome h
  rcases hstage with ⟨-, t, hadds, htree | hsets⟩ | ⟨c, w₁, hstaged, hopens, hmove⟩
  · change w'.tree = t at htree
    exact htree ▸ hadds.sameFiles
  · exact hadds.sameFiles.sets hsets hfree
  · obtain ⟨segs, hsegs⟩ := hdest.ends
    obtain ⟨segs', hsegs'⟩ := (inside_temporaryPath hdest w).ends
    have hisName : IsName name := hdest.isName name (by simp)
    have hisName' := (inside_temporaryPath hdest w).isName (temporaryName name w.process w.serial) (by simp)
    have hapart : Outside p (placeBeside p name w.process w.serial) := fun hle => by
      refine placeBeside_ne hdest hstands.named w.process w.serial (hle.eq_of_length ?_).symm
      have hlength := List.length_pos_iff.2 hstands.ne_root
      simp only [placeBeside, List.length_append, List.length_dropLast, List.length_singleton]
      omega
    have hgone := discards_of_moveIntoPlace (hstaged.stands hplain hstands) hsegs hisName
      (hstands.named.ends_of_segments hsegs hisName.counts) (hstaged.stands hplain hhidden) hopens
      (hhidden.named.ends_of_segments hsegs' hisName'.counts) hapart hstaged.node_hidden hmove
    obtain ⟨t, hadds, -, hsets⟩ := hstaged.tree
    exact hadds.sameFiles.sets (hsets.trans hgone) hfree

end Extraction

/-- A failure that tells of a request that cannot be met: what is asked for is not there, is a directory, or would leave
the extraction directory. -/
def ImportFailure.Refuses : ImportFailure → Prop
  | .notFound _ | .directory _ | .accessDenied _ => True
  | _ => False

namespace Extraction

open FileTree Fallible

variable {w w' : Workspace} {l : Layer} {e : Entry} {dir dest path name : String} {names : List String} {p : Place}

/-- What fails once directories were created is no refusal of the request. -/
theorem not_refuses_of_produce (hl : l.Sound) (hfile : l.isFile e.path = true) (hdest : Inside dir names name dest)
    {x : ImportFailure} (h : (produce l e dest).outcome w = (.error x, w')) : ¬ x.Refuses := by
  refine raises_produce (P := fun x => ¬ x.Refuses) (fun _ => id) (fun x hx => ?_) (fun hnone => ?_) w x w' h
  · obtain ⟨m, -, hbody, -, hread⟩ := hl.read_of_isFile hfile
    rw [hread] at hx
    cases x with
    | notFound q => exact absurd hx (Layer.copyBody_refusal hbody _ q).1
    | isDirectory q => exact absurd hx (Layer.copyBody_refusal hbody _ q).2
    | notDirectory | corrupt | io => exact id
  · obtain ⟨front, hfront, -⟩ := exists_parent (hdest.steps_eq.trans (List.append_assoc _ _ _).symm)
    rw [hfront] at hnone
    cases hnone

/-! ## (4) All or nothing -/

/-- Where the artifact of a path is to stand, by its text. -/
def artifactPlace (w : Workspace) (dir path : String) : Place :=
  placeFrom w.tree.base (join dir (ArchivePath.normalize path))

/-- Where the temporary file for it is written next, by its text. -/
def temporaryPlaceFor (w : Workspace) (dir path : String) : Place :=
  placeFrom w.tree.base
    (temporaryPath w (join dir (ArchivePath.normalize path)) (ArchivePath.name (ArchivePath.normalize path)))

/-- By its text, the temporary file stands beside its artifact. -/
theorem placeFrom_temporaryPath (hdest : Inside dir names name dest) (w : Workspace) (base : Place) :
    placeFrom base (temporaryPath w dest name) = placeBeside (placeFrom base dest) name w.process w.serial := by
  have hhidden := inside_temporaryPath hdest w
  have hup := (hdest.isName name (by simp)).up
  have hup' := (hhidden.isName (temporaryName name w.process w.serial) (by simp)).up
  rw [placeFrom_concat base (hdest.steps_eq.trans (List.append_assoc _ _ _).symm) hup,
    placeFrom_concat base (hhidden.steps_eq.trans (List.append_assoc _ _ _).symm) hup', placeBeside,
    List.dropLast_concat, startFrom, startFrom, hhidden.isAbsolute_eq, hdest.isAbsolute_eq]

/-- By its text, the temporary file for a target stands beside the place of the artifact. -/
theorem Target.temporaryPlaceFor_eq (h : Target dir l path names name e dest) (w : Workspace) :
    temporaryPlaceFor w dir path = placeBeside (artifactPlace w dir path) name w.process w.serial := by
  have hname : ArchivePath.name (ArchivePath.normalize path) = name := by
    rw [← Layer.entry_path h.entry]
    exact h.name_eq
  rw [temporaryPlaceFor, artifactPlace, hname, ← h.dest_eq, placeFrom_temporaryPath h.inside]

/-- A time that an opened layer records of a file is found again in whole seconds. -/
theorem Target.wholeSeconds_eq (h : Target dir l path names name e dest) {s : Medium} {name' : String}
    (hopen : Layer.ofMedium name' s = .ok l) : e.modified.wholeSeconds = e.timestamp := by
  have hfile : l.isFile path = true := Layer.isFile_iff.2 ⟨e, h.entry, h.file⟩
  obtain ⟨m, ⟨before, after, hmembers, -⟩, -, hentry, -⟩ := (Layer.sound_ofMedium hopen).read_of_isFile hfile
  obtain rfl : e = m.entry := Except.ok.inj (h.entry.symm.trans hentry)
  have hrecorded := Layer.recorded_ofMedium hopen m (by rw [hmembers]; simp)
  exact Entry.wholeSeconds_modified _ hrecorded.lt_timestamp hrecorded.timestamp_lt

/-- By its text, an artifact stands where its path leads. -/
theorem Target.stands (h : Target dir l path names name e dest) (hlinks : w.tree.LinkFree) :
    w.tree.Stands (fun _ => True) dest (artifactPlace w dir path) := by
  rw [artifactPlace, ← h.dest_eq]
  exact hlinks.stands (h.inside.steps_eq.trans (List.append_assoc _ _ _).symm) (h.inside.isName name (by simp)).up

/-- **An artifact that was made** was current, or what was read is seen at its path now. -/
theorem Target.arrives_of_makeArtifact (h : Target dir l path names name e dest) (hway : Unhindered w dest name)
    (hmake : (makeArtifact dir l path).outcome w = (.ok dest, w')) :
    isFresh w.tree dest e = true ∧ w' = w ∨ isFresh w.tree dest e = false ∧
      ∃ p c w₁, w.tree.Named (fun _ => True) dest p ∧ Staged l e (placeBeside p name w.process w.serial) c w w₁ ∧
        l.contents path = .ok c ∧ w'.tree.look false dest = .ok (.file c e.modified) ∧
        Replaces w₁.tree p (placeBeside p name w.process w.serial) c e.modified w'.tree := by
  rw [h.outcome_makeArtifact] at hmake
  split at hmake
  · next hfresh =>
    cases hmake
    exact .inl ⟨hfresh, rfl⟩
  · next hstale =>
    rcases hout : (produce l e dest).outcome w with ⟨x | _, w₁⟩ <;> rw [hout] at hmake <;> cases hmake
    obtain ⟨p, c, w₁, hnamed, hstaged, hlook, hreplaces⟩ := arrives_of_produce h.inside h.name_eq hway hout
    have hcontents : l.contents path = .ok c := (Layer.contents_entry h.entry).symm.trans hstaged.contents
    exact .inr ⟨by simpa using hstale, p, c, w₁, hnamed, hstaged, hcontents, hlook, hreplaces⟩

/-- **An artifact that was not made** left the files as they were, and what was refused left everything so. -/
theorem sameFiles_of_makeArtifact {s : Medium} {x : ImportFailure} (hopen : Layer.ofMedium name s = .ok l)
    (hlinks : w.tree.LinkFree) (hfree : ∀ c m, w.tree.node? (temporaryPlaceFor w dir path) ≠ some (.file c m))
    (h : (makeArtifact dir l path).outcome w = (.error x, w')) :
    (x.Refuses → w' = w) ∧ (w.tree.Stands (Outside (artifactPlace w dir path)) (join dir (ArchivePath.normalize path))
      (artifactPlace w dir path) → w.tree.SameFiles w'.tree) := by
  have hcases := (makeArtifact_cases w dir l path).of_outcome h
  rcases hcases with ⟨-, hsame⟩ | ⟨names, last, e, dest, htarget, ⟨-, hok, -⟩ | ⟨-, cause | _, hout, hx⟩⟩
  · exact ⟨fun _ => hsame, fun _ => hsame ▸ fun _ _ _ => Iff.rfl⟩
  · cases hok
  · cases hx
    have hfile : l.isFile e.path = true := by
      rw [Layer.entry_path htarget.entry, Layer.isFile_normalize]
      exact Layer.isFile_iff.2 ⟨e, htarget.entry, htarget.file⟩
    rw [htarget.temporaryPlaceFor_eq w] at hfree
    rw [← htarget.dest_eq]
    exact ⟨fun hrefuses => absurd hrefuses
      (not_refuses_of_produce (Layer.sound_ofMedium hopen) hfile htarget.inside hout),
      fun hstands => sameFiles_of_produce htarget.inside htarget.name_eq hstands (hlinks _) hfree hout⟩
  · cases hx

/-- **An artifact that was made** took the place of no other file, but for those that stood below it. -/
theorem Target.file_iff_of_makeArtifact (h : Target dir l path names name e dest) (hlinks : w.tree.LinkFree)
    (hgrounded : w.tree.Grounded) (hfree : ∀ c m, w.tree.node? (temporaryPlaceFor w dir path) ≠ some (.file c m))
    (hmake : (makeArtifact dir l path).outcome w = (.ok dest, w')) :
    (∀ c m, w'.tree.node? (temporaryPlaceFor w dir path) ≠ some (.file c m)) ∧
      ∀ v c m, v ≠ artifactPlace w dir path → (w'.tree.node? v = some (.file c m) ↔
        w.tree.node? v = some (.file c m) ∧ ¬ artifactPlace w dir path <+: v) := by
  have hstands := h.stands hlinks
  rcases h.arrives_of_makeArtifact (unhindered_of_linkFree hlinks dest name) hmake with
    ⟨hfresh, rfl⟩ | ⟨-, p, c, w₁, hnamed, hstaged, -, -, hreplaces⟩
  -- The artifact is current: what stands there is a file, so nothing stands below.
  · obtain ⟨c, m, hlook, -⟩ := exists_of_isFresh hfresh
    have hnode := (look_stands hstands hlook).1
    refine ⟨hfree, fun v c' m' hv => ?_⟩
    rw [iff_self_and]
    exact fun hfile hle => hgrounded.node?_below (by simp [hnode]) hle hv hfile
  · have hp := hstands.named.unique hnamed
    subst hp
    rw [h.temporaryPlaceFor_eq w] at hfree ⊢
    have hdiffer := placeBeside_ne h.inside hnamed w.process w.serial
    exact ⟨by simp [hreplaces.node_hidden hdiffer], fun v c' m hv =>
      hstaged.replaced_iff hgrounded hnamed.ne_root hdiffer.symm hfree hreplaces hv c' m⟩

/-- **An artifact is made whole or not at all.** In any tree without links, for any layer that was opened and any path,
unless a file has the name of the temporary file: if making the artifact fails, the same files stand as before, as long
as the way to the artifact does not lead through it or what is below it; and what is refused changes nothing at all. If
it succeeds, the artifact stands below the directory at the path in normal form, and either it was current and nothing
was done, or it is the file of the layer now, with the bytes that are written out and its time; these are the bytes that
are read, if there is room to read them. The temporary file is gone, and no other file has changed, but those that stood
below the artifact when that was a directory. -/
theorem makeArtifact_atomic {s : Medium} (hopen : Layer.ofMedium name s = .ok l) (hlinks : w.tree.LinkFree)
    (hgrounded : w.tree.Grounded) (dir path : String)
    (hfree : ∀ c m, w.tree.node? (temporaryPlaceFor w dir path) ≠ some (.file c m)) :
    (∀ x w', (makeArtifact dir l path).outcome w = (.error x, w') → (x.Refuses → w' = w) ∧
      (w.tree.Stands (Outside (artifactPlace w dir path)) (join dir (ArchivePath.normalize path))
        (artifactPlace w dir path) → w.tree.SameFiles w'.tree)) ∧
    ∀ dest w', (makeArtifact dir l path).outcome w = (.ok dest, w') →
      dest = join dir (ArchivePath.normalize path) ∧ ∃ e, l.entry path = .ok e ∧
        (isFresh w.tree dest e = true ∧ w' = w ∨ ∃ c, l.contents path = .ok c ∧
          l.read path = (if e.size ≤ Layer.maxRoom then .ok (.ok c) else .error .noRoom) ∧
          w'.tree.look false dest = .ok (.file c e.modified) ∧ e.modified.wholeSeconds = e.timestamp) ∧
        (∀ c m, w'.tree.node? (temporaryPlaceFor w dir path) ≠ some (.file c m)) ∧
        ∀ v c m, v ≠ artifactPlace w dir path → (w'.tree.node? v = some (.file c m) ↔
          w.tree.node? v = some (.file c m) ∧ ¬ artifactPlace w dir path <+: v) := by
  refine ⟨fun x w' h => sameFiles_of_makeArtifact hopen hlinks hfree h, fun dest w' h => ?_⟩
  obtain ⟨names, last, e, htarget⟩ := exists_target_of_ok h
  refine ⟨htarget.dest_eq, e, htarget.entry, ?_, htarget.file_iff_of_makeArtifact hlinks hgrounded hfree h⟩
  rcases htarget.arrives_of_makeArtifact (unhindered_of_linkFree hlinks dest last) h with
    hcurrent | ⟨-, p, c, w₁, -, -, hcontents, hlook, -⟩
  · exact .inl hcurrent
  · have hread := Layer.read_eq htarget.entry htarget.file
    exact .inr ⟨c, hcontents, hcontents ▸ hread, hlook, htarget.wholeSeconds_eq hopen⟩

/-- A tree in which a directory stands where an artifact is to be. -/
def crowded : Workspace := Workspace.ofTree ⟨[(["x"], .directory), (["x", "a.txt"], .directory),
  (["x", "a.txt", "junk"], .file "junk".toUTF8 Instant.epoch)], []⟩

/-- A container with one file. -/
def singleFile : Medium := Medium.ofBytes (Zip.ofFiles [("a.txt", "one")])

/-- There are no links in the example. -/
theorem crowded_linkFree : crowded.tree.LinkFree := linkFree_of_nodes (by decide)

/-- All that stands in the example stands in directories. -/
theorem crowded_grounded : crowded.tree.Grounded := grounded_of_nodes (by decide) (by decide)

/-- The directory gives way to the file. -/
theorem crowded_replaced : ∃ l, Layer.ofMedium "a" singleFile = .ok l ∧ crowded.tree.LinkFree ∧ crowded.tree.Grounded ∧
    (∀ c m, crowded.tree.node? (temporaryPlaceFor crowded "/x" "a.txt") ≠ some (.file c m)) ∧
    ∃ w', (makeArtifact "/x" l "a.txt").outcome crowded = (.ok "/x/a.txt", w') ∧
      (∃ e c, l.entry "a.txt" = .ok e ∧ l.contents "a.txt" = .ok c ∧
        w'.tree.look false "/x/a.txt" = .ok (.file c e.modified)) ∧
      ∀ c m, w'.tree.node? ["x", "a.txt", "junk"] ≠ some (.file c m) := by
  have hmakes : (Layer.ofMedium "a" singleFile).toOption.any
      (fun l => decide (((makeArtifact "/x" l "a.txt").outcome crowded).1 = .ok "/x/a.txt")) = true := by decide +kernel
  have hfree : ∀ c m, crowded.tree.node? (temporaryPlaceFor crowded "/x" "a.txt") ≠ some (.file c m) := by
    have hnone : crowded.tree.node? (temporaryPlaceFor crowded "/x" "a.txt") = none := by decide +kernel
    simp [hnone]
  have hplace : artifactPlace crowded "/x" "a.txt" = ["x", "a.txt"] := by decide +kernel
  have hstale : ∀ e, isFresh crowded.tree "/x/a.txt" e = false := by
    intro e
    have hlook : crowded.tree.look false "/x/a.txt" = .ok .directory := by decide +kernel
    rw [isFresh, hlook]
  obtain ⟨l, hopen, hmakes⟩ := Layer.exists_ofMedium hmakes
  rw [decide_eq_true_eq] at hmakes
  refine ⟨l, hopen, crowded_linkFree, crowded_grounded, hfree, _, outcome_eq_of_fst hmakes, ?_⟩
  obtain ⟨-, e, hentry, hend, -, hothers⟩ :=
    (makeArtifact_atomic hopen crowded_linkFree crowded_grounded "/x" "a.txt" hfree).2 _ _ (outcome_eq_of_fst hmakes)
  obtain ⟨hfresh, -⟩ | ⟨c, hcontents, -, hlook, -⟩ := hend
  · rw [hstale] at hfresh
    cases hfresh
  · refine ⟨⟨e, c, hentry, hcontents, hlook⟩, fun c' m hfile => ?_⟩
    rw [hothers _ _ _ (by rw [hplace]; decide), hplace] at hfile
    exact hfile.2 (by decide)

/-- A directory whose path leads through the artifact is lost with the artifact: the way to the temporary file is gone
with what stood at the destination, and what stood there is not put back. -/
theorem crowded_lost : ∃ l, Layer.ofMedium "a" singleFile = .ok l ∧ crowded.tree.LinkFree ∧ crowded.tree.Grounded ∧
    (∀ c m, crowded.tree.node? (temporaryPlaceFor crowded "/x/a.txt/.." "a.txt") ≠ some (.file c m)) ∧
    ∃ x w', (makeArtifact "/x/a.txt/.." l "a.txt").outcome crowded = (.error x, w') ∧
      crowded.tree.node? ["x", "a.txt", "junk"] = some (.file "junk".toUTF8 Instant.epoch) ∧
      w'.tree.node? ["x", "a.txt", "junk"] = none := by
  have hfree : crowded.tree.node? (temporaryPlaceFor crowded "/x/a.txt/.." "a.txt") = none := by decide +kernel
  have hfails : (Layer.ofMedium "a" singleFile).toOption.any (fun l =>
      let (r, w') := (makeArtifact "/x/a.txt/.." l "a.txt").outcome crowded
      !r.isOk && (w'.tree.node? ["x", "a.txt", "junk"]).isNone) = true := by decide +kernel
  obtain ⟨l, hopen, hfails⟩ := Layer.exists_ofMedium hfails
  rcases hout : (makeArtifact "/x/a.txt/.." l "a.txt").outcome crowded with ⟨x | dest, w'⟩
  · simp only [hout, Bool.and_eq_true, Option.isNone_iff_eq_none] at hfails
    exact ⟨l, hopen, crowded_linkFree, crowded_grounded, by simp [hfree], x, w', hout, by decide +kernel, hfails.2⟩
  · simp [hout, Except.isOk, Except.toBool] at hfails

end Extraction

end LayeredBundles
