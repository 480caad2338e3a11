import LayeredBundles.Proofs.Failures
import LayeredBundles.Proofs.Listing

/-! # The path of a unit

The path that would hold a name in some form is the name with slashes for points, perhaps the marker, and a suffix.
Neither a segment of a name nor the marker has a point in it, and a suffix begins with one. So the first point of the
path tells where the suffix begins, whatever other points the suffix has, and whether or not one suffix ends in
another one. What stands before it gives the segments of the name back, for none of them has a slash.

* **`Layout.stem`** — what stands before the suffix;
* **`Text.append_inj_of_point`** — a text is told apart from what follows it by the first point;
* **`Layout.IsSound.isName_of_mem_pathFor`** — each segment of such a path can name a file;
* **`Layout.IsSound.pathFor_inj`** — the path gives the name and the suffix back;
* **`ImportFailure.Rightful`** — a denial is of a path that can leave the directory it is joined to;
* **`Importer.unitPaths_faithful`** — paths of units are normal, contained, told apart and never denied. -/

namespace LayeredBundles

open Fallible

/-! ## (1) Texts and points -/

namespace Text

variable {sep c : Char} {a a' b b' : String}

/-- A character of joined pieces is a separator or from one of them. -/
theorem mem_joinChars {pieces : List (List Char)} (h : c ∈ joinChars sep pieces) :
    c = sep ∨ ∃ s ∈ pieces, c ∈ s := by
  induction pieces with
  | nil => cases h
  | cons s pieces ih =>
    cases pieces with
    | nil => exact .inr ⟨s, by simp, h⟩
    | cons t rest =>
      rcases List.mem_append.1 h with hs | hrest
      · exact .inr ⟨s, by simp, hs⟩
      · rcases List.mem_cons.1 hrest with hsep | hrest
        · exact .inl hsep
        · obtain hsep | ⟨s', hs', hc⟩ := ih hrest
          · exact .inl hsep
          · exact .inr ⟨s', List.mem_cons_of_mem _ hs', hc⟩

/-- **A text is told apart from what follows it**, if it has no point and what follows begins with one. -/
theorem append_inj_of_point (ha : '.' ∉ a.toList) (ha' : '.' ∉ a'.toList) (hb : startsWith "." b = true)
    (hb' : startsWith "." b' = true) (h : a ++ b = a' ++ b') : a = a' ∧ b = b' := by
  have hfirst : ∀ {x y : String}, '.' ∉ x.toList → startsWith "." y = true →
      (splitChars '.' (x ++ y).toList).head? = some x.toList := by
    intro x y hx hy
    obtain ⟨rest, rfl⟩ := startsWith_iff.1 hy
    rw [String.toList_append, String.toList_append, show ".".toList = ['.'] from rfl, List.singleton_append,
      splitChars_append_sep hx]
    rfl
  have hsame : a = a' := by
    have heq := (hfirst ha hb).symm.trans (h ▸ hfirst ha' hb')
    exact String.toList_injective (Option.some.inj heq)
  subst hsame
  refine ⟨rfl, String.toList_injective ?_⟩
  simpa using congrArg String.toList h

end Text

namespace UnitName

variable {name name' : String}

/-- The points of a name are slashes in its path. -/
theorem not_mem_path (name : String) : '.' ∉ (path name).toList := by
  intro hmem
  rw [path, Text.join, String.toList_ofList] at hmem
  rcases Text.mem_joinChars hmem with hslash | ⟨s, hs, hpoint⟩
  · cases hslash
  · obtain ⟨segment, hsegment, rfl⟩ := List.mem_map.1 hs
    exact Text.not_mem_of_mem_split hsegment hpoint

/-- **The path of a name gives the name back.** -/
theorem path_inj (hvalid : isValid name = true) (hvalid' : isValid name' = true) (h : path name = path name') :
    name = name' := by
  have hsegments : segments name = segments name' := by rw [← segments_path hvalid, h, segments_path hvalid']
  rw [← Text.join_split '.' name, ← Text.join_split '.' name']
  exact congrArg (Text.join '.') hsegments

end UnitName

/-! ## (2) The path that would hold a name -/

namespace Layout

variable {layout : Layout} {name name' suffix suffix' : String} {form : Form} {kind kind' : Kind}

/-- The path that would hold the unit at `path` in the given form, without the suffix. -/
def stem (layout : Layout) (path : String) : Form → String
  | .package => path ++ "/" ++ layout.packageMarker
  | .module => path

/-- The file of a unit is its stem with a suffix. -/
theorem pathFor_eq (layout : Layout) (path : String) (form : Form) (suffix : String) :
    layout.pathFor path form suffix = layout.stem path form ++ suffix := by
  cases form <;> rfl

/-- **No two names have one stem** in the same form. -/
theorem stem_inj {path path' : String} (h : layout.stem path form = layout.stem path' form) : path = path' := by
  cases form with
  | package =>
    refine String.toList_injective ?_
    simpa [stem] using congrArg String.toList h
  | module => exact h

/-- In a sound layout suffixes begin with a point. -/
theorem IsSound.startsWith_suffix (h : layout.IsSound) (hsuffix : suffix ∈ layout.suffixes kind) :
    Text.startsWith "." suffix = true := by
  have hsound := h.suffix kind suffix hsuffix
  simp only [Settings.isSuffix, Bool.and_eq_true] at hsound
  exact hsound.1.2

/-- No point stands before the suffix. -/
theorem IsSound.not_mem_stem (h : layout.IsSound) (name : String) (form : Form) :
    '.' ∉ (layout.stem (UnitName.path name) form).toList := by
  have hname := UnitName.not_mem_path name
  cases form with
  | package =>
    have hmarker := h.marker
    simp only [Settings.isMarker, Bool.and_eq_true, Bool.not_eq_true', Text.hasChar, List.contains_eq_mem,
      decide_eq_false_iff_not] at hmarker
    simp [stem, hname, hmarker.2]
  | module => exact hname

/-- **The path gives the name and the suffix back**, in each form. -/
theorem IsSound.pathFor_inj (h : layout.IsSound) (hvalid : UnitName.isValid name = true)
    (hvalid' : UnitName.isValid name' = true) (hsuffix : suffix ∈ layout.suffixes kind)
    (hsuffix' : suffix' ∈ layout.suffixes kind')
    (heq : layout.pathFor (UnitName.path name) form suffix = layout.pathFor (UnitName.path name') form suffix') :
    name = name' ∧ suffix = suffix' := by
  rw [pathFor_eq, pathFor_eq] at heq
  obtain ⟨hstem, hend⟩ := Text.append_inj_of_point (h.not_mem_stem name form) (h.not_mem_stem name' form)
    (h.startsWith_suffix hsuffix) (h.startsWith_suffix hsuffix') heq
  exact ⟨UnitName.path_inj hvalid hvalid' (stem_inj hstem), hend⟩

/-- **Each segment of the path can name a file.** -/
theorem IsSound.isName_of_mem_pathFor (h : layout.IsSound) (hvalid : UnitName.isValid name = true)
    (hsuffix : suffix ∈ layout.suffixes kind) :
    ∀ s ∈ DiskPath.segments (layout.pathFor (UnitName.path name) form suffix), DiskPath.IsName s := by
  intro s hs
  have hslash := Text.not_mem_of_mem_split hs
  obtain ⟨names, nm, hsegments, -, hvisible⟩ := h.segments_pathFor hvalid hsuffix
  rw [hsegments] at hs
  obtain ⟨hne, hpoint⟩ := hvisible s hs
  refine ⟨hslash, ?_, ?_⟩
  · have hhere : s ≠ "." := by
      rintro rfl
      exact absurd hpoint (by decide)
    simp [DiskPath.counts, hne, hhere]
  · rintro rfl
    exact absurd hpoint (by decide)

/-- The file of a valid name is in normal form. -/
theorem IsSound.normalize_pathFor (h : layout.IsSound) (hvalid : UnitName.isValid name = true)
    (hsuffix : suffix ∈ layout.suffixes kind) :
    ArchivePath.normalize (layout.pathFor (UnitName.path name) form suffix) =
      layout.pathFor (UnitName.path name) form suffix :=
  DiskPath.normalize_eq_self fun s hs => (h.isName_of_mem_pathFor hvalid hsuffix s hs).counts

/-- It is contained in the directory that it is extracted to. -/
theorem IsSound.isContained_pathFor (h : layout.IsSound) (hvalid : UnitName.isValid name = true)
    (hsuffix : suffix ∈ layout.suffixes kind) :
    DiskPath.isContained (layout.pathFor (UnitName.path name) form suffix) = true :=
  DiskPath.isContained_of_segments (h.isName_of_mem_pathFor hvalid hsuffix)

end Layout

/-! ## (3) Denials -/

namespace ImportFailure

/-- A denial, if it is one, of a path that can leave the directory it is joined to. -/
def Rightful (e : ImportFailure) : Prop := ∀ path, e = .accessDenied path → DiskPath.isContained path = false

/-- No denial. -/
def Admitted (e : ImportFailure) : Prop := ∀ path, e ≠ .accessDenied path

/-- What is admitted is not wrongly refused. -/
theorem Admitted.rightful {e : ImportFailure} (h : e.Admitted) : e.Rightful := fun path heq => absurd heq (h path)

/-- No refusal of the file system says that a path leads out. -/
theorem admitted_ofFile (e : FileError) : (ofFile e).Admitted := fun _ => ImportFailure.noConfusion

/-- Nor does an error of a bundle. -/
theorem admitted_ofArchive (e : BundleError) : (ofArchive e).Admitted := by
  cases e <;> exact fun _ => ImportFailure.noConfusion

end ImportFailure

namespace Extraction

open ImportFailure

variable {l : Layer} {dir path : String}

/-- What making an artifact fails with is no denial, unless the path of the entry can leave the directory. -/
theorem raises_makeArtifact_of {P : ImportFailure → Prop} (hadmitted : ∀ e, Admitted e → P e)
    (hdenied : DiskPath.isContained (ArchivePath.normalize path) = false →
      P (.accessDenied (ArchivePath.normalize path))) :
    (makeArtifact dir l path).Raises P := by
  unfold makeArtifact
  refine (raises_ofExcept fun x hx => ?_).bind fun s e s' he => ?_
  · rcases hentry : l.entry path with cause | e
    · rw [hentry] at hx
      cases hx
      exact hadmitted _ (admitted_ofArchive cause)
    · rw [hentry] at hx
      cases hx
  have hentry : l.entry path = .ok e := by
    rw [outcome_ofExcept, Prod.mk.injEq] at he
    rcases hentry : l.entry path with cause | e'
    · rw [hentry] at he
      cases he.1
    · rw [hentry] at he
      cases he.1
      rfl
  have hpath := Layer.entry_path hentry
  dsimp only
  split
  · exact (raises_throw (hadmitted _ fun _ => ImportFailure.noConfusion)).bind fun _ _ _ h => nomatch h
  rcases hcontained : DiskPath.isContained e.path with _ | _
  · refine (raises_ofExcept fun x hx => ?_).bind fun _ dest _ hdest => ?_
    · simp only [artifactPath, contained, hcontained, Bool.false_eq_true, ↓reduceIte] at hx
      cases hx
      rw [hpath] at hcontained ⊢
      exact hdenied hcontained
    · simp only [outcome_ofExcept, artifactPath, contained, hcontained, Bool.false_eq_true, ↓reduceIte] at hdest
      cases hdest
  · refine (raises_ofExcept fun x hx => ?_).bind fun _ dest _ hdest => raises_get.bind fun _ w _ _ => ?_
    · simp only [artifactPath, contained, hcontained, ↓reduceIte] at hx
      cases hx
    split
    · exact raises_pure _
    simp only [outcome_ofExcept, artifactPath, contained, hcontained, ↓reduceIte] at hdest
    cases hdest
    -- A contained path ends in a name, so there is a directory for it to stand in.
    obtain ⟨hrelative, hne, -⟩ := DiskPath.isName_of_isContained hcontained
    obtain ⟨xs, name, hsteps⟩ := List.eq_nil_or_concat' (DiskPath.steps e.path) |>.resolve_left hne
    have hjoined : DiskPath.steps (DiskPath.join dir e.path) = (DiskPath.steps dir ++ xs) ++ [name] := by
      rw [DiskPath.steps_join hrelative, hsteps, List.append_assoc]
    obtain ⟨front, hparent, -⟩ := DiskPath.exists_parent hjoined
    refine (raises_produce (fun x => hadmitted _ (admitted_ofFile x)) (fun x _ => hadmitted _ (admitted_ofArchive x))
      fun hnone => ?_).bind fun _ _ _ _ => raises_pure _
    rw [hparent] at hnone
    cases hnone

/-- A path is refused for leading out only if it does. -/
theorem raises_makeArtifact_rightful (dir : String) (l : Layer) (path : String) :
    (makeArtifact dir l path).Raises Rightful :=
  raises_makeArtifact_of (fun _ => Admitted.rightful) fun hdenied _ heq => by
    cases heq
    exact hdenied

/-- **The artifact of a contained path is never denied.** -/
theorem raises_makeArtifact_admitted (hcontained : DiskPath.isContained (ArchivePath.normalize path) = true) :
    (makeArtifact dir l path).Raises Admitted :=
  raises_makeArtifact_of (fun _ => id) fun hdenied => absurd hcontained (by simp [hdenied])

end Extraction

/-! ## (4) Units of an importer -/

namespace Root

variable {r : Root}

/-- What a root with a layer that cannot be used fails with is no denial. -/
theorem admitted_of_requireOpen {e : ImportFailure} (h : r.requireOpen = .error e) : e.Admitted := by
  unfold requireOpen at h
  split at h <;> cases h
  exact fun _ => ImportFailure.noConfusion

end Root

namespace Importer

open ImportFailure

variable {m : Importer} {layout : Layout} {name : String} {s s' : ImporterState} {u : FoundUnit} {r : Root}

/-- **What is denied on the way to a unit** is a data file that can leave the extraction directory. -/
theorem raises_resolveIn (roots : List (Root × Nat)) : (resolveIn layout name roots).Raises Rightful := by
  induction roots with
  | nil => exact raises_throw (Admitted.rightful fun _ => ImportFailure.noConfusion)
  | cons p roots ih =>
    obtain ⟨r, k⟩ := p
    unfold resolveIn
    refine (raises_ofExcept fun e he => (Root.admitted_of_requireOpen he).rightful).bind fun _ _ _ _ => ?_
    split
    · exact ih
    · next hit hfind =>
      obtain ⟨c, hc, hleast⟩ := Root.find?_least hfind
      obtain ⟨l, token, -, hslot, -⟩ := hleast.holds
      have hlayer : (hit.layer, l) ∈ r.openLayers := by
        rw [hc]
        exact Root.mem_openLayers.2 ⟨token, hslot⟩
      have hrealize : (hit.realize r layout name).Raises Rightful :=
        Hit.raises_realize (fun _ l _ path _ => Extraction.raises_makeArtifact_rightful r.dir l.2 path) hlayer
          (Extraction.raises_makeArtifact_rightful r.dir l hit.path) name
      refine Raises.bind hrealize.onto fun _ artifact _ _ => raises_ofExcept fun e he => ?_
      rw [Hit.unit, Root.layerAt_eq_ok.2 hlayer] at he
      cases he

/-- So it is when a name is resolved. -/
theorem raises_resolve (m : Importer) (name : String) : (m.resolve name).Raises Rightful := by
  unfold resolve
  split
  · exact raises_resolveIn _
  · exact raises_throw (Admitted.rightful fun _ => ImportFailure.noConfusion)

/-- Loading a binary fails without a denial if making its artifact does. -/
theorem raises_loadBinary
    (h : ∀ r, m.roots[u.rootIndex]? = some r → (r.makeArtifact u.layerIndex u.path).Raises Admitted) :
    (m.loadBinary u).Raises Admitted := by
  have hprepare : (m.prepareBinary u).Raises Admitted := by
    unfold prepareBinary
    dsimp only
    split
    · exact (raises_throw fun _ => ImportFailure.noConfusion).bind fun _ _ _ h => nomatch h
    refine (raises_ofExcept fun e he => ?_).bind fun _ r _ hr => ?_
    · unfold Importer.root at he
      split at he <;> cases he
      exact fun _ => ImportFailure.noConfusion
    have hroot : m.roots[u.rootIndex]? = some r := by
      rw [outcome_ofExcept, Prod.mk.injEq] at hr
      exact root_eq_ok.1 hr.1
    refine Raises.bind (h r hroot).onto fun _ path _ _ => ?_
    exact Raises.bind (raises_failingAs _ fun _ _ => ImportFailure.noConfusion).onto fun _ _ _ _ => raises_pure _
  unfold loadBinary
  refine hprepare.bind fun _ path _ _ => Raises.bind (fun _ _ _ h => nomatch h) fun _ verdict _ _ => ?_
  split
  · exact raises_pure _
  · exact raises_throw fun _ => ImportFailure.noConfusion

/-- **The paths of units are faithful.** For settings that pass the check, in each form and with all their suffixes:

1. the path that would hold a name is in normal form and cannot leave a directory it is joined to;
2. it gives the name and the suffix back;
3. so one entry of a layer holds at most one name with one suffix;
4. an importer of these settings denies nothing but paths of data files that can leave the extraction directory: the
  artifact of a unit that was found has its place, and neither making it nor loading the unit is denied. -/
theorem unitPaths_faithful {settings : Settings} (hcheck : settings.check = .ok ()) :
    (∀ name form kind, ∀ suffix ∈ settings.layout.suffixes kind, UnitName.isValid name = true →
      ArchivePath.normalize (settings.layout.pathFor (UnitName.path name) form suffix) =
          settings.layout.pathFor (UnitName.path name) form suffix ∧
        Extraction.contained (settings.layout.pathFor (UnitName.path name) form suffix) =
          .ok (settings.layout.pathFor (UnitName.path name) form suffix)) ∧
    (∀ name name' form kind kind', ∀ suffix ∈ settings.layout.suffixes kind,
      ∀ suffix' ∈ settings.layout.suffixes kind', UnitName.isValid name = true → UnitName.isValid name' = true →
      settings.layout.pathFor (UnitName.path name) form suffix =
        settings.layout.pathFor (UnitName.path name') form suffix' → name = name' ∧ suffix = suffix') ∧
    (∀ (l : Layer) (e : Entry) name name' form kind kind', ∀ suffix ∈ settings.layout.suffixes kind,
      ∀ suffix' ∈ settings.layout.suffixes kind', UnitName.isValid name = true → UnitName.isValid name' = true →
      l.entry (settings.layout.pathFor (UnitName.path name) form suffix) = .ok e →
      l.entry (settings.layout.pathFor (UnitName.path name') form suffix') = .ok e → name = name' ∧ suffix = suffix') ∧
    (∀ m : Importer, m.layout = settings.layout → ∀ name, (m.resolve name).Raises Rightful ∧
      ∀ s s' u, (m.resolve name).outcome s = (.ok u, s') →
        Extraction.artifactPath u.root u.path = .ok (DiskPath.join u.root u.path) ∧
        (∀ r, m.roots[u.rootIndex]? = some r → (r.makeArtifact u.layerIndex u.path).Raises Admitted) ∧
        (m.loadBinary u).Raises Admitted) := by
  have hsound := Layout.isSound_of_check hcheck
  refine ⟨fun name form kind suffix hsuffix hvalid => ?_, ?_, ?_, ?_⟩
  · refine ⟨hsound.normalize_pathFor hvalid hsuffix, ?_⟩
    rw [Extraction.contained, if_pos (hsound.isContained_pathFor hvalid hsuffix)]
  · intro name name' form kind kind' suffix hsuffix suffix' hsuffix' hvalid hvalid' heq
    exact hsound.pathFor_inj hvalid hvalid' hsuffix hsuffix' heq
  · intro l e name name' form kind kind' suffix hsuffix suffix' hsuffix' hvalid hvalid' he he'
    -- An entry has the path under which it is found, and the paths are in normal form.
    have hpath := (Layer.entry_path he).symm.trans (Layer.entry_path he')
    rw [hsound.normalize_pathFor hvalid hsuffix, hsound.normalize_pathFor hvalid' hsuffix'] at hpath
    exact hsound.pathFor_inj hvalid hvalid' hsuffix hsuffix' hpath
  · intro m hm name
    refine ⟨m.raises_resolve name, fun s s' u hu => ?_⟩
    obtain ⟨hvalid, r, i, hit, artifact, rs, hr, -, hfind, -, -, hunit⟩ := exists_of_resolve hu
    obtain ⟨l, hlayer, rfl⟩ := Hit.exists_of_unit hunit
    obtain ⟨suffix, hsuffix, hpath⟩ := Root.exists_suffix_of_find? hfind
    rw [hm] at hsuffix hpath
    have hcontained : DiskPath.isContained hit.path = true := hpath ▸ hsound.isContained_pathFor hvalid hsuffix
    have hnormal : ArchivePath.normalize hit.path = hit.path := hpath ▸ hsound.normalize_pathFor hvalid hsuffix
    have hmake : ∀ r, m.roots[i]? = some r → (r.makeArtifact hit.layer hit.path).Raises Admitted := by
      intro r' hr'
      cases hr.symm.trans hr'
      exact Root.raises_makeArtifact (Root.layerAt_eq_ok.1 hlayer)
        (Extraction.raises_makeArtifact_admitted (by rw [hnormal]; exact hcontained))
    refine ⟨?_, hmake, raises_loadBinary hmake⟩
    simp only [Extraction.artifactPath, Extraction.contained, hcontained, ↓reduceIte]
    rfl

/-- Settings with suffixes of more than one point, one of them ending in another one. -/
def dottedSuffixes : Settings := { Settings.standard with layout := ⟨"__init__", [".x.y"], [".y"], [".x"]⟩ }

/-- A name of two segments is not taken for one of a single segment with a longer suffix, nor the other way round. -/
theorem dottedSuffixes_apart : dottedSuffixes.check = .ok () ∧
    (".y" ∈ dottedSuffixes.layout.suffixes .source ∧ ".x.y" ∈ dottedSuffixes.layout.suffixes .bytecode) ∧
    (UnitName.isValid "a.x" = true ∧ UnitName.isValid "a" = true) ∧
    Extraction.contained (dottedSuffixes.layout.pathFor (UnitName.path "a.x") .package ".x.y") =
      .ok (dottedSuffixes.layout.pathFor (UnitName.path "a.x") .package ".x.y") ∧
    ∀ form, dottedSuffixes.layout.pathFor (UnitName.path "a.x") form ".y" ≠
      dottedSuffixes.layout.pathFor (UnitName.path "a") form ".x.y" := by
  have hcheck : dottedSuffixes.check = .ok () := by decide
  have hy : ".y" ∈ dottedSuffixes.layout.suffixes .source := by decide
  have hxy : ".x.y" ∈ dottedSuffixes.layout.suffixes .bytecode := by decide
  have htwo : UnitName.isValid "a.x" = true := by decide
  have hone : UnitName.isValid "a" = true := by decide
  obtain ⟨hpath, happart, -⟩ := unitPaths_faithful hcheck
  refine ⟨hcheck, ⟨hy, hxy⟩, ⟨htwo, hone⟩, (hpath "a.x" .package .bytecode ".x.y" hxy htwo).2, fun form heq => ?_⟩
  exact absurd (happart "a.x" "a" form .source .bytecode ".y" hy ".x.y" hxy htwo hone heq).1 (by decide)

end Importer

end LayeredBundles
