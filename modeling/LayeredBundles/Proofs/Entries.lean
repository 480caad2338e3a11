import LayeredBundles.Proofs.Lookups

/-! # What stands in a catalog

A catalog is put together from the entries of a container. Its files are among these; its directories may be implied
by what they hold.

* **`Catalog.exists_of_file`** — a file of a catalog is one of the entries it was made of;
* **`Layer.Sound`** — each listed file has bytes; **`Layer.sound_ofMedium`** shows that of every layer that was opened;
* **`Root.isFile_of_mem_packageData`** — the data files of a package are files. -/

namespace LayeredBundles

namespace Catalog

variable {es : List Entry} {k : String} {e : Entry}

/-! ## (1) Files and what they were made of -/

/-- Every file of a table is, under its path in normal form, one of the given entries. -/
def FilesAmong (es : List Entry) (t : Table String Entry) : Prop :=
  ∀ k e, Table.find? t k = some e → e.isDir = false → ∃ e' ∈ es, ArchivePath.normalize e'.path = k ∧ e'.isDir = false

/-- A directory that is implied is no file, so the files stay among the entries. -/
theorem filesAmong_implyDirectory {t : Table String Entry} (h : FilesAmong es t) (path : String) :
    FilesAmong es (implyDirectory t path) := by
  unfold implyDirectory
  split
  · exact h
  · intro k e hfind hfile
    rw [Table.find?_insert] at hfind
    split at hfind
    · cases hfind
      cases hfile
    · exact h k e hfind hfile

/-- Inserting one of the entries keeps the files among them. -/
theorem filesAmong_insert {c : Catalog} (h : FilesAmong es c.entries) (he : e ∈ es) :
    FilesAmong es (c.insert e).entries := by
  have hancestors : ∀ paths : List String, FilesAmong es (paths.foldl implyDirectory c.entries) := by
    intro paths
    induction paths using List.reverseRecOn with
    | nil => exact h
    | append_singleton paths path ih =>
      rw [List.foldl_append]
      exact filesAmong_implyDirectory ih path
  simp only [Catalog.insert]
  split
  · exact h
  · split
    · exact h
    · have hbelow := hancestors (ArchivePath.ancestors (ArchivePath.normalize e.path))
      generalize (ArchivePath.ancestors (ArchivePath.normalize e.path)).foldl implyDirectory c.entries = t at hbelow
      intro k e' hfind hfile
      rw [Table.find?_insert] at hfind
      split at hfind
      · next hk =>
        cases hfind
        exact ⟨e, he, hk.symm, hfile⟩
      · exact hbelow k e' hfind hfile

/-- **A file of a catalog** is one of the entries it was made of. -/
theorem exists_of_file (hfind : Table.find? (ofList es).entries k = some e) (hfile : e.isDir = false) :
    ∃ e' ∈ es, ArchivePath.normalize e'.path = k ∧ e'.isDir = false := by
  have hfold : ∀ (some : List Entry) (c : Catalog), (∀ e ∈ some, e ∈ es) → FilesAmong es c.entries →
      FilesAmong es (some.foldl insert c).entries := by
    intro some
    induction some with
    | nil => exact fun c _ hc => hc
    | cons e some ih =>
      exact fun c hsome hc => ih _ (fun e' he' => hsome e' (List.mem_cons_of_mem _ he'))
        (filesAmong_insert hc (hsome e List.mem_cons_self))
  exact hfold es empty (fun e he => he) (fun k e h => nomatch h) k e hfind hfile

end Catalog

/-- `l.Clear`: no file of the layer stands above an entry. -/
def Layer.Clear (l : Layer) : Prop :=
  ∀ e ∈ l.entries, ∀ above ∈ ArchivePath.ancestors e.path, l.isFile above = false

instance (l : Layer) : Decidable l.Clear :=
  inferInstanceAs (Decidable (∀ e ∈ l.entries, ∀ above ∈ ArchivePath.ancestors e.path, l.isFile above = false))

/-- **In a clear layer** all that stands above an entry is a directory. -/
theorem Layer.Clear.isDirectory {l : Layer} (h : l.Clear) {path above : String} {e : Entry}
    (hentry : l.entry path = .ok e) (hbegins : ArchivePath.segments above <+: ArchivePath.segments path)
    (hne : ArchivePath.segments above ≠ ArchivePath.segments path) : l.isDirectory above = true := by
  rw [Layer.isDirectory, Catalog.isDirectory, Bool.or_eq_true, decide_eq_true_eq]
  by_cases hroot : ArchivePath.segments above = []
  · exact .inl (by rw [ArchivePath.normalize, hroot]; rfl)
  have hfind := entry_eq_ok.1 hentry
  rw [Catalog.get?, l.catalog_eq] at hfind
  have habove : ArchivePath.normalize above ∈ ArchivePath.ancestors (ArchivePath.normalize path) :=
    Catalog.mem_ancestors.2 ⟨ArchivePath.normalize_normalize above, by simpa using hbegins, by simpa using hroot,
      by simpa using hne⟩
  have hcontains := Catalog.grounded_ofList _ _ (by rw [Table.contains, hfind]; rfl) _ habove
  obtain ⟨e', he'⟩ := Option.isSome_iff_exists.1 hcontains
  have hlisted : e ∈ l.entries := List.mem_map.2 ⟨_, l.catalog_eq ▸ Table.mem_of_find? hfind, rfl⟩
  have hfile := h e hlisted _ (by rw [entry_path hentry]; exact habove)
  rw [isFile_normalize, Layer.isFile, Catalog.isFile, Catalog.get?, l.catalog_eq, he'] at hfile
  rw [Catalog.get?, l.catalog_eq, he']
  exact .inr (by simpa using hfile)

/-! ## (4) Members of an opened container -/

/-- What is true of every member that a container lists: its path is in normal form, and a file has bytes. -/
def Member.Sound (m : Member) : Prop :=
  ArchivePath.normalize m.entry.path = m.entry.path ∧ (m.entry.isDir = false → m.body ≠ .none)

instance (m : Member) : Decidable m.Sound := inferInstanceAs (Decidable (_ ∧ _))

/-- A member of a zip file has a path in normal form, and bytes if it is a file. -/
theorem Zip.sound_member? {h : Zip.Header} {dataAt : Nat} {m : Member} (hm : Zip.member? h dataAt = some m) :
    m.Sound := by
  unfold Zip.member? at hm
  dsimp only at hm
  split at hm
  · cases hm
  · split at hm
    · cases hm
      exact ⟨ArchivePath.normalize_normalize _, fun hfile => nomatch hfile⟩
    · cases hm
      exact ⟨ArchivePath.normalize_normalize _, fun _ => Body.noConfusion⟩

/-- A member of a zip container is that of a header that was read. -/
theorem Zip.exists_of_mem_members {d : ByteArray} {ms : List Member} {m : Member} (h : Zip.members d = .ok ms)
    (hm : m ∈ ms) : ∃ hs header dataAt,
      Zip.firstDirectory d none (Zip.marksBetween d Zip.endMark 0 d.size).reverse = .ok hs ∧
      (header, dataAt) ∈ Zip.byName hs ∧ Zip.member? header dataAt = some m := by
  obtain ⟨hs, hhs, h⟩ := exists_of_bind_eq_ok h
  cases h
  obtain ⟨⟨header, dataAt⟩, hmem, hm⟩ := List.mem_filterMap.1 hm
  exact ⟨hs, header, dataAt, hhs, hmem, hm⟩

/-- So is a member of a tar file. -/
theorem Tar.sound_member? {block : ByteArray} {p : Tar.Pending} {size dataAt : Nat} {m : Member}
    (hm : Tar.member? block p size dataAt = .ok (some m)) : m.Sound := by
  unfold Tar.member? at hm
  dsimp only at hm
  have hnormal := ArchivePath.normalize_normalize (Utf8.lossy (Bytes.ofList (Tar.pathOf block p)))
  generalize ArchivePath.normalize (Utf8.lossy (Bytes.ofList (Tar.pathOf block p))) = path at hm hnormal
  split at hm
  · cases hm
  · obtain ⟨timestamp, -, hm⟩ := exists_of_bind_eq_ok hm
    split at hm <;> cases hm
    · exact ⟨hnormal, fun hfile => nomatch hfile⟩
    all_goals exact ⟨hnormal, fun _ => Body.noConfusion⟩

/-- The only member that a step finds is that of its header, and its bytes begin right behind that. -/
theorem Tar.exists_of_step {d : ByteArray} {p p' : Tar.Pending} {next next' : Nat} {m : Member}
    (h : Tar.step d p next = .ok (.go (some m) p' next')) : ∃ block size dataAt, Tar.sizeOf block p = .ok size ∧
      Tar.member? block p size dataAt = .ok (some m) ∧ dataAt ≤ d.size := by
  -- A container that ends in the middle of a member gives none.
  have hend : ∀ {stop : Except Tar.Fault Tar.Step}, (stop = if p.present then .error .lone else .ok .stop) →
      stop ≠ .ok (.go (some m) p' next') := by
    rintro stop rfl
    split <;> simp
  unfold Tar.step at h
  dsimp only at h
  split at h
  · next hblock =>
    split at h
    · exact absurd h (hend rfl)
    · unfold Tar.headerStep at h
      obtain ⟨_, -, h⟩ := exists_of_bind_eq_ok h
      obtain ⟨size, hsize, h⟩ := exists_of_bind_eq_ok h
      dsimp only at h
      split at h
      · cases h
      · split at h
        · obtain ⟨_, -, h⟩ := exists_of_bind_eq_ok h
          split at h <;> cases h
        · split at h
          · cases h
          · obtain ⟨found, hfound, h⟩ := exists_of_bind_eq_ok h
            split at h
            · cases h
            · cases h
              exact ⟨_, size, _, hsize, hfound, hblock⟩
  · split at h
    · cases h
    · exact absurd h (hend rfl)

/-- A member of a tar container is that of a header. -/
theorem Tar.exists_of_mem_membersFrom {d : ByteArray} {steps : Nat} {p : Tar.Pending} {next : Nat} {ms : List Member}
    {m : Member} (h : Tar.membersFrom d steps p next = .ok ms) (hm : m ∈ ms) : ∃ block p size dataAt,
      Tar.sizeOf block p = .ok size ∧ Tar.member? block p size dataAt = .ok (some m) ∧ dataAt ≤ d.size := by
  induction steps generalizing p next ms with
  | zero =>
    cases h
    cases hm
  | succ steps ih =>
    unfold Tar.membersFrom at h
    obtain ⟨step, hstep, h⟩ := exists_of_bind_eq_ok h
    split at h
    · cases h
      cases hm
    · next found p' next' =>
      obtain ⟨rest, hrest, h⟩ := exists_of_bind_eq_ok h
      cases h
      rcases List.mem_append.1 hm with hm | hm
      · cases found with
        | none => cases hm
        | some m' =>
          cases List.mem_singleton.1 hm
          obtain ⟨block, size, dataAt, hmember⟩ := exists_of_step hstep
          exact ⟨block, p, size, dataAt, hmember⟩
      · exact ih hrest hm

namespace Layer

variable {l : Layer} {path : String}

/-- **A sound layer**: all its members are. -/
def Sound (l : Layer) : Prop := ∀ m ∈ l.members, m.Sound

instance (l : Layer) : Decidable l.Sound := inferInstanceAs (Decidable (∀ m ∈ l.members, m.Sound))

/-- The members of a layer that was opened are those of its container, as the format has them. -/
theorem members_of_ofMedium {name : String} {s : Medium} (h : Layer.ofMedium name s = .ok l) :
    l.format = .zip ∧ Zip.members s.bytes = .ok l.members ∨ l.format = .tar ∧ Tar.members s.bytes = .ok l.members := by
  unfold ofMedium at h
  split at h
  · cases h
  · split at h
    · cases h
    · next format hformat =>
      rcases hmembers : membersOf name s.bytes format with e | ms
      · simp only [hmembers] at h
        cases h
      · simp only [hmembers] at h
        cases h
        unfold membersOf at hmembers
        cases format with
        | zip =>
          dsimp only at hmembers
          split at hmembers <;> cases hmembers
          next hzip => exact .inl ⟨rfl, hzip⟩
        | tar =>
          dsimp only at hmembers
          split at hmembers <;> cases hmembers
          next htar => exact .inr ⟨rfl, htar⟩

/-- **Every layer that was opened is sound.** -/
theorem sound_ofMedium {name : String} {s : Medium} (h : Layer.ofMedium name s = .ok l) : l.Sound := by
  intro m hm
  obtain ⟨-, hzip⟩ | ⟨-, htar⟩ := members_of_ofMedium h
  · obtain ⟨-, header, dataAt, -, -, hmember⟩ := Zip.exists_of_mem_members hzip hm
    exact Zip.sound_member? hmember
  · obtain ⟨block, p, size, dataAt, -, hmember, -⟩ := Tar.exists_of_mem_membersFrom htar hm
    exact Tar.sound_member? hmember

/-- A file of a sound layer is listed with bytes. -/
theorem Sound.exists_lastFile? (h : l.Sound) {e : Entry} (hentry : l.entry path = .ok e) (hfile : e.isDir = false) :
    ∃ m, l.lastFile? e.path = some m ∧ m.body ≠ .none := by
  have hfind := entry_eq_ok.1 hentry
  rw [Catalog.get?, l.catalog_eq] at hfind
  obtain ⟨e', he', hpath, hfile'⟩ := Catalog.exists_of_file hfind hfile
  obtain ⟨m, hm, rfl⟩ := List.mem_map.1 he'
  have hlisted : m.entry.path = e.path := by rw [entry_path hentry, ← hpath, (h m hm).1]
  rcases hlast : l.lastFile? e.path with _ | last
  · have hnone := List.find?_eq_none.1 hlast m (List.mem_reverse.2 hm)
    simp [hlisted, hfile'] at hnone
  · have hmem : last ∈ l.members := List.mem_reverse.1 (List.mem_of_find?_eq_some hlast)
    have hsome := List.find?_some hlast
    rw [Bool.and_eq_true, Bool.not_eq_true'] at hsome
    exact ⟨last, rfl, (h last hmem).2 hsome.2⟩

/-- **What a file of a sound layer holds** can fail to be read, yet not to be found. -/
theorem Sound.writeOut_ne_notFound (h : l.Sound) (hfile : l.isFile path = true) (p : String) :
    (l.writeOut path).2 ≠ .error (.notFound p) := by
  obtain ⟨e, hentry, hdir⟩ := isFile_iff.1 hfile
  obtain ⟨m, hlast, hbody⟩ := h.exists_lastFile? hentry hdir
  unfold writeOut readable
  by_cases hroot : ArchivePath.normalize path = ""
  · simp [hroot]
  · simp only [hroot, hentry, hdir, hlast, Bool.false_eq_true, ↓reduceIte]
    unfold copyBody
    split
    · next hnone => exact absurd hnone hbody
    · split <;> simp
    · simp
    · split <;> simp

end Layer

/-! ## (5) Data files -/

namespace Root

variable {r : Root} {layout : Layout} {l : Layer} {path : String}

/-- What is listed as data of a package is a file. -/
theorem isFile_of_mem_dataFiles {depth : Nat} {dir : String} (h : path ∈ r.dataFiles layout l depth dir) :
    l.isFile path = true := by
  induction depth generalizing dir with
  | zero => cases h
  | succ depth ih =>
    unfold dataFiles at h
    obtain ⟨child, hchild, h⟩ := List.mem_flatMap.1 h
    rcases hchildren : l.catalog.children? dir with _ | names
    · rw [hchildren] at hchild
      cases hchild
    · rw [hchildren, Option.getD_some] at hchild
      dsimp only at h
      split at h
      · split at h
        · cases h
        · exact ih h
      · next hdir =>
        split at h
        · cases h
        · cases List.mem_singleton.1 h
          -- The name is one right below the directory, and what stands there is no directory.
          have hsome : (l.catalog.get? (dir ++ "/" ++ child)).isSome := by
            rw [l.catalog_eq] at hchildren ⊢
            exact ((Catalog.mem_children? hchildren).1 hchild).2
          obtain ⟨e, he⟩ := Option.isSome_iff_exists.1 hsome
          rw [Layer.isDirectory, Catalog.isDirectory, he, Bool.or_eq_true, not_or] at hdir
          rw [Layer.isFile, Catalog.isFile, he]
          simpa using hdir.2

/-- **The data files of a package** are files of the layer. -/
theorem isFile_of_mem_packageData {package : String} (h : path ∈ r.packageData layout l package) :
    l.isFile path = true := by
  unfold packageData at h
  split at h
  · exact isFile_of_mem_dataFiles h
  · cases h

end Root

end LayeredBundles
