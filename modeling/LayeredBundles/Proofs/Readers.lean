import LayeredBundles.Proofs.Entries

/-! # The catalog and the reader of a layer

A layer knows its members twice. The catalog is asked what stands at a path; the reader looks for the bytes among the
members. Both are filled from one list, by different rules: the catalog implies directories and lets no directory
replace a file, the reader takes the last file of a path and knows no directories. By induction on the list, one entry
more at its end, both come to the same file.

* **`Catalog.file_ofList`** — the file of a catalog is the last entry listed as a file at its path;
* **`Layer.IsLastFile`** — a member is the last one listed as a file at a path;
* **`Layer.Sound.entry_eq_lastFile`** — the catalog reports the very member that is read;
* **`Layer.catalog_agrees_with_reader`** — whatever a layer lists as a file can be found by its reader, and nothing
  else. -/

namespace LayeredBundles

/-! ## (1) The files of a catalog -/

namespace Catalog

variable {es : List Entry} {e : Entry} {k : String}

/-- The file at a path in normal form, if that is what stands there. -/
def file? (t : Table String Entry) (k : String) : Option Entry := (Table.find? t k).filter (!·.isDir)

/-- `Files k e`: the entry is a file, and its path in normal form is `k`. -/
def Files (k : String) (e : Entry) : Bool := ArchivePath.normalize e.path = k && !e.isDir

/-- Implied directories are no files. -/
theorem file?_implyDirectory (t : Table String Entry) (path k : String) :
    file? (implyDirectory t path) k = file? t k := by
  unfold implyDirectory
  split
  · rfl
  next habsent =>
    rw [file?, file?, Table.find?_insert]
    split
    · next hk =>
      have hnone : Table.find? t k = none := by simpa [Table.contains, hk] using habsent
      rw [hnone]
      rfl
    · rfl

/-- Implied directories neither hide a file nor make one. -/
theorem file?_foldl_implyDirectory (paths : List String) (t : Table String Entry) (k : String) :
    file? (paths.foldl implyDirectory t) k = file? t k := by
  induction paths generalizing t with
  | nil => rfl
  | cons path paths ih => rw [List.foldl_cons, ih, file?_implyDirectory]

/-- **One entry more** is the file at its path if it is a file, and changes no file otherwise. -/
theorem file?_insert (c : Catalog) (e : Entry) (hk : k ≠ "") :
    file? (c.insert e).entries k = if Files k e then some { e with path := k } else file? c.entries k := by
  simp only [Catalog.insert]
  split
  · next hroot => simp [Files, hroot, Ne.symm hk]
  split
  · next hrefused =>
    rw [Bool.and_eq_true] at hrefused
    simp [Files, hrefused.1]
  next hnew =>
    rw [file?, Table.find?_insert]
    by_cases hpath : ArchivePath.normalize e.path = k
    · cases hdir : e.isDir with
      | false => simp [Files, hpath, hdir]
      | true =>
        -- The directory is put where no file stands.
        have hfree : file? c.entries k = none := by
          rw [hdir, Bool.true_and, fileAt, hpath] at hnew
          unfold file?
          cases hfind : Table.find? c.entries k with
          | none => rfl
          | some e' => simpa [hfind] using hnew
        simp [Files, hpath, hdir, hfree]
    · rw [if_neg (Ne.symm hpath), ← file?, file?_foldl_implyDirectory]
      simp [Files, hpath]

/-- **The file of a catalog** is the last entry that is listed as a file at its path. -/
theorem file_ofList (es : List Entry) (hk : k ≠ "") :
    file? (ofList es).entries k = (es.reverse.find? (Files k)).map fun e => { e with path := k } := by
  induction es using List.reverseRecOn with
  | nil => rfl
  | append_singleton es e ih =>
    rw [ofList_concat, file?_insert _ _ hk, ih, List.reverse_append, List.reverse_singleton, List.singleton_append,
      List.find?_cons]
    cases Files k e <;> rfl

end Catalog

/-! ## (2) The member that is read -/

namespace Layer

variable {l : Layer} {path k : String} {m : Member}

/-- `l.IsLastFile k m`: of the members listed as files at `k`, the last one is `m`. -/
def IsLastFile (l : Layer) (k : String) (m : Member) : Prop :=
  ∃ before after, l.members = before ++ m :: after ∧ m.entry.path = k ∧ m.entry.isDir = false ∧
    ∀ m' ∈ after, m'.entry.path = k → m'.entry.isDir = true

/-- The last file of a path is a file. -/
theorem IsLastFile.isFile (h : l.IsLastFile k m) : m.entry.isDir = false := by
  obtain ⟨-, -, -, -, hfile, -⟩ := h
  exact hfile

/-- The last file that is found is the last one there is. -/
theorem isLastFile_of_lastFile? (h : l.lastFile? k = some m) : l.IsLastFile k m := by
  obtain ⟨hm, after, before, hsplit, hafter⟩ := List.find?_eq_some_iff_append.1 h
  rw [Bool.and_eq_true, decide_eq_true_eq, Bool.not_eq_true'] at hm
  refine ⟨before.reverse, after.reverse, ?_, hm.1, hm.2, fun m' hm' hpath => ?_⟩
  · rw [← List.reverse_reverse l.members, hsplit]
    simp
  · simpa [hpath] using hafter m' (List.mem_reverse.1 hm')

/-- Among sound members, being listed as a file at a path is a matter of the path as it stands. -/
theorem Sound.find?_files (h : l.Sound) (k : String) :
    (l.members.map (·.entry)).reverse.find? (Catalog.Files k) = (l.lastFile? k).map (·.entry) := by
  have hsame : ∀ ms : List Member, (∀ m ∈ ms, m.Sound) →
      (ms.map (·.entry)).find? (Catalog.Files k)
        = (ms.find? fun m => m.entry.path = k && !m.entry.isDir).map (·.entry) := by
    intro ms hms
    induction ms with
    | nil => rfl
    | cons m ms ih =>
      have hfirst : Catalog.Files k m.entry = (decide (m.entry.path = k) && !m.entry.isDir) := by
        rw [Catalog.Files, (hms m List.mem_cons_self).1]
      rw [List.map_cons, List.find?_cons, List.find?_cons, hfirst, ih fun m' hm' => hms m' (List.mem_cons_of_mem _ hm')]
      split <;> rfl
  rw [← List.map_reverse]
  exact hsame _ fun m hm => h m (List.mem_reverse.1 hm)

/-- **The catalog reports the very member that is read**: away from the root, its file at a path is the entry of the
last member listed as a file there. -/
theorem Sound.entry_eq_lastFile (h : l.Sound) (hroot : ArchivePath.normalize path ≠ "") :
    (l.catalog.get? path).filter (!·.isDir) = (l.lastFile? (ArchivePath.normalize path)).map (·.entry) := by
  have hfile := Catalog.file_ofList (l.members.map (·.entry)) hroot
  rw [h.find?_files, ← l.catalog_eq] at hfile
  rw [Catalog.get?, ← Catalog.file?, hfile, Option.map_map]
  cases hlast : l.lastFile? (ArchivePath.normalize path) with
  | none => rfl
  | some m =>
    obtain ⟨-, -, -, hpath, -⟩ := isLastFile_of_lastFile? hlast
    simp [← hpath]

/-- The last member listed as a file somewhere is what is looked up and read there. -/
theorem Sound.read_of_lastFile? (h : l.Sound) (hroot : ArchivePath.normalize path ≠ "")
    (hlast : l.lastFile? (ArchivePath.normalize path) = some m) : l.entry path = .ok m.entry ∧
      l.writeOut path = l.copyBody (ArchivePath.normalize path) m.body := by
  have hget := h.entry_eq_lastFile hroot
  rw [hlast, Option.map_some, Option.filter_eq_some_iff] at hget
  have hentry : l.entry path = .ok m.entry := entry_eq_ok.2 hget.1
  have hdir : m.entry.isDir = false := by simpa using hget.2
  refine ⟨hentry, ?_⟩
  simp [writeOut, readable, hroot, hentry, hdir, entry_path hentry, hlast]

/-- A file of a sound layer is the entry of the last member listed there, and its bytes are that member's. -/
theorem Sound.read_of_isFile (h : l.Sound) (hfile : l.isFile path = true) :
    ∃ m, l.IsLastFile (ArchivePath.normalize path) m ∧ m.body ≠ .none ∧ l.entry path = .ok m.entry ∧
      l.writeOut path = l.copyBody (ArchivePath.normalize path) m.body := by
  obtain ⟨e, hentry, hdir⟩ := isFile_iff.1 hfile
  have hroot := ne_root_of_entry hentry
  have hget := h.entry_eq_lastFile hroot
  rw [entry_eq_ok.1 hentry, Option.filter_some, hdir] at hget
  obtain ⟨m, hlast, rfl⟩ := Option.map_eq_some_iff.1 hget.symm
  obtain ⟨before, after, hmembers, -⟩ := isLastFile_of_lastFile? hlast
  exact ⟨m, isLastFile_of_lastFile? hlast, (h m (by simp [hmembers])).2 hdir, h.read_of_lastFile? hroot hlast⟩

/-! ## (3) How reading is refused -/

/-- Reading a file fails as writing it out does. -/
theorem contents_eq_error {e : BundleError} : l.contents path = .error e ↔ (l.writeOut path).2 = .error e := by
  unfold contents
  rcases l.writeOut path with ⟨out, e' | n⟩ <;> simp

/-- Reading a file gives what writing it out hands on. -/
theorem contents_eq_ok {out : ByteArray} : l.contents path = .ok out ↔ ∃ n, l.writeOut path = (out, .ok n) := by
  unfold contents
  rcases l.writeOut path with ⟨out', e | n⟩ <;> simp

/-- Bytes that stand somewhere can be damaged, yet they are neither missing nor a directory. -/
theorem copyBody_refusal {body : Body} (h : body ≠ .none) (p q : String) :
    (l.copyBody p body).2 ≠ .error (.notFound q) ∧ (l.copyBody p body).2 ≠ .error (.isDirectory q) := by
  unfold copyBody
  split
  · exact absurd rfl h
  · split <;> simp
  · simp
  · split <;> simp

/-- What a path can be: a directory, a file, or nothing. -/
theorem stands_or_missing (l : Layer) (path : String) :
    (l.isDirectory path = true ∧ (ArchivePath.normalize path = "" ∨ ∃ e, l.entry path = .ok e ∧ e.isDir = true)) ∨
      (l.isDirectory path = false ∧ l.isFile path = true) ∨
      l.isDirectory path = false ∧ ArchivePath.normalize path ≠ "" ∧
        l.entry path = .error (.notFound (ArchivePath.normalize path)) := by
  by_cases hroot : ArchivePath.normalize path = ""
  · simp [isDirectory, Catalog.isDirectory, hroot]
  · unfold isDirectory Catalog.isDirectory isFile Catalog.isFile entry
    rcases l.catalog.get? path with _ | e
    · simp [hroot]
    · cases hdir : e.isDir <;> simp [hroot, hdir]

/-- A directory is refused as one. -/
theorem writeOut_of_directory
    (h : ArchivePath.normalize path = "" ∨ ∃ e, l.entry path = .ok e ∧ e.isDir = true) :
    (l.writeOut path).2 = .error (.isDirectory (ArchivePath.normalize path)) := by
  by_cases hroot : ArchivePath.normalize path = ""
  · simp [writeOut, readable, hroot]
  · obtain ⟨e, hentry, hdir⟩ := h.resolve_left hroot
    simp [writeOut, readable, hroot, hentry, hdir, entry_path hentry]

/-- What has no entry is refused with that. -/
theorem writeOut_of_entry {e : BundleError} (hroot : ArchivePath.normalize path ≠ "") (h : l.entry path = .error e) :
    (l.writeOut path).2 = .error e := by
  simp [writeOut, readable, hroot, h]

/-- Exactly the directories are refused as such. -/
theorem Sound.writeOut_isDirectory_iff (h : l.Sound) {q : String} :
    (l.writeOut path).2 = .error (.isDirectory q) ↔ l.isDirectory path = true ∧ q = ArchivePath.normalize path := by
  rcases l.stands_or_missing path with ⟨hdir, hentry⟩ | ⟨hdir, hfile⟩ | ⟨hdir, hroot, hmissing⟩
  · simp [writeOut_of_directory hentry, hdir, eq_comm]
  · obtain ⟨m, -, hbody, -, hbytes⟩ := h.read_of_isFile hfile
    simp [hbytes, (copyBody_refusal hbody _ q).2, hdir]
  · simp [writeOut_of_entry hroot hmissing, hdir]

/-- Exactly what has no entry is missed. -/
theorem Sound.writeOut_notFound_iff (h : l.Sound) {q : String} :
    (l.writeOut path).2 = .error (.notFound q) ↔
      ArchivePath.normalize path ≠ "" ∧ l.entry path = .error (.notFound q) := by
  rcases l.stands_or_missing path with ⟨hdir, hentry⟩ | ⟨hdir, hfile⟩ | ⟨hdir, hroot, hmissing⟩
  · rw [writeOut_of_directory hentry]
    rcases hentry with hroot | ⟨e, hentry, -⟩
    · simp [hroot]
    · simp [hentry]
  · obtain ⟨m, -, hbody, hentry, hbytes⟩ := h.read_of_isFile hfile
    simp [hbytes, (copyBody_refusal hbody _ q).1, hentry]
  · simp [writeOut_of_entry hroot hmissing, hroot, hmissing]

/-- A refusal is the same, whether a file is read or written out, unless reading stops short. -/
theorem read_eq_refusal_iff {e : BundleError}
    (h : ∀ e', l.isFile path = true → (l.writeOut path).2 = .error e' → e' ≠ e) :
    l.read path = .ok (.error e) ↔ (l.writeOut path).2 = .error e := by
  rw [← contents_eq_error]
  refine ⟨contents_of_read, fun hrefused => ?_⟩
  cases hfile : l.isFile path with
  | false => rw [read_of_not_isFile hfile, hrefused]
  | true => exact absurd rfl (h e hfile (contents_eq_error.1 hrefused))

/-- **The catalog and the reader of a layer agree.** Take any container that opens, and any path in any spelling. The
reader refuses the path as a directory exactly if the catalog says that it is one, and as missing exactly if it is not
the root and has no entry, both when the file is written out and when it is read as a whole. In all other cases the path
is a file of the catalog; what is written out are the bytes of the last member listed as a file there, and that member's
entry is the one the catalog has. The same bytes are read, and the same damage is met, unless that entry says more bytes
than there can be room for: then reading stops short. -/
theorem catalog_agrees_with_reader {name : String} {s : Medium} (h : Layer.ofMedium name s = .ok l) (path : String) :
    (∀ q, ((l.writeOut path).2 = .error (.isDirectory q) ↔
        l.isDirectory path = true ∧ q = ArchivePath.normalize path) ∧
      (l.read path = .ok (.error (.isDirectory q)) ↔ l.isDirectory path = true ∧ q = ArchivePath.normalize path)) ∧
    (∀ q, ((l.writeOut path).2 = .error (.notFound q) ↔
        ArchivePath.normalize path ≠ "" ∧ l.entry path = .error (.notFound q)) ∧
      (l.read path = .ok (.error (.notFound q)) ↔
        ArchivePath.normalize path ≠ "" ∧ l.entry path = .error (.notFound q))) ∧
    (l.isDirectory path = false → (∀ q, l.entry path ≠ .error (.notFound q)) →
      l.isFile path = true ∧ ∃ m, l.IsLastFile (ArchivePath.normalize path) m ∧ l.entry path = .ok m.entry ∧
        l.writeOut path = l.copyBody (ArchivePath.normalize path) m.body ∧
        (m.entry.size ≤ maxRoom →
          (∀ e, l.read path = .ok (.error e) ↔ (l.copyBody (ArchivePath.normalize path) m.body).2 = .error e) ∧
          ∀ out, l.read path = .ok (.ok out) ↔
            ∃ n, l.copyBody (ArchivePath.normalize path) m.body = (out, .ok n)) ∧
        (maxRoom < m.entry.size → l.read path = .error .noRoom)) := by
  have hsound := sound_ofMedium h
  -- What copying a file that is listed fails with says neither that it is a directory nor that it is missing.
  have hrefusal : ∀ q e, l.isFile path = true → (l.writeOut path).2 = .error e →
      e ≠ .isDirectory q ∧ e ≠ .notFound q := by
    intro q e hfile hrefused
    obtain ⟨m, -, hbody, -, hbytes⟩ := hsound.read_of_isFile hfile
    obtain ⟨hmissing, hdir⟩ := copyBody_refusal (l := l) hbody (ArchivePath.normalize path) q
    rw [hbytes] at hrefused
    exact ⟨fun heq => hdir (hrefused.trans (by rw [heq])), fun heq => hmissing (hrefused.trans (by rw [heq]))⟩
  refine ⟨fun q => ⟨hsound.writeOut_isDirectory_iff, ?_⟩, fun q => ⟨hsound.writeOut_notFound_iff, ?_⟩,
    fun hdir hfound => ?_⟩
  · rw [read_eq_refusal_iff fun e hfile hrefused => (hrefusal q e hfile hrefused).1]
    exact hsound.writeOut_isDirectory_iff
  · rw [read_eq_refusal_iff fun e hfile hrefused => (hrefusal q e hfile hrefused).2]
    exact hsound.writeOut_notFound_iff
  rcases l.stands_or_missing path with ⟨hdir', -⟩ | ⟨-, hfile⟩ | ⟨-, -, hmissing⟩
  · rw [hdir] at hdir'
    cases hdir'
  · obtain ⟨m, hlast, -, hentry, hbytes⟩ := hsound.read_of_isFile hfile
    -- The room is asked for before anything is copied.
    have hread := read_eq hentry hlast.isFile
    refine ⟨hfile, m, hlast, hentry, hbytes, fun hroom => ?_, fun hroom => ?_⟩
    · rw [hread, if_pos hroom, ← hbytes]
      simp only [Except.ok.injEq]
      exact ⟨fun e => contents_eq_error, fun out => contents_eq_ok⟩
    · rw [hread, if_neg (Nat.not_le_of_lt hroom)]
  · exact absurd hmissing (hfound _)

/-- A container opens, if its layer passes a test. -/
theorem exists_ofMedium {name : String} {s : Medium} {p : Layer → Bool}
    (h : (Layer.ofMedium name s).toOption.any p = true) : ∃ l, Layer.ofMedium name s = .ok l ∧ p l = true := by
  revert h
  cases Layer.ofMedium name s with
  | error e => exact fun h => nomatch h
  | ok l => exact fun h => ⟨l, rfl, h⟩

end Layer

/-- The zip container of some files as they are; a name that ends in a slash is that of a directory. -/
def Zip.ofFiles (files : List (String × String)) : ByteArray :=
  let common (name text : String) : ByteArray := Bytes.concat [Bytes.ofLittle 2 20, Bytes.zeros 8,
    Bytes.ofLittle 4 (Crc32.ofBytes text.toUTF8).toNat, Bytes.ofLittle 4 text.utf8ByteSize,
    Bytes.ofLittle 4 text.utf8ByteSize, Bytes.ofLittle 2 name.utf8ByteSize, Bytes.zeros 2]
  let (headers, bodies) := files.foldl (fun (headers, bodies) (name, text) =>
    (headers ++ Bytes.concat [Bytes.ofLittle 4 centralMark, Bytes.ofLittle 2 20, common name text, Bytes.zeros 10,
      Bytes.ofLittle 4 bodies.size, name.toUTF8],
    bodies ++ Bytes.concat [Bytes.ofLittle 4 localMark, common name text, name.toUTF8, text.toUTF8]))
    (ByteArray.empty, ByteArray.empty)
  Bytes.concat [bodies, headers, Bytes.ofLittle 4 endMark, Bytes.zeros 4, Bytes.ofLittle 2 files.length,
    Bytes.ofLittle 2 files.length, Bytes.ofLittle 4 headers.size, Bytes.ofLittle 4 bodies.size, Bytes.zeros 2]

/-- A container that lists one path three times: as a file, as a directory, and as another file, each time in another
spelling. -/
def Layer.spelledThrice : Medium := Medium.ofBytes (Zip.ofFiles [("./a", "1"), ("a/", ""), ("/a", "22")])

/-- In such a container the path is a file, and what is read there is the second one. -/
theorem Layer.spelledThrice_agrees : ∃ l, Layer.ofMedium "b" spelledThrice = .ok l ∧ l.isFile "a//" = true ∧
    ∃ m, l.IsLastFile "a" m ∧ l.entry "a//" = .ok m.entry ∧ m.entry.size = 2 ∧
      l.writeOut "a//" = l.copyBody "a" m.body ∧
      ∀ out, l.read "a//" = .ok (.ok out) ↔ ∃ n, l.copyBody "a" m.body = (out, .ok n) := by
  have htest : (Layer.ofMedium "b" spelledThrice).toOption.any
      (fun l => !l.isDirectory "a//" && (l.entry "a//").toOption.any (·.size = 2)) = true := by decide +kernel
  obtain ⟨l, hopens, htest⟩ := exists_ofMedium htest
  simp only [Bool.and_eq_true, Bool.not_eq_true'] at htest
  obtain ⟨hdir, hsize⟩ := htest
  have hfound : ∀ q, l.entry "a//" ≠ .error (.notFound q) := by
    intro q hmissing
    simp [hmissing, Except.toOption] at hsize
  obtain ⟨hfile, m, hlast, hentry, hbytes, hread, -⟩ := (catalog_agrees_with_reader hopens "a//").2.2 hdir hfound
  have hnormal : ArchivePath.normalize "a//" = "a" := by decide +kernel
  rw [hnormal] at hlast hbytes hread
  have hsize' : m.entry.size = 2 := by simpa [hentry, Except.toOption] using hsize
  exact ⟨l, hopens, hfile, m, hlast, hentry, hsize', hbytes, (hread (by rw [hsize']; decide)).2⟩

end LayeredBundles
