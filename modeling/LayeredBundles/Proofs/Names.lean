import LayeredBundles.Proofs.Layers
import LayeredBundles.Proofs.Tables

/-! # The names that a catalog keeps

A catalog keeps two tables: the entries, and the names right below each directory. Both are filled together, entry by
entry, and the second must repeat what the first says. It does, because each step adds to the names exactly the paths
that it adds to the entries.

* **`ArchivePath.right_below_iff`** — a path stands right below a directory, under a name;
* **`Catalog.insert_cases`** — all that one entry more can do;
* **`Catalog.Indexed`** — the names kept are those of the entries, and every directory has its set of names;
* **`Catalog.indexed_ofList`** — every catalog is so;
* **`Catalog.mem_children?`** — the names right below a directory are those under which it has entries. -/

namespace LayeredBundles

/-! ## (1) A path and the directory that holds it -/

namespace ArchivePath

/-- The segments of a child are those of the directory and its own. -/
theorem segments_child (dir name : String) : segments (child dir name) = segments dir ++ segments name := by
  rw [child]
  split
  · next hroot => rw [hroot, segments_empty, List.nil_append]
  · exact DiskPath.steps_append_slash dir name

/-- A segment is its only segment. -/
theorem IsSegment.segments {name : String} (h : IsSegment name) : ArchivePath.segments name = [name] := by
  rw [ArchivePath.segments, Text.split_of_not_mem h.2.2]
  simp [counts, h.1, h.2.1]

/-- A path that is not the root has segments. -/
theorem segments_ne_nil {path : String} (h : normalize path ≠ "") : segments path ≠ [] := by
  intro hnil
  rw [normalize, hnil] at h
  exact h rfl

/-- The segments of a path in normal form are all its pieces. -/
theorem segments_eq_split {path : String} (h : normalize path = path) (hne : path ≠ "") :
    segments path = Text.split '/' path := by
  have hsegs : segments path ≠ [] := segments_ne_nil (h.symm ▸ hne)
  have hsplit := Text.split_join hsegs fun s hs => (isSegment_of_mem_segments hs).2.2
  rwa [← ofSegments, ← normalize, h, eq_comm] at hsplit

/-- The last of some segments is the name, and those before it are the directory. -/
theorem parent_ofSegments {segs : List String} {s : String} (h : ∀ t ∈ segs ++ [s], IsSegment t) :
    parent (ofSegments (segs ++ [s])) = ofSegments segs ∧ name (ofSegments (segs ++ [s])) = s := by
  have hsplit : Text.split '/' (ofSegments (segs ++ [s])) = segs ++ [s] :=
    Text.split_join (by simp) fun t ht => (h t ht).2.2
  constructor
  · rw [parent, Text.beforeLast?, hsplit]
    rcases segs with _ | ⟨t, _ | ⟨u, rest⟩⟩
    · rfl
    · rfl
    · change ofSegments (t :: u :: rest ++ [s]).dropLast = _
      rw [List.dropLast_concat]
  · simp [name, Text.afterLast, hsplit]

/-- **A path stands right below a directory**, under a name, exactly if the name is the one segment more. -/
theorem right_below_iff {path dir n : String} (hpath : normalize path = path) (hne : path ≠ "") :
    parent path = dir ∧ name path = n ↔ normalize dir = dir ∧ IsSegment n ∧ segments path = segments dir ++ [n] := by
  have hproper : ∀ t ∈ segments path, IsSegment t := fun t => isSegment_of_mem_segments
  have hself : ofSegments (segments path) = path := hpath
  obtain ⟨segs, s, hsegs⟩ : ∃ segs s, segments path = segs ++ [s] :=
    ⟨_, _, (List.dropLast_append_getLast (segments_ne_nil (hpath.symm ▸ hne))).symm⟩
  rw [hsegs] at hproper hself ⊢
  obtain ⟨hparent, hname⟩ := parent_ofSegments hproper
  have hdir : segments (ofSegments segs) = segs :=
    segments_ofSegments fun t ht => hproper t (List.mem_append_left _ ht)
  rw [← hself, hparent, hname]
  constructor
  · rintro ⟨rfl, rfl⟩
    exact ⟨by rw [normalize, hdir], hproper s (by simp), by rw [hdir]⟩
  · rintro ⟨hnormal, -, heq⟩
    obtain ⟨rfl, hlast⟩ := List.append_inj' heq rfl
    exact ⟨hnormal, List.cons.inj hlast |>.1⟩

end ArchivePath

namespace Catalog

variable {t : Table String Entry} {names : Table String NameSet} {path paths d n k : String}

/-! ## (2) What stands above a path -/

/-- Proper beginnings are neither empty nor the whole path. -/
theorem mem_properBeginnings_iff {xs segs : List String} :
    xs ∈ ArchivePath.properBeginnings segs ↔ xs <+: segs ∧ xs ≠ [] ∧ xs ≠ segs := by
  induction segs using ArchivePath.properBeginnings.induct generalizing xs with
  | case1 => simp [ArchivePath.properBeginnings]
  | case2 s =>
    simp only [ArchivePath.properBeginnings, List.not_mem_nil, false_iff]
    rintro ⟨hbegins, hne, hne'⟩
    rcases List.prefix_cons_iff.1 hbegins with rfl | ⟨ys, rfl, hys⟩
    · exact hne rfl
    · rw [List.prefix_nil.1 hys] at hne'
      exact hne' rfl
  | case3 s t rest ih =>
    rw [ArchivePath.properBeginnings, List.mem_cons, List.mem_map]
    constructor
    · rintro (rfl | ⟨ys, hys, rfl⟩)
      · exact ⟨List.prefix_append [s] _, by simp, by simp⟩
      · obtain ⟨hbegins, -, hne⟩ := ih.1 hys
        exact ⟨(List.prefix_cons_inj s).2 hbegins, by simp, by simpa using hne⟩
    · rintro ⟨hbegins, hne, hne'⟩
      rcases List.prefix_cons_iff.1 hbegins with rfl | ⟨ys, rfl, hys⟩
      · exact absurd rfl hne
      · by_cases hnil : ys = []
        · exact .inl (by rw [hnil])
        · exact .inr ⟨ys, ih.2 ⟨hys, hnil, by simpa using hne'⟩, rfl⟩

/-- What stands above a path: the beginnings of its segments. -/
theorem mem_ancestors {path above : String} : above ∈ ArchivePath.ancestors path ↔
    ArchivePath.normalize above = above ∧ ArchivePath.segments above <+: ArchivePath.segments path ∧
      ArchivePath.segments above ≠ [] ∧ ArchivePath.segments above ≠ ArchivePath.segments path := by
  constructor
  · intro h
    refine ⟨normalize_of_mem_ancestors h, ?_⟩
    obtain ⟨segs, hsegs, rfl⟩ := List.mem_map.1 h
    have hproper := mem_properBeginnings_iff.1 hsegs
    rwa [ArchivePath.segments_ofSegments fun s hs => ArchivePath.isSegment_of_mem_segments (hproper.1.subset hs)]
  · rintro ⟨hnormal, hproper⟩
    rw [← hnormal, ArchivePath.normalize]
    exact List.mem_map.2 ⟨_, mem_properBeginnings_iff.2 hproper, rfl⟩

/-- Above what stands above a path nothing else stands. -/
theorem mem_ancestors_trans {path above a : String} (h : above ∈ ArchivePath.ancestors path)
    (ha : a ∈ ArchivePath.ancestors above) : a ∈ ArchivePath.ancestors path := by
  obtain ⟨-, hbegins, -, -⟩ := mem_ancestors.1 h
  obtain ⟨hnormal, hbegins', hne, hne'⟩ := mem_ancestors.1 ha
  refine mem_ancestors.2 ⟨hnormal, hbegins'.trans hbegins, hne, fun heq => hne' ?_⟩
  exact hbegins'.eq_of_length_le (heq ▸ hbegins.length_le)

/-! ## (3) Implied directories -/

/-- Implied directories stand where nothing else does. -/
theorem find?_foldl_implyDirectory {paths : List String} :
    Table.find? (paths.foldl implyDirectory t) k
      = (Table.find? t k).or (if k ∈ paths then some (Entry.directory k 0) else none) := by
  induction paths generalizing t with
  | nil => simp
  | cons path paths ih =>
    rw [List.foldl_cons, ih]
    -- A directory is implied only where nothing is listed under the name.
    have hone : Table.find? (implyDirectory t path) k
        = (Table.find? t k).or (if k = path then some (Entry.directory k 0) else none) := by
      unfold implyDirectory
      split
      · next hcontains =>
        split
        · next hk =>
          obtain ⟨e, he⟩ := Option.isSome_iff_exists.1 hcontains
          rw [hk, he]
          rfl
        · simp
      · next habsent =>
        rw [Table.find?_insert]
        split
        · next hk =>
          have hnone : Table.find? t k = none := by simpa [Table.contains, hk] using habsent
          rw [hnone, hk]
          rfl
        · simp
    rw [hone, Option.or_assoc]
    congr 1
    by_cases hk : k = path <;> simp [hk]

/-- Implied directories are added to what a table has. -/
theorem contains_foldl_implyDirectory {paths : List String} {a : String} :
    Table.contains (paths.foldl implyDirectory t) a = true ↔ Table.contains t a = true ∨ a ∈ paths := by
  rw [Table.contains, find?_foldl_implyDirectory, Option.isSome_or, Bool.or_eq_true, ← Table.contains]
  split <;> simp [*]

/-! ## (4) Names of a directory -/

/-- The names kept for a directory. -/
def namesIn (names : Table String NameSet) (d : String) : NameSet := (Table.find? names d).getD []

/-- `Named names d n`: among the names kept for `d` is `n`. -/
def Named (names : Table String NameSet) (d n : String) : Prop := Table.contains (namesIn names d) n = true

/-- Adding a name opens the names of the directory that it stands in. -/
theorem contains_addName : Table.contains (addName names path) d = true ↔
    Table.contains names d = true ∨ d = ArchivePath.parent path := Table.contains_insert

/-- Adding a directory opens its own names too. -/
theorem contains_addDirectory : Table.contains (addDirectory names path) d = true ↔
    (Table.contains names d = true ∨ d = path) ∨ d = ArchivePath.parent path := by
  rw [addDirectory, contains_addName, openNames, Table.contains_insert]

/-- Adding several opens the names of them all. -/
theorem contains_foldl_addDirectory {paths : List String} :
    Table.contains (paths.foldl addDirectory names) d = true ↔
      Table.contains names d = true ∨ ∃ p ∈ paths, d = p ∨ d = ArchivePath.parent p := by
  induction paths generalizing names with
  | nil => simp
  | cons path paths ih =>
    rw [List.foldl_cons, ih, contains_addDirectory]
    simp only [List.mem_cons, exists_eq_or_imp, or_assoc]

/-- **A name added** is the only one that comes in. -/
theorem named_addName : Named (addName names path) d n ↔
    Named names d n ∨ ArchivePath.parent path = d ∧ ArchivePath.name path = n := by
  rw [Named, namesIn, addName, Table.find?_insert]
  split
  · next hd =>
    subst hd
    rw [Option.getD_some, Table.contains_insert, ← namesIn, ← Named]
    simp [eq_comm]
  · next hd => simp [Named, namesIn, Ne.symm hd]

/-- A directory without names changes none. -/
theorem named_openNames : Named (openNames names path) d n ↔ Named names d n := by
  rw [Named, namesIn, openNames, Table.find?_insert]
  split
  · next hd => rw [hd, Option.getD_some, ← namesIn, ← Named]
  · rfl

/-- A directory that is added is named in the one above it. -/
theorem named_addDirectory : Named (addDirectory names path) d n ↔
    Named names d n ∨ ArchivePath.parent path = d ∧ ArchivePath.name path = n := by
  rw [addDirectory, named_addName, named_openNames]

/-- So are several. -/
theorem named_foldl_addDirectory {paths : List String} : Named (paths.foldl addDirectory names) d n ↔
    Named names d n ∨ ∃ p ∈ paths, ArchivePath.parent p = d ∧ ArchivePath.name p = n := by
  induction paths generalizing names with
  | nil => simp
  | cons path paths ih =>
    rw [List.foldl_cons, ih, named_addDirectory]
    simp only [List.mem_cons, exists_eq_or_imp, or_assoc]

/-! ## (5) Entry by entry -/

variable {c : Catalog} {e : Entry} {es : List Entry}

/-- `c.Refuses e`: the entry is the root, or a directory where a file stands. -/
def Refuses (c : Catalog) (e : Entry) : Prop :=
  ArchivePath.normalize e.path = "" ∨ e.isDir = true ∧ fileAt c.entries (ArchivePath.normalize e.path) = true

instance : Decidable (c.Refuses e) := by unfold Refuses; infer_instance

/-- The entries after one more that is not refused. -/
def entriesWith (c : Catalog) (e : Entry) : Table String Entry :=
  Table.insert (ArchivePath.normalize e.path) { e with path := ArchivePath.normalize e.path }
    ((ArchivePath.ancestors (ArchivePath.normalize e.path)).foldl implyDirectory c.entries)

/-- The names after one more entry that is not refused. -/
def namesWith (c : Catalog) (e : Entry) : Table String NameSet :=
  let names := (ArchivePath.ancestors (ArchivePath.normalize e.path)).foldl addDirectory c.names
  if e.isDir then addDirectory names (ArchivePath.normalize e.path) else addName names (ArchivePath.normalize e.path)

/-- **One entry more** is refused and changes nothing, or comes in with its name and all that is above it. -/
theorem insert_cases (c : Catalog) (e : Entry) :
    c.Refuses e ∧ c.insert e = c ∨
      ¬ c.Refuses e ∧ (c.insert e).entries = c.entriesWith e ∧ (c.insert e).names = c.namesWith e := by
  unfold insert Refuses
  dsimp only
  split
  · next hroot => exact .inl ⟨.inl hroot, rfl⟩
  next hroot =>
    rw [← Bool.and_eq_true]
    split
    · next hfile => exact .inl ⟨.inr hfile, rfl⟩
    · next hnew => exact .inr ⟨not_or.2 ⟨hroot, hnew⟩, by rw [entriesWith], by rw [namesWith]⟩

/-- What is found under a path once an entry was inserted: the entry, what was there, or a directory that it implies. -/
theorem find?_entriesWith : Table.find? (c.entriesWith e) k
    = if k = ArchivePath.normalize e.path then some { e with path := ArchivePath.normalize e.path }
      else (Table.find? c.entries k).or
        (if k ∈ ArchivePath.ancestors (ArchivePath.normalize e.path) then some (Entry.directory k 0) else none) := by
  rw [entriesWith, Table.find?_insert, find?_foldl_implyDirectory]

/-- There are entries for what was there, for the new path, and for all above it. -/
theorem contains_entriesWith : Table.contains (c.entriesWith e) k = true ↔
    Table.contains c.entries k = true ∨ k ∈ ArchivePath.ancestors (ArchivePath.normalize e.path) ∨
      k = ArchivePath.normalize e.path := by
  rw [entriesWith, Table.contains_insert, contains_foldl_implyDirectory, or_assoc]

/-- Named is what was, and the new path and all above it, each in the directory it stands in. -/
theorem named_namesWith : Named (c.namesWith e) d n ↔ Named c.names d n ∨
    ∃ p, (p ∈ ArchivePath.ancestors (ArchivePath.normalize e.path) ∨ p = ArchivePath.normalize e.path) ∧
      ArchivePath.parent p = d ∧ ArchivePath.name p = n := by
  have hadded : Named (c.namesWith e) d n ↔
      Named ((ArchivePath.ancestors (ArchivePath.normalize e.path)).foldl addDirectory c.names) d n ∨
        ArchivePath.parent (ArchivePath.normalize e.path) = d ∧
          ArchivePath.name (ArchivePath.normalize e.path) = n := by
    unfold namesWith
    dsimp only
    split
    · exact named_addDirectory
    · exact named_addName
  rw [hadded, named_foldl_addDirectory, or_assoc]
  simp only [or_and_right, exists_or, exists_eq_left]

/-- The names of a directory are open if they were, or if it is the new path, stands above it, or has it as a child. -/
theorem contains_namesWith : Table.contains (c.namesWith e) d = true ↔ Table.contains c.names d = true ∨
    (∃ p ∈ ArchivePath.ancestors (ArchivePath.normalize e.path), d = p ∨ d = ArchivePath.parent p) ∨
      (e.isDir = true ∧ d = ArchivePath.normalize e.path) ∨
      d = ArchivePath.parent (ArchivePath.normalize e.path) := by
  unfold namesWith
  dsimp only
  split
  · next hdir => rw [contains_addDirectory, contains_foldl_addDirectory, or_assoc, or_assoc]; simp [hdir]
  · next hdir => rw [contains_addName, contains_foldl_addDirectory, or_assoc]; simp [hdir]

/-- A further entry is inserted last. -/
theorem ofList_concat (es : List Entry) (e : Entry) : ofList (es ++ [e]) = (ofList es).insert e := by
  rw [ofList, List.foldl_append, List.foldl_cons, List.foldl_nil, ← ofList]

/-- **What one entry more keeps** holds of every catalog. -/
theorem forall_ofList {P : Catalog → Prop} (hempty : P empty)
    (hinsert : ∀ c c' e, P c → ¬ c.Refuses e → c'.entries = c.entriesWith e → c'.names = c.namesWith e → P c')
    (es : List Entry) : P (ofList es) := by
  induction es using List.reverseRecOn with
  | nil => exact hempty
  | append_singleton es e ih =>
    rw [ofList_concat]
    rcases (ofList es).insert_cases e with ⟨-, hsame⟩ | ⟨hnew, hentries, hnames⟩
    · rw [hsame]
      exact ih
    · exact hinsert _ _ e ih hnew hentries hnames

/-- The root has no entry. -/
theorem root_not_listed (es : List Entry) : Table.contains (ofList es).entries "" = false := by
  refine forall_ofList (P := fun c => Table.contains c.entries "" = false) rfl ?_ es
  intro c c' e hc hnew hentries _
  rw [← Bool.not_eq_true] at hc ⊢
  rw [hentries, contains_entriesWith]
  rintro (hbefore | habove | hself)
  · exact hc hbefore
  · exact (mem_ancestors.1 habove).2.2.1 ArchivePath.segments_empty
  · exact hnew (.inl hself.symm)

/-- Something stands everywhere above an entry. -/
def Grounded (t : Table String Entry) : Prop :=
  ∀ k, Table.contains t k = true → ∀ a ∈ ArchivePath.ancestors k, Table.contains t a = true

/-- **Something stands everywhere above an entry** of a catalog. -/
theorem grounded_ofList (es : List Entry) : Grounded (ofList es).entries := by
  refine forall_ofList (P := fun c => Grounded c.entries) (fun k hk => by cases hk) ?_ es
  intro c c' e hc _ hentries _ k hk a ha
  rw [hentries, contains_entriesWith] at hk ⊢
  rcases hk with hk | hk | rfl
  · exact .inl (hc k hk a ha)
  · exact .inr (.inl (mem_ancestors_trans hk ha))
  · exact .inr (.inl ha)

/-! ## (6) Names and entries -/

/-- `c.Indexed`: what the names of a catalog have to do with its entries. -/
structure Indexed (c : Catalog) : Prop where
  /-- The root has names, perhaps none. -/
  root : Table.contains c.names "" = true
  /-- So has every directory. -/
  directory : ∀ k e, Table.find? c.entries k = some e → e.isDir = true → Table.contains c.names k = true
  /-- A name is kept for each entry, in the directory that holds it, and for nothing else. -/
  named : ∀ d n, Named c.names d n ↔
    ∃ k, Table.contains c.entries k = true ∧ ArchivePath.parent k = d ∧ ArchivePath.name k = n

/-- One entry more keeps it so. -/
theorem Indexed.insert {c' : Catalog} (h : c.Indexed) (hentries : c'.entries = c.entriesWith e)
    (hnames : c'.names = c.namesWith e) : c'.Indexed where
  root := by
    rw [hnames]
    exact contains_namesWith.2 (.inl h.root)
  directory k e' hfind hdir := by
    rw [hnames, contains_namesWith]
    rw [hentries, find?_entriesWith] at hfind
    split at hfind
    · next hk =>
      cases hfind
      exact .inr (.inr (.inl ⟨hdir, hk⟩))
    · rcases Option.or_eq_some_iff.1 hfind with hbefore | ⟨-, hnew⟩
      · exact .inl (h.directory k e' hbefore hdir)
      · split at hnew
        · next habove => exact .inr (.inl ⟨k, habove, .inl rfl⟩)
        · cases hnew
  named d n := by
    rw [hnames, named_namesWith, h.named, hentries]
    simp only [contains_entriesWith]
    constructor
    · rintro (⟨k, hk, hbelow⟩ | ⟨k, hk, hbelow⟩)
      · exact ⟨k, .inl hk, hbelow⟩
      · exact ⟨k, .inr hk, hbelow⟩
    · rintro ⟨k, hk | hk, hbelow⟩
      · exact .inl ⟨k, hk, hbelow⟩
      · exact .inr ⟨k, hk, hbelow⟩

/-- **The names that a catalog keeps are those of its entries.** -/
theorem indexed_ofList (es : List Entry) : (ofList es).Indexed := by
  refine forall_ofList (P := Indexed) ⟨rfl, fun k e hfind => (by cases hfind), fun d n => ?_⟩
    (fun c c' e hc _ hentries hnames => hc.insert hentries hnames) es
  constructor
  · intro hnamed
    have hnone : namesIn empty.names d = [] := by
      rw [namesIn, empty, Table.find?_cons]
      split <;> rfl
    rw [Named, hnone] at hnamed
    cases hnamed
  · rintro ⟨k, hk, -⟩
    cases hk

/-- What a catalog contains are paths in normal form, and not the root. -/
theorem normal_of_contains (h : Table.contains (ofList es).entries k = true) :
    ArchivePath.normalize k = k ∧ k ≠ "" := by
  obtain ⟨p, hp, rfl⟩ := List.mem_map.1 (Table.contains_iff.1 h)
  refine ⟨normal_ofList es p hp, fun hroot => ?_⟩
  rw [hroot, root_not_listed] at h
  cases h

/-- A name kept for a directory is a segment, and something stands at that path; no other name is kept. -/
theorem named_ofList {dir : String} : Named (ofList es).names (ArchivePath.normalize dir) n ↔
    ArchivePath.IsSegment n ∧ ((ofList es).get? (dir ++ "/" ++ n)).isSome := by
  have hsegments (hn : ArchivePath.IsSegment n) :
      ArchivePath.segments (dir ++ "/" ++ n) = ArchivePath.segments (ArchivePath.normalize dir) ++ [n] := by
    rw [ArchivePath.segments_normalize, ← hn.segments]
    exact DiskPath.steps_append_slash dir n
  rw [(indexed_ofList es).named, get?, ← Table.contains]
  constructor
  · rintro ⟨k, hk, hbelow⟩
    obtain ⟨hnormal, hne⟩ := normal_of_contains hk
    obtain ⟨-, hn, hsegs⟩ := (ArchivePath.right_below_iff hnormal hne).1 hbelow
    refine ⟨hn, ?_⟩
    rwa [ArchivePath.normalize, hsegments hn, ← hsegs, ← ArchivePath.normalize, hnormal]
  · rintro ⟨hn, hk⟩
    obtain ⟨hnormal, hne⟩ := normal_of_contains hk
    refine ⟨_, hk, (ArchivePath.right_below_iff hnormal hne).2 ⟨ArchivePath.normalize_normalize dir, hn, ?_⟩⟩
    rw [ArchivePath.segments_normalize, hsegments hn]

/-- A directory of a catalog has a set of names. -/
theorem exists_names {dir : String} (h : (ofList es).isDirectory dir = true) :
    ∃ ns, Table.find? (ofList es).names (ArchivePath.normalize dir) = some ns := by
  refine Option.isSome_iff_exists.1 ?_
  rw [isDirectory, Bool.or_eq_true, decide_eq_true_eq] at h
  rcases h with hroot | hdir
  · rw [hroot]
    exact (indexed_ofList es).root
  · obtain ⟨e, he, hdir⟩ := (Option.any_eq_true _ _).1 hdir
    exact (indexed_ofList es).directory _ e he hdir

/-- **The names right below a directory** are those under which it has an entry. -/
theorem mem_children? {dir n : String} {names : List String} (h : (ofList es).children? dir = some names) :
    n ∈ names ↔ ArchivePath.IsSegment n ∧ ((ofList es).get? (dir ++ "/" ++ n)).isSome := by
  unfold children? at h
  split at h
  · obtain ⟨ns, hns, rfl⟩ := Option.map_eq_some_iff.1 h
    rw [← named_ofList, Named, namesIn, hns, Option.getD_some, Table.contains_iff]
    rfl
  · cases h

/-- Exactly the directories have names below them. -/
theorem isSome_children? {dir : String} : ((ofList es).children? dir).isSome = (ofList es).isDirectory dir := by
  unfold children?
  split
  · next hdir =>
    obtain ⟨ns, hns⟩ := exists_names hdir
    rw [hns, hdir]
    rfl
  · next hdir => simpa using hdir

end Catalog

end LayeredBundles
