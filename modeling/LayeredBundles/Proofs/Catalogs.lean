import LayeredBundles.Proofs.Readers

/-! # What a catalog says

A catalog is filled entry by entry, with directories implied on the way and some entries refused. What it says in the
end can be told from the list of entries alone. By induction on the list, one entry more at its end: what a refused
entry would say has been said before.

* **`ArchivePath.IsAbove`** — a path goes down from a directory;
* **`Catalog.said?`** — what a list of entries says of a path: its last file, else its last directory, else an implied
  directory when something is listed below;
* **`Catalog.find?_ofList`** — a catalog has exactly that;
* **`Catalog.Reordered`** — entries are listed in another order, but those of each path in the same;
* **`Catalog.ofList_reordered`** — that makes no difference;
* **`Catalog.ofList_closed_form`** — all this together. -/

namespace LayeredBundles

/-- `IsAbove dir path`: the path goes down from the directory, by at least one segment. -/
def ArchivePath.IsAbove (dir path : String) : Prop :=
  segments dir <+: segments path ∧ segments dir ≠ segments path

instance (dir path : String) : Decidable (ArchivePath.IsAbove dir path) := by
  unfold ArchivePath.IsAbove
  infer_instance

/-- The directories above a path, without the root. -/
theorem ArchivePath.isAbove_iff {dir path : String} (hdir : normalize dir = dir) (hne : dir ≠ "") :
    IsAbove dir path ↔ dir ∈ ancestors (normalize path) := by
  rw [Catalog.mem_ancestors, segments_normalize]
  exact ⟨fun h => ⟨hdir, h.1, segments_ne_nil (hdir.symm ▸ hne), h.2⟩, fun h => ⟨h.2.1, h.2.2.2⟩⟩

namespace Catalog

variable {es es' : List Entry} {e : Entry} {d k : String} {isDir : Bool}

/-! ## (1) The entries -/

/-- The last of the entries listed at `k` as a file, or as a directory, under the path in normal form. -/
def last? (es : List Entry) (isDir : Bool) (k : String) : Option Entry :=
  (es.reverse.find? fun e => ArchivePath.normalize e.path = k && e.isDir == isDir).map fun e => { e with path := k }

/-- What a list of entries says of a path in normal form: its last file; if there is none, its last directory; if there
is none either, a directory of time zero, when something is listed below. -/
def said? (es : List Entry) (k : String) : Option Entry :=
  ((last? es false k).or (last? es true k)).or
    (if ∃ e ∈ es, ArchivePath.IsAbove k e.path then some (Entry.directory k 0) else none)

/-- The last entry for a path, once another one was listed. -/
theorem last?_concat : last? (es ++ [e]) isDir k =
    if ArchivePath.normalize e.path = k ∧ e.isDir = isDir then some { e with path := k } else last? es isDir k := by
  rw [last?, List.reverse_append, List.reverse_singleton, List.singleton_append, List.find?_cons]
  split
  · next h =>
    rw [Bool.and_eq_true, decide_eq_true_eq, beq_iff_eq] at h
    rw [if_pos h]
    rfl
  · next h =>
    rw [if_neg fun hboth => by simp [hboth] at h]
    rfl

/-- Some entry has a property if one listed before has it, or the last one. -/
theorem exists_concat {P : Entry → Prop} : (∃ e' ∈ es ++ [e], P e') ↔ (∃ e' ∈ es, P e') ∨ P e := by
  simp [or_and_right, exists_or]

/-- A file stands where one is listed. -/
theorem fileAt_ofList (hk : k ≠ "") : fileAt (ofList es).entries k = (last? es false k).isSome := by
  have hfile : fileAt (ofList es).entries k = (file? (ofList es).entries k).isSome := by
    unfold fileAt file?
    cases Table.find? (ofList es).entries k with
    | none => rfl
    | some e => cases hdir : e.isDir <;> simp [Option.filter, hdir]
  have hsame : (fun e => decide (ArchivePath.normalize e.path = k) && e.isDir == false) = Files k := by
    funext e
    simp [Files]
  rw [hfile, file_ofList es hk, last?, hsame]

/-- A directory that a file keeps out is listed at the path of that file. -/
theorem exists_of_refused (hne : ArchivePath.normalize e.path ≠ "") (h : (ofList es).Refuses e) :
    e.isDir = true ∧ (last? es false (ArchivePath.normalize e.path)).isSome ∧
      ∃ e' ∈ es, ArchivePath.normalize e'.path = ArchivePath.normalize e.path ∧ e'.isDir = false := by
  obtain ⟨hdir, hfile⟩ := h.resolve_left hne
  rw [fileAt_ofList hne] at hfile
  refine ⟨hdir, hfile, ?_⟩
  rw [last?, Option.isSome_map] at hfile
  obtain ⟨e', he'⟩ := Option.isSome_iff_exists.1 hfile
  have hlisted := List.find?_some he'
  rw [Bool.and_eq_true, decide_eq_true_eq, beq_iff_eq] at hlisted
  exact ⟨e', List.mem_reverse.1 (List.mem_of_find?_eq_some he'), hlisted⟩

/-- No file is listed where a directory comes in. -/
theorem last?_of_not_refused (h : ¬ (ofList es).Refuses e) (hdir : e.isDir = true) :
    last? es false (ArchivePath.normalize e.path) = none := by
  obtain ⟨hne, hfile⟩ := not_or.1 h
  rw [fileAt_ofList hne] at hfile
  simpa [hdir] using hfile

/-- **A catalog has what the list of its entries says.** -/
theorem find?_ofList (hk : ArchivePath.normalize k = k) (hne : k ≠ "") :
    Table.find? (ofList es).entries k = said? es k := by
  induction es using List.reverseRecOn with
  | nil => simp [ofList, empty, said?, last?]
  | append_singleton es e ih =>
    rw [ofList_concat]
    simp only [said?, exists_concat, last?_concat]
    rcases (ofList es).insert_cases e with ⟨hrefused, hsame⟩ | ⟨hnew, hentries, -⟩
    · rw [hsame, ih, said?]
      by_cases hroot : ArchivePath.normalize e.path = ""
      · -- The root is no path here, and nothing is above it.
        have habove : ¬ ArchivePath.IsAbove k e.path := by
          rw [ArchivePath.isAbove_iff hk hne, hroot]
          exact fun hmem => by cases hmem
        simp [hroot, Ne.symm hne, habove]
      obtain ⟨hdir, hfile, e', he', hpath, -⟩ := exists_of_refused hroot hrefused
      -- A file that stands at the path refuses the directory, and what is above it is above both.
      have habove : ArchivePath.IsAbove k e.path → ∃ e' ∈ es, ArchivePath.IsAbove k e'.path := by
        rw [ArchivePath.isAbove_iff hk hne]
        exact fun hmem => ⟨e', he', (ArchivePath.isAbove_iff hk hne).2 (hpath.symm ▸ hmem)⟩
      simp only [or_iff_left_of_imp habove]
      by_cases hself : ArchivePath.normalize e.path = k
      · -- A file listed before says more than the directory.
        obtain ⟨f, hf⟩ := Option.isSome_iff_exists.1 (hself ▸ hfile)
        simp [hdir, hf]
      · simp [hself]
    · -- The entry is taken: it is the last one for its path, and implies what is above it.
      rw [hentries, find?_entriesWith, ih, said?]
      simp only [← ArchivePath.isAbove_iff hk hne]
      by_cases hself : ArchivePath.normalize e.path = k
      · rw [if_pos hself.symm]
        cases hdir : e.isDir with
        | false => simp [hself]
        | true =>
          have hfree := last?_of_not_refused hnew hdir
          rw [hself] at hfree
          simp [hself, hfree]
      · rw [if_neg (Ne.symm hself), Option.or_assoc]
        simp only [hself, false_and, if_false]
        congr 1
        by_cases hbefore : ∃ e ∈ es, ArchivePath.IsAbove k e.path <;> simp [hbefore]

/-! ## (2) The names -/

/-- Above what is right below a directory there is nothing but that directory, and what is above it. -/
theorem parent_of_mem {path p : String} (hpath : ArchivePath.normalize path = path) (hne : path ≠ "")
    (hp : p ∈ ArchivePath.ancestors path ∨ p = path) :
    ArchivePath.parent p = "" ∨ ArchivePath.parent p ∈ ArchivePath.ancestors path := by
  have hproper : ArchivePath.normalize p = p ∧ p ≠ "" ∧ ArchivePath.segments p <+: ArchivePath.segments path := by
    rcases hp with hp | rfl
    · obtain ⟨hnormal, hbegins, hsegs, -⟩ := mem_ancestors.1 hp
      exact ⟨hnormal, fun hroot => hsegs (hroot ▸ ArchivePath.segments_empty), hbegins⟩
    · exact ⟨hpath, hne, List.prefix_rfl⟩
  obtain ⟨hnormal, hbelow, hbegins⟩ := hproper
  obtain ⟨hdir, -, hsegs⟩ := (ArchivePath.right_below_iff hnormal hbelow).1 ⟨rfl, rfl⟩
  by_cases hroot : ArchivePath.segments (ArchivePath.parent p) = []
  · refine .inl ?_
    rw [← hdir, ArchivePath.normalize, hroot]
    rfl
  · refine .inr (mem_ancestors.2 ⟨hdir, ?_, hroot, fun heq => ?_⟩)
    · exact (hsegs ▸ List.prefix_append _ _ : ArchivePath.segments (ArchivePath.parent p) <+: _).trans hbegins
    · have hlength := hbegins.length_le
      rw [hsegs, heq, List.length_append, List.length_singleton] at hlength
      omega

/-- One entry more gives a set of names to what is above it, and to itself if it is a directory. -/
theorem contains_namesWith_iff {c : Catalog} (hroot : Table.contains c.names "" = true)
    (hne : ArchivePath.normalize e.path ≠ "") : Table.contains (c.namesWith e) d = true ↔
      Table.contains c.names d = true ∨ d ∈ ArchivePath.ancestors (ArchivePath.normalize e.path) ∨
        e.isDir = true ∧ d = ArchivePath.normalize e.path := by
  have hparent : ∀ p, p ∈ ArchivePath.ancestors (ArchivePath.normalize e.path) ∨ p = ArchivePath.normalize e.path →
      d = ArchivePath.parent p →
        Table.contains c.names d = true ∨ d ∈ ArchivePath.ancestors (ArchivePath.normalize e.path) := by
    rintro p hp rfl
    rcases parent_of_mem (ArchivePath.normalize_normalize _) hne hp with htop | habove
    · exact .inl (htop ▸ hroot)
    · exact .inr habove
  rw [contains_namesWith]
  constructor
  · rintro (hbefore | ⟨p, hp, rfl | hd⟩ | hdir | hd)
    · exact .inl hbefore
    · exact .inr (.inl hp)
    · exact (hparent p (.inl hp) hd).imp_right .inl
    · exact .inr (.inr hdir)
    · exact (hparent _ (.inr rfl) hd).imp_right .inl
  · rintro (hbefore | habove | hdir)
    · exact .inl hbefore
    · exact .inr (.inl ⟨d, habove, .inl rfl⟩)
    · exact .inr (.inr (.inl hdir))

/-- The first entry listed at a path. -/
def first? (es : List Entry) (d : String) : Option Entry := es.find? fun e => ArchivePath.normalize e.path = d

/-- The first entry for a directory stays the first. -/
theorem first?_concat : first? (es ++ [e]) d
    = (first? es d).or (if ArchivePath.normalize e.path = d then some e else none) := by
  rw [first?, List.find?_append, List.find?_singleton]
  simp only [decide_eq_true_eq, first?]

/-- An entry that comes in is the first one of its path, or follows directories. -/
theorem first?_isDir (hnew : ¬ (ofList es).Refuses e) : (first? (es ++ [e]) d).any (·.isDir) = true ↔
    (first? es d).any (·.isDir) = true ∨ e.isDir = true ∧ d = ArchivePath.normalize e.path := by
  rw [first?_concat]
  by_cases hself : ArchivePath.normalize e.path = d
  · cases hfound : first? es d with
    | none => simp [hself]
    | some f =>
      have hf : f ∈ es ∧ ArchivePath.normalize f.path = d :=
        ⟨List.mem_of_find?_eq_some hfound, by simpa using List.find?_some hfound⟩
      suffices hdir : e.isDir = true → f.isDir = true by simpa [hself] using hdir
      intro hdir
      by_contra hfile
      have hlast := last?_of_not_refused hnew hdir
      rw [last?, Option.map_eq_none_iff, List.find?_eq_none] at hlast
      exact hlast f (List.mem_reverse.2 hf.1) (by simpa [hf.2, hself] using hfile)
  · simp [hself, Ne.symm hself]

/-- **A set of names is kept** for the root, for what is above a listed path, and for each path that is listed as a
directory before any file. -/
theorem contains_names : Table.contains (ofList es).names d = true ↔
    d = "" ∨ (∃ e ∈ es, d ∈ ArchivePath.ancestors (ArchivePath.normalize e.path)) ∨
      d ≠ "" ∧ (first? es d).any (·.isDir) = true := by
  induction es using List.reverseRecOn with
  | nil =>
    rw [ofList, List.foldl_nil, Table.contains_iff]
    simp [empty, first?]
  | append_singleton es e ih =>
    rw [ofList_concat, exists_concat]
    rcases (ofList es).insert_cases e with ⟨hrefused, hsame⟩ | ⟨hnew, -, hnames⟩
    · rw [hsame, ih]
      by_cases hroot : ArchivePath.normalize e.path = ""
      · have hnone : d ∉ ArchivePath.ancestors "" := fun hmem => by cases hmem
        by_cases hd : d = ""
        · simp [hd]
        · simp [hroot, hnone, first?_concat, Ne.symm hd]
      -- The file that keeps the directory out is listed at the same path, so what is above has names already.
      obtain ⟨-, -, e', he', hpath, -⟩ := exists_of_refused hroot hrefused
      have habove : d ∈ ArchivePath.ancestors (ArchivePath.normalize e.path) →
          ∃ e ∈ es, d ∈ ArchivePath.ancestors (ArchivePath.normalize e.path) := fun hmem => ⟨e', he', hpath ▸ hmem⟩
      rw [or_iff_left_of_imp habove, first?_concat]
      by_cases hself : ArchivePath.normalize e.path = d
      · obtain ⟨f, hf⟩ : ∃ f, first? es d = some f :=
          Option.isSome_iff_exists.1 (List.find?_isSome.2 ⟨e', he', by simp [hpath, hself]⟩)
        simp [hf]
      · simp [hself]
    · have hne := (not_or.1 hnew).1
      rw [hnames, contains_namesWith_iff (indexed_ofList es).root hne, ih, first?_isDir hnew]
      constructor
      · rintro ((hroot | habove | ⟨hd, hdir⟩) | habove | ⟨hdir, hself⟩)
        · exact .inl hroot
        · exact .inr (.inl (.inl habove))
        · exact .inr (.inr ⟨hd, .inl hdir⟩)
        · exact .inr (.inl (.inr habove))
        · exact .inr (.inr ⟨hself ▸ hne, .inr ⟨hdir, hself⟩⟩)
      · rintro (hroot | (habove | habove) | ⟨hd, hdir | hdir⟩)
        · exact .inl (.inl hroot)
        · exact .inl (.inr (.inl habove))
        · exact .inr (.inl habove)
        · exact .inl (.inr (.inr ⟨hd, hdir⟩))
        · exact .inr (.inr hdir)

/-- Names are in order, those of each directory and the directories themselves. -/
structure InOrder (names : Table String NameSet) : Prop where
  /-- The directories ascend. -/
  directories : Table.Sorted names
  /-- The names of each directory ascend. -/
  names : ∀ d, Table.Sorted (namesIn names d)

/-- Adding a name keeps the names in order. -/
theorem InOrder.addName {names : Table String NameSet} (h : InOrder names) (path : String) :
    InOrder (addName names path) where
  directories := Table.sorted_insert h.directories _ _
  names d := by
    rw [namesIn, Catalog.addName, Table.find?_insert]
    split
    · exact Table.sorted_insert (h.names _) _ _
    · exact h.names d

/-- So does opening the names of a directory. -/
theorem InOrder.openNames {names : Table String NameSet} (h : InOrder names) (path : String) :
    InOrder (openNames names path) where
  directories := Table.sorted_insert h.directories _ _
  names d := by
    rw [namesIn, Catalog.openNames, Table.find?_insert]
    split
    · exact h.names path
    · exact h.names d

/-- So does adding a directory, which is both. -/
theorem InOrder.addDirectory {names : Table String NameSet} (h : InOrder names) (path : String) :
    InOrder (addDirectory names path) := (h.openNames path).addName path

/-- **The names of a catalog are in order.** -/
theorem inOrder_ofList (es : List Entry) : InOrder (ofList es).names := by
  refine forall_ofList (P := fun c => InOrder c.names) ?_ ?_ es
  · refine ⟨List.pairwise_singleton _ _, fun d => ?_⟩
    rw [namesIn, empty, Table.find?_cons]
    split <;> exact List.Pairwise.nil
  · intro c c' e hc _ _ hnames
    have hfold : InOrder ((ArchivePath.ancestors (ArchivePath.normalize e.path)).foldl addDirectory c.names) := by
      generalize ArchivePath.ancestors (ArchivePath.normalize e.path) = paths
      induction paths using List.reverseRecOn with
      | nil => exact hc
      | append_singleton paths path ih =>
        rw [List.foldl_append]
        exact ih.addDirectory path
    rw [hnames, namesWith]
    split
    · exact hfold.addDirectory _
    · exact hfold.addName _

/-- Names in order are determined by which directories have them and which they are. -/
theorem InOrder.ext {names names' : Table String NameSet} (h : InOrder names) (h' : InOrder names')
    (hcontains : ∀ d, Table.contains names d = true ↔ Table.contains names' d = true)
    (hnamed : ∀ d n, Named names d n ↔ Named names' d n) : names = names' := by
  refine h.directories.ext h'.directories fun d => ?_
  have hsets : namesIn names d = namesIn names' d := by
    refine (h.names d).ext (h'.names d) fun n => ?_
    have hn := hnamed d n
    rw [Named, Named, Table.contains, Table.contains] at hn
    rcases hfound : Table.find? (namesIn names d) n with _ | ⟨⟩ <;>
      rcases hfound' : Table.find? (namesIn names' d) n with _ | ⟨⟩ <;> simp [hfound, hfound'] at hn ⊢
  have hd := hcontains d
  rw [Table.contains, Table.contains] at hd
  rw [namesIn, namesIn] at hsets
  rcases hfound : Table.find? names d with _ | ns <;>
    rcases hfound' : Table.find? names' d with _ | ns' <;> simp_all

/-! ## (3) The order of entries -/

/-- `Reordered es es'`: the same entries in another order, but those of each path in normal form in the same. -/
def Reordered (es es' : List Entry) : Prop :=
  ∀ k, es.filter (fun e => ArchivePath.normalize e.path = k) = es'.filter fun e => ArchivePath.normalize e.path = k

/-- Neighbours of different paths may change places. -/
theorem reordered_swap {e' : Entry} (h : ArchivePath.normalize e.path ≠ ArchivePath.normalize e'.path)
    (before after : List Entry) : Reordered (before ++ e :: e' :: after) (before ++ e' :: e :: after) := by
  intro k
  rw [List.filter_append, List.filter_append]
  congr 1
  by_cases hk : ArchivePath.normalize e.path = k
  · have hk' : ArchivePath.normalize e'.path ≠ k := fun hk' => h (hk.trans hk'.symm)
    simp [hk, hk']
  · simp [List.filter_cons, hk]

/-- Entries in another order are the same entries. -/
theorem Reordered.mem_iff (h : Reordered es es') : e ∈ es ↔ e ∈ es' := by
  have hmem := congrArg (e ∈ ·) (h (ArchivePath.normalize e.path))
  simpa using hmem

/-- So they have the same properties. -/
theorem Reordered.exists_iff (h : Reordered es es') {P : Entry → Prop} : (∃ e ∈ es, P e) ↔ ∃ e ∈ es', P e := by
  simp only [h.mem_iff]

/-- The last entry for a path is the same when the order among its own entries is. -/
theorem Reordered.last? (h : Reordered es es') : last? es isDir k = last? es' isDir k := by
  have hfilter : ∀ es : List Entry, Catalog.last? es isDir k
      = ((es.filter fun e => ArchivePath.normalize e.path = k).reverse.find? (·.isDir == isDir)).map
          fun e => { e with path := k } := by
    intro es
    rw [Catalog.last?, ← List.filter_reverse, List.find?_filter]
    simp only [Bool.decide_and, Bool.decide_eq_true]
  rw [hfilter, hfilter, h k]

/-- So is the first entry for a directory. -/
theorem Reordered.first? (h : Reordered es es') : first? es d = first? es' d := by
  have hfilter : ∀ es : List Entry,
      Catalog.first? es d = (es.filter fun e => ArchivePath.normalize e.path = d).head? :=
    fun es => List.head?_filter.symm
  rw [hfilter, hfilter, h d]

/-- What is said of a path is the same. -/
theorem Reordered.said? (h : Reordered es es') : said? es k = said? es' k := by
  simp only [Catalog.said?, h.last?, h.exists_iff]

/-- The entries of a catalog stand in the order of their paths. -/
theorem sorted_ofList (es : List Entry) : Table.Sorted (ofList es).entries :=
  ofList_induction (P := Table.Sorted) (fun _ e ht _ => Table.sorted_insert ht e.path e) List.Pairwise.nil es

/-- **Catalogs of reordered entries** hold the same entries. -/
theorem Reordered.entries_eq (h : Reordered es es') : (ofList es).entries = (ofList es').entries := by
  refine (sorted_ofList es).ext (sorted_ofList es') fun k => ?_
  by_cases hk : ArchivePath.normalize k = k ∧ k ≠ ""
  · rw [find?_ofList hk.1 hk.2, find?_ofList hk.1 hk.2, h.said?]
  · have hnone : ∀ es, Table.find? (ofList es).entries k = none := fun es =>
      Option.not_isSome_iff_eq_none.1 fun hsome => hk (normal_of_contains hsome)
    rw [hnone, hnone]

/-- **The order of entries of different paths makes no difference.** -/
theorem ofList_reordered (h : Reordered es es') : ofList es = ofList es' := by
  have hentries := h.entries_eq
  have hnames : (ofList es).names = (ofList es').names := by
    refine (inOrder_ofList es).ext (inOrder_ofList es') (fun d => ?_) fun d n => ?_
    · rw [contains_names, contains_names, h.exists_iff, h.first?]
    · rw [(indexed_ofList es).named, (indexed_ofList es').named, hentries]
  generalize ofList es = c at hentries hnames
  generalize ofList es' = c' at hentries hnames
  cases c
  cases c'
  cases hentries
  cases hnames
  rfl

/-- The names right below a directory ascend. -/
theorem pairwise_children? {es : List Entry} {q : String} {names : List String}
    (hnames : (ofList es).children? q = some names) : names.Pairwise (· < ·) := by
  unfold children? at hnames
  split at hnames
  · obtain ⟨ns, hns, rfl⟩ := Option.map_eq_some_iff.1 hnames
    have hsorted := (inOrder_ofList es).names (ArchivePath.normalize q)
    rw [namesIn, hns] at hsorted
    exact List.pairwise_map.2 hsorted
  · cases hnames

/-! ## (4) The closed form -/

/-- **What a catalog says can be told from the list of its entries.** It has for each path, in any spelling, the last
file listed there; without one the last directory; without either an implied directory of time zero, if something is
listed below. It knows the names right below a path exactly if that is the root or one of its directories, and then they
ascend and are the segments under which it has entries. So entries of different paths may be listed in any order. -/
theorem ofList_closed_form (es : List Entry) :
    (∀ q, ArchivePath.normalize q ≠ "" → (ofList es).get? q = said? es (ArchivePath.normalize q)) ∧
    (∀ q, ((ofList es).children? q).isSome = (ofList es).isDirectory q) ∧
    (∀ q names, (ofList es).children? q = some names → names.Pairwise (· < ·) ∧ ∀ n, n ∈ names ↔
      ArchivePath.IsSegment n ∧ ((ofList es).get? (ArchivePath.child (ArchivePath.normalize q) n)).isSome = true) ∧
    ∀ es', Reordered es es' → ofList es' = ofList es := by
  refine ⟨fun q hq => find?_ofList (ArchivePath.normalize_normalize q) hq, fun q => isSome_children?,
    fun q names hnames => ⟨?_, fun n => ?_⟩, fun es' h => (ofList_reordered h).symm⟩
  · exact pairwise_children? hnames
  · have hpath : ArchivePath.normalize (ArchivePath.child (ArchivePath.normalize q) n)
        = ArchivePath.normalize (q ++ "/" ++ n) := by
      rw [ArchivePath.normalize, ArchivePath.segments_child, ArchivePath.segments_normalize]
      exact congrArg ArchivePath.ofSegments (DiskPath.steps_append_slash q n).symm
    rw [mem_children? hnames, get?, get?, hpath]

/-- Entries that say something of one path three times, the second time through what is listed below it. -/
def listedAnew : List Entry := [Entry.directory "d/" 7, Entry.file "./d/f" 1 0, Entry.directory "d" 42]

/-- The directory is the one listed last, and what is below it may as well be listed at the end. -/
theorem listedAnew_says : ArchivePath.normalize "/d" ≠ "" ∧
    (ofList listedAnew).get? "/d" = some (Entry.directory "d" 42) ∧
    (∃ names, (ofList listedAnew).children? "/d" = some names ∧ "f" ∈ names) ∧
    Reordered listedAnew [Entry.directory "d/" 7, Entry.directory "d" 42, Entry.file "./d/f" 1 0] ∧
    ofList [Entry.directory "d/" 7, Entry.directory "d" 42, Entry.file "./d/f" 1 0] = ofList listedAnew := by
  have hne : ArchivePath.normalize "/d" ≠ "" := by decide +kernel
  have hswap : Reordered listedAnew [Entry.directory "d/" 7, Entry.directory "d" 42, Entry.file "./d/f" 1 0] :=
    reordered_swap (by decide +kernel) [Entry.directory "d/" 7] []
  obtain ⟨hget, hsome, hnames, hreordered⟩ := ofList_closed_form listedAnew
  refine ⟨hne, (hget "/d" hne).trans (by decide +kernel), ?_, hswap, hreordered _ hswap⟩
  have hdir : (ofList listedAnew).isDirectory "/d" = true := by decide +kernel
  obtain ⟨names, hchildren⟩ := Option.isSome_iff_exists.1 ((hsome "/d").trans hdir)
  exact ⟨names, hchildren, ((hnames "/d" names hchildren).2 "f").2 (by decide +kernel)⟩

end Catalog

end LayeredBundles
