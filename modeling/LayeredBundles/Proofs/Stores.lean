import LayeredBundles.Proofs.Records
import LayeredBundles.Proofs.Tidying

/-! # The store of records

A store is written under a temporary name, and what is written is then moved into its place. Both files may be links:
what is written goes where the temporary file leads, and it is the link that is moved.

* **`FileTree.Houses`** — two files beside each other, and where they lead;
* **`RecordStore.StandsAt`** — where the files of a store stand;
* **`Workspace.Records`** — the record of a root, by the place of the store;
* **`RecordStore.writeRecords_yields`** — the file is replaced as a whole;
* **`RecordStore.Finds`** — the record of a root that a store finds;
* **`RecordStore.get_yields`**, **`RecordStore.put_yields`** — a record that is got is the record of its root, and so
  is one that was put. -/

namespace LayeredBundles

open FileTree Fallible

/-! ## (1) Two files -/

namespace FileTree

variable {t t' : FileTree} {A : Place → Prop} {path : String} {p hidden q r : Place}

/-- `t.Houses A path p hidden q r`: a path names `p`, from where it leads to `q`, and from the place `hidden` beside
it leads to `r`. Where one of the two is a link, ways pass neither. -/
structure Houses (t : FileTree) (A : Place → Prop) (path : String) (p hidden q r : Place) : Prop where
  /-- What is named. -/
  named : t.Named A path p
  /-- Where it leads. -/
  leads : t.Resolves A p q
  /-- Where what is beside it leads. -/
  beside : t.Resolves A hidden r
  /-- It is beside. -/
  dropLast_eq : hidden.dropLast = p.dropLast
  /-- It is another place. -/
  ne : hidden ≠ p
  /-- What ways do not pass. -/
  free : ∀ v target, A v → t.node? p = some (.link target) ∨ t.node? hidden = some (.link target) → v ≠ p ∧ v ≠ hidden

namespace Houses

/-- A store is housed where the links are the same. -/
theorem sameLinks (h : t.Houses A path p hidden q r) (hlinks : SameLinks t t') : t'.Houses A path p hidden q r where
  named := hlinks.named h.named
  leads := hlinks.resolves h.leads
  beside := hlinks.resolves h.beside
  dropLast_eq := h.dropLast_eq
  ne := h.ne
  free v target hv hlink := h.free v target hv (by rwa [hlinks.link_iff, hlinks.link_iff] at hlink)

/-- It leads elsewhere than to what is beside it. -/
theorem leads_ne (h : t.Houses A path p hidden q r) : q ≠ hidden := by
  cases h.leads with
  | self => exact h.ne.symm
  | through hlink _ hq => exact (h.free q _ hq (.inl hlink)).2

/-- The file beside it is gone. -/
theorem unbind (h : t.Houses A path p hidden q r) (hroot : hidden ≠ []) :
    (t.unbind hidden).Houses A path p hidden q hidden ∧ (t.unbind hidden).node? q = t.node? q := by
  have hnode := node?_unbind t hroot
  have hself : (t.unbind hidden).node? p = t.node? p := by rw [hnode, if_neg h.ne.symm]
  have hgone : (t.unbind hidden).node? hidden = none := by rw [hnode, if_pos rfl]
  have hlinks : ∀ v target, A v →
      ((t.unbind hidden).node? v = some (.link target) ↔ t.node? v = some (.link target)) := by
    intro v target hv
    by_cases heq : v = hidden
    · subst heq
      rw [hgone]
      exact ⟨nofun, fun hlink => absurd rfl (h.free v target hv (.inr hlink)).2⟩
    · rw [hnode, if_neg heq]
  refine ⟨⟨h.named.congr rfl hlinks fun target hlink => h.named.ends target (hself ▸ hlink),
    h.leads.congr (by rw [hself]; simp) hlinks, .self (by simp [hgone]), h.dropLast_eq, h.ne,
    fun v target hv hlink => ?_⟩, by rw [hnode, if_neg h.leads_ne]⟩
  rw [hself, hgone] at hlink
  exact h.free v target hv (.inl (hlink.resolve_right nofun))

/-- **What is beside it takes its place**: then a file stands there, or it leads where what was beside it led. -/
theorem move (h : t.Houses A path p hidden q r) (hroot : hidden ≠ []) (hends : Ends path p) {n : Node}
    (hn : t.node? hidden = some n) : ∃ q', ((t.unbind hidden).bind p n).Houses A path p hidden q' hidden ∧
      ((t.unbind hidden).bind p n).node? q' = t.node? r ∧ (q' = p ∨ q' = r) := by
  have hnode : ∀ v, ((t.unbind hidden).bind p n).node? v =
      if v = p then some n else if v = hidden then none else t.node? v := fun v => by
    rw [node?_bind _ h.named.ne_root, node?_unbind t hroot]
  have hbase : ((t.unbind hidden).bind p n).base = t.base := rfl
  generalize (t.unbind hidden).bind p n = t' at hnode hbase
  have hself : t'.node? p = some n := by rw [hnode, if_pos rfl]
  have hgone : t'.node? hidden = none := by rw [hnode, if_neg h.ne, if_pos rfl]
  have hbefore : ∀ target, t'.node? p = some (.link target) → t.node? hidden = some (.link target) := by
    intro target hlink
    rw [hn, ← hself, hlink]
  -- Where ways pass, there was no link and is none, or nothing was changed.
  have hlinks : ∀ v target, A v → (t'.node? v = some (.link target) ↔ t.node? v = some (.link target)) := by
    intro v target hv
    by_cases hp : v = p
    · subst hp
      exact ⟨fun hlink => absurd rfl (h.free v target hv (.inr (hbefore target hlink))).1,
        fun hlink => absurd rfl (h.free v target hv (.inl hlink)).1⟩
    · by_cases hhidden : v = hidden
      · subst hhidden
        rw [hgone]
        exact ⟨nofun, fun hlink => absurd rfl (h.free v target hv (.inr hlink)).2⟩
      · rw [hnode, if_neg hp, if_neg hhidden]
  have hnamed := h.named.congr hbase hlinks fun _ _ => hends
  have hfree : ∀ v target, A v → t'.node? p = some (.link target) ∨ t'.node? hidden = some (.link target) →
      v ≠ p ∧ v ≠ hidden := by
    intro v target hv hlink
    rw [hgone] at hlink
    exact h.free v target hv (.inr (hbefore target (hlink.resolve_right nofun)))
  have hbeside : t'.Resolves A hidden hidden := .self (by simp [hgone])
  cases h.beside with
  | self hplain =>
    refine ⟨p, ⟨hnamed, .self fun target hlink => hplain target (hbefore target hlink), hbeside, h.dropLast_eq, h.ne,
      hfree⟩, hself.trans hn.symm, .inl rfl⟩
  | @through m target _ hlink hway hr =>
    rw [h.dropLast_eq] at hway
    have hne := h.free r target hr (.inr hlink)
    refine ⟨r, ⟨hnamed, .through ?_ (hway.congr hlinks) hr, hbeside, h.dropLast_eq, h.ne, hfree⟩, ?_, .inr rfl⟩
    · rw [hself, ← hn, hlink]
    · rw [hnode, if_neg hne.1, if_neg hne.2]

end Houses

end FileTree

/-! ## (2) The store -/

namespace RecordStore

/-- The place of the file under which a new store is written. -/
def temporaryPlace (p : Place) (process : Nat) : Place :=
  p.dropLast ++ [temporaryName (p.getLast?.getD "") process]

/-- The temporary file of a store is not named as the store is. -/
theorem temporaryName_ne (name : String) (process : Nat) : temporaryName name process ≠ name := by
  rw [temporaryName_eq]
  exact DiskPath.hidden_ne _ _

/-- So it does not stand where the store does. -/
theorem temporaryPlace_ne {p : Place} (hp : p ≠ []) (process : Nat) : temporaryPlace p process ≠ p := by
  obtain ⟨q, name, rfl⟩ := List.eq_nil_or_concat p |>.resolve_left hp
  simp [temporaryPlace, temporaryName_ne]

/-- The places of the files of a store: its own, and the one under which it is written anew. -/
def Files (place : Option Place) (process : Nat) (v : Place) : Prop :=
  ∃ p, place = some p ∧ (v = p ∨ v = temporaryPlace p process)

/-- The places that a store reads and writes: those of its files, and where they lead. -/
def Uses (w : Workspace) (place : Option Place) (v : Place) : Prop :=
  ∃ u, Files place w.process u ∧ (v = u ∨ w.tree.Resolves (fun _ => True) u v)

end RecordStore

/-- A store may put a link at a place, or take one away: at that of a file of its own, if one of them is a link. -/
def Workspace.Shifts (w : Workspace) (place : Option Place) (v : Place) : Prop :=
  RecordStore.Files place w.process v ∧
    ∃ u target, RecordStore.Files place w.process u ∧ w.tree.node? u = some (.link target)

/-- The record of a root in a store whose file is at the place `p`, or in memory: what the bytes say where the file
leads, whether or not the way there is open. -/
def Workspace.Records (w : Workspace) (place : Option Place) (root : String) (record : BuildRecord) : Prop :=
  match place with
  | none => Table.find? w.records root = some record
  | some p => ∃ q c m, w.tree.Resolves (fun _ => True) p q ∧ w.tree.node? q = some (.file c m) ∧
      Table.find? (RecordStore.recordsOf c) root = some record

/-- A root has one record. -/
theorem Workspace.Records.unique {w : Workspace} {place : Option Place} {root : String} {record record' : BuildRecord}
    (h : w.Records place root record) (h' : w.Records place root record') : record = record' := by
  cases place with
  | none => exact Option.some.inj (Eq.trans (Eq.symm h) h')
  | some p =>
    obtain ⟨q, c, m, hleads, hfile, hfound⟩ := h
    obtain ⟨q', c', m', hleads', hfile', hfound'⟩ := h'
    obtain rfl := hleads.unique hleads'
    rw [hfile] at hfile'
    cases hfile'
    exact Option.some.inj (hfound.symm.trans hfound')

/-- `w.Forgets place root w'`: the record of a root is the same, or lost. -/
def Workspace.Forgets (place : Option Place) (root : String) (w w' : Workspace) : Prop :=
  ∀ record, w'.Records place root record → w.Records place root record

namespace Workspace

variable {w w' w'' : Workspace} {place : Option Place} {root : String}

/-- A workspace that stays as it is forgets nothing it has. -/
theorem Forgets.refl (place : Option Place) (root : String) (w : Workspace) : w.Forgets place root w := fun _ h => h

/-- What is forgotten twice is forgotten. -/
theorem Forgets.trans (h : w.Forgets place root w') (h' : w'.Forgets place root w'') : w.Forgets place root w'' :=
  fun record hrecord => h record (h' record hrecord)

/-- What becomes of the file that a store leads to decides what is lost. -/
theorem forgets_of_node (hrecords : w'.records = w.records)
    (h : ∀ p q, place = some p → w'.tree.Resolves (fun _ => True) p q → w.tree.Resolves (fun _ => True) p q ∧
      ∀ c m, w'.tree.node? q = some (.file c m) → w.tree.node? q = some (.file c m) ∨ c = .empty) :
    w.Forgets place root w' := by
  intro record hrecord
  cases place with
  | none => exact (congrArg (fun rs => Table.find? rs root) hrecords).symm.trans hrecord
  | some p =>
    obtain ⟨q, c, m, hleads, hfile, hfound⟩ := hrecord
    obtain ⟨hbefore, hnode⟩ := h p q rfl hleads
    rcases hnode c m hfile with hsame | rfl
    · exact ⟨q, c, m, hbefore, hsame, hfound⟩
    · have hnothing : RecordStore.recordsOf .empty = [] := rfl
      rw [hnothing] at hfound
      cases hfound

end Workspace

namespace RecordStore

variable {w w' : Workspace} {A B : Place → Prop} {path root : String} {p q r : Place} {store : RecordStore}
  {place : Option Place}

/-- `store.StandsAt w A place`: the path of the file of a store names a place, and it leads somewhere, and so does the
file under which it is written anew. A store in memory has no place. -/
inductive StandsAt (w : Workspace) (A : Place → Prop) : RecordStore → Option Place → Prop
  /-- In memory. -/
  | memory : StandsAt w A .memory none
  /-- In a file. -/
  | file {path : String} {p q r : Place} (named : w.tree.Named A path p) (leads : w.tree.Resolves A p q)
      (temporary : w.tree.Resolves A (temporaryPlace p w.process) r) : StandsAt w A (.file path) (some p)

/-- A store stands where it does, also when the way there is asked for less. -/
theorem StandsAt.mono (h : store.StandsAt w A place) (hAB : ∀ v, A v → B v) : store.StandsAt w B place := by
  cases h with
  | memory => exact .memory
  | file hnamed hleads htemporary => exact .file (hnamed.mono hAB) (hleads.mono hAB) (htemporary.mono hAB)

/-- Every file of a store leads somewhere. -/
theorem StandsAt.exists_resolves (h : store.StandsAt w A place) {u : Place} (hu : Files place w.process u) :
    ∃ v, w.tree.Resolves A u v := by
  cases h with
  | memory => obtain ⟨p, hp, -⟩ := hu; cases hp
  | file hnamed hleads htemporary =>
    obtain ⟨p, hp, rfl | rfl⟩ := hu
    · cases hp; exact ⟨_, hleads⟩
    · cases hp; exact ⟨_, htemporary⟩

/-- Where the links of its files and on the ways are the same, a store stands where it stood and leads where it
led. -/
theorem StandsAt.congr (h : store.StandsAt w A place) (hbase : w'.tree.base = w.tree.base)
    (hprocess : w'.process = w.process)
    (hlinks : ∀ v target, A v ∨ Files place w.process v →
      (w'.tree.node? v = some (.link target) ↔ w.tree.node? v = some (.link target))) :
    store.StandsAt w' A place ∧ ∀ u v, Files place w.process u → w'.tree.Resolves (fun _ => True) u v →
      w.tree.Resolves (fun _ => True) u v := by
  have hresolves : ∀ {u v}, Files place w.process u → w.tree.Resolves A u v → w'.tree.Resolves A u v := fun hu hleads =>
    hleads.congr (fun target => hlinks _ target (.inr hu)) fun v target hv => hlinks v target (.inl hv)
  constructor
  · cases h with
    | memory => exact .memory
    | @file path p q r hnamed hleads htemporary =>
      have hown : Files (some p) w.process p := ⟨p, rfl, .inl rfl⟩
      refine .file (hnamed.congr hbase (fun v target hv => hlinks v target (.inl hv)) fun target hlink =>
        hnamed.ends target ((hlinks p target (.inr hown)).1 hlink)) (hresolves hown hleads) (r := r) ?_
      rw [hprocess]
      exact hresolves ⟨p, rfl, .inr rfl⟩ htemporary
  · intro u v hu hv
    obtain ⟨v', hv'⟩ := h.exists_resolves hu
    obtain rfl := (hresolves hu hv').unique hv
    exact hv'.mono fun _ _ => trivial

/-- A store that leads where it led uses what it used. -/
theorem uses_of_resolves (hprocess : w'.process = w.process)
    (h : ∀ u v, Files place w.process u → w'.tree.Resolves (fun _ => True) u v →
      w.tree.Resolves (fun _ => True) u v) (v : Place) (hv : Uses w' place v) : Uses w place v := by
  obtain ⟨u, hu, hv⟩ := hv
  rw [hprocess] at hu
  exact ⟨u, hu, hv.imp id (h u v hu)⟩

/-- Where ways do not pass what a store may shift, its files are housed. -/
theorem houses_of_resolves (hA : ∀ v, A v → ¬ w.Shifts (some p) v) (hnamed : w.tree.Named A path p)
    (hleads : w.tree.Resolves A p q) (htemporary : w.tree.Resolves A (temporaryPlace p w.process) r) :
    w.tree.Houses A path p (temporaryPlace p w.process) q r where
  named := hnamed
  leads := hleads
  beside := htemporary
  dropLast_eq := by rw [temporaryPlace, List.dropLast_concat]
  ne := temporaryPlace_ne hnamed.ne_root _
  free v target hv hlink := by
    have hsome : ∃ u target, Files (some p) w.process u ∧ w.tree.node? u = some (.link target) := by
      rcases hlink with hlink | hlink
      · exact ⟨p, target, ⟨p, rfl, .inl rfl⟩, hlink⟩
      · exact ⟨_, target, ⟨p, rfl, .inr rfl⟩, hlink⟩
    exact ⟨fun heq => hA v hv ⟨⟨p, rfl, .inl heq⟩, hsome⟩, fun heq => hA v hv ⟨⟨p, rfl, .inr heq⟩, hsome⟩⟩

/-- `store.Finds w root record`: the record of a root that a store finds. -/
def Finds (store : RecordStore) (w : Workspace) (root : String) (record : BuildRecord) : Prop :=
  match store with
  | .memory => Table.find? w.records root = some record
  | .file path => ∃ c, w.tree.read path = .ok c ∧ Table.find? (recordsOf c) root = some record

/-- Reading records changes nothing; they are regular, and each is one that the store finds. -/
theorem readRecords_finds (w : Workspace) (path : String) : (readRecords path).Yields w fun out w' => w = w' ∧
    ∀ rs, out = .ok rs → Regular rs ∧
      ∀ root record, Table.find? rs root = some record → (RecordStore.file path).Finds w root record := by
  unfold readRecords Workspace.read
  rw [yields_attempt_bind, Workspace.outcome_ask]
  dsimp only
  rcases hread : w.tree.read path with x | c
  · cases x <;> refine ⟨rfl, fun rs hrs => ?_⟩ <;> cases hrs
    exact ⟨.nil, by simp⟩
  · refine ⟨rfl, fun rs hrs => ?_⟩
    cases hrs
    exact ⟨(regular_recordsOf c).1, fun root record hrecord => ⟨c, hread, hrecord⟩⟩

/-- A record that is got is one that the store finds. -/
theorem get_finds (store : RecordStore) (w : Workspace) (root : String) : (store.get root).Yields w fun out w' =>
    w = w' ∧ ∀ record, out = .ok (some record) → store.Finds w root record := by
  cases store with
  | memory => exact ⟨rfl, fun record hrecord => Except.ok.inj hrecord⟩
  | file path =>
    refine Yields.bind (readRecords_finds w path) ?_ (by simp)
    rintro rs _ ⟨rfl, hrs⟩
    exact ⟨rfl, fun record hrecord => (hrs rs rfl).2 root record (Except.ok.inj hrecord)⟩

/-- What a store finds is the record of the root. -/
theorem Finds.records (h : store.StandsAt w A place) {record : BuildRecord} (hfound : store.Finds w root record) :
    w.Records place root record := by
  cases h with
  | memory => exact hfound
  | file hnamed hleads _ =>
    obtain ⟨c, hread, hrecord⟩ := hfound
    obtain ⟨v, slash, m, hlocate, hnode⟩ := exists_of_read hread
    obtain rfl := hnamed.eq_of_locate_true hleads hlocate
    exact ⟨v, c, m, hleads.mono fun _ _ => trivial, hnode, hrecord⟩

/-- **A record that is got is the record of the root.** -/
theorem get_yields (h : store.StandsAt w A place) : (store.get root).Yields w fun r w' =>
    w = w' ∧ ∀ record, r = .ok (some record) → w.Records place root record :=
  (get_finds store w root).mono fun _ _ ⟨hsame, hfinds⟩ => ⟨hsame, fun record hrecord =>
    (hfinds record hrecord).records h⟩

/-- The directory of a store's file takes all steps of its path but the last one. -/
theorem steps_directory {last : String} {xs : List String} (hsteps : DiskPath.steps path = xs ++ [last]) :
    DiskPath.steps (directory path) = xs ∧ DiskPath.isAbsolute (directory path) = DiskPath.isAbsolute path := by
  obtain ⟨front, hfront, hfrontsteps, habs⟩ := DiskPath.exists_parent hsteps
  simp only [directory, hfront]
  split
  · next hempty =>
    subst hempty
    exact ⟨hfrontsteps ▸ by decide, habs ▸ by decide⟩
  · exact ⟨hfrontsteps, habs⟩

/-- The file under which a store is written stands beside the store, as its text says. -/
theorem temporary_beside {name last : String} {xs : List String} (hname : DiskPath.fileName? path = some name)
    (hsteps : DiskPath.steps path = xs ++ [last]) (hup : last ≠ "..") (process : Nat) :
    last = name ∧ DiskPath.IsName (temporaryName name process) ∧
      DiskPath.steps (DiskPath.join (directory path) (temporaryName name process)) =
        xs ++ [temporaryName name process] ∧
      DiskPath.isAbsolute (DiskPath.join (directory path) (temporaryName name process)) = DiskPath.isAbsolute path ∧
      ∃ segs, DiskPath.segments (DiskPath.join (directory path) (temporaryName name process)) =
        segs ++ [temporaryName name process] := by
  rw [DiskPath.fileName?_of_steps hsteps hup] at hname
  cases hname
  have hmem : name ∈ DiskPath.steps path := by simp [hsteps]
  have htemporary := isName_temporaryName (DiskPath.isName_of_mem_steps hmem hup).slash process
  have hdirectory := steps_directory hsteps
  refine ⟨rfl, htemporary, ?_, ?_, DiskPath.segments_join_name htemporary (directory path)⟩
  · rw [DiskPath.steps_join htemporary.isAbsolute, hdirectory.1, htemporary.steps]
  · rw [DiskPath.isAbsolute_join htemporary.isAbsolute, hdirectory.2]

/-- **The file under which a store is written** is named beside the store. -/
theorem named_temporary {t : FileTree} (h : t.Named A path p) (process : Nat) {name : String}
    (hname : DiskPath.fileName? path = some name) :
    t.Named A (DiskPath.join (directory path) (temporaryName name process)) (temporaryPlace p process) := by
  obtain ⟨n, xs, q, last, hsteps, hup, rfl, hway⟩ := h.way
  obtain ⟨rfl, htemporary, hsteps', habs, segs, hsegs⟩ := temporary_beside hname hsteps hup process
  rw [temporaryPlace, List.dropLast_concat, List.getLast?_concat, Option.getD_some]
  refine ⟨⟨n, xs, q, _, hsteps', htemporary.up, rfl, ?_⟩, fun _ _ => ⟨segs, _, hsegs, List.getLast?_concat⟩⟩
  rwa [start, habs]

end RecordStore

/-! ## (3) Replacing the file -/

namespace RecordStore

variable {w w' w₁ : Workspace} {t t' : FileTree} {A : Place → Prop} {path name : String} {p q r : Place}
  {rs : BuildRecords}

/-- What replacing the records of a file leaves: the new ones, or if it fails those before it or none. -/
structure Replaced (A : Place → Prop) (path : String) (p : Place) (rs : BuildRecords) (w : Workspace)
    (out : Except StoreError Unit) (w' : Workspace) : Prop where
  /-- The process. -/
  process : w'.process = w.process
  /-- What is written. -/
  writes : Writes (Uses w (some p)) (w.Shifts (some p)) w.tree w'.tree
  /-- The files of the store, and what is in it. -/
  housed : ∃ q r, w'.tree.Houses A path p (temporaryPlace p w.process) q r ∧
    Uses w (some p) q ∧ Uses w (some p) r ∧
      ((∃ m, w'.tree.node? q = some (.file rs.render.toUTF8 m)) ∨
        (∃ x, out = .error x) ∧ w.tree.Resolves A p q ∧
          (w'.tree.node? q = w.tree.node? q ∨ w'.tree.node? q = some .directory))

/-- `Remains q rs t t'`: where a store leads, there is what was there before, or a directory where nothing was, or the
new records already. -/
def Remains (q : Place) (rs : BuildRecords) (t t' : FileTree) : Prop :=
  t'.node? q = t.node? q ∨ t'.node? q = some .directory ∨ ∃ m, t'.node? q = some (.file rs.render.toUTF8 m)

/-- `Pending p q rs w w'`: new records are on the way to the place `q` that a store leads to, and no links have
changed. -/
structure Pending (p q : Place) (rs : BuildRecords) (w w' : Workspace) : Prop where
  /-- What else is kept. -/
  keeps : w.Keeps w'
  /-- What is written. -/
  writes : Writes (Uses w (some p)) (w.Shifts (some p)) w.tree w'.tree
  /-- The links. -/
  links : SameLinks w.tree w'.tree
  /-- What remains. -/
  remains : Remains q rs w.tree w'.tree

/-- A temporary file does not stand at the root. -/
theorem temporaryPlace_ne_root (p : Place) (process : Nat) : temporaryPlace p process ≠ [] := by simp [temporaryPlace]

/-- Discarding a file takes away what is named, or nothing. -/
theorem discard_named {ε : Type} (hnamed : w.tree.Named A path p) :
    (Workspace.discard path : Work ε Unit).Yields w fun r w' => r = .ok () ∧ w.Keeps w' ∧
      (w'.tree = w.tree ∨ w'.tree = w.tree.unbind p ∧ w.tree.node? p ≠ some .directory) := by
  rw [Yields, Workspace.outcome_discard]
  rcases hremove : w.tree.remove path with x | t
  · exact ⟨rfl, .refl w, .inl rfl⟩
  · obtain ⟨rfl, hdir⟩ := remove_named hnamed hremove
    exact ⟨rfl, Workspace.keeps_withTree _ _, .inr ⟨rfl, hdir⟩⟩

/-- A file that is written where no link is changes no links. -/
theorem sameLinks_bind_file (hp : p ≠ []) (hlink : ∀ target, t.node? p ≠ some (.link target)) (c : ByteArray)
    (m : Instant) : SameLinks t (t.bind p (.file c m)) := by
  refine ⟨rfl, fun v target => ?_⟩
  rw [node?_bind _ hp]
  split
  · next hv => simp [hv, hlink target]
  · rfl

/-- Where a file of the store is a link, all of them may be shifted. -/
theorem shifts_of_sameLinks (hlinks : SameLinks w.tree t) {u v : Place} (hu : Files (some p) w.process u)
    (hv : Files (some p) w.process v) {target : String} (hlink : t.node? u = some (.link target)) :
    w.Shifts (some p) v := ⟨hv, u, target, hu, (hlinks.link_iff u target).1 hlink⟩

/-- Taking the temporary file away is something a store may do. -/
theorem writes_unbind (hlinks : SameLinks w.tree t) (hdir : t.node? (temporaryPlace p w.process) ≠ some .directory) :
    Writes (Uses w (some p)) (w.Shifts (some p)) t (t.unbind (temporaryPlace p w.process)) := by
  have htemporary : Files (some p) w.process (temporaryPlace p w.process) := ⟨p, rfl, .inr rfl⟩
  refine (sets_unbind t (temporaryPlace_ne_root p _)).writes ⟨_, htemporary, .inl rfl⟩ hdir fun hv target => ⟨?_, nofun⟩
  exact fun hlink => hv (shifts_of_sameLinks hlinks htemporary htemporary hlink)

/-- Directories that are created leave a write of the records pending. -/
theorem pending_of_prepares (hprepares : w.Prepares w₁) (p q : Place) (rs : BuildRecords) : Pending p q rs w w₁ :=
  ⟨hprepares.keeps, hprepares.adds.writes _ _, hprepares.adds.sameLinks,
    (hprepares.adds.node q).imp id fun hnew => .inl (hnew.resolve_right id).2⟩

section Houses

variable (h : w.tree.Houses A path p (temporaryPlace p w.process) q r)

include h

/-- A failure after which files are housed still. -/
theorem replaced_of_remains {r' : Place} (hkeeps : w.Keeps w')
    (hwrites : Writes (Uses w (some p)) (w.Shifts (some p)) w.tree w'.tree)
    (h' : w'.tree.Houses A path p (temporaryPlace p w.process) q r') (hr' : Uses w (some p) r')
    (hremains : Remains q rs w.tree w'.tree) (x : StoreError) : Replaced A path p rs w (.error x) w' := by
  refine ⟨hkeeps.process, hwrites, q, r', h', ?_, hr', ?_⟩
  · exact ⟨p, ⟨p, rfl, .inl rfl⟩, .inr (h.leads.mono fun _ _ => trivial)⟩
  · rcases hremains with hsame | hdir | hnew
    · exact .inr ⟨⟨x, rfl⟩, h.leads, .inl hsame⟩
    · exact .inr ⟨⟨x, rfl⟩, h.leads, .inr hdir⟩
    · exact .inl hnew

/-- What stands beside a store is used by it. -/
theorem uses_beside : Uses w (some p) r := ⟨_, ⟨p, rfl, .inr rfl⟩, .inr (h.beside.mono fun _ _ => trivial)⟩

/-- A failure on the way. -/
theorem Pending.failed (hpending : Pending p q rs w w') (x : StoreError) : Replaced A path p rs w (.error x) w' :=
  replaced_of_remains h hpending.keeps hpending.writes (h.sameLinks hpending.links) (uses_beside h) hpending.remains x

/-- **Whatever fails, the temporary file is discarded.** -/
theorem Pending.discard_yields (hpending : Pending p q rs w w₁) (hname : DiskPath.fileName? path = some name)
    (x : FileError) :
    (do
      Workspace.discard (DiskPath.join (directory path) (temporaryName name w.process))
      throw (.io x) : Work StoreError Unit).Yields w₁ (Replaced A path p rs w) := by
  have h₁ := h.sameLinks hpending.links
  refine Yields.bind (discard_named (named_temporary h₁.named _ hname)) ?_ (by simp)
  rintro _ w' ⟨-, hkeeps, hsame | ⟨hunbind, hdir⟩⟩
  · refine Pending.failed h ⟨hpending.keeps.trans hkeeps, ?_, ?_, ?_⟩ _
    · exact hsame ▸ hpending.writes
    · exact hsame ▸ hpending.links
    · exact hsame ▸ hpending.remains
  · obtain ⟨h', hnode⟩ := h₁.unbind (temporaryPlace_ne_root p _)
    have hwrites := hpending.writes.trans (writes_unbind hpending.links hdir)
    rw [← hunbind] at h' hnode hwrites
    refine replaced_of_remains h (hpending.keeps.trans hkeeps) hwrites h' ⟨_, ⟨p, rfl, .inr rfl⟩, .inl rfl⟩ ?_ _
    rw [Remains, hnode]
    exact hpending.remains

/-- New records are written where the temporary file leads. -/
theorem Pending.written (hpending : Pending p q rs w w₁) (hname : DiskPath.fileName? path = some name) {m : Instant}
    (hwrite : w₁.tree.write (DiskPath.join (directory path) (temporaryName name w.process)) rs.render.toUTF8 m =
      .ok t) : Pending p q rs w (w₁.withTree t) ∧ t.node? r = some (.file rs.render.toUTF8 m) := by
  have h₁ := h.sameLinks hpending.links
  obtain ⟨rfl, hdir, hplain, -⟩ := write_named (named_temporary h₁.named _ hname) h₁.beside hwrite
  have hroot : r ≠ [] := by
    rintro rfl
    exact hdir (node?_root _)
  have hsets := sets_bind w₁.tree hroot (.file rs.render.toUTF8 m)
  refine ⟨⟨hpending.keeps.trans (Workspace.keeps_withTree _ _), ?_, ?_, ?_⟩, ?_⟩
  · exact hpending.writes.trans (hsets.writes (uses_beside h) hdir fun _ target => ⟨hplain target, nofun⟩)
  · exact hpending.links.trans (sameLinks_bind_file hroot hplain _ _)
  · rw [Remains, Workspace.tree_withTree, hsets.node]
    split
    · exact .inr (.inr ⟨m, rfl⟩)
    · exact hpending.remains
  · rw [hsets.node, if_pos rfl]

/-- The temporary file is moved into the place of the store. -/
theorem Pending.moved {m : Instant} (hpending : Pending p q rs w (w₁.withTree t))
    (hname : DiskPath.fileName? path = some name) (hnode : t.node? r = some (.file rs.render.toUTF8 m))
    (hmove : t.move (DiskPath.join (directory path) (temporaryName name w.process)) path = .ok t')
    (hprocess : w'.process = w.process) (htree : w'.tree = t') : Replaced A path p rs w (.ok ()) w' := by
  have hlinks : SameLinks w.tree t := hpending.links
  have h₁ := h.sameLinks hlinks
  obtain ⟨n, hn, hndir, ht', hpdir, -, hends⟩ := move_named h₁.named (named_temporary h₁.named _ hname) hmove
  obtain ⟨q', h', hnode', hq'⟩ := h₁.move (temporaryPlace_ne_root p _) hends hn
  rw [← ht', ← htree] at h' hnode'
  have hstore : Files (some p) w.process p := ⟨p, rfl, .inl rfl⟩
  have htemporary : Files (some p) w.process (temporaryPlace p w.process) := ⟨p, rfl, .inr rfl⟩
  have hgone : Writes (Uses w (some p)) (w.Shifts (some p)) t (t.unbind (temporaryPlace p w.process)) :=
    writes_unbind hlinks (by rw [hn]; simpa using hndir)
  have hkept := (sets_unbind t (temporaryPlace_ne_root p w.process)).node p
  rw [if_neg h.ne.symm] at hkept
  -- A link that is moved is one that was there before.
  have hmoved : Writes (Uses w (some p)) (w.Shifts (some p)) (t.unbind (temporaryPlace p w.process)) w'.tree := by
    rw [htree, ht']
    refine (sets_bind _ h.named.ne_root n).writes ⟨p, hstore, .inl rfl⟩ (hkept ▸ hpdir) fun hv target => ⟨?_, ?_⟩
    · exact fun hlink => hv (shifts_of_sameLinks hlinks hstore hstore (hkept ▸ hlink))
    · exact fun hlink => hv (shifts_of_sameLinks hlinks htemporary hstore (hn.trans hlink))
  refine ⟨hprocess, hpending.writes.trans (hgone.trans hmoved), q', _, h', ?_, ⟨_, htemporary, .inl rfl⟩,
    .inl ⟨m, hnode'.trans hnode⟩⟩
  rcases hq' with rfl | rfl
  · exact ⟨_, hstore, .inl rfl⟩
  · exact uses_beside h

/-- **Writing records** puts them in place of the old ones, or keeps those. -/
theorem writeRecords_yields (rs : BuildRecords) : (writeRecords path rs).Yields w (Replaced A path p rs w) := by
  unfold writeRecords
  refine Yields.bind (P := fun _ w₁ => Pending p q rs w w₁) ?_ ?_ fun x w₁ hpending => Pending.failed h hpending x
  · rw [yields_failingAs]
    exact (Workspace.createDirectories_yields w (directory path)).mono fun _ _ hprepares =>
      pending_of_prepares hprepares p q rs
  intro _ w₁ hpending
  dsimp only
  split
  · exact Pending.failed h hpending _
  next name hname =>
  rw [yields_get_bind, hpending.keeps.process, yields_attempt_bind, replaceFile]
  rcases hwrite : w₁.tree.write (DiskPath.join (directory path) (temporaryName name w.process)) rs.render.toUTF8
    w₁.clock with x | t
  · rw [outcome_bind_error ((Workspace.outcome_write _ _ _).trans (by rw [hwrite]))]
    exact Pending.discard_yields h hpending hname x
  rw [outcome_bind_ok ((Workspace.outcome_write _ _ _).trans (by rw [hwrite]))]
  obtain ⟨hwritten, hnode⟩ := Pending.written h hpending hname hwrite
  obtain ⟨held, hmove⟩ := Workspace.outcome_move (DiskPath.join (directory path) (temporaryName name w.process)) path
    (w₁.withTree t)
  rw [hmove, Workspace.tree_withTree]
  rcases hresult : t.move (DiskPath.join (directory path) (temporaryName name w.process)) path with x | t'
  · exact Pending.discard_yields h hwritten hname x
  · exact Pending.moved h hwritten hname hnode hresult hwritten.keeps.process rfl

end Houses

end RecordStore

/-! ## (4) Putting a record -/

namespace RecordStore

variable {w w' : Workspace} {A : Place → Prop} {root : String} {store : RecordStore} {place : Option Place}
  {record : BuildRecord}

/-- What putting a record leaves: it is the record of its root, or if that fails the one before it. -/
structure Stored (store : RecordStore) (A : Place → Prop) (place : Option Place) (root : String)
    (record : BuildRecord) (w : Workspace) (out : Except StoreError Unit) (w' : Workspace) : Prop where
  /-- The process. -/
  process : w'.process = w.process
  /-- What is written. -/
  writes : Writes (Uses w place) (w.Shifts place) w.tree w'.tree
  /-- Where the store stands. -/
  stands : store.StandsAt w' A place
  /-- What it uses then. -/
  uses : ∀ v, Uses w' place v → Uses w place v
  /-- The record of the root. -/
  found : ∀ found, w'.Records place root found →
    found.layers = record.layers ∨ (∃ x, out = .error x) ∧ w.Records place root found

/-- A store in which records were replaced. -/
theorem Replaced.stored {path : String} {p : Place} {rs : BuildRecords} {out : Except StoreError Unit}
    (h : Replaced A path p rs w out w')
    (hfound : ∀ found, Table.find? (recordsOf rs.render.toUTF8) root = some found → found.layers = record.layers) :
    Stored (.file path) A (some p) root record w out w' := by
  obtain ⟨q, r, hhouses, hq, hr, hend⟩ := h.housed
  refine ⟨h.process, h.writes, .file hhouses.named hhouses.leads (h.process.symm ▸ hhouses.beside), ?_, ?_⟩
  · rintro v ⟨u, ⟨p', hp, hu⟩, hv⟩
    cases hp
    rw [h.process] at hu
    rcases hv with rfl | hv
    · exact ⟨v, ⟨p, rfl, hu⟩, .inl rfl⟩
    · rcases hu with rfl | rfl
      · exact hhouses.leads.unique hv ▸ hq
      · exact hhouses.beside.unique hv ▸ hr
  · rintro found ⟨q', c, m, hleads, hfile, hrecord⟩
    obtain rfl := hhouses.leads.unique hleads
    rcases hend with ⟨m', hnew⟩ | ⟨herror, hbefore, hsame | hdir⟩
    · rw [hnew] at hfile
      cases hfile
      exact .inl (hfound found hrecord)
    · exact .inr ⟨herror, q, c, m, hbefore.mono fun _ _ => trivial, hsame ▸ hfile, hrecord⟩
    · rw [hdir] at hfile
      cases hfile

/-- **Putting a record** leaves it as the record of its root, or the one there was. -/
theorem put_yields (h : store.StandsAt w A place) (hA : ∀ v, A v → ¬ w.Shifts place v)
    (hversion : record.version < UInt32.size) (hlayers : Table.Sorted record.layers) :
    (store.put root record).Yields w (Stored store A place root record w) := by
  cases h with
  | memory =>
    refine ⟨rfl, .refl _ _ _, .memory, fun _ hv => hv, fun found hfound => .inl ?_⟩
    have hsame : Table.find? (Table.insert root record w.records) root = some found := hfound
    rw [Table.find?_insert_self] at hsame
    cases hsame
    rfl
  | file hnamed hleads htemporary =>
    refine Yields.bind (readRecords_finds w _) ?_ ?_
    · rintro rs w₁ ⟨rfl, hrs⟩
      have hhouses := houses_of_resolves hA hnamed hleads htemporary
      refine (writeRecords_yields hhouses (Table.insert root record rs)).mono fun out w' hreplaced => ?_
      exact hreplaced.stored fun found hfound =>
        layers_of_find? ((hrs rs rfl).1.insert root hversion) (Table.find?_insert_self _ _ _) hlayers hfound
    · rintro x w₁ ⟨rfl, -⟩
      exact ⟨rfl, .refl _ _ _, .file hnamed hleads htemporary, fun _ hv => hv, fun _ hfound => .inr ⟨⟨x, rfl⟩, hfound⟩⟩

end RecordStore

end LayeredBundles
