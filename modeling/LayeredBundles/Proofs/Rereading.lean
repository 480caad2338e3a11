import LayeredBundles.Proofs.Stores

/-! # A file that replaces another one is read back

A file is written under a temporary name beside its path and then moved there. Links may stand on the way, at the
temporary name and at the path, and may lead through one another; a move takes a link as it is, so that the path then
leads where the link does. Still, whatever can be read at the path afterwards is what was written.

* **`FileTree.Arrives`** — following segments step by step, for what holds wherever it ends;
* **`FileTree.Leads.avoids_or_passes`** — a way passes a link, or it does not;
* **`FileTree.Leads.avoids`** — the way of a link never passes the link itself: it would have no end;
* **`FileTree.IsTree`** — whatever stands, stands in a directory;
* **`FileTree.Grows`** — directories and empty files were added;
* **`FileTree.read_of_sameLinks`** — what was read is still read;
* **`FileTree.Renames`** — something stands under another name in its directory, where it leads to the same file;
* **`FileTree.read_after_move`** — what was written is read. -/

namespace LayeredBundles

namespace FileTree

open DiskPath

variable {t t' : FileTree} {A B : Place → Prop} {n : Nat} {dir p q v w : Place} {xs : List String}
  {path temporary : String} {c d : ByteArray} {m : Instant}

/-! ## (1) Following step by step -/

/-- `t.Arrives th v dir segs`: segments that are followed from `dir` lead to `v`. -/
inductive Arrives (t : FileTree) (th : Bool) (v : Place) : Place → List String → Prop
  /-- There is nothing to follow. -/
  | here : Arrives t th v v []
  /-- A segment without a step. -/
  | skip {dir : Place} {s : String} {segs : List String} (counts_eq : counts s = false)
      (rest : Arrives t th v dir segs) : Arrives t th v dir (s :: segs)
  /-- A step up. -/
  | up {dir : Place} {segs : List String} (rest : Arrives t th v dir.dropLast segs) : Arrives t th v dir (".." :: segs)
  /-- A step into a directory. -/
  | down {dir : Place} {s : String} {segs : List String} (counts_eq : counts s = true) (ne_up : s ≠ "..")
      (node : t.node? (dir ++ [s]) = some .directory) (rest : Arrives t th v (dir ++ [s]) segs) :
      Arrives t th v dir (s :: segs)
  /-- A link that is followed. -/
  | through {dir : Place} {s target : String} {segs : List String} (counts_eq : counts s = true) (ne_up : s ≠ "..")
      (node : t.node? (dir ++ [s]) = some (.link target))
      (rest : Arrives t th v (if isAbsolute target then [] else dir) (segments target ++ segs)) :
      Arrives t th v dir (s :: segs)
  /-- The last step. Segments follow it only where nothing stands, and they have no steps. -/
  | last {dir : Place} {s : String} {segs : List String} (counts_eq : counts s = true) (ne_up : s ≠ "..")
      (place : v = dir ++ [s]) (ne_directory : t.node? v ≠ some .directory)
      (plain : th = true → ∀ target, t.node? v ≠ some (.link target))
      (ends : segs = [] ∨ t.node? v = none ∧ ∀ s ∈ segs, counts s = false) : Arrives t th v dir (s :: segs)

/-- What can be followed to its end arrives there. -/
theorem arrives_of_followLinks [Charset] {th slash : Bool} {links : Nat} {segs : List String}
    (hok : t.followLinks th links dir segs = .ok (v, slash)) : t.Arrives th v dir segs := by
  rw [← follows_iff] at hok
  generalize hr : Except.ok (v, slash) = r at hok
  induction hok with
  | here =>
    cases hr
    exact .here
  | skip hcounts _ ih => exact .skip hcounts (ih hr)
  | up _ ih => exact .up (ih hr)
  | down hcounts hup _ hnode _ ih => exact .down hcounts hup hnode (ih hr)
  | absent hcounts hup _ hnode hslashes =>
    cases hr
    refine .last hcounts hup rfl (by simp [hnode]) (by simp [hnode]) (.inr ⟨hnode, fun s hs => ?_⟩)
    rw [hslashes s hs]
    decide
  | file hcounts hup _ hnode =>
    cases hr
    exact .last hcounts hup rfl (by simp [hnode]) (by simp [hnode]) (.inl rfl)
  | place hth hcounts hup _ hnode =>
    cases hr
    exact .last hcounts hup rfl (by simp [hnode]) (by simp [hth]) (.inl rfl)
  | through hcounts hup _ hnode _ _ ih => exact .through hcounts hup hnode (ih hr)
  | long | missing | blocked | loop => cases hr

/-- What arrives has a way, through what stands there. -/
theorem Arrives.exists_leads_through {segs : List String} (h : t.Arrives true v dir segs)
    (hA : ∀ u, t.node? u ≠ none → A u) (hv : A v) : ∃ n, Leads t A n dir (segs.filter counts) v := by
  induction h with
  | here => exact ⟨0, .here⟩
  | skip hs _ ih =>
    rw [List.filter_cons_of_neg (by simp [hs])]
    exact ih
  | up _ ih =>
    rw [List.filter_cons_of_pos (by decide)]
    exact ih.imp fun _ => .up
  | down hs hup hnode _ ih =>
    rw [List.filter_cons_of_pos hs]
    exact ih.imp fun _ => .down hup (hA _ (by simp [hnode])) (by simp [hnode])
  | through hs hup hnode _ ih =>
    rw [List.filter_cons_of_pos hs]
    rw [List.filter_append] at ih
    obtain ⟨n, hway⟩ := ih
    exact ⟨n + 1, .through hup (hA _ (by simp [hnode])) hnode hway⟩
  | @last dir s segs hs hup hplace _ hplain hends =>
    subst hplace
    -- The place is the last name that counts.
    have hnil : segs.filter counts = [] := by
      rcases hends with rfl | ⟨-, hsegs⟩
      · rfl
      · exact List.filter_eq_nil_iff.2 fun s hs => by simp [hsegs s hs]
    rw [List.filter_cons_of_pos hs, hnil]
    exact ⟨0, .down hup hv (hplain rfl) .here⟩

/-- What arrives has a way. -/
theorem Arrives.exists_leads {segs : List String} (h : t.Arrives true v dir segs) :
    ∃ n, Leads t (fun _ => True) n dir (segs.filter counts) v :=
  h.exists_leads_through (fun _ _ => trivial) trivial

/-- Where no link stands, it makes no difference whether links are followed at the end. -/
theorem Arrives.of_plain {th : Bool} {segs : List String} (h : t.Arrives th v dir segs)
    (hplain : ∀ target, t.node? v ≠ some (.link target)) : t.Arrives true v dir segs := by
  induction h with
  | here => exact .here
  | skip hs _ ih => exact .skip hs ih
  | up _ ih => exact .up ih
  | down hs hup hnode _ ih => exact .down hs hup hnode ih
  | through hs hup hnode _ ih => exact .through hs hup hnode ih
  | last hs hup hv hdir _ hends => exact .last hs hup hv hdir (fun _ => hplain) hends

/-- A path that leads to a place arrives there. -/
theorem arrives_of_locate [Charset] {th slash : Bool} (h : t.locate th path = .ok (v, slash)) :
    t.Arrives th v (t.start path) (segments path) :=
  arrives_of_followLinks ((clean_of_locate h).locate_eq t th ▸ h)

/-- Where no link stands, following it or not makes no difference. -/
theorem eq_of_locate_plain [Charset] {slash slash' : Bool} (h : t.locate false path = .ok (v, slash))
    (hplain : ∀ target, t.node? v ≠ some (.link target)) (h' : t.locate true path = .ok (p, slash')) : p = v := by
  obtain ⟨n, hway⟩ := ((arrives_of_locate h).of_plain hplain).exists_leads
  rw [(clean_of_locate h').locate_eq] at h'
  exact hway.eq_of_followLinks rfl h'

/-! ## (2) Ways that pass a link -/

/-- A way passes a link, and goes on from where the link leads over fewer links, or it does not pass it. -/
theorem Leads.avoids_or_passes (h : Leads t A n dir xs q) {target : String} (hlink : t.node? p = some (.link target)) :
    Leads t (fun v => A v ∧ v ≠ p) n dir xs q ∨
      ∃ k < n, ∃ rest, Leads t A k (if isAbsolute target then [] else p.dropLast) (steps target ++ rest) q := by
  induction h with
  | here => exact .inl .here
  | up _ ih => exact ih.imp_left .up
  | down hs hA hplain _ ih =>
    exact ih.imp_left (.down hs ⟨hA, fun heq => hplain target (heq ▸ hlink)⟩ hplain)
  | @through n dir q s target' rest hs hA hlink' next ih =>
    by_cases hp : dir ++ [s] = p
    · subst hp
      rw [hlink'] at hlink
      cases hlink
      rw [List.dropLast_concat]
      exact .inr ⟨n, Nat.lt_succ_self n, rest, next⟩
    · exact ih.imp (.through hs ⟨hA, hp⟩ hlink') fun ⟨k, hk, hpasses⟩ => ⟨k, Nat.lt_succ_of_lt hk, hpasses⟩

/-- **The way of a link never passes the link itself**: it would pass it again and again. -/
theorem Leads.avoids {target : String} (hlink : t.node? p = some (.link target))
    (h : Leads t A n (if isAbsolute target then [] else p.dropLast) (steps target) q) :
    Leads t (fun v => A v ∧ v ≠ p) n (if isAbsolute target then [] else p.dropLast) (steps target) q := by
  rcases h.avoids_or_passes hlink with havoids | ⟨k, hk, rest, hpasses⟩
  · exact havoids
  · obtain ⟨i, j, p', hfirst, hrest⟩ := hpasses.divide
    have hsum := (hpasses.unique (hfirst.append hrest)).1
    have hsame := (h.unique hfirst).1
    omega

/-- A place resolves to where a step down to it leads. -/
theorem resolves_of_step {s : String} (hs : s ≠ "..") (h : Leads t A n dir [s] q) (hq : A q) :
    t.Resolves A (dir ++ [s]) q := by
  cases h with
  | up => exact absurd rfl hs
  | down _ _ hplain next =>
    cases next
    exact .self hplain
  | through _ _ hlink next =>
    rw [List.append_nil] at next
    exact .through hlink (by rwa [List.dropLast_concat]) hq

/-! ## (3) Trees in which everything stands in a directory -/

/-- Whatever stands, stands in a directory, and relative paths begin in one. -/
structure Grounded (t : FileTree) : Prop where
  /-- Where relative paths begin. -/
  base : t.node? t.base = some .directory
  /-- What a node stands in. -/
  parent : ∀ v n, t.node? v = some n → t.node? v.dropLast = some .directory

/-- `t.IsTree`: whatever stands, stands in a directory, and no place is listed twice. -/
structure IsTree (t : FileTree) : Prop extends Grounded t where
  /-- Places are listed in order. -/
  sorted : Table.Sorted t.nodes

/-- It is enough to look at what is listed. -/
theorem grounded_of_nodes (hbase : t.node? t.base = some .directory)
    (hnodes : ∀ e ∈ t.nodes, t.node? e.1.dropLast = some .directory) : t.Grounded := by
  refine ⟨hbase, fun v n hnode => ?_⟩
  by_cases hv : v = []
  · simp [hv]
  · rw [node?, if_neg hv] at hnode
    exact hnodes _ (Table.mem_of_find? hnode)

namespace Grounded

variable (h : t.Grounded)

include h

/-- A path starts in a directory. -/
theorem start (path : String) : t.node? (t.start path) = some .directory := by
  unfold FileTree.start
  split
  · exact node?_root t
  · exact h.base

/-- What a link's target is followed from is a directory. -/
theorem link_start {target : String} (hlink : t.node? p = some (.link target)) :
    t.node? (if isAbsolute target then [] else p.dropLast) = some .directory := by
  split
  · exact node?_root t
  · exact h.parent p _ hlink

/-- A way that can be passed ends in a directory. -/
theorem directory_of_leads [Charset] (hway : Leads t t.Passable n dir xs q) (hdir : t.node? dir = some .directory) :
    t.node? q = some .directory := by
  induction hway with
  | here => exact hdir
  | up _ ih => exact ih (h.parent _ _ hdir)
  | down _ hpass hplain _ ih => exact ih (hpass.directory hplain)
  | @through n dir q s target rest hs _ hlink _ ih =>
    have hstart := h.link_start hlink
    rw [List.dropLast_concat] at hstart
    exact ih hstart

/-- A way that can be passed does not pass what leads to no directory. -/
theorem avoids_or_resolves [Charset] (hway : Leads t t.Passable n dir xs q) (p : Place) :
    Leads t (fun v => t.Passable v ∧ v ≠ p) n dir xs q ∨
      ∃ w, t.Resolves (fun _ => True) p w ∧ t.node? w = some .directory := by
  have hnot : ¬ t.Passable p → Leads t (fun v => t.Passable v ∧ v ≠ p) n dir xs q := fun hp =>
    hway.mono fun v hv => ⟨hv, fun heq => hp (heq ▸ hv)⟩
  rcases hnode : t.node? p with _ | _ | _ | target
  · exact .inl (hnot fun hp => by simpa [hnode] using hp.leadsOn)
  · exact .inr ⟨p, .self (by simp [hnode]), hnode⟩
  · exact .inl (hnot fun hp => by simpa [hnode] using hp.leadsOn)
  · refine (hway.avoids_or_passes hnode).imp_right fun ⟨k, _, rest, hpasses⟩ => ?_
    obtain ⟨i, j, w, hfirst, -⟩ := hpasses.divide
    exact ⟨w, .through hnode (hfirst.mono fun _ _ => trivial) trivial, h.directory_of_leads hfirst (h.link_start hnode)⟩

/-- What is arrived at stands in a directory, and is no link if links are followed. -/
theorem beside_of_arrives {th : Bool} {segs : List String} (harrives : t.Arrives th v dir segs)
    (hdir : t.node? dir = some .directory) :
    t.node? v.dropLast = some .directory ∧ (th = true → ∀ target, t.node? v ≠ some (.link target)) := by
  induction harrives with
  | here => exact ⟨h.parent v _ hdir, fun _ target => by simp [hdir]⟩
  | skip _ _ ih => exact ih hdir
  | up _ ih => exact ih (h.parent _ _ hdir)
  | down _ _ hnode _ ih => exact ih hnode
  | @through dir s _ _ _ _ hnode _ ih =>
    have hstart := h.link_start hnode
    rw [List.dropLast_concat] at hstart
    exact ih hstart
  | last _ _ hv _ hplain _ =>
    rw [hv, List.dropLast_concat]
    exact ⟨hdir, hv ▸ hplain⟩

/-- A path leads to a place in a directory, and past every link if links are followed. -/
theorem beside_of_locate [Charset] {th slash : Bool} (hlocate : t.locate th path = .ok (v, slash)) :
    t.node? v.dropLast = some .directory ∧ (th = true → ∀ target, t.node? v ≠ some (.link target)) :=
  h.beside_of_arrives (arrives_of_locate hlocate) (h.start path)

/-- Where a file is arrived at, no segment without a step follows its name. -/
theorem not_file_of_arrives {th : Bool} {segs : List String} {s : String} (harrives : t.Arrives th v dir segs)
    (hdir : t.node? dir = some .directory) (hlast : segs.getLast? = some s) (hs : counts s = false) :
    t.node? v ≠ some (.file c m) := by
  -- A segment before others may be left out of account.
  have hrest : ∀ {s' : String} {segs : List String}, counts s' = true → (s' :: segs).getLast? = some s →
      segs.getLast? = some s := by
    intro s' segs hs' hlast
    cases segs with
    | nil =>
      rw [List.getLast?_singleton, Option.some.injEq] at hlast
      simp [hlast, hs] at hs'
    | cons => rwa [List.getLast?_cons_cons] at hlast
  induction harrives with
  | here => cases hlast
  | @skip dir s' segs _ rest ih =>
    cases segs with
    | nil =>
      cases rest
      simp [hdir]
    | cons => exact ih hdir (by rwa [List.getLast?_cons_cons] at hlast)
  | up _ ih => exact ih (h.parent _ _ hdir) (hrest (by decide) hlast)
  | down hs' _ hnode _ ih => exact ih hnode (hrest hs' hlast)
  | @through dir s' target segs hs' _ hnode _ ih =>
    have hstart := h.link_start hnode
    rw [List.dropLast_concat] at hstart
    exact ih hstart (by rw [List.getLast?_append, hrest hs' hlast, Option.some_or])
  | last hs' _ _ _ _ hends =>
    rcases hends with rfl | ⟨hnone, -⟩
    · cases hrest hs' hlast
    · simp [hnone]

/-- Where a file is found, the text of the path ends with the last step. -/
theorem segments_of_file [Charset] {name : String} {th slash : Bool} (hsteps : steps path = xs ++ [name])
    (hlocate : t.locate th path = .ok (v, slash)) (hfile : t.node? v = some (.file c m)) :
    ∃ segs, segments path = segs ++ [name] := by
  obtain ⟨front, tail, hsegs, -, htail, -, -⟩ := exists_segments hsteps
  rcases List.eq_nil_or_concat tail with rfl | ⟨more, s, rfl⟩
  · exact ⟨front, hsegs⟩
  · have hs : counts s = false := by simpa using List.filter_eq_nil_iff.1 htail s (by simp)
    exact absurd hfile (h.not_file_of_arrives (arrives_of_locate hlocate) (h.start path) (s := s)
      (by rw [hsegs, List.concat_eq_append, ← List.cons_append, ← List.append_assoc, List.getLast?_concat]) hs)

end Grounded

/-! ## (4) Trees that grow -/

/-- `t.Grows t'`: where nothing stood there may be a directory or an empty file; all else is the same. -/
structure Grows (t t' : FileTree) : Prop where
  /-- Relative paths begin where they began. -/
  base : t'.base = t.base
  /-- What stands at each place. -/
  node : ∀ v, t'.node? v = t.node? v ∨
    t.node? v = none ∧ (t'.node? v = some .directory ∨ ∃ m, t'.node? v = some (.file .empty m))

namespace Grows

/-- A tree that stays as it is has grown by nothing. -/
theorem refl (t : FileTree) : Grows t t := ⟨rfl, fun _ => .inl rfl⟩

/-- What stood still stands. -/
theorem node_of_some (h : Grows t t') {n : Node} (hnode : t.node? v = some n) : t'.node? v = some n := by
  rcases h.node v with hsame | ⟨hnone, -⟩
  · rw [hsame, hnode]
  · rw [hnode] at hnone
    cases hnone

/-- A tree that grows twice grows. -/
theorem trans {t'' : FileTree} (h : Grows t t') (h' : Grows t' t'') : Grows t t'' := by
  refine ⟨h'.base.trans h.base, fun v => ?_⟩
  rcases h.node v with hsame | ⟨hnone, hdir | ⟨m, hfile⟩⟩
  · rw [← hsame]
    exact h'.node v
  · exact .inr ⟨hnone, .inl (h'.node_of_some hdir)⟩
  · exact .inr ⟨hnone, .inr ⟨m, h'.node_of_some hfile⟩⟩

/-- What is new is no link. -/
theorem sameLinks (h : Grows t t') : SameLinks t t' := by
  refine ⟨h.base, fun v target => ?_⟩
  rcases h.node v with hsame | ⟨hnone, hdir | ⟨m, hfile⟩⟩
  · rw [hsame]
  · simp [hnone, hdir]
  · simp [hnone, hfile]

end Grows

/-- **What is read stays so** where no link comes or goes: it is read, or the file is gone, or an empty one stands
there. -/
theorem read_of_sameLinks [Charset] (hlinks : SameLinks t t') (hfiles : ∀ v c m, t.node? v = some (.file c m) →
      t'.node? v = some (.file c m) ∨ t'.node? v = none ∨ t'.node? v = some .directory ∨
        ∃ m', t'.node? v = some (.file .empty m'))
    (hread : t.read path = .ok c) (hread' : t'.read path = .ok d) : d = c ∨ d = .empty := by
  obtain ⟨v, slash, m, hlocate, hfile⟩ := exists_of_read hread
  obtain ⟨w, slash', m', hlocate', hfile'⟩ := exists_of_read hread'
  obtain ⟨n, hway⟩ := (arrives_of_locate hlocate).exists_leads
  obtain ⟨n', hway'⟩ := (arrives_of_locate hlocate').exists_leads
  have hstart : t'.start path = t.start path := by rw [start, start, hlinks.base]
  rw [hstart] at hway'
  obtain ⟨-, rfl⟩ := hway.unique_across hway' fun u target _ _ => hlinks.link_iff u target
  rcases hfiles v c m hfile with hsame | hnone | hdir | ⟨m'', hempty⟩
  · rw [hsame] at hfile'
    cases hfile'
    exact .inl rfl
  · rw [hnone] at hfile'
    cases hfile'
  · rw [hdir] at hfile'
    cases hfile'
  · rw [hempty] at hfile'
    cases hfile'
    exact .inr rfl

/-! ## (5) Writing beside and moving -/

/-- Where a file was written, its path leads to it, through what stands there. -/
theorem exists_leads_of_write [Charset] (h : t.write path c m = .ok t') : ∃ n v, t'.node? v = some (.file c m) ∧
    Leads t' (fun u => t'.node? u ≠ none) n (t'.start path) (steps path) v := by
  unfold write at h
  split at h
  · cases h
  next v node hfile =>
  cases h
  obtain ⟨slash, hlocate, rfl, hdir, hplain⟩ := exists_of_locateFile hfile
  have hroot : v ≠ [] := by
    rintro rfl
    exact hdir (node?_root t)
  have hsame := RecordStore.sameLinks_bind_file hroot hplain c m
  have hnode := fun u => node?_bind t hroot (.file c m) u
  obtain ⟨n, hway⟩ := (arrives_of_locate hlocate).exists_leads_through
    (A := fun u => (t.bind v (.file c m)).node? u ≠ none)
    (fun u hu => by rw [hnode]; split <;> simp_all) (by simp [hnode])
  exact ⟨n, v, by simp [hnode], hway.congr fun u target _ => hsame.link_iff u target⟩

/-- `t.Renames p q t'`: at `q` stands what stood at `p` in the same directory, and elsewhere links and files are the
same. -/
structure Renames (t : FileTree) (p q : Place) (t' : FileTree) : Prop where
  /-- It is the same directory. -/
  dropLast_eq : q.dropLast = p.dropLast
  /-- What stands there. -/
  node_eq : t'.node? q = t.node? p
  /-- The links elsewhere. -/
  link_iff : ∀ u, u ≠ p → u ≠ q → ∀ target, t'.node? u = some (.link target) ↔ t.node? u = some (.link target)
  /-- The files elsewhere. -/
  file : ∀ u, u ≠ p → u ≠ q → ∀ c m, t.node? u = some (.file c m) → t'.node? u = some (.file c m)

namespace Renames

variable (h : t.Renames p q t')

include h

/-- Both places lead to the same file, or else the second one to a link. -/
theorem file_across (hleads : t.Resolves A p v) (hleads' : t'.Resolves B q w) (hfile : t.node? v = some (.file c m)) :
    t'.node? w = some (.file c m) ∨ ∃ target, t'.node? w = some (.link target) := by
  cases hleads with
  | self hplain =>
    cases hleads' with
    | self => exact .inl (h.node_eq.trans hfile)
    | through hlink => exact absurd (h.node_eq ▸ hlink) (hplain _)
  | @through _ target _ hlink hway =>
    have hlink' : t'.node? q = some (.link target) := h.node_eq.trans hlink
    cases hleads' with
    | self hplain => exact absurd hlink' (hplain _)
    | through hlink'' hway' =>
      rw [hlink'] at hlink''
      cases hlink''
      -- A link's way does not pass the link itself, so the two ways are one.
      have havoids' := hway'.avoids hlink'
      rw [h.dropLast_eq] at havoids'
      obtain ⟨-, rfl⟩ := (hway.avoids hlink).unique_across havoids' fun u target hu hu' =>
        h.link_iff u hu.2 hu'.2 target
      by_cases hq : v = q
      · exact .inr ⟨target, hq ▸ hlink'⟩
      · refine .inl (h.file v ?_ hq c m hfile)
        rintro rfl
        rw [hlink] at hfile
        cases hfile

/-- **Where a file is renamed, ways to directories end where they ended**: none of them passes what leads to a file. -/
theorem eq_of_leads [Charset] {k k' : Nat} {P P' : Place} (htree : t.Grounded) (htree' : t'.Grounded)
    (hleads : t.Resolves (fun _ => True) p v) (hfile : t.node? v = some (.file c m))
    (hway : Leads t t.Passable k dir xs P) (hway' : Leads t' t'.Passable k' dir xs P') : P = P' := by
  have hfrom : ¬ ∃ w, t.Resolves (fun _ => True) p w ∧ t.node? w = some .directory := by
    rintro ⟨w, hw, hdirectory⟩
    rw [← hleads.unique hw, hfile] at hdirectory
    cases hdirectory
  have hto : ¬ ∃ w, t'.Resolves (fun _ => True) q w ∧ t'.node? w = some .directory := by
    rintro ⟨w, hw, hdirectory⟩
    rcases h.file_across hleads hw hfile with hw' | ⟨target, hw'⟩ <;> rw [hw'] at hdirectory <;> cases hdirectory
  exact (((htree.avoids_or_resolves hway p).resolve_right hfrom).unique_across
    ((htree'.avoids_or_resolves hway' q).resolve_right hto) fun u target hu hu' => h.link_iff u hu.2 hu'.2 target).2

end Renames

/-- What stands where after a move. -/
theorem node?_moved (t : FileTree) (n : Node) (hp : p ≠ []) (hq : q ≠ []) (v : Place) :
    ((t.unbind p).bind q n).node? v = if v = q then some n else if v = p then none else t.node? v := by
  rw [node?_bind _ hq, node?_unbind t hp]

/-- A move within a directory renames, also when the tree grows afterwards. -/
theorem renames_of_move {node : Node} (hp : p ≠ []) (hq : q ≠ []) (hnode : t.node? p = some node)
    (hbeside : q.dropLast = p.dropLast) (hgrows : Grows ((t.unbind p).bind q node) t') : t.Renames p q t' := by
  have hmoved := node?_moved t node hp hq
  refine ⟨hbeside, ?_, fun u hup huq target => ?_, fun u hup huq c m hu => hgrows.node_of_some ?_⟩
  · rw [hnode, hgrows.node_of_some (by rw [hmoved, if_pos rfl])]
  · rw [hgrows.sameLinks.link_iff, hmoved, if_neg huq, if_neg hup]
  · rw [hmoved, if_neg huq, if_neg hup, hu]

/-- A tree is grounded before a move within a directory if it is so afterwards. -/
theorem Grounded.of_moved {node : Node} (h : ((t.unbind p).bind q node).Grounded) (hp : p ≠ []) (hq : q ≠ [])
    (hnode : node ≠ .directory) (hbeside : p.dropLast = q.dropLast) : t.Grounded := by
  have hmoved := node?_moved t node hp hq
  have hdir : ∀ v, ((t.unbind p).bind q node).node? v = some .directory → t.node? v = some .directory := by
    intro v hv
    rw [hmoved] at hv
    split at hv
    · exact absurd (Option.some.inj hv) hnode
    · split at hv
      · cases hv
      · exact hv
  have hparent : t.node? q.dropLast = some .directory := hdir _ (h.parent q node (by rw [hmoved, if_pos rfl]))
  refine ⟨hdir _ h.base, fun v n hv => ?_⟩
  by_cases hvq : v = q
  · exact hvq ▸ hparent
  by_cases hvp : v = p
  · rw [hvp, hbeside]
    exact hparent
  · exact hdir _ (h.parent v n (by rw [hmoved, if_neg hvq, if_neg hvp, hv]))

/-- Where a file is written under a name beside a path and moved to the path, both are named in one directory, and what
is moved leads to the file. -/
theorem exists_of_move_write [Charset] {t₀ t₁ t₂ : FileTree} {name other : String} (hsteps : steps path = xs ++ [name])
    (hsteps' : steps temporary = xs ++ [other]) (habs : isAbsolute temporary = isAbsolute path)
    (hends : ∃ segs, segments path = segs ++ [name]) (hends' : ∃ segs, segments temporary = segs ++ [other])
    (hname : name ≠ "..") (hother : other ≠ "..") (hwrite : t₀.write temporary c m = .ok t₁)
    (hmove : t₁.move temporary path = .ok t₂) : ∃ P v node,
      t₁.Opens (fun u => t₁.node? u ≠ none) path xs P name ∧ t₁.node? (P ++ [other]) = some node ∧
      node ≠ .directory ∧ t₁.node? v = some (.file c m) ∧
      t₁.Resolves (fun u => t₁.node? u ≠ none) (P ++ [other]) v ∧
      t₂ = (t₁.unbind (P ++ [other])).bind (P ++ [name]) node := by
  obtain ⟨p, slash, node, q, slash', hsource, hnode, hdir, htarget, -, -, rfl⟩ := exists_of_move hmove
  obtain ⟨n, v, hfile, hway⟩ := exists_leads_of_write hwrite
  rw [hsteps'] at hway
  obtain ⟨k, j, P, hfront, hlast⟩ := hway.divide
  have hstart : t₁.start temporary = t₁.start path := by rw [start, start, habs]
  have hopens := opens_of_locate htarget hsteps hname (hstart ▸ hfront)
  obtain rfl := (opens_of_locate hsource hsteps' hother hfront).eq_of_locate hother hsource fun _ _ => ⟨rfl, hends'⟩
  obtain rfl := hopens.eq_of_locate hname htarget fun _ _ => ⟨rfl, hends⟩
  exact ⟨P, v, node, hopens, hnode, hdir, hfile, resolves_of_step hother hlast (by simp [hfile]), rfl⟩

/-- **What was written under a name beside a path and moved to the path is read there**, or nothing is, also after the
tree has grown. Either name may have been that of a link. -/
theorem read_after_move [Charset] {t₀ t₁ t₂ t₃ : FileTree} {name other : String} (hsteps : steps path = xs ++ [name])
    (hsteps' : steps temporary = xs ++ [other]) (habs : isAbsolute temporary = isAbsolute path)
    (hsegs : ∃ segs, segments temporary = segs ++ [other]) (hname : name ≠ "..") (hother : other ≠ "..")
    (hwrite : t₀.write temporary c m = .ok t₁) (hmove : t₁.move temporary path = .ok t₂)
    (htree : t₂.Grounded) (hgrows : Grows t₂ t₃) (htree' : t₃.Grounded) (hread : t₃.read path = .ok d) : d = c := by
  obtain ⟨z, slash, m', hlocate, hfile'⟩ := exists_of_read hread
  obtain ⟨P, v, node, hopens, hnode, hdir, hfile, hleads, rfl⟩ := exists_of_move_write hsteps hsteps' habs
    (htree'.segments_of_file hsteps hlocate hfile') hsegs hname hother hwrite hmove
  have hbeside : (P ++ [name]).dropLast = (P ++ [other]).dropLast := by rw [List.dropLast_concat, List.dropLast_concat]
  have hp : P ++ [other] ≠ [] := by simp
  have hq : P ++ [name] ≠ [] := by simp
  have hrenames := renames_of_move hp hq hnode hbeside hgrows
  have hleads' : t₁.Resolves (fun _ => True) (P ++ [other]) v := hleads.mono fun _ _ => trivial
  -- Afterwards the path is named in the same directory.
  obtain ⟨k₁, -, hway₁⟩ := hopens.way
  obtain ⟨n₃, hway₃⟩ := (arrives_of_locate hlocate).exists_leads
  rw [← steps, hsteps] at hway₃
  obtain ⟨k₃, j₃, P₃, hfront₃, hlast₃⟩ := hway₃.divide
  obtain ⟨k₃', -, hpass₃⟩ := (opens_of_locate hlocate hsteps hname hfront₃).way
  have hstart₃ : t₃.start path = t₁.start path := by rw [start, start, hgrows.base]; rfl
  rw [hstart₃] at hpass₃
  obtain rfl := hrenames.eq_of_leads (htree.of_moved hp hq hdir hbeside.symm) htree' hleads' hfile
    (hway₁.mono fun _ hv => hv.2) (hpass₃.mono fun _ hv => hv.2)
  rcases hrenames.file_across hleads' (resolves_of_step hname hlast₃ trivial) hfile with hz | ⟨target, hz⟩ <;>
    rw [hz] at hfile' <;> cases hfile'
  rfl

end FileTree

end LayeredBundles
