import LayeredBundles.Proofs.Leftovers

/-! # Paths in a tree that has changed

A path finds what it found before, as long as what it passes stays: directories and links. Nothing else can be passed,
so files may come and go. In a tree that has grown, a path that found nothing may find something, and all others find
what they found.

* **`FileTree.Leads.outside`** — a way that does not pass a directory ends outside it;
* **`FileTree.Retains`** — what can be passed stays;
* **`FileTree.Retains.locate`**, **`FileTree.Retains.read`** — a path leads where it led, and reads what it read;
* **`FileTree.Grows.read_eq`** — what a path reads in a tree that has grown;
* **`Workspace.createDirectories_outside`** — directories are created on the way of their path only;
* **`Workspace.createDirectories_of_leads`** — where there is a directory, none is created. -/

namespace LayeredBundles

open FileTree Fallible

namespace FileTree

open DiskPath

variable {t t' t'' : FileTree} {A B : Place → Prop} {n : Nat} {dir p q v d : Place} {xs segs : List String}
  {path : String} {c : ByteArray} {slash th : Bool} {links : Nat}

/-! ## (1) The text in front

What stands in front of a path, and the path without slashes at its end, can be followed if the path can. -/

/-- The front of a clean path is clean. -/
theorem Clean.of_append [Charset] [LawfulCharset] {front rest : String} (h : Clean (front ++ rest))
    (hne : front ≠ "") : Clean front := by
  refine ⟨hne, ?_, ?_⟩
  · have hzero := h.noZero
    rw [Text.hasChar, String.toList_append, List.contains_eq_any_beq, List.any_append, Bool.or_eq_false_iff] at hzero
    rw [Text.hasChar, List.contains_eq_any_beq]
    exact hzero.1
  · have hshort := h.short
    rw [Charset.size_append] at hshort
    omega

/-- A path is its bare text with slashes behind it. -/
theorem exists_bare (path : String) : ∃ rest, path = bare path ++ rest := by
  obtain ⟨k, hk⟩ := exists_withoutSlashes path
  unfold bare
  split
  · next h =>
    rw [h.2] at hk
    cases k with
    | zero => exact absurd (by simpa using hk) h.1
    | succ k =>
      exact ⟨String.ofList (List.replicate k '/'), hk.trans (String.toList_injective (by simp [List.replicate_succ]))⟩
  · exact ⟨_, hk⟩

/-- So it is clean without them. -/
theorem Clean.bare [Charset] [LawfulCharset] (h : Clean path) : Clean (bare path) := by
  obtain ⟨rest, hrest⟩ := exists_bare path
  refine (hrest ▸ h).of_append fun hempty => h.nonempty ?_
  unfold FileTree.bare at hempty
  split at hempty
  · exact absurd hempty (by decide)
  · next hne => simpa [hempty] using hne

/-- The first pieces stand in front when more are joined. -/
theorem exists_joinChars (sep : Char) (xs ys : List (List Char)) :
    ∃ rest, Text.joinChars sep (xs ++ ys) = Text.joinChars sep xs ++ rest := by
  induction xs with
  | nil => exact ⟨_, rfl⟩
  | cons x xs ih =>
    cases xs with
    | nil => cases ys <;> exact ⟨_, by simp [Text.joinChars]; rfl⟩
    | cons x' xs =>
      obtain ⟨rest, hrest⟩ := ih
      refine ⟨rest, ?_⟩
      simp only [List.cons_append, Text.joinChars, List.append_assoc] at hrest ⊢
      rw [hrest]

/-- A path is what it begins with, and its segments behind that. -/
theorem eq_lead (path : String) : path = (lead path).1 ++
    (if (lead path).1 = "." ∧ (lead path).2 ≠ [] then "/" else "") ++ Text.join '/' (lead path).2 := by
  have hpath := Text.join_split '/' path
  by_cases habs : isAbsolute path = true
  · obtain ⟨s, rest, hs⟩ := isAbsolute_iff.1 habs
    rw [← segments, hs] at hpath
    have hlead : lead path = ("/", s :: rest) := by simp [lead, habs, hs]
    rw [hlead]
    exact hpath.symm.trans (String.toList_injective (by simp [Text.join, Text.joinChars]))
  by_cases hdot : (segments path).head? = some "."
  · obtain ⟨rest, hs⟩ := List.head?_eq_some_iff.1 hdot
    rw [← segments, hs] at hpath
    have hlead : lead path = (".", rest) := by simp [lead, habs, hs]
    rw [hlead]
    refine hpath.symm.trans (String.toList_injective ?_)
    cases rest <;> simp [Text.join, Text.joinChars]
  · have hlead : lead path = ("", segments path) := by simp [lead, habs, hdot]
    rw [hlead]
    exact hpath.symm.trans (by simp [segments])

/-- **The text in front of a path** is how the path begins. -/
theorem exists_of_parent? {front : String} (h : parent? path = some front) : ∃ rest, path = front ++ rest := by
  have hpath := eq_lead path
  rcases hlead : lead path with ⟨start, segs⟩
  rw [hlead] at hpath
  rw [parent?, hlead] at h
  dsimp only at h hpath
  split at h
  · split at h <;> cases h
    exact ⟨path, by simp⟩
  next x rev hrev =>
  -- What is left of the segments are some of the first ones.
  have hpre : trimEnd rev.reverse <+: segs := by
    refine (List.rdropWhile_prefix _ _).trans (List.IsPrefix.trans ⟨[x], ?_⟩ (List.rdropWhile_prefix (!counts ·) segs))
    rw [← trimEnd_eq, ← List.reverse_reverse (trimEnd segs), hrev, List.reverse_cons]
  generalize trimEnd rev.reverse = before at h hpre
  obtain ⟨more, rfl⟩ := hpre
  obtain ⟨rest, hrest⟩ := exists_joinChars '/' (before.map String.toList) (more.map String.toList)
  have hjoin : Text.join '/' (before ++ more) = Text.join '/' before ++ String.ofList rest :=
    String.toList_injective (by simp [Text.join, hrest])
  rw [hjoin] at hpath
  split at h
  · next hdot =>
    cases h
    rw [Bool.and_eq_true, decide_eq_true_eq] at hdot
    obtain ⟨rfl, hne⟩ := hdot
    rw [if_pos ⟨rfl, by simp_all⟩] at hpath
    exact ⟨String.ofList rest, hpath.trans (String.toList_injective (by simp))⟩
  · next hdot =>
    cases h
    by_cases hstart : start = "."
    · have hnil : before = [] := by simpa [hstart] using hdot
      subst hnil
      exact ⟨_, hpath.trans (String.append_assoc.trans (by simp [Text.join, Text.joinChars]; rfl))⟩
    · rw [if_neg fun h => hstart h.1] at hpath
      exact ⟨String.ofList rest, hpath.trans (String.toList_injective (by simp))⟩

/-! ## (2) Ways outside a directory -/

/-- **A way that does not pass a directory** ends outside it, if it begins there. -/
theorem Leads.outside (h : Leads t A n dir xs q) (hA : ∀ v, A v → Outside d v) (hd : d ≠ []) (hdir : Outside d dir) :
    Outside d q := by
  induction h with
  | here => exact hdir
  | up _ ih => exact ih fun hle => hdir (hle.trans (List.dropLast_prefix _))
  | down _ hv _ _ ih => exact ih (hA _ hv)
  | through _ _ _ _ ih =>
    refine ih ?_
    split
    · exact fun hle => hd (List.prefix_nil.1 hle)
    · exact hdir

/-- If a way begins in a directory, it may lead back up there, but to nothing else in it. -/
theorem Leads.outside_or (h : Leads t A n dir xs q) (hA : ∀ v, A v → Outside d v) (hd : d ≠ []) :
    Outside d q ∨ q <+: dir := by
  induction h with
  | here => exact .inr (List.prefix_refl _)
  | up _ ih => exact ih.imp_right fun hle => hle.trans (List.dropLast_prefix _)
  | down _ hv _ _ ih => exact .inl (ih.elim id fun hle hdq => hA _ hv (hdq.trans hle))
  | through _ _ _ _ ih =>
    refine ih.elim .inl fun hle => ?_
    split at hle
    · left
      rw [List.prefix_nil.1 hle]
      exact fun hdq => hd (List.prefix_nil.1 hdq)
    · exact .inr hle

/-- **The whole way of a path** that names something, up to where that leads. -/
theorem Named.exists_leads (h : t.Named A path p) (hq : t.Resolves A p q) :
    ∃ n, Leads t (fun v => A v ∨ v = p) n (t.start path) (steps path) q := by
  obtain ⟨n, xs, front, name, hsteps, hup, rfl, hway⟩ := h.way
  have hfirst : Leads t (fun v => A v ∨ v = front ++ [name]) n (t.start path) xs front :=
    hway.mono fun _ => .inl
  rw [hsteps]
  cases hq with
  | self hplain => exact ⟨_, hfirst.append (.down hup (.inr rfl) hplain .here)⟩
  | @through m target _ hlink hnext =>
    rw [List.dropLast_concat, ← List.append_nil (steps target)] at hnext
    have hlast : Leads t (fun v => A v ∨ v = front ++ [name]) (m + 1) front [name] q :=
      .through hup (.inr rfl) hlink (hnext.mono fun _ => .inl)
    exact ⟨_, hfirst.append hlast⟩

/-- What is named leads where its path is located. -/
theorem Named.resolves_of_locate [Charset] (h : t.Named A path p) (hlocate : t.locate true path = .ok (v, slash)) :
    t.Resolves (fun _ => True) p v := by
  obtain ⟨n, xs, front, name, hsteps, hup, rfl, hway⟩ := h.way
  obtain ⟨m, hwhole⟩ := (arrives_of_locate hlocate).exists_leads
  rw [← steps, hsteps] at hwhole
  obtain ⟨k, j, front', hfirst, hlast⟩ := hwhole.divide
  obtain ⟨-, rfl⟩ := hfirst.unique hway
  exact resolves_of_step hup hlast trivial

/-- A last segment is located, whatever stands there, if it is no link. -/
theorem followLinks_last [Charset] (t : FileTree) (links : Nat) (dir : Place) {s : String} (hcounts : counts s = true)
    (hup : s ≠ "..") (hshort : Charset.size s ≤ maxName)
    (hplain : ∀ target, t.node? (dir ++ [s]) ≠ some (.link target)) :
    t.followLinks true links dir [s] = .ok (dir ++ [s], false) := by
  rcases hnode : t.node? (dir ++ [s]) with _ | _ | _ | target
  · rw [followLinks_none t true links dir [] hcounts hup hshort hnode]
    rfl
  · rw [followLinks_directory t true links dir [] hcounts hup hshort hnode, followLinks_nil]
  · rw [followLinks_file t true links dir [] hcounts hup hshort hnode]
    rfl
  · exact absurd hnode (hplain target)

/-- Only where nothing stands may a slash follow. -/
theorem slash_of_followLinks [Charset] (h : t.followLinks th links dir segs = .ok (v, slash)) {n : Node}
    (hnode : t.node? v = some n) : slash = false := by
  rw [← follows_iff] at h
  generalize hr : Except.ok (v, slash) = r at h
  induction h with
  | here | file | place =>
    cases hr
    rfl
  | skip _ _ ih | up _ ih | down _ _ _ _ _ ih | through _ _ _ _ _ _ ih => exact ih hr
  | absent _ _ _ hnone =>
    cases hr
    cases hnone.symm.trans hnode
  | long | missing | blocked | loop => cases hr

/-! ## (3) What can be passed stays -/

variable [Charset]

/-- `Retains A t t'`: of the places that satisfy `A`, those that can be passed are the same. -/
structure Retains (A : Place → Prop) (t t' : FileTree) : Prop where
  /-- Relative paths begin where they began. -/
  base : t'.base = t.base
  /-- What can be passed. -/
  node : ∀ v, A v → t.Passable v → t'.node? v = t.node? v

/-- What is retained twice is retained. -/
theorem Retains.trans (h : Retains A t t') (h' : Retains A t' t'') : Retains A t t'' :=
  ⟨h'.base.trans h.base, fun v hv hpass =>
    (h'.node v hv (hpass.congr (h.node v hv hpass))).trans (h.node v hv hpass)⟩

/-- What is retained of more places is retained of fewer. -/
theorem Retains.mono (h : Retains A t t') (hBA : ∀ v, B v → A v) : Retains B t t' :=
  ⟨h.base, fun v hv => h.node v (hBA v hv)⟩

/-- A file cannot be passed. -/
theorem not_passable_of_file {m : Instant} (h : t.node? v = some (.file c m)) : ¬ t.Passable v := by
  rintro ⟨hdir | ⟨target, hlink⟩, -⟩
  · cases h.symm.trans hdir
  · cases h.symm.trans hlink

/-- Nor can a place where nothing stands. -/
theorem not_passable_of_none (h : t.node? v = none) : ¬ t.Passable v := by
  rintro ⟨hdir | ⟨target, hlink⟩, -⟩
  · cases h.symm.trans hdir
  · cases h.symm.trans hlink

/-- A file that is moved closes no way but those that pass a link where it is moved to. -/
theorem Reaches.moved {node : Node} {m : Instant} (h : t.Reaches A path p) (hq : q ≠ []) (hp : p ≠ [])
    (hfile : t.node? q = some (.file c m)) (hdir : t.node? p ≠ some .directory)
    (hlink : ∀ target, A p → t.node? p ≠ some (.link target)) :
    ((t.unbind q).bind p node).Reaches A path p := by
  refine h.congr rfl fun v hv hpass => ?_
  rw [node?_moved t node hq hp, if_neg, if_neg]
  · rintro rfl
    exact not_passable_of_file hfile hpass
  · rintro rfl
    rcases hpass.leadsOn with hd | ⟨target, hl⟩
    · exact hdir hd
    · exact hlink target hv hl

/-- Directories and links are all that can be passed. -/
theorem Upholds.retains (h : Upholds t t') (A : Place → Prop) : Retains A t t' := by
  refine ⟨h.base, fun v _ hpass => ?_⟩
  rcases hpass.leadsOn with hdir | ⟨target, hlink⟩
  · rw [hdir, h.node v _ rfl hdir]
  · rw [hlink, h.node v _ rfl hlink]

/-- What was reached through retained places still is. -/
theorem Retains.reaches (h : Retains A t t') (hreaches : t.Reaches A path p) : t'.Reaches A path p :=
  hreaches.congr h.base h.node

namespace Retains

variable (h : Retains A t t') (hq : ∀ target, t'.node? q ≠ some (.link target))

include h hq

/-- **Where a way leads**, it leads still. At its end there may be something else now, but no link. -/
theorem followLinks (hway : Leads t A n dir xs q) (hsegs : segs.filter counts = xs)
    (hok : t.followLinks true links dir segs = .ok (q, false)) :
    t'.followLinks true links dir segs = .ok (q, false) := by
  rw [← follows_iff] at hok ⊢
  generalize hr : Except.ok (q, false) = r at hok ⊢
  subst hsegs
  induction hok generalizing n with
  | here => exact .here
  | skip hcounts _ ih =>
    rw [List.filter_cons_of_neg (by simp [hcounts])] at hway
    exact .skip hcounts (ih hr hway)
  | up _ ih =>
    rw [List.filter_cons_of_pos (by decide)] at hway
    exact .up (ih hr hway.after_up)
  | down hcounts hup hshort hnode _ ih =>
    rw [List.filter_cons_of_pos hcounts] at hway
    obtain ⟨hA, hnext⟩ := hway.after_down hup (by simp [hnode])
    have hsame := h.node _ hA ⟨.inl hnode, by simpa using hshort⟩
    exact .down hcounts hup hshort (hsame.trans hnode) (ih hr hnext)
  -- The way ends here, and whatever stands there now is no link.
  | @absent _ _ _ rest hcounts hup hshort =>
    cases rest with
    | nil =>
      cases hr
      exact follows_iff.2 (followLinks_last t' _ _ hcounts hup hshort hq)
    | cons => cases hr
  | file hcounts hup hshort =>
    cases hr
    exact follows_iff.2 (followLinks_last t' _ _ hcounts hup hshort hq)
  -- The link was passed, so it is the same.
  | through hcounts hup hshort hnode hfollowed _ ih =>
    rw [List.filter_cons_of_pos hcounts] at hway
    obtain ⟨m, -, hA, hnext⟩ := hway.after_link hup hnode
    have hsame := h.node _ hA ⟨.inr ⟨_, hnode⟩, by simpa using hshort⟩
    rw [steps, ← List.filter_append] at hnext
    exact .through hcounts hup hshort (hsame.trans hnode) hfollowed (ih hr hnext)
  | place hth => cases hth
  | long | missing | blocked | loop => cases hr

/-- **A path leads where it led.** -/
theorem locate (hway : Leads t A n (t.start path) (steps path) q) (hlocate : t.locate true path = .ok (q, false)) :
    t'.locate true path = .ok (q, false) := by
  have hclean := clean_of_locate hlocate
  rw [hclean.locate_eq] at hlocate ⊢
  rw [FileTree.start, h.base]
  exact h.followLinks hq hway rfl hlocate

end Retains

/-- A file that a path leads to is read from it. -/
theorem read_of_locate {m : Instant} (hlocate : t.locate true path = .ok (q, slash))
    (hfile : t.node? q = some (.file c m)) : t.read path = .ok c := by
  simp [read, look, hlocate, hfile]

/-- A file that is read is where the way of its path leads. -/
theorem Leads.locate_of_read (hway : Leads t A n (t.start path) (steps path) q) (hread : t.read path = .ok c) :
    t.locate true path = .ok (q, false) ∧ ∃ m, t.node? q = some (.file c m) := by
  obtain ⟨v, slash, m, hlocate, hfile⟩ := exists_of_read hread
  have hfollow := hlocate
  rw [(clean_of_locate hlocate).locate_eq] at hfollow
  obtain rfl := hway.eq_of_followLinks rfl hfollow
  obtain rfl := slash_of_followLinks hfollow hfile
  exact ⟨hlocate, m, hfile⟩

/-- **A file that stays is read as before.** -/
theorem Retains.read (h : Retains A t t') (hway : Leads t A n (t.start path) (steps path) q)
    (hsame : t'.node? q = t.node? q) (hread : t.read path = .ok c) : t'.read path = .ok c := by
  obtain ⟨hlocate, m, hfile⟩ := hway.locate_of_read hread
  have hfile' := hsame.trans hfile
  exact read_of_locate (h.locate (by simp [hfile']) hway hlocate) hfile'

/-! ## (4) What has grown -/

/-- Up to the first link. -/
theorem Grows.follow (h : Grows t t') (th : Bool) (dir : Place) (segs : List String) :
    t'.follow th dir segs = t.follow th dir segs ∨ t.follow th dir segs = .error .notFound ∨
      ∃ p slash, t.follow th dir segs = .ok (.place p slash) ∧ t.node? p = none := by
  induction segs generalizing dir with
  | nil => exact .inl rfl
  | cons s segs ih =>
    simp only [FileTree.follow]
    split
    · exact ih dir
    split
    · exact ih dir.dropLast
    split
    · exact .inl rfl
    rcases hnode : t.node? (dir ++ [s]) with _ | n
    · right
      dsimp only
      split
      · exact .inr ⟨_, _, rfl, hnode⟩
      · exact .inl rfl
    · rw [h.node_of_some hnode]
      cases n with
      | directory => exact ih _
      | file | link => exact .inl rfl

/-- **Segments that are followed in a tree that has grown** lead where they led, unless they led to nothing. -/
theorem Grows.followLinks (h : Grows t t') (th : Bool) (links : Nat) (dir : Place) (segs : List String) :
    t'.followLinks th links dir segs = t.followLinks th links dir segs ∨
      t.followLinks th links dir segs = .error .notFound ∨
        ∃ p slash, t.followLinks th links dir segs = .ok (p, slash) ∧ t.node? p = none := by
  induction links generalizing dir segs with
  | zero =>
    rw [followLinks_eq, followLinks_eq t]
    rcases h.follow th dir segs with hsame | herror | ⟨p, slash, hplace, hnone⟩
    · rw [hsame]
      exact .inl rfl
    · rw [herror]
      exact .inr (.inl rfl)
    · rw [hplace]
      exact .inr (.inr ⟨p, slash, rfl, hnone⟩)
  | succ links ih =>
    rw [followLinks_eq, followLinks_eq t]
    rcases h.follow th dir segs with hsame | herror | ⟨p, slash, hplace, hnone⟩
    · rw [hsame]
      rcases t.follow th dir segs with x | ⟨p, slash⟩ | ⟨start, segs'⟩
      · exact .inl rfl
      · exact .inl rfl
      · exact ih start segs'
    · rw [herror]
      exact .inr (.inl rfl)
    · rw [hplace]
      exact .inr (.inr ⟨p, slash, rfl, hnone⟩)

/-- **What a path reads in a tree that has grown** it has read before, unless it found nothing. -/
theorem Grows.read_eq (h : Grows t t') (path : String) :
    t'.read path = t.read path ∨ t.read path = .error .notFound := by
  -- A path leads where it led, or nothing stood there.
  have hlocate : t'.locate true path = t.locate true path ∨ t.locate true path = .error .notFound ∨
      ∃ p slash, t.locate true path = .ok (p, slash) ∧ t.node? p = none := by
    unfold FileTree.locate
    rw [h.base]
    split
    · exact .inl rfl
    split
    · exact .inl rfl
    split
    · exact .inl rfl
    · exact h.followLinks ..
  unfold FileTree.read FileTree.look
  rcases hlocate with hsame | herror | ⟨p, slash, hplace, hnone⟩
  · rw [hsame]
    rcases t.locate true path with x | ⟨p, slash⟩
    · exact .inl rfl
    · dsimp only
      rcases hnode : t.node? p with _ | n
      · exact .inr rfl
      · rw [h.node_of_some hnode]
        exact .inl rfl
  · rw [herror]
    exact .inr rfl
  · rw [hplace]
    dsimp only
    rw [hnone]
    exact .inr rfl

/-! ## (5) Where directories are created -/

/-- A directory is created where the way of its path leads, and not where directories stand already, as they may where
the path begins. -/
theorem createDirectory_outside (hA : ∀ v, A v → Outside d v) (hd : d ≠ [])
    (hstart : ∀ v, v <+: t.start path → d <+: v → t.node? v = some .directory)
    (hway : Leads t A n (t.start path) (steps path) q) (h : t.createDirectory path = .ok t') :
    ∀ v, d <+: v → t'.node? v = t.node? v := by
  unfold createDirectory at h
  split at h
  · cases h
  next p slash hlocate =>
  split at h
  · cases h
  next hnone =>
  cases h
  obtain ⟨m, hleads⟩ := ((arrives_of_locate hlocate).of_plain (by simp [hnone])).exists_leads
  have hbare : t.start (bare path) = t.start path := by rw [start, start, isAbsolute_bare]
  rw [← steps, steps_bare, hbare] at hleads
  obtain ⟨-, rfl⟩ := hway.unique hleads
  intro v hv
  rw [node?_bind_of_ne]
  rintro rfl
  rcases hway.outside_or hA hd with hout | hle
  · exact hout hv
  · cases hnone.symm.trans (hstart _ hle hv)

end FileTree

namespace Workspace

open DiskPath

variable [Charset] {w : Workspace} {A : Place → Prop} {n : Nat} {d q : Place} {path : String}

/-- **Directories are created on the way of their path**: none at or below a directory that it does not pass. If the
path begins in the directory, directories have to stand there. -/
theorem createDirectories_outside (hA : ∀ v, A v → Outside d v) (hd : d ≠ [])
    (hstart : ∀ v, v <+: w.tree.start path → d <+: v → w.tree.node? v = some .directory)
    (hway : Leads w.tree A n (w.tree.start path) (steps path) q) :
    (createDirectories path).Yields w fun _ w' => ∀ v, d <+: v → w'.tree.node? v = w.tree.node? v := by
  have hpreserves : (createDirectories path).Preserves fun w' =>
      Adds w.tree w'.tree ∧ ∀ v, d <+: v → w'.tree.node? v = w.tree.node? v := by
    refine preserves_createLineage fun p hp w₁ hw₁ => ?_
    obtain ⟨⟨rest, hsteps⟩, habs⟩ := prefix_of_mem_lineage hp
    rw [Yields, outcome_change]
    split
    · next t ht =>
      -- What the path stands below is named by its first steps.
      have hway₁ := hway.congr fun v target _ => hw₁.1.link_iff v target
      rw [← hsteps] at hway₁
      obtain ⟨k, m, q', hfirst, -⟩ := hway₁.divide
      have hsame : w.tree.start path = w₁.tree.start p := by rw [start, start, habs, hw₁.1.base]
      rw [hsame] at hfirst hstart
      refine ⟨hw₁.1.trans (createDirectory_adds ht), fun v hv => ?_⟩
      refine (createDirectory_outside hA hd (fun v hle hv => ?_) hfirst ht v hv).trans (hw₁.2 v hv)
      exact hw₁.1.node_of_some (hstart v hle hv)
    · exact hw₁
  exact (hpreserves w ⟨.refl _ _, fun _ _ => rfl⟩).mono fun _ _ hw' => hw'.2

/-- **Where there is a directory, none is created.** -/
theorem createDirectories_of_leads [LawfulCharset] (hclean : Clean path)
    (hway : Leads w.tree w.tree.Passable n (w.tree.start path) (steps path) q) (hn : n ≤ maxLinks)
    (hdir : w.tree.node? q = some .directory) : (createDirectories path).outcome w = (.ok (), w) := by
  have hlocate : w.tree.locate true path = .ok (q, false) := by
    rw [hclean.locate_eq]
    exact hway.followLinks_end rfl hn
  have hthere := hasDirectory_of_locate hlocate hdir
  -- At the end of the path without slashes something stands, be it the directory or a link to it.
  have hstart : w.tree.start (bare path) = w.tree.start path := by rw [start, start, isAbsolute_bare]
  have hbare : w.tree.followLinks true maxLinks (w.tree.start (bare path)) (segments (bare path)) = .ok (q, false) := by
    rw [hstart]
    exact hway.followLinks_end (steps_bare path) hn
  obtain ⟨v, node, hfollow, hnode, -⟩ := exists_of_followLinks hdir hbare
  have hcreate : w.tree.createDirectory path = .error .alreadyExists := by
    simp only [createDirectory, hclean.bare.locate_eq, hfollow, hnode]
  have hchange : (change (·.createDirectory path)).outcome w = (.error .alreadyExists, w) := by
    rw [outcome_change]
    simp only [hcreate]
  rw [createDirectories, lineage, lineageUpTo, createLineage, if_neg hclean.nonempty, outcome_bind, outcome_attempt,
    hchange]
  simp [createLineage.unlessDirectory, ask, hthere]

end Workspace

end LayeredBundles
