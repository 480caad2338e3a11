import LayeredBundles.Proofs.Following

/-! # Paths that open

A path opens if its way can be passed up to its last step. That is what it takes to be located, and then the place is
the one that the last step names, or the one that a link there leads to.

* **`FileTree.Opens`** — a path whose way can be passed up to its last step;
* **`FileTree.opens_of_locate`** — a path that is located opens;
* **`FileTree.Opens.locate`** — a path that opens is located;
* **`FileTree.Reaches`** — a path that names a place and opens;
* **`FileTree.Approaches.node?_eq_none`** — where such a path is not found, nothing stands;
* **`FileTree.Named.eq_of_locate_true`** — what is located through a link. -/

namespace LayeredBundles

namespace FileTree

open DiskPath

variable [Charset] {t t' : FileTree} {A B : Place → Prop} {n m : Nat} {dir p q d : Place} {xs ys : List String}
  {path name : String}

/-! ## (1) Paths that open -/

/-- A path that can be followed as far as its text goes. -/
structure Clean (path : String) : Prop where
  /-- There is a path. -/
  nonempty : path ≠ ""
  /-- It holds no zero character. -/
  noZero : Text.hasChar (Char.ofNat 0) path = false
  /-- It is not too long. -/
  short : Charset.size path < maxPath

/-- A clean path is followed from where it starts. -/
theorem Clean.locate_eq (h : Clean path) (t : FileTree) (th : Bool) :
    t.locate th path = t.followLinks th maxLinks (t.start path) (segments path) := by
  simp [locate, h.nonempty, h.noZero, Nat.not_le.2 h.short, start]

/-- A path that leads anywhere is clean. -/
theorem clean_of_locate {th : Bool} {r : Place × Bool} (h : t.locate th path = .ok r) : Clean path := by
  unfold locate at h
  split at h
  · cases h
  · next hne =>
    split at h
    · cases h
    · next hzero =>
      split at h
      · cases h
      · next hlong => exact ⟨hne, by simpa using hzero, Nat.not_le.1 hlong⟩

/-- `t.Opens A path xs q name`: the way of a path can be passed up to its last step, which is to `name`
in `q`. -/
structure Opens (t : FileTree) (A : Place → Prop) (path : String) (xs : List String) (q : Place)
    (name : String) : Prop where
  /-- The text can be followed. -/
  clean : Clean path
  /-- The steps. -/
  steps_eq : steps path = xs ++ [name]
  /-- The last step can be followed. -/
  short : Charset.size name ≤ maxName
  /-- The way up to the last step. -/
  way : ∃ n ≤ maxLinks, Leads t (fun v => A v ∧ t.Passable v) n (t.start path) xs q

/-- **A path that is located opens.** -/
theorem opens_of_locate {th slash : Bool} (h : t.locate th path = .ok (p, slash))
    (hsteps : steps path = xs ++ [name]) (hup : name ≠ "..") (hway : Leads t A n (t.start path) xs q) :
    t.Opens A path xs q name := by
  have hclean := clean_of_locate h
  obtain ⟨front, tail, hsegs, hfront, htail, hcounts, -⟩ := exists_segments hsteps
  rw [hclean.locate_eq, hsegs] at h
  obtain ⟨hn, hpass⟩ := hway.passable_of_followLinks hfront (by simp [hcounts]) h
  have hpass' : Leads t t.Passable n (t.start path) xs q := hpass.mono fun _ hv => hv.2
  rw [hpass'.followLinks_append hfront (List.cons_ne_nil _ _) hn] at h
  refine ⟨hclean, hsteps, ?_, n, hn, hpass⟩
  by_contra hlong
  rw [followLinks_long t th _ q _ hcounts hup (Nat.not_le.1 hlong)] at h
  cases h

/-- **A path that opens** is followed up to its last name, with some links left to follow. -/
theorem Opens.followLinks_eq (h : t.Opens A path xs q name) :
    ∃ front tail links, segments path = front ++ name :: tail ∧ tail.filter counts = [] ∧ counts name = true ∧
      (∀ segs, segments path = segs ++ [name] → tail = []) ∧
      ∀ th, t.locate th path = t.followLinks th links q (name :: tail) := by
  obtain ⟨front, tail, hsegs, hfront, htail, hcounts, hends⟩ := exists_segments h.steps_eq
  obtain ⟨n, hn, hway⟩ := h.way
  refine ⟨front, tail, maxLinks - n, hsegs, htail, hcounts, hends, fun th => ?_⟩
  have hway' : Leads t t.Passable n (t.start path) xs q := hway.mono fun _ hv => hv.2
  rw [h.clean.locate_eq, hsegs, hway'.followLinks_append hfront (List.cons_ne_nil _ _) hn]

/-- **A path that opens is located at its last step**, unless that is to a link which is followed. -/
theorem Opens.eq_of_locate (h : t.Opens A path xs q name) (hup : name ≠ "..") {th slash : Bool}
    (hlocate : t.locate th path = .ok (p, slash))
    (hlink : ∀ target, t.node? (q ++ [name]) = some (.link target) →
      th = false ∧ ∃ segs, segments path = segs ++ [name]) : p = q ++ [name] := by
  obtain ⟨-, tail, links, -, htail, hcounts, hends, heq⟩ := h.followLinks_eq
  rw [heq] at hlocate
  rcases hnode : t.node? (q ++ [name]) with _ | node
  · rw [followLinks_none t th links q _ hcounts hup h.short hnode] at hlocate
    split at hlocate <;> cases hlocate
    rfl
  · cases node with
    | directory =>
      rw [followLinks_directory t th links q _ hcounts hup h.short hnode, followLinks_no_steps t th _ _ htail]
        at hlocate
      cases hlocate
      rfl
    | file contents modified =>
      rw [followLinks_file t th links q _ hcounts hup h.short hnode] at hlocate
      split at hlocate <;> cases hlocate
      rfl
    | link target =>
      obtain ⟨rfl, segs, hsegs⟩ := hlink target hnode
      rw [hends segs hsegs, followLinks_place t links q hcounts hup h.short hnode] at hlocate
      cases hlocate
      rfl

/-- **A path that opens onto a directory is located.** -/
theorem Opens.locate_directory (h : t.Opens A path xs q name) (hup : name ≠ "..")
    (hnode : t.node? (q ++ [name]) = some .directory) (th : Bool) :
    t.locate th path = .ok (q ++ [name], false) := by
  obtain ⟨-, tail, links, -, htail, hcounts, -, heq⟩ := h.followLinks_eq
  rw [heq, followLinks_directory t th links q _ hcounts hup h.short hnode, followLinks_no_steps t th _ _ htail]

/-- **A path that opens is located** when its text ends with its last step. -/
theorem Opens.locate (h : t.Opens A path xs q name) (hup : name ≠ "..") {segs : List String}
    (hsegs : segments path = segs ++ [name]) (hlink : ∀ target, t.node? (q ++ [name]) ≠ some (.link target))
    (th : Bool) : t.locate th path = .ok (q ++ [name], false) := by
  obtain ⟨-, tail, links, -, -, hcounts, htail, heq⟩ := h.followLinks_eq
  rw [htail segs hsegs] at heq
  rw [heq]
  rcases hnode : t.node? (q ++ [name]) with _ | node
  · rw [followLinks_none t th links q _ hcounts hup h.short hnode]
    rfl
  · cases node with
    | directory => rw [followLinks_directory t th links q _ hcounts hup h.short hnode, followLinks_nil]
    | file contents modified =>
      rw [followLinks_file t th links q _ hcounts hup h.short hnode]
      rfl
    | link target => exact absurd hnode (hlink target)

/-- Trees with the same nodes on the way open the same paths. -/
theorem Opens.congr (h : t.Opens A path xs q name) (hbase : t'.base = t.base)
    (hnode : ∀ v, A v → t.Passable v → t'.node? v = t.node? v) : t'.Opens A path xs q name := by
  obtain ⟨n, hn, hway⟩ := h.way
  have hstart : t'.start path = t.start path := by rw [start, start, hbase]
  refine ⟨h.clean, h.steps_eq, h.short, n, hn, ?_⟩
  rw [hstart]
  refine (hway.congr fun v target hv => by rw [hnode v hv.1 hv.2]).mono fun v hv => ⟨hv.1, ?_⟩
  exact hv.2.congr (hnode v hv.1 hv.2)

/-! ## (2) Places that are reached -/

/-- `t.Reaches A path p`: the way of a path can be passed up to its last step, which is to `p`. -/
def Reaches (t : FileTree) (A : Place → Prop) (path : String) (p : Place) : Prop :=
  ∃ xs q name, p = q ++ [name] ∧ name ≠ ".." ∧ t.Opens A path xs q name

/-- **What stands at a place is located there**, if at all, and is reached. -/
theorem Stands.reaches (h : t.Stands A path p) {v : Place} {th slash : Bool}
    (hlocate : t.locate th path = .ok (v, slash)) : v = p ∧ t.Reaches A path p := by
  obtain ⟨n, xs, q, name, hsteps, hup, rfl, hway⟩ := h.way
  have hopens := opens_of_locate hlocate hsteps hup hway
  exact ⟨hopens.eq_of_locate hup hlocate fun target hlink => absurd hlink (h.plain target),
    xs, q, name, rfl, hup, hopens⟩

/-- What is reached is located, unless it is a link or the path ends with a slash. -/
theorem Reaches.locate (h : t.Reaches A path p) (hends : Ends path p)
    (hplain : ∀ target, t.node? p ≠ some (.link target)) (th : Bool) : t.locate th path = .ok (p, false) := by
  obtain ⟨xs, q, name, rfl, hup, hopens⟩ := h
  obtain ⟨segs, last, hsegs, hlast⟩ := hends
  rw [List.getLast?_concat, Option.some.injEq] at hlast
  exact hopens.locate hup (hlast ▸ hsegs) hplain th

/-- A directory that is reached is located. -/
theorem Reaches.locate_directory (h : t.Reaches A path p) (hnode : t.node? p = some .directory) (th : Bool) :
    t.locate th path = .ok (p, false) := by
  obtain ⟨xs, q, name, rfl, hup, hopens⟩ := h
  exact hopens.locate_directory hup hnode th

/-- A text that ends with a name has no slash at its end. -/
theorem Ends.not_endsWith (h : Ends path p) (hreaches : t.Reaches A path p) : Text.endsWith "/" path = false := by
  obtain ⟨xs, q, name, rfl, -, hopens⟩ := hreaches
  obtain ⟨segs, last, hsegs, hlast⟩ := h
  rw [List.getLast?_concat, Option.some.injEq] at hlast
  rw [← Bool.not_eq_true]
  intro hslash
  obtain ⟨front, -, hsplit⟩ := Text.split_of_endsWith hslash
  -- The last segment would be empty, and an empty one is no step.
  have hempty : name = "" := by
    rw [hlast]
    exact List.singleton_inj.1 (List.append_inj' (hsegs.symm.trans hsplit) rfl).2
  have hname : name ∈ steps path := by rw [hopens.steps_eq]; simp
  rw [hempty] at hname
  exact absurd (List.of_mem_filter hname) (by decide)

/-- What is reached is reached where the same stands on the way. -/
theorem Reaches.congr (h : t.Reaches A path p) (hbase : t'.base = t.base)
    (hnode : ∀ v, A v → t.Passable v → t'.node? v = t.node? v) : t'.Reaches A path p := by
  obtain ⟨xs, q, name, hp, hup, hopens⟩ := h
  exact ⟨xs, q, name, hp, hup, hopens.congr hbase hnode⟩

/-- `t.Approaches path p`: the way of a path can be passed up to its last step, which is to `p`. Whether that
step can be taken is left open. -/
def Approaches (t : FileTree) (path : String) (p : Place) : Prop :=
  ∃ n ≤ maxLinks, ∃ xs q name, steps path = xs ++ [name] ∧ name ≠ ".." ∧ p = q ++ [name] ∧
    Leads t t.Passable n (t.start path) xs q

/-- What is beside a place that is reached is approached. -/
theorem Reaches.approaches_beside {path' name' : String} (h : t.Reaches A path p)
    (hsteps : steps path = xs ++ [name]) (hsteps' : steps path' = xs ++ [name'])
    (habs : isAbsolute path' = isAbsolute path) (hup : name' ≠ "..") :
    t.Approaches path' (p.dropLast ++ [name']) := by
  obtain ⟨xs', q, name, rfl, -, hopens⟩ := h
  obtain ⟨n, hn, hway⟩ := hopens.way
  obtain ⟨rfl, -⟩ := List.append_inj' (hopens.steps_eq.symm.trans hsteps) rfl
  have hstart : t.start path' = t.start path := by rw [start, start, habs]
  refine ⟨n, hn, xs', q, name', hsteps', hup, by simp, hstart ▸ hway.mono fun v hv => hv.2⟩

/-- **Where nothing is found at the end of a way that is open, nothing stands.** -/
theorem Approaches.node?_eq_none (h : t.Approaches path p)
    (hends : ∀ target, t.node? p = some (.link target) → Ends path p)
    (hlook : t.look false path = .error .notFound) : t.node? p = none := by
  obtain ⟨n, hn, xs, q, name, hsteps, hup, rfl, hway⟩ := h
  obtain ⟨front, tail, hsegs, hfront, htail, hcounts, hnil⟩ := exists_segments hsteps
  have hne : path ≠ "" := by
    rintro rfl
    rw [steps_empty] at hsteps
    simp at hsteps
  have hlocate : t.locate false path = .error .notFound ∨
      ∃ r, t.locate false path = .ok r ∧ t.node? r.1 = none := by
    unfold look at hlook
    split at hlook
    · next heq => cases hlook; exact .inl heq
    · next v slash heq =>
      split at hlook
      · cases hlook
      · next hnode => exact .inr ⟨_, heq, hnode⟩
  rw [locate, if_neg hne] at hlocate
  split at hlocate
  · rcases hlocate with h | ⟨r, h, -⟩ <;> cases h
  split at hlocate
  · rcases hlocate with h | ⟨r, h, -⟩ <;> cases h
  rw [hsegs] at hlocate
  change t.followLinks false maxLinks (t.start path) _ = _ ∨ ∃ r, t.followLinks false maxLinks (t.start path) _ = _ ∧ _
    at hlocate
  rw [hway.followLinks_append hfront (List.cons_ne_nil _ _) hn] at hlocate
  -- Anything there would have been found; a name that is too long is another error.
  generalize maxLinks - n = links at hlocate
  generalize hr : t.followLinks false links q (name :: tail) = r at hlocate
  have hfound : ∀ v, r = .ok v → t.node? v.1 = none := by
    rintro v rfl
    obtain ⟨_, ⟨⟩, hnone⟩ := hlocate.resolve_left (by simp)
    exact hnone
  have hlink : ∀ target, t.node? (q ++ [name]) = some (.link target) → tail = [] := fun target hnode => by
    obtain ⟨segs, last, hlast, hname⟩ := hends target hnode
    rw [List.getLast?_concat, Option.some.injEq] at hname
    exact hnil segs (hname ▸ hlast)
  cases follows_iff.2 hr with
  | skip hskip => simp [hcounts] at hskip
  | up => exact absurd rfl hup
  | long | blocked => simp at hlocate
  | down _ _ _ _ hnext =>
    rw [← follows_iff.1 hnext, followLinks_no_steps t false _ _ htail] at hfound
    exact hfound _ rfl
  | absent _ _ _ hnode | missing _ _ _ hnode => exact hnode
  | file | place => exact hfound _ rfl
  | through _ _ _ hnode hfollowed | loop _ _ _ hnode hfollowed => cases hfollowed (hlink _ hnode)

/-! ## (3) Links at the end -/

/-- The place that a path names is reached if the path leads anywhere. -/
theorem Named.reaches (h : t.Named A path p) {v : Place} {th slash : Bool}
    (hlocate : t.locate th path = .ok (v, slash)) : t.Reaches A path p := by
  obtain ⟨n, xs, q, name, hsteps, hup, hp, hway⟩ := h.way
  exact ⟨xs, q, name, hp, hup, opens_of_locate hlocate hsteps hup hway⟩

/-- **What is named in one tree is named in another one where the path is located**, if nothing can be passed there that
is not the same in the first one. -/
theorem Named.across (h : t.Named A path p) (hbase : t'.base = t.base)
    (hsame : ∀ v, t'.Passable v → t'.node? v = t.node? v)
    (hends : ∀ target, t'.node? p = some (.link target) → Ends path p) {v : Place} {th slash : Bool}
    (hlocate : t'.locate th path = .ok (v, slash)) : t'.Named (fun v => A v ∧ t'.Passable v) path p := by
  obtain ⟨n, xs, q, name, hsteps, hup, hp, hway⟩ := h.way
  have hstart : t'.start path = t.start path := by rw [start, start, hbase]
  obtain ⟨front, tail, hsegs, hfront, -, hcounts, -⟩ := exists_segments hsteps
  rw [(clean_of_locate hlocate).locate_eq, hsegs, hstart] at hlocate
  obtain ⟨-, hway'⟩ := hway.passable_across hsame hfront (by simp [hcounts]) hlocate
  exact ⟨⟨n, xs, q, name, hsteps, hup, hp, hstart ▸ hway'⟩, hends⟩

/-- **What is named is located**, if at all, where links at the end are not followed. -/
theorem Named.eq_of_locate (h : t.Named A path p) {v : Place} {slash : Bool}
    (hlocate : t.locate false path = .ok (v, slash)) : v = p := by
  obtain ⟨n, xs, q, name, hsteps, hup, rfl, hway⟩ := h.way
  refine (opens_of_locate hlocate hsteps hup hway).eq_of_locate hup hlocate fun target hlink => ⟨rfl, ?_⟩
  obtain ⟨segs, last, hsegs, hlast⟩ := h.ends target hlink
  rw [List.getLast?_concat, Option.some.injEq] at hlast
  exact ⟨segs, hlast ▸ hsegs⟩

/-- Where no directory stands, the text of a path that is located ends with its name or with a slash. -/
theorem Named.ends_of_locate (h : t.Named A path p) {v : Place} {slash : Bool}
    (hlocate : t.locate false path = .ok (v, slash)) (hslash : Text.endsWith "/" path ≠ true)
    (hdir : t.node? p ≠ some .directory) : Ends path p := by
  obtain ⟨n, xs, q, name, hsteps, hup, rfl, hway⟩ := h.way
  have hopens := opens_of_locate hlocate hsteps hup hway
  obtain ⟨front, tail, links, hsegs, -, hcounts, -, heq⟩ := hopens.followLinks_eq
  have hnil : tail = [] → Ends path (q ++ [name]) := by
    rintro rfl
    exact ⟨front, name, hsegs, List.getLast?_concat⟩
  rw [heq] at hlocate
  generalize hr : Except.ok (v, slash) = r at hlocate
  cases follows_iff.2 hlocate with
  | skip hskip => simp [hcounts] at hskip
  | up => exact absurd rfl hup
  | down _ _ _ hnode => exact absurd hnode hdir
  | absent _ _ _ _ hslashes =>
    rcases List.eq_nil_or_concat tail with htail | ⟨more, s, rfl⟩
    · exact hnil htail
    -- A last segment that is empty comes of a slash.
    · obtain rfl := hslashes s (by simp)
      have hsplit : Text.split '/' path = front ++ name :: more ++ [""] := by
        rw [← segments, hsegs, List.concat_eq_append, List.append_assoc, List.cons_append]
      exact absurd (Text.endsWith_of_split hsplit (by simp)) hslash
  | file => exact hnil rfl
  | place _ _ _ _ hnode | through _ _ _ hnode => exact h.ends _ hnode
  | long | missing | blocked | loop => cases hr

/-- **What is named is located where it leads**, if at all, when links are followed. -/
theorem Named.eq_of_locate_true (h : t.Named A path p) (hq : t.Resolves B p q) {v : Place} {slash : Bool}
    (hlocate : t.locate true path = .ok (v, slash)) : v = q := by
  obtain ⟨n, xs, front, name, hsteps, hup, rfl, hway⟩ := h.way
  have hfirst : Leads t (fun _ => True) n (t.start path) xs front := hway.mono fun _ _ => trivial
  cases hq with
  | self hplain =>
    exact (opens_of_locate hlocate hsteps hup hway).eq_of_locate hup hlocate fun target hlink =>
      absurd hlink (hplain target)
  | through hlink hnext =>
    -- The last step is to the link, and the way of its target goes on from there.
    rw [List.dropLast_concat] at hnext
    have hlast : Leads t (fun _ => True) _ front [name] q :=
      .through hup trivial hlink (by rw [List.append_nil]; exact hnext.mono fun _ _ => trivial)
    rw [(clean_of_locate hlocate).locate_eq] at hlocate
    exact (hfirst.append hlast).eq_of_followLinks hsteps hlocate

/-! ## (4) Directories without links -/

variable {names : List String}

/-- The way to what is named `name` below the names is open, and does not pass it. -/
abbrev ReachesInside (t : FileTree) (d : Place) (names : List String) (path name : String) : Prop :=
  t.Reaches (Around (Outside d) (d ++ names)) path (d ++ names ++ [name])

/-- A way to something below a site passes the directory and all that it stands below. -/
theorem Site.directory_of_reaches {dest : String} {front : List String} (h : t.Site A path d)
    (hdest : Inside path names name dest) (hreaches : t.Reaches (Around A (d ++ names)) dest (d ++ names ++ [name]))
    (hfront : front <+: names) : t.node? (d ++ front) = some .directory := by
  obtain ⟨xs', q', name', heq, -, hopens⟩ := hreaches
  obtain ⟨rfl, hname⟩ := List.append_inj' heq rfl
  simp only [List.cons.injEq, and_true] at hname
  subst hname
  obtain ⟨m, -, hpass⟩ := hopens.way
  have hstart : t.start dest = t.start path := by rw [start, start, hdest.isAbsolute_eq]
  have hxs : xs' = steps path ++ names := by
    have hsteps := hopens.steps_eq.symm.trans hdest.steps_eq
    rw [← List.append_assoc] at hsteps
    exact (List.append_inj' hsteps rfl).1
  obtain ⟨more, rfl⟩ := hfront
  rw [hstart, hxs, ← List.append_assoc (steps path)] at hpass
  obtain ⟨k, k', v, hto, -⟩ := hpass.divide
  -- The step that leads to the place is the last one of the directory's path, or of the names.
  rcases List.eq_nil_or_concat front with rfl | ⟨front, s, rfl⟩
  · obtain ⟨n, xs, q, last, hsteps, hup, hd, hway⟩ := h.stands.way
    rw [List.append_nil, hsteps] at hto
    obtain ⟨k₁, k₂, q', hfirst, hlast⟩ := hto.divide
    obtain ⟨-, rfl⟩ := hfirst.unique hway
    rw [List.append_nil]
    cases hlast with
    | up => exact absurd rfl hup
    | down _ hpass hplain => exact hd ▸ hpass.2.directory hplain
    | through _ _ hlink => exact absurd hlink (hd ▸ h.stands.plain _)
  · rw [List.concat_eq_append] at hto hdest ⊢
    have hup : ∀ s' ∈ front, s' ≠ ".." := fun s' hs' => (hdest.isName s' (by simp [hs'])).up
    obtain ⟨n, hway⟩ := h.leads_inside hup
    rw [← List.append_assoc (steps path)] at hto
    obtain ⟨k₁, k₂, q', hfirst, hlast⟩ := hto.divide
    obtain ⟨-, rfl⟩ := hfirst.unique hway
    have hplain := h.plain (d ++ front ++ [s]) (prefix_inside d front s)
    rw [← List.append_assoc]
    cases hlast with
    | up => exact absurd rfl (hdest.isName ".." (by simp)).up
    | down _ hpass _ => exact hpass.2.directory hplain
    | through _ _ hlink => exact absurd hlink (hplain _)

end FileTree

end LayeredBundles
