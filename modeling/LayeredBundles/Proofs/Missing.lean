import LayeredBundles.Proofs.Rechecks

/-! # A file that replaces another one is not missed

A file is written under a temporary name beside its path and then moved there. If it cannot be read afterwards, the way
there is closed, as where a link on the way was the very one that was replaced; but no part of the path is missing. For
what is followed after the move was followed before it, up to the place where the file is now.

* **`FileTree.IsTree.write`**, **`IsTree.move`** — a tree stays one;
* **`FileTree.Misses`** — following segments comes to where nothing stands; **`misses_of_read`** says that it does when
  nothing is found;
* **`FileTree.not_misses`** — what was followed before a move comes to no such place after it;
* **`FileTree.read_ne_notFound`** — a file that was moved is not missed. -/

namespace LayeredBundles

open DiskPath

namespace FileTree

variable {t t' : FileTree} {A : Place → Prop} {n : Nat} {dir p q v : Place} {xs : List String} {path other : String}

/-! ## (1) Trees stay trees -/

/-- What is no directory is taken away. -/
theorem IsTree.unbind (h : t.IsTree) (hplain : t.node? p ≠ some .directory) : (t.unbind p).IsTree := by
  have hp : p ≠ [] := by
    rintro rfl
    simp at hplain
  have hdir : ∀ v, t.node? v = some .directory → (t.unbind p).node? v = some .directory := by
    intro v hv
    rw [node?_unbind t hp, if_neg, hv]
    rintro rfl
    exact hplain hv
  refine ⟨⟨hdir _ h.base, fun v n hv => hdir _ ?_⟩, h.sorted.filter _⟩
  rw [node?_unbind t hp] at hv
  split at hv
  · cases hv
  · exact h.parent v n hv

/-- Writing a file leaves a tree. -/
theorem IsTree.write (h : t.IsTree) {c : ByteArray} {m : Instant} (hwrite : t.write path c m = .ok t') :
    t'.IsTree := by
  unfold FileTree.write at hwrite
  split at hwrite <;> cases hwrite
  next v node hfile =>
  obtain ⟨slash, hlocate, rfl, hdir, -⟩ := exists_of_locateFile hfile
  exact h.replace hdir (h.beside_of_locate hlocate).1 _

/-- So does moving one. -/
theorem IsTree.move (h : t.IsTree) (hmove : t.move other path = .ok t') : t'.IsTree := by
  obtain ⟨p, slash, n, q, slash', -, hnode, hdir, htarget, -, hdir', rfl⟩ := exists_of_move hmove
  have hplain : t.node? p ≠ some .directory := fun hp => hdir (Option.some.inj (hnode.symm.trans hp))
  have hp : p ≠ [] := by
    rintro rfl
    simp at hplain
  have hbeside := (h.beside_of_locate htarget).1
  refine (h.unbind hplain).replace ?_ ?_ n
  · rw [node?_unbind t hp]
    split
    · simp
    · exact hdir'
  · rw [node?_unbind t hp, if_neg, hbeside]
    intro heq
    exact hplain (heq ▸ hbeside)

/-! ## (2) What is missing -/

/-- `t.Misses dir xs`: steps that are followed from `dir` come to where nothing stands. -/
inductive Misses (t : FileTree) : Place → List String → Prop
  /-- A step up. -/
  | up {dir : Place} {xs : List String} (rest : Misses t dir.dropLast xs) : Misses t dir (".." :: xs)
  /-- A step into a directory. -/
  | down {dir : Place} {s : String} {xs : List String} (ne_up : s ≠ "..")
      (node : t.node? (dir ++ [s]) = some .directory) (rest : Misses t (dir ++ [s]) xs) : Misses t dir (s :: xs)
  /-- A link that is followed. -/
  | through {dir : Place} {s target : String} {xs : List String} (ne_up : s ≠ "..")
      (node : t.node? (dir ++ [s]) = some (.link target))
      (rest : Misses t (if isAbsolute target then [] else dir) (steps target ++ xs)) : Misses t dir (s :: xs)
  /-- Nothing is there. -/
  | missing {dir : Place} {s : String} {xs : List String} (ne_up : s ≠ "..") (node : t.node? (dir ++ [s]) = none) :
      Misses t dir (s :: xs)

/-- **What is not found is missing**: following ends where nothing stands, or breaks off there. -/
theorem misses_of_followLinks (h : t.Grounded) {links : Nat} {segs : List String}
    (hdir : t.node? dir = some .directory) (hmissing : t.followLinks true links dir segs = .error .notFound ∨
      ∃ v slash, t.followLinks true links dir segs = .ok (v, slash) ∧ t.node? v = none) :
    t.Misses dir (segs.filter counts) := by
  generalize hr : t.followLinks true links dir segs = r at hmissing
  rw [← follows_iff] at hr
  induction hr with
  | here =>
    rcases hmissing with hmissing | ⟨v, slash, hok, hnone⟩
    · cases hmissing
    · cases hok
      cases hdir.symm.trans hnone
  | skip hcounts _ ih =>
    rw [List.filter_cons_of_neg (by simp [hcounts])]
    exact ih hdir hmissing
  | up _ ih =>
    rw [List.filter_cons_of_pos (by decide)]
    exact .up (ih (h.parent _ _ hdir) hmissing)
  | down hcounts hup _ hnode _ ih =>
    rw [List.filter_cons_of_pos hcounts]
    exact .down hup hnode (ih hnode hmissing)
  -- Here nothing stands, and the rest of the path does not matter.
  | absent hcounts hup _ hnode | missing hcounts hup _ hnode =>
    rw [List.filter_cons_of_pos hcounts]
    exact .missing hup hnode
  | file _ _ _ hnode =>
    rcases hmissing with hmissing | ⟨v, slash, hok, hnone⟩
    · cases hmissing
    · cases hok
      cases hnode.symm.trans hnone
  -- A link is replaced by where it leads, in front of what is left of the path.
  | through hcounts hup _ hnode _ _ ih =>
    have hstart := h.link_start hnode
    rw [List.dropLast_concat] at hstart
    have hrest := ih hstart hmissing
    rw [List.filter_append] at hrest
    rw [List.filter_cons_of_pos hcounts]
    exact .through hup hnode hrest
  | place hth => cases hth
  | long | blocked | loop => simp at hmissing

/-- **Where no file is found**, the path comes to where nothing stands. -/
theorem misses_of_read (h : t.Grounded) (hclean : Clean path) (hread : t.read path = .error .notFound) :
    t.Misses (t.start path) (steps path) := by
  unfold read look at hread
  rw [hclean.locate_eq] at hread
  have hmissing : t.followLinks true maxLinks (t.start path) (segments path) = .error .notFound ∨
      ∃ v slash, t.followLinks true maxLinks (t.start path) (segments path) = .ok (v, slash) ∧ t.node? v = none := by
    rcases hfollow : t.followLinks true maxLinks (t.start path) (segments path) with x | ⟨v, slash⟩
    · rw [hfollow] at hread
      cases hread
      exact .inl rfl
    · rw [hfollow] at hread
      dsimp only at hread
      rcases hnode : t.node? v with _ | _ | _ | target
      · exact .inr ⟨v, slash, rfl, hnode⟩
      all_goals
        rw [hnode] at hread
        cases hread
  exact misses_of_followLinks h (h.start path) hmissing

/-! ## (3) After a move -/

/-- Where a directory's own segment ends a path, a directory is arrived at. -/
theorem Grounded.directory_of_followLinks (h : t.Grounded) {th slash : Bool} {links : Nat} {segs : List String}
    (hdir : t.node? dir = some .directory) (hlast : ∀ s ∈ segs.getLast?, s = ".")
    (hok : t.followLinks th links dir segs = .ok (v, slash)) : t.node? v = some .directory := by
  -- What is left after a segment ends with that segment too, and is something if the segment counts.
  have hrest : ∀ {s : String} {rest : List String}, (∀ x ∈ (s :: rest).getLast?, x = ".") →
      ∀ x ∈ rest.getLast?, x = "." := fun hcons x hx =>
    hcons x (by rw [List.getLast?_cons, Option.mem_def.1 hx]; rfl)
  have hmore : ∀ {s : String} {rest : List String}, counts s = true → (∀ x ∈ (s :: rest).getLast?, x = ".") →
      rest ≠ [] := by
    rintro s rest hcounts hcons rfl
    obtain rfl := hcons s rfl
    exact absurd hcounts (by decide)
  rw [← follows_iff] at hok
  generalize hr : Except.ok (v, slash) = r at hok
  induction hok with
  | here =>
    cases hr
    exact hdir
  | skip _ _ ih => exact ih hdir (hrest hlast) hr
  | up _ ih => exact ih (h.parent _ _ hdir) (hrest hlast) hr
  | down _ _ _ hnode _ ih => exact ih hnode (hrest hlast) hr
  | through hcounts _ _ hnode _ _ ih =>
    have hstart := h.link_start hnode
    rw [List.dropLast_concat] at hstart
    refine ih hstart (fun x hx => hrest hlast x ?_) hr
    rwa [List.getLast?_append_of_ne_nil _ (hmore hcounts hlast)] at hx
  | absent hcounts _ _ _ hslashes =>
    obtain ⟨front, x, rfl⟩ := (List.eq_nil_or_concat _).resolve_left (hmore hcounts hlast)
    exact absurd ((hrest hlast x (by simp)).symm.trans (hslashes x (by simp))) (by decide)
  | file hcounts | place _ hcounts => exact absurd rfl (hmore hcounts hlast)
  | long | missing | blocked | loop => cases hr

/-- The path to which a file is moved ends with its name. -/
theorem Grounded.segments_of_move (h : t.Grounded) {name : String} (hsteps : steps path = xs ++ [name])
    (hmove : t.move other path = .ok t') : ∃ segs, segments path = segs ++ [name] := by
  obtain ⟨-, -, -, q, slash, -, -, -, htarget, hslash, hdir, -⟩ := exists_of_move hmove
  obtain ⟨front, tail, hsegs, -, htail, -, -⟩ := exists_segments hsteps
  rcases List.eq_nil_or_concat tail with rfl | ⟨more, s, rfl⟩
  · exact ⟨front, hsegs⟩
  rw [List.concat_eq_append, ← List.cons_append, ← List.append_assoc] at hsegs
  have hs : counts s = false := by simpa using List.filter_eq_nil_iff.1 htail s (by simp)
  by_cases hempty : s = ""
  · exact absurd (Text.endsWith_of_split (hempty ▸ hsegs) (by simp)) hslash
  · obtain rfl : s = "." := by simpa [counts, hempty] using hs
    rw [(clean_of_locate htarget).locate_eq, hsegs] at htarget
    refine absurd (h.directory_of_followLinks (h.start path) ?_ htarget) hdir
    rw [List.getLast?_concat]
    simp

/-- `t.Heads p q dir xs`: steps that are followed from `dir` come to a file, or to the place `q`. They do not come to
`p` before. -/
inductive Heads (t : FileTree) (p q : Place) : Place → List String → Prop
  /-- They are there. -/
  | there {dir : Place} {s : String} {xs : List String} (ne_up : s ≠ "..") (place : dir ++ [s] = q) :
      Heads t p q dir (s :: xs)
  /-- A file is come to. -/
  | file {dir : Place} {s : String} {xs : List String} {c : ByteArray} {m : Instant} (ne_up : s ≠ "..")
      (ne : dir ++ [s] ≠ p) (node : t.node? (dir ++ [s]) = some (.file c m)) : Heads t p q dir (s :: xs)
  /-- A step up. -/
  | up {dir : Place} {xs : List String} (rest : Heads t p q dir.dropLast xs) : Heads t p q dir (".." :: xs)
  /-- A step into a directory. -/
  | down {dir : Place} {s : String} {xs : List String} (ne_up : s ≠ "..") (ne : dir ++ [s] ≠ p)
      (node : t.node? (dir ++ [s]) = some .directory) (rest : Heads t p q (dir ++ [s]) xs) : Heads t p q dir (s :: xs)
  /-- A link that is followed. -/
  | through {dir : Place} {s target : String} {xs : List String} (ne_up : s ≠ "..") (ne : dir ++ [s] ≠ p)
      (node : t.node? (dir ++ [s]) = some (.link target))
      (rest : Heads t p q (if isAbsolute target then [] else dir) (steps target ++ xs)) : Heads t p q dir (s :: xs)

/-- Further steps do not change what the first ones come to. -/
theorem Heads.append {ys : List String} (h : t.Heads p q dir xs) : t.Heads p q dir (xs ++ ys) := by
  induction h with
  | there hup hplace => exact .there hup hplace
  | file hup hne hnode => exact .file hup hne hnode
  | up _ ih => exact .up ih
  | down hup hne hnode _ ih => exact .down hup hne hnode ih
  | through hup hne hnode _ ih => exact .through hup hne hnode (by rwa [List.append_assoc] at ih)

/-- A way that can be passed, and a step to the place. -/
theorem heads_of_passable {name : String} (hname : name ≠ "..")
    (h : Leads t (fun v => t.Passable v ∧ v ≠ p) n dir xs v) : t.Heads p (v ++ [name]) dir (xs ++ [name]) := by
  induction h with
  | here => exact .there hname rfl
  | up _ ih => exact .up ih
  | down hup hA hplain _ ih => exact .down hup hA.2 (hA.1.directory hplain) ih
  | through hup hA hlink _ ih => exact .through hup hA.2 hlink (by rwa [List.append_assoc] at ih)

/-- A way to a file, through what stands there. -/
theorem Grounded.heads_of_file (h : t.Grounded) {c : ByteArray} {m : Instant}
    (hway : Leads t (fun u => t.node? u ≠ none ∧ u ≠ p) n dir xs v) (hdir : t.node? dir = some .directory)
    (hfile : t.node? v = some (.file c m)) : t.Heads p q dir xs := by
  induction hway with
  | here =>
    rw [hdir] at hfile
    cases hfile
  | up _ ih => exact .up (ih (h.parent _ _ hdir) hfile)
  | @down n dir v s xs hup hA hplain _ ih =>
    rcases hnode : t.node? (dir ++ [s]) with _ | _ | _ | target
    · exact absurd hnode hA.1
    · exact .down hup hA.2 hnode (ih hnode hfile)
    · exact .file hup hA.2 hnode
    · exact absurd hnode (hplain target)
  | through hup hA hlink _ ih =>
    have hstart := h.link_start hlink
    rw [List.dropLast_concat] at hstart
    exact .through hup hA.2 hlink (ih hstart hfile)

/-- **What came to a file, or to the place of a move, comes to nothing that is missing after it.** What was moved is a
file, or a link that came to one. -/
theorem not_misses {node : Node} (hmoved : t'.node? q = some node) (hnode : node ≠ .directory)
    (hlink : ∀ target, node = .link target → t.Heads p q (if isAbsolute target then [] else q.dropLast) (steps target))
    (hsame : ∀ v, v ≠ p → v ≠ q → t'.node? v = t.node? v) (h : t'.Misses dir xs) : ¬ t.Heads p q dir xs := by
  -- Elsewhere than at the place, both trees are followed alike. At the place a link is followed once more.
  induction h with
  | up _ ih =>
    intro hheads
    cases hheads with
    | up rest => exact ih rest
    | there hup | file hup | down hup | through hup => exact hup rfl
  | @down dir s xs hup hdir _ ih =>
    intro hheads
    have hq : dir ++ [s] ≠ q := by
      intro heq
      rw [heq, hmoved] at hdir
      exact hnode (Option.some.inj hdir)
    cases hheads with
    | up => exact hup rfl
    | there _ hplace => exact hq hplace
    | down _ _ _ rest => exact ih rest
    | file _ hne hstands | through _ hne hstands =>
      rw [hsame _ hne hq, hstands] at hdir
      cases hdir
  | @through dir s target xs hup hstands _ ih =>
    intro hheads
    by_cases hq : dir ++ [s] = q
    · rw [hq, hmoved] at hstands
      have hagain := hlink target (Option.some.inj hstands)
      have hback : q.dropLast = dir := by rw [← hq, List.dropLast_concat]
      rw [hback] at hagain
      exact ih hagain.append
    cases hheads with
    | up => exact hup rfl
    | there _ hplace => exact hq hplace
    | file _ hne hstands' | down _ hne hstands' =>
      rw [hsame _ hne hq, hstands'] at hstands
      cases hstands
    | through _ hne hstands' rest =>
      rw [hsame _ hne hq, hstands'] at hstands
      cases hstands
      exact ih rest
  | @missing dir s xs hup hnone =>
    intro hheads
    have hq : dir ++ [s] ≠ q := by
      intro heq
      rw [heq, hmoved] at hnone
      cases hnone
    cases hheads with
    | up => exact hup rfl
    | there _ hplace => exact hq hplace
    | file _ hne hstands | down _ hne hstands | through _ hne hstands =>
      rw [hsame _ hne hq, hstands] at hnone
      cases hnone

/-- **A file that was written beside a path and moved there is not missed.** Links may stand on the way, at the path and
under the other name. -/
theorem read_ne_notFound {t₀ t₁ t₂ : FileTree} {temporary name : String} {c : ByteArray} {m : Instant}
    (htree : t₁.Grounded) (htree' : t₂.Grounded) (hsteps : steps path = xs ++ [name])
    (hsteps' : steps temporary = xs ++ [other]) (habs : isAbsolute temporary = isAbsolute path)
    (hsegs : ∃ segs, segments temporary = segs ++ [other]) (hname : name ≠ "..") (hother : other ≠ "..")
    (hwrite : t₀.write temporary c m = .ok t₁) (hmove : t₁.move temporary path = .ok t₂) :
    t₂.read path ≠ .error .notFound := by
  intro hread
  obtain ⟨P, v, node, hopens, hnode, hdir, hfile, hleads, rfl⟩ := exists_of_move_write hsteps hsteps' habs
    (htree.segments_of_move hsteps hmove) hsegs hname hother hwrite hmove
  have hmoved := node?_moved t₁ node (p := P ++ [other]) (q := P ++ [name]) (by simp) (by simp)
  -- The way to that directory does not pass what leads to the file.
  obtain ⟨k', -, hway'⟩ := hopens.way
  have hfree : Leads t₁ (fun u => t₁.Passable u ∧ u ≠ P ++ [other]) k' (t₁.start path) xs P := by
    refine (htree.avoids_or_resolves (hway'.mono fun _ hv => hv.2) _).resolve_right ?_
    rintro ⟨u, hu, hdirectory⟩
    rw [← hleads.unique hu, hfile] at hdirectory
    cases hdirectory
  refine not_misses (t := t₁) (p := P ++ [other]) ((hmoved (P ++ [name])).trans (if_pos rfl)) hdir
    (fun target hlinked => ?_) (fun u hup huq => ?_) (misses_of_read htree' hopens.clean hread) ?_
  · subst hlinked
    cases hleads with
    | self hplain => exact absurd hnode (hplain target)
    | through hlink hlinked _ =>
      rw [hnode] at hlink
      cases hlink
      have hbeside : (P ++ [name]).dropLast = (P ++ [other]).dropLast := by
        rw [List.dropLast_concat, List.dropLast_concat]
      rw [hbeside]
      exact htree.heads_of_file (hlinked.avoids hnode) (htree.link_start hnode) hfile
  · rw [hmoved, if_neg huq, if_neg hup]
  · rw [hsteps]
    exact heads_of_passable hname hfree

end FileTree

end LayeredBundles
