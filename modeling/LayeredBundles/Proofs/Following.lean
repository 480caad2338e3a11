import LayeredBundles.Proofs.Ways

/-! # Following segments

Segments that do not count are skipped, and each of the others is a step of the way. What stands there decides how
following goes on, or why it ends.

* **`FileTree.Follows`** — how segments are followed, one constructor for each kind of step, failures included;
  **`FileTree.follows_iff`** says that these are all;
* **`FileTree.Passable`** — what can be passed on the way: directories and links;
* **`FileTree.Leads.followLinks_pass`** — a way that can be passed is followed;
* **`FileTree.Leads.passable_of_followLinks`** — a way that is followed can be passed. -/

namespace LayeredBundles

namespace FileTree

open DiskPath

variable [Charset] {t t' : FileTree} {A B : Place → Prop} {n m : Nat} {dir p q d : Place} {xs ys : List String}
  {path name : String}

/-! ## (1) Following one step -/

/-- Following, up to the first link and from there on. -/
theorem followLinks_eq (t : FileTree) (th : Bool) (links : Nat) (dir : Place) (segs : List String) :
    t.followLinks th links dir segs = match t.follow th dir segs with
      | .error e => .error e
      | .ok (.place p slash) => .ok (p, slash)
      | .ok (.detour start segs) =>
        match links with
        | 0 => .error .linkLoop
        | links + 1 => t.followLinks th links start segs := by
  rcases hfollow : t.follow th dir segs with e | ⟨p, slash⟩ | ⟨start, segs'⟩ <;> cases links <;>
    rw [followLinks, hfollow]

/-- The first segment is skipped, leads up, is too long, or names what decides on the rest. -/
theorem follow_cons (t : FileTree) (th : Bool) (dir : Place) (s : String) (rest : List String) :
    t.follow th dir (s :: rest) =
      if !counts s then t.follow th dir rest
      else if s = ".." then t.follow th dir.dropLast rest
      else if maxName < Charset.size s then .error .invalidName
      else match t.node? (dir ++ [s]) with
        | some .directory => t.follow th (dir ++ [s]) rest
        | some (.file ..) => if rest.isEmpty then .ok (.place (dir ++ [s]) false) else .error .notADirectory
        | some (.link target) =>
          if rest.isEmpty && !th then .ok (.place (dir ++ [s]) false)
          else .ok (.detour (if isAbsolute target then [] else dir) (segments target ++ rest))
        | none => if rest.all (· = "") then .ok (.place (dir ++ [s]) (!rest.isEmpty)) else .error .notFound := rfl

section Step

variable (t) (th : Bool) (links : Nat) (dir : Place) {s : String} (rest : List String)

/-- Empty steps and single dots are passed over. -/
theorem followLinks_skip (h : counts s = false) :
    t.followLinks th links dir (s :: rest) = t.followLinks th links dir rest := by
  rw [followLinks_eq, followLinks_eq t th links dir rest]
  simp [follow_cons, h]

/-- Two dots lead up. -/
theorem followLinks_up :
    t.followLinks th links dir (".." :: rest) = t.followLinks th links dir.dropLast rest := by
  have hcounts : counts ".." = true := by decide
  rw [followLinks_eq, followLinks_eq t th links dir.dropLast rest]
  simp [follow_cons, hcounts]

variable (hcounts : counts s = true) (hup : s ≠ "..")

include hcounts hup

/-- A name that is too long is refused before anything is looked up. -/
theorem followLinks_long (hlong : maxName < Charset.size s) :
    t.followLinks th links dir (s :: rest) = .error .invalidName := by
  rw [followLinks_eq]
  simp [follow_cons, hcounts, hup, hlong]

variable (hshort : Charset.size s ≤ maxName)

include hshort

/-- A directory is entered. -/
theorem followLinks_directory (h : t.node? (dir ++ [s]) = some .directory) :
    t.followLinks th links dir (s :: rest) = t.followLinks th links (dir ++ [s]) rest := by
  rw [followLinks_eq, followLinks_eq t th links (dir ++ [s]) rest]
  simp [follow_cons, hcounts, hup, Nat.not_lt.2 hshort, h]

/-- A file ends the way, and no step may follow, not even an empty one. -/
theorem followLinks_file {contents : ByteArray} {modified : Instant}
    (h : t.node? (dir ++ [s]) = some (.file contents modified)) :
    t.followLinks th links dir (s :: rest) =
      if rest.isEmpty then .ok (dir ++ [s], false) else .error .notADirectory := by
  rw [followLinks_eq]
  simp only [follow_cons, hcounts, hup, Nat.not_lt.2 hshort, h, Bool.not_true, Bool.false_eq_true,
    ↓reduceIte]
  cases rest.isEmpty <;> rfl

/-- Where nothing stands the way may end, with a slash or without. -/
theorem followLinks_none (h : t.node? (dir ++ [s]) = none) :
    t.followLinks th links dir (s :: rest) =
      if rest.all (· = "") then .ok (dir ++ [s], !rest.isEmpty) else .error .notFound := by
  rw [followLinks_eq]
  simp only [follow_cons, hcounts, hup, Nat.not_lt.2 hshort, h, Bool.not_true, Bool.false_eq_true,
    ↓reduceIte]
  cases rest.all (· = "") <;> rfl

/-- A link is followed from where it stands, or from the root, as long as one may be. -/
theorem followLinks_link {target : String} (h : t.node? (dir ++ [s]) = some (.link target))
    (hth : rest = [] → th = true) :
    t.followLinks th links dir (s :: rest) = match links with
      | 0 => .error .linkLoop
      | links + 1 => t.followLinks th links (if isAbsolute target then [] else dir)
          (segments target ++ rest) := by
  have hcond : (rest.isEmpty && !th) = false := by
    cases rest with
    | nil => simp [hth rfl]
    | cons => simp
  rw [followLinks_eq]
  simp only [follow_cons, hcounts, hup, Nat.not_lt.2 hshort, h, hcond, Bool.not_true, Bool.false_eq_true,
    ↓reduceIte]

/-- A link that is the last segment is not followed, unless asked for. -/
theorem followLinks_place {target : String} (h : t.node? (dir ++ [s]) = some (.link target)) :
    t.followLinks false links dir [s] = .ok (dir ++ [s], false) := by
  rw [followLinks_eq]
  simp [follow_cons, hcounts, hup, Nat.not_lt.2 hshort, h]

end Step

/-- Segments that do not count are skipped. -/
theorem followLinks_skip_all (t : FileTree) (th : Bool) (links : Nat) (dir : Place) {segs : List String}
    (h : segs.filter counts = []) (rest : List String) :
    t.followLinks th links dir (segs ++ rest) = t.followLinks th links dir rest := by
  induction segs with
  | nil => rfl
  | cons s segs ih =>
    have hs := List.filter_eq_nil_iff.1 h
    have hcounts : counts s = false := by simpa using hs s (by simp)
    rw [List.cons_append, followLinks_skip t th links dir _ hcounts]
    exact ih (List.filter_eq_nil_iff.2 fun x hx => hs x (List.mem_cons_of_mem _ hx))

/-- Without a step the way ends where it began. -/
theorem followLinks_nil (t : FileTree) (th : Bool) (links : Nat) (dir : Place) :
    t.followLinks th links dir [] = .ok (dir, false) := by
  rw [followLinks_eq]
  rfl

/-- Without steps, following ends where it begins. -/
theorem followLinks_no_steps (t : FileTree) (th : Bool) (links : Nat) (dir : Place) {segs : List String}
    (h : segs.filter counts = []) : t.followLinks th links dir segs = .ok (dir, false) := by
  rw [← List.append_nil segs, followLinks_skip_all t th links dir h, followLinks_nil]

/-- Segments, split before their first step. -/
theorem followLinks_first (t : FileTree) (th : Bool) (links : Nat) (dir : Place) {segs : List String}
    {s : String} (h : segs.filter counts = s :: xs) :
    ∃ front, counts s = true ∧ front.filter counts = xs ∧ ∀ rest,
      t.followLinks th links dir (segs ++ rest) = t.followLinks th links dir (s :: (front ++ rest)) := by
  obtain ⟨before, front, rfl, hbefore, hs, hfront⟩ := List.filter_eq_cons_iff.1 h
  refine ⟨front, hs, hfront, fun rest => ?_⟩
  rw [List.append_assoc, followLinks_skip_all t th links dir (List.filter_eq_nil_iff.2 hbefore)]
  rfl

/-- `t.Follows th links dir segs r`: from `dir`, over `links` links at most, the segments are followed to the result
`r`. -/
inductive Follows (t : FileTree) (th : Bool) : Nat → Place → List String → Except FileError (Place × Bool) → Prop
  /-- There is nothing to follow. -/
  | here {links : Nat} {dir : Place} : Follows t th links dir [] (.ok (dir, false))
  /-- A segment without a step. -/
  | skip {links : Nat} {dir : Place} {s : String} {rest : List String} {r : Except FileError (Place × Bool)}
      (counts_eq : counts s = false) (next : Follows t th links dir rest r) : Follows t th links dir (s :: rest) r
  /-- A step up. -/
  | up {links : Nat} {dir : Place} {rest : List String} {r : Except FileError (Place × Bool)}
      (next : Follows t th links dir.dropLast rest r) : Follows t th links dir (".." :: rest) r
  /-- A name that is too long. -/
  | long {links : Nat} {dir : Place} {s : String} {rest : List String} (counts_eq : counts s = true)
      (ne_up : s ≠ "..") (long : maxName < Charset.size s) : Follows t th links dir (s :: rest) (.error .invalidName)
  /-- A step into a directory. -/
  | down {links : Nat} {dir : Place} {s : String} {rest : List String} {r : Except FileError (Place × Bool)}
      (counts_eq : counts s = true) (ne_up : s ≠ "..") (short : Charset.size s ≤ maxName)
      (node : t.node? (dir ++ [s]) = some .directory) (next : Follows t th links (dir ++ [s]) rest r) :
      Follows t th links dir (s :: rest) r
  /-- A last step to where nothing stands. Slashes may follow it. -/
  | absent {links : Nat} {dir : Place} {s : String} {rest : List String} (counts_eq : counts s = true)
      (ne_up : s ≠ "..") (short : Charset.size s ≤ maxName) (node : t.node? (dir ++ [s]) = none)
      (slashes : ∀ x ∈ rest, x = "") : Follows t th links dir (s :: rest) (.ok (dir ++ [s], !rest.isEmpty))
  /-- A step to where nothing stands, and more segments. -/
  | missing {links : Nat} {dir : Place} {s : String} {rest : List String} (counts_eq : counts s = true)
      (ne_up : s ≠ "..") (short : Charset.size s ≤ maxName) (node : t.node? (dir ++ [s]) = none)
      (more : ¬ ∀ x ∈ rest, x = "") : Follows t th links dir (s :: rest) (.error .notFound)
  /-- A last step to a file. -/
  | file {links : Nat} {dir : Place} {s : String} {contents : ByteArray} {modified : Instant}
      (counts_eq : counts s = true) (ne_up : s ≠ "..") (short : Charset.size s ≤ maxName)
      (node : t.node? (dir ++ [s]) = some (.file contents modified)) :
      Follows t th links dir [s] (.ok (dir ++ [s], false))
  /-- A step to a file, and more segments. -/
  | blocked {links : Nat} {dir : Place} {s : String} {rest : List String} {contents : ByteArray} {modified : Instant}
      (counts_eq : counts s = true) (ne_up : s ≠ "..") (short : Charset.size s ≤ maxName)
      (node : t.node? (dir ++ [s]) = some (.file contents modified)) (more : rest ≠ []) :
      Follows t th links dir (s :: rest) (.error .notADirectory)
  /-- A last step to a link, where links at the end are not followed. -/
  | place {links : Nat} {dir : Place} {s target : String} (stays : th = false) (counts_eq : counts s = true)
      (ne_up : s ≠ "..") (short : Charset.size s ≤ maxName) (node : t.node? (dir ++ [s]) = some (.link target)) :
      Follows t th links dir [s] (.ok (dir ++ [s], false))
  /-- A link that is followed. -/
  | through {links : Nat} {dir : Place} {s target : String} {rest : List String}
      {r : Except FileError (Place × Bool)} (counts_eq : counts s = true) (ne_up : s ≠ "..")
      (short : Charset.size s ≤ maxName) (node : t.node? (dir ++ [s]) = some (.link target))
      (followed : rest = [] → th = true)
      (next : Follows t th links (if isAbsolute target then [] else dir) (segments target ++ rest) r) :
      Follows t th (links + 1) dir (s :: rest) r
  /-- A link, where no more links may be followed. -/
  | loop {dir : Place} {s target : String} {rest : List String} (counts_eq : counts s = true) (ne_up : s ≠ "..")
      (short : Charset.size s ≤ maxName) (node : t.node? (dir ++ [s]) = some (.link target))
      (followed : rest = [] → th = true) : Follows t th 0 dir (s :: rest) (.error .linkLoop)

/-- **However segments are followed**, each of them is one of these. -/
theorem follows (t : FileTree) (th : Bool) (links : Nat) (dir : Place) (segs : List String) :
    t.Follows th links dir segs (t.followLinks th links dir segs) := by
  -- By induction on the links that may still be followed, and on the segments up to the next link.
  induction links using Nat.strongRecOn generalizing dir segs with
  | ind links ih =>
    induction segs generalizing dir with
    | nil =>
      rw [followLinks_nil]
      exact .here
    | cons s segs ihsegs =>
      by_cases hcounts : counts s = true
      case neg =>
        have hskip : counts s = false := by simpa using hcounts
        rw [followLinks_skip t th links dir segs hskip]
        exact .skip hskip (ihsegs dir)
      by_cases hup : s = ".."
      · subst hup
        rw [followLinks_up]
        exact .up (ihsegs _)
      by_cases hshort : Charset.size s ≤ maxName
      case neg =>
        have hlong := Nat.not_le.1 hshort
        rw [followLinks_long t th links dir segs hcounts hup hlong]
        exact .long hcounts hup hlong
      rcases hnode : t.node? (dir ++ [s]) with _ | _ | ⟨contents, modified⟩ | target
      · rw [followLinks_none t th links dir segs hcounts hup hshort hnode]
        split
        · next hslashes => exact .absent hcounts hup hshort hnode (by simpa using hslashes)
        · next hmore => exact .missing hcounts hup hshort hnode (by simpa using hmore)
      · rw [followLinks_directory t th links dir segs hcounts hup hshort hnode]
        exact .down hcounts hup hshort hnode (ihsegs _)
      · rw [followLinks_file t th links dir segs hcounts hup hshort hnode]
        split
        · next hempty =>
          obtain rfl := List.isEmpty_iff.1 hempty
          exact .file hcounts hup hshort hnode
        · next hmore => exact .blocked hcounts hup hshort hnode (by simpa using hmore)
      · by_cases hplace : segs = [] ∧ th = false
        · obtain ⟨rfl, rfl⟩ := hplace
          rw [followLinks_place t links dir hcounts hup hshort hnode]
          exact .place rfl hcounts hup hshort hnode
        have hfollowed : segs = [] → th = true := fun hnil => by simpa using fun hth => hplace ⟨hnil, hth⟩
        rw [followLinks_link t th links dir segs hcounts hup hshort hnode hfollowed]
        cases links with
        | zero => exact .loop hcounts hup hshort hnode hfollowed
        | succ links => exact .through hcounts hup hshort hnode hfollowed (ih links (Nat.lt_succ_self _) _ _)

/-- What the rules say is what is computed. -/
theorem Follows.followLinks_eq {th : Bool} {links : Nat} {segs : List String} {r : Except FileError (Place × Bool)}
    (h : t.Follows th links dir segs r) : t.followLinks th links dir segs = r := by
  induction h with
  | here => rw [followLinks_nil]
  | skip hcounts _ ih => rw [followLinks_skip t th _ _ _ hcounts, ih]
  | up _ ih => rw [followLinks_up, ih]
  | long hcounts hup hlong => rw [followLinks_long t th _ _ _ hcounts hup hlong]
  | down hcounts hup hshort hnode _ ih => rw [followLinks_directory t th _ _ _ hcounts hup hshort hnode, ih]
  | absent hcounts hup hshort hnode hslashes =>
    rw [followLinks_none t th _ _ _ hcounts hup hshort hnode, if_pos (by simpa using hslashes)]
  | missing hcounts hup hshort hnode hmore =>
    rw [followLinks_none t th _ _ _ hcounts hup hshort hnode, if_neg (by simpa using hmore)]
  | file hcounts hup hshort hnode =>
    rw [followLinks_file t th _ _ _ hcounts hup hshort hnode, if_pos List.isEmpty_nil]
  | blocked hcounts hup hshort hnode hmore =>
    rw [followLinks_file t th _ _ _ hcounts hup hshort hnode, if_neg (by simpa using hmore)]
  | place hth hcounts hup hshort hnode => rw [hth, followLinks_place t _ _ hcounts hup hshort hnode]
  | through hcounts hup hshort hnode hfollowed _ ih =>
    rw [followLinks_link t th _ _ _ hcounts hup hshort hnode hfollowed]
    exact ih
  | loop hcounts hup hshort hnode hfollowed => rw [followLinks_link t th 0 _ _ hcounts hup hshort hnode hfollowed]

/-- **Following is told by its steps.** -/
theorem follows_iff {th : Bool} {links : Nat} {segs : List String} {r : Except FileError (Place × Bool)} :
    t.Follows th links dir segs r ↔ t.followLinks th links dir segs = r :=
  ⟨Follows.followLinks_eq, fun h => h ▸ t.follows th links dir segs⟩

/-! ## (2) Passing a way -/

/-- What can be passed on the way: directories and links whose names are not too long. -/
structure Passable (t : FileTree) (v : Place) : Prop where
  /-- Something stands there that leads on. -/
  leadsOn : t.node? v = some .directory ∨ ∃ target, t.node? v = some (.link target)
  /-- The name can be followed. -/
  short : Charset.size (v.getLast?.getD "") ≤ maxName

/-- What can be passed can be where the same stands. -/
theorem Passable.congr {v : Place} (h : t.Passable v) (hnode : t'.node? v = t.node? v) : t'.Passable v :=
  ⟨by rw [hnode]; exact h.leadsOn, h.short⟩

/-- What can be passed and is no link is a directory. -/
theorem Passable.directory {v : Place} (h : t.Passable v)
    (hlink : ∀ target, t.node? v ≠ some (.link target)) : t.node? v = some .directory :=
  h.leadsOn.resolve_right fun ⟨target, ht⟩ => hlink target ht

/-- The names on a way that can be passed are not too long. -/
theorem Passable.short_step {s : String} (h : t.Passable (dir ++ [s])) : Charset.size s ≤ maxName := by
  simpa using h.short

/-- **A way that can be passed is passed.** A link at its end is followed if links are, or if more segments stand
behind it. -/
theorem Leads.followLinks_pass (h : Leads t t.Passable n dir xs q) {front rest : List String}
    (hfront : front.filter counts = xs) {th : Bool} (hrest : rest = [] → th = true) {links : Nat} (hn : n ≤ links) :
    t.followLinks th links dir (front ++ rest) = t.followLinks th (links - n) q rest := by
  -- The bound on links is one smaller behind every link, so it is no constant of the induction.
  induction h generalizing front links with
  | here => rw [followLinks_skip_all t th links _ hfront, Nat.sub_zero]
  | up _ ih =>
    obtain ⟨front', -, hfront', heq⟩ := followLinks_first t th links _ hfront
    rw [heq, followLinks_up]
    exact ih hfront' hn
  | down hs hpass hlink _ ih =>
    obtain ⟨front', hcounts, hfront', heq⟩ := followLinks_first t th links _ hfront
    rw [heq, followLinks_directory t th links _ _ hcounts hs hpass.short_step (hpass.directory hlink)]
    exact ih hfront' hn
  | @through n dir q s target xs hs hpass hlink _ ih =>
    obtain ⟨front', hcounts, hfront', heq⟩ := followLinks_first t th links dir hfront
    obtain ⟨k, rfl⟩ : ∃ k, links = k + 1 := ⟨links - 1, by omega⟩
    have hskip : front' ++ rest = [] → th = true := fun hnil => hrest (List.append_eq_nil_iff.1 hnil).2
    rw [heq, followLinks_link t th (k + 1) dir _ hcounts hs hpass.short_step hlink hskip,
      ← List.append_assoc, Nat.add_sub_add_right]
    exact ih (by rw [List.filter_append, hfront']; rfl) (Nat.le_of_succ_le_succ hn)

/-- What stands behind a way that can be passed is followed from its end. -/
theorem Leads.followLinks_append (h : Leads t t.Passable n dir xs q) {front rest : List String}
    (hfront : front.filter counts = xs) (hrest : rest ≠ []) {links : Nat} (hn : n ≤ links) (th : Bool) :
    t.followLinks th links dir (front ++ rest) = t.followLinks th (links - n) q rest :=
  h.followLinks_pass hfront (fun hnil => absurd hnil hrest) hn

/-- The end of a way that can be passed is arrived at. -/
theorem Leads.followLinks_end (h : Leads t t.Passable n dir xs q) {segs : List String} (hsegs : segs.filter counts = xs)
    {links : Nat} (hn : n ≤ links) : t.followLinks true links dir segs = .ok (q, false) := by
  rw [← List.append_nil segs, h.followLinks_pass hsegs (fun _ => rfl) hn, followLinks_nil]

/-- A step that is not the last one is to what can be passed. -/
theorem passable_of_followLinks_cons {s : String} {rest : List String} {th : Bool} {links : Nat} {r : Place × Bool}
    (hcounts : counts s = true) (hup : s ≠ "..") (hmore : rest.filter counts ≠ [])
    (hok : t.followLinks th links dir (s :: rest) = .ok r) : t.Passable (dir ++ [s]) := by
  generalize hr : Except.ok r = result at hok
  cases follows_iff.2 hok with
  | skip hskip => simp [hcounts] at hskip
  | up => exact absurd rfl hup
  | down _ _ hshort hnode => exact ⟨.inl hnode, by simpa using hshort⟩
  | absent _ _ _ _ hslashes => exact absurd (filter_slashes hslashes) hmore
  | file | place => exact absurd rfl hmore
  | through _ _ hshort hnode => exact ⟨.inr ⟨_, hnode⟩, by simpa using hshort⟩
  | long | missing | blocked | loop => cases hr

/-- **A way that is passed can be passed.** What is followed may be another tree, as long as nothing can be passed
there that is not the same in this one. -/
theorem Leads.passable_across (h : Leads t A n dir xs q) (hsame : ∀ v, t'.Passable v → t'.node? v = t.node? v)
    {front rest : List String} (hfront : front.filter counts = xs) (hrest : rest.filter counts ≠ []) {links : Nat}
    {th : Bool} {r : Place × Bool} (hok : t'.followLinks th links dir (front ++ rest) = .ok r) :
    n ≤ links ∧ Leads t' (fun v => A v ∧ t'.Passable v) n dir xs q := by
  -- No step of the way is the last one.
  have hmore : ∀ front' : List String, (front' ++ rest).filter counts ≠ [] := by
    intro front' hnone
    rw [List.filter_append] at hnone
    exact hrest (List.append_eq_nil_iff.1 hnone).2
  induction h generalizing front links with
  | here => exact ⟨Nat.zero_le _, .here⟩
  | up _ ih =>
    obtain ⟨front', -, hfront', heq⟩ := followLinks_first t' th links _ hfront
    rw [heq, followLinks_up] at hok
    exact (ih hfront' hok).imp id .up
  | @down n dir q s xs hs hA hlink _ ih =>
    obtain ⟨front', hcounts, hfront', heq⟩ := followLinks_first t' th links dir hfront
    rw [heq] at hok
    have hv := passable_of_followLinks_cons hcounts hs (hmore front') hok
    have hlink' : ∀ target, t'.node? (dir ++ [s]) ≠ some (.link target) := by rw [hsame _ hv]; exact hlink
    rw [followLinks_directory t' th links dir _ hcounts hs hv.short_step (hv.directory hlink')] at hok
    exact (ih hfront' hok).imp id (.down hs ⟨hA, hv⟩ hlink')
  | @through n dir q s target xs hs hA hlink _ ih =>
    obtain ⟨front', hcounts, hfront', heq⟩ := followLinks_first t' th links dir hfront
    rw [heq] at hok
    have hv := passable_of_followLinks_cons hcounts hs (hmore front') hok
    have hlink' : t'.node? (dir ++ [s]) = some (.link target) := by rw [hsame _ hv]; exact hlink
    have hskip : front' ++ rest = [] → th = true := fun hnil => absurd (by rw [hnil]; rfl) (hmore front')
    rw [followLinks_link t' th links dir _ hcounts hs hv.short_step hlink' hskip] at hok
    cases links with
    | zero => cases hok
    | succ k =>
      rw [← List.append_assoc] at hok
      obtain ⟨hn, hnext⟩ := ih (by rw [List.filter_append, hfront']; rfl) hok
      exact ⟨Nat.succ_le_succ hn, .through hs ⟨hA, hv⟩ hlink' hnext⟩

/-- A way that is passed can be passed. -/
theorem Leads.passable_of_followLinks (h : Leads t A n dir xs q) {front rest : List String}
    (hfront : front.filter counts = xs) (hrest : rest.filter counts ≠ []) {links : Nat} {th : Bool}
    {r : Place × Bool} (hok : t.followLinks th links dir (front ++ rest) = .ok r) :
    n ≤ links ∧ Leads t (fun v => A v ∧ t.Passable v) n dir xs q :=
  h.passable_across (fun _ _ => rfl) hfront hrest hok

/-- **Where a way leads, following it to its end arrives**, if anywhere. -/
theorem Leads.eq_of_followLinks (h : Leads t A n dir xs q) {segs : List String} (hsegs : segs.filter counts = xs)
    {links : Nat} {v : Place} {slash : Bool} (hok : t.followLinks true links dir segs = .ok (v, slash)) : v = q := by
  rw [← follows_iff] at hok
  generalize hr : Except.ok (v, slash) = r at hok
  subst hsegs
  induction hok generalizing n with
  | here =>
    cases hr
    cases h
    rfl
  | skip hcounts _ ih =>
    rw [List.filter_cons_of_neg (by simp [hcounts])] at h
    exact ih hr h
  | up _ ih =>
    rw [List.filter_cons_of_pos (by decide)] at h
    exact ih hr h.after_up
  | down hcounts hup _ hnode _ ih =>
    rw [List.filter_cons_of_pos hcounts] at h
    exact ih hr (h.after_down hup (by simp [hnode])).2
  -- What is left of the path are slashes, which are no steps.
  | absent hcounts hup _ hnode hslashes =>
    rw [List.filter_cons_of_pos hcounts, filter_slashes hslashes] at h
    cases hr
    cases (h.after_down hup (by simp [hnode])).2
    rfl
  | file hcounts hup _ hnode =>
    rw [List.filter_cons_of_pos hcounts] at h
    cases hr
    cases (h.after_down hup (by simp [hnode])).2
    rfl
  | through hcounts hup _ hnode _ _ ih =>
    rw [List.filter_cons_of_pos hcounts] at h
    obtain ⟨m, -, -, hnext⟩ := h.after_link hup hnode
    rw [steps, ← List.filter_append] at hnext
    exact ih hr hnext
  | place hth => cases hth
  | long | missing | blocked | loop => cases hr

end FileTree

end LayeredBundles
