import LayeredBundles.Proofs.Rechecks
import Mathlib.Logic.Relation

/-! # What a check removes that finds nothing changed

A check that finds nothing changed removes the files that an interrupted write may have left: those below the
directory whose names look like that of a temporary file. Nothing else tells them from artifacts, which have the names
of their entries. So an artifact outlives such checks, however many there are, if its name does not look like that,
and else it is gone after the first.

* **`FileTree.Upholds.locate`**, **`FileTree.Upholds.locate_file`** — a path leads where it led, as long as directories
  and links stay;
* **`Extraction.Leftover`** — what is taken for the rest of an interrupted write; **`Extraction.leftover_iff`** says
  that nothing but its place and its name tells;
* **`Root.Approves.node?`** — what a check that finds nothing changed does to the tree;
* **`Root.unchanged_keeps_iff`** — what stands after such checks. -/

namespace LayeredBundles

open FileTree Fallible

/-! ## (1) Paths to directories -/

namespace FileTree

open DiskPath

variable {t t' : FileTree} {th slash : Bool} {links : Nat} {dir p v : Place} {segs : List String} {path : String}
  {n : Node}

/-- `t.Upholds t'`: all directories and links of `t` stand in `t'`. -/
structure Upholds (t t' : FileTree) : Prop where
  /-- Relative paths begin where they began. -/
  base : t'.base = t.base
  /-- Directories and links. -/
  node : ∀ v n, n.isFile = false → t.node? v = some n → t'.node? v = some n

/-- A tree that stays as it is upholds itself. -/
theorem Upholds.refl (t : FileTree) : Upholds t t := ⟨rfl, fun _ _ _ => id⟩

/-- What is upheld twice is upheld. -/
theorem Upholds.trans {t'' : FileTree} (h : Upholds t t') (h' : Upholds t' t'') : Upholds t t'' :=
  ⟨h'.base.trans h.base, fun v n hn hnode => h'.node v n hn (h.node v n hn hnode)⟩

/-- A tree that grows upholds its directories and links. -/
theorem Grows.upholds (h : Grows t t') : Upholds t t' := ⟨h.base, fun _ _ _ => h.node_of_some⟩

/-- Things are taken away one after another. -/
theorem node?_unbindAll_of_mem {α : Type} (place : α → Place) {xs : List α} {x : α} (hx : x ∈ xs)
    (hne : place x ≠ []) (t : FileTree) : (xs.foldl (fun t x => t.unbind (place x)) t).node? (place x) = none := by
  induction xs generalizing t with
  | nil => cases hx
  | cons y xs ih =>
    rw [List.foldl_cons]
    rcases List.mem_cons.1 hx with rfl | hx
    · rcases (node?_unbindAll place xs (t.unbind (place x))).2 (place x) with hsame | ⟨-, hnone⟩
      · rw [hsame, node?_unbind t hne, if_pos rfl]
      · exact hnone
    · exact ih hx _

variable [Charset]

/-- **Segments that lead to what stands** lead there still, as a directory or a link stays and a file stays one.
Whether a link at the end is followed matters only where no file stands. -/
theorem Upholds.followLinks (h : Upholds t t') {n' : Node} {th' : Bool} (hnode : t.node? p = some n)
    (hnode' : t'.node? p = some n') (hfile : n'.isFile = n.isFile) (hth : th' = th ∨ th = false ∧ n.isFile = true)
    (hok : t.followLinks th links dir segs = .ok (p, slash)) : t'.followLinks th' links dir segs = .ok (p, slash) := by
  rw [← follows_iff] at hok ⊢
  generalize hr : Except.ok (p, slash) = r at hok ⊢
  induction hok with
  | here => exact .here
  | skip hcounts _ ih => exact .skip hcounts (ih hr)
  | up _ ih => exact .up (ih hr)
  | down hcounts hup hshort hstep _ ih => exact .down hcounts hup hshort (h.node _ _ rfl hstep) (ih hr)
  | absent _ _ _ hstep =>
    cases hr
    cases hstep.symm.trans hnode
  | file hcounts hup hshort hstep =>
    cases hr
    cases hstep.symm.trans hnode
    cases n' with
    | file => exact .file hcounts hup hshort hnode'
    | directory | link => cases hfile
  | place hplace hcounts hup hshort hstep =>
    cases hr
    cases hstep.symm.trans hnode
    obtain rfl := hth.resolve_right fun hlink => nomatch hlink.2
    exact .place hplace hcounts hup hshort (h.node _ _ rfl hstep)
  -- A link that is followed is upheld; where it was the last step, links are still followed.
  | @through _ _ _ _ rest _ hcounts hup hshort hstep hfollowed _ ih =>
    have hfollowed' : rest = [] → th' = true := fun hnil => by
      rcases hth with rfl | ⟨rfl, -⟩
      · exact hfollowed hnil
      · exact absurd (hfollowed hnil) (by decide)
    exact .through hcounts hup hshort (h.node _ _ rfl hstep) hfollowed' (ih hr)
  | long | missing | blocked | loop => cases hr

/-- **A path that leads to a directory or a link** leads there still. -/
theorem Upholds.locate (h : Upholds t t') (hlocate : t.locate th path = .ok (p, slash)) (hnode : t.node? p = some n)
    (hn : n.isFile = false) : t'.locate th path = .ok (p, slash) := by
  have hclean := clean_of_locate hlocate
  rw [hclean.locate_eq] at hlocate ⊢
  rw [FileTree.start, h.base]
  exact h.followLinks hnode (h.node _ _ hn hnode) rfl (.inl rfl) hlocate

/-- **A path that leads to a file** leads there still, as long as one stands there. -/
theorem Upholds.locate_file (h : Upholds t t') (hlocate : t.locate false path = .ok (p, slash)) {c c' : ByteArray}
    {m m' : Instant} (hfile : t.node? p = some (.file c m)) (hfile' : t'.node? p = some (.file c' m')) (th : Bool) :
    t'.locate th path = .ok (p, slash) := by
  have hclean := clean_of_locate hlocate
  rw [hclean.locate_eq] at hlocate ⊢
  rw [FileTree.start, h.base]
  exact h.followLinks hfile hfile' rfl (.inr ⟨rfl, rfl⟩) hlocate

/-- Where a path leads to a directory, a directory or a link stands at its end. -/
theorem exists_of_followLinks (hdir : t.node? p = some .directory)
    (hok : t.followLinks true links dir segs = .ok (p, slash)) :
    ∃ q n, t.followLinks false links dir segs = .ok (q, false) ∧ t.node? q = some n ∧ n.isFile = false := by
  simp only [← follows_iff] at hok ⊢
  generalize hr : Except.ok (p, slash) = r at hok
  induction hok with
  | here =>
    cases hr
    exact ⟨_, _, .here, hdir, rfl⟩
  | skip hcounts _ ih =>
    obtain ⟨q, n, hq, hn⟩ := ih hr
    exact ⟨q, n, .skip hcounts hq, hn⟩
  | up _ ih =>
    obtain ⟨q, n, hq, hn⟩ := ih hr
    exact ⟨q, n, .up hq, hn⟩
  | down hcounts hup hshort hstep _ ih =>
    obtain ⟨q, n, hq, hn⟩ := ih hr
    exact ⟨q, n, .down hcounts hup hshort hstep hq, hn⟩
  | absent _ _ _ hstep | file _ _ _ hstep =>
    cases hr
    cases hstep.symm.trans hdir
  | @through _ _ _ _ rest _ hcounts hup hshort hstep _ _ ih =>
    -- At the last step the walk ends at the link itself; before that it goes through, as the other does.
    by_cases hnil : rest = []
    · subst hnil
      exact ⟨_, _, .place rfl hcounts hup hshort hstep, hstep, rfl⟩
    · obtain ⟨q, n, hq, hn⟩ := ih hr
      exact ⟨q, n, .through hcounts hup hshort hstep (fun h => absurd h hnil) hq, hn⟩
  | place hth => cases hth
  | long | missing | blocked | loop => cases hr

/-- A path under which a directory stands leads to it. -/
theorem exists_locate_of_hasDirectory (h : t.hasDirectory path = true) :
    ∃ p slash, t.locate true path = .ok (p, slash) ∧ t.node? p = some .directory := by
  unfold hasDirectory look at h
  rcases hlocate : t.locate true path with x | ⟨p, slash⟩
  · rw [hlocate] at h
    cases h
  · rcases hnode : t.node? p with _ | n
    · simp [hlocate, hnode] at h
    · cases n with
      | directory => exact ⟨p, slash, rfl, hnode⟩
      | file | link => simp [hlocate, hnode, Node.isDirectory] at h

/-- A path that leads to a directory has one. -/
theorem hasDirectory_of_locate (hlocate : t.locate true path = .ok (p, slash)) (hdir : t.node? p = some .directory) :
    t.hasDirectory path = true := by
  simp [hasDirectory, look, hlocate, hdir, Node.isDirectory]

end FileTree

/-! ## (2) Leftovers -/

namespace Extraction

variable {t t' : FileTree} {dir : String} {v : Place} {w : Workspace}

/-- `Leftover t dir v`: of the files in a directory, the one at `v` is named like a temporary file. -/
def Leftover (t : FileTree) (dir : String) (v : Place) : Prop :=
  ∃ name, (v, name) ∈ filesIn t dir ∧ isTemporary name = true

/-- **The names that are given to temporary files** look like that. -/
theorem isTemporary_temporaryName (name : String) (process serial : Nat) :
    isTemporary (temporaryName name process serial) = true := by
  rw [isTemporary, Bool.and_eq_true, Text.startsWith_iff, Text.endsWith_iff, temporaryName]
  refine ⟨⟨name ++ "." ++ toString process ++ "-" ++ toString serial ++ temporarySuffix, ?_⟩, ⟨_, rfl⟩⟩
  simp only [String.append_assoc]

/-- The files in a directory are all those below it. -/
theorem filesIn_of_hasDirectory {top : Place} {slash : Bool} (hlocate : t.locate true dir = .ok (top, slash))
    (hdir : t.node? top = some .directory) : filesIn t dir = (t.listBelow top).filterMap fun n =>
      if n.2.isFile then some (n.1, n.1.getLast?.getD "") else none := by
  have hclean := clean_of_locate hlocate
  have hfollow := hlocate
  rw [hclean.locate_eq] at hfollow
  obtain ⟨q, n, hq, hnode, hn⟩ := exists_of_followLinks hdir hfollow
  have hlook : t.look false dir = .ok n := by simp [look, hclean.locate_eq, hq, hnode]
  unfold filesIn
  rw [hlook, hlocate]
  cases n with
  | file => cases hn
  | directory | link => rfl

/-- **A leftover is told by its place and its name**: it is a file below the directory, and its name looks like that of
a temporary file. -/
theorem leftover_iff (htree : t.IsTree) {top : Place} {slash : Bool} (hlocate : t.locate true dir = .ok (top, slash))
    (hdir : t.node? top = some .directory) : Leftover t dir v ↔
      isBelow top v = true ∧ (∃ c m, t.node? v = some (.file c m)) ∧ isTemporary (v.getLast?.getD "") = true := by
  have hne : isBelow top v = true → v ≠ [] := by
    rintro hbelow rfl
    exact (isBelow_iff.1 hbelow).2 (List.prefix_nil.1 (isBelow_iff.1 hbelow).1).symm
  unfold Leftover
  rw [filesIn_of_hasDirectory hlocate hdir]
  constructor
  · rintro ⟨name, hmem, hname⟩
    obtain ⟨⟨u, n⟩, hn, hsome⟩ := List.mem_filterMap.1 hmem
    split at hsome <;> cases hsome
    next hfile =>
    obtain ⟨hn, hbelow⟩ := List.mem_filter.1 hn
    refine ⟨hbelow, ?_, hname⟩
    have hnode : t.node? u = some n := by
      rw [node?, if_neg (hne hbelow), Table.find?_of_mem htree.sorted.nodup hn]
    cases n with
    | file c m => exact ⟨c, m, hnode⟩
    | directory | link => cases hfile
  · rintro ⟨hbelow, ⟨c, m, hnode⟩, hname⟩
    refine ⟨_, List.mem_filterMap.2 ⟨(v, .file c m), List.mem_filter.2 ⟨?_, hbelow⟩, if_pos rfl⟩, hname⟩
    rw [node?, if_neg (hne hbelow)] at hnode
    exact Table.mem_of_find? hnode

/-- A tree without its leftovers. -/
def swept (t : FileTree) (dir : String) : FileTree :=
  ((filesIn t dir).filter fun f => isTemporary f.2).foldl (fun t f => t.unbind f.1) t

/-- What is gone was a leftover. -/
theorem node?_swept (t : FileTree) (dir : String) (v : Place) :
    (swept t dir).node? v = t.node? v ∨ (swept t dir).node? v = none ∧ Leftover t dir v := by
  refine ((node?_unbindAll Prod.fst _ t).2 v).imp_right fun ⟨⟨f, hf, hv⟩, hnone⟩ => ⟨hnone, f.2, ?_, ?_⟩
  · exact hv ▸ (List.mem_filter.1 hf).1
  · exact (List.mem_filter.1 hf).2

/-- Every leftover is gone. -/
theorem node?_swept_of_leftover (hne : v ≠ []) (h : Leftover t dir v) : (swept t dir).node? v = none := by
  obtain ⟨name, hmem, hname⟩ := h
  exact node?_unbindAll_of_mem Prod.fst (List.mem_filter.2 ⟨hmem, hname⟩) hne t

/-- Leftovers are files. -/
theorem upholds_swept (htree : t.IsTree) (dir : String) : Upholds t (swept t dir) := by
  refine ⟨(node?_unbindAll Prod.fst _ t).1, fun v n hn hnode => ?_⟩
  rcases node?_swept t dir v with hsame | ⟨-, name, hmem, -⟩
  · rw [hsame, hnode]
  · obtain ⟨⟨c, m, hfile⟩, -⟩ := file_of_mem_filesIn htree hmem
    cases hnode.symm.trans hfile
    cases hn

/-- A tree without its leftovers is a tree. -/
theorem isTree_swept (htree : t.IsTree) (dir : String) : (swept t dir).IsTree := by
  have hupholds := upholds_swept htree dir
  refine ⟨⟨?_, fun v n hnode => ?_⟩, ?_⟩
  · exact hupholds.node _ _ rfl (hupholds.base ▸ htree.base)
  · refine hupholds.node _ _ rfl (htree.parent v n ?_)
    rcases node?_swept t dir v with hsame | ⟨hnone, -⟩
    · rw [← hsame, hnode]
    · rw [hnone] at hnode
      cases hnode
  · have hsorted : ∀ (left : List (Place × String)) (t : FileTree), Table.Sorted t.nodes →
        Table.Sorted (left.foldl (fun t f => t.unbind f.1) t).nodes := by
      intro left
      induction left with
      | nil => exact fun t ht => ht
      | cons f left ih => exact fun t ht => ih _ (List.Pairwise.filter _ ht)
    exact hsorted _ t htree.sorted

end Extraction

/-! ## (3) Checks that find nothing changed -/

namespace Root

open Extraction

variable {r : Root} {store : RecordStore} {s s' : RootState} {v : Place} {n : Node}

/-- `r.Approves store s s'`: a check that finds nothing changed leads from `s` to `s'`. -/
def Approves (r : Root) (store : RecordStore) (s s' : RootState) : Prop :=
  (r.checkBuild store).outcome s = (.ok .unchanged, s')

/-- **A check that finds nothing changed** removes leftovers, after its lock was taken. -/
theorem Approves.swept (h : r.Approves store s s') (htree : s.workspace.tree.IsTree) :
    ∃ t, s.workspace.tree.Grows t ∧ t.IsTree ∧ s'.workspace.tree = swept t r.dir := by
  have hextends := Workspace.acquire_extends s.workspace r.dir r.lockTimeout _ (.refl htree)
  cases course_of_outcome h with
  | swept hacquire _ _ hsweep =>
    obtain ⟨hgrows, hgrown, -⟩ := hextends.of_outcome hacquire
    cases hsweep
    exact ⟨_, hgrows, hgrown, rfl⟩

/-- What an unchanged directory holds is a leftover in the grown tree if it was one before. -/
theorem leftover_grown {t t' : FileTree} {dir : String} (htree : t.IsTree) (htree' : t'.IsTree) (h : Upholds t t')
    (hdir : t.hasDirectory dir = true) (hnode : t.node? v = some n) (hnode' : t'.node? v = some n) :
    Leftover t' dir v ↔ Leftover t dir v := by
  obtain ⟨top, slash, hlocate, htop⟩ := exists_locate_of_hasDirectory hdir
  rw [leftover_iff htree hlocate htop, leftover_iff htree' (h.locate hlocate htop rfl) (h.node _ _ rfl htop), hnode,
    hnode']

/-- **One check.** Of what stood before, leftovers are gone, and all else stands still and is no leftover. -/
theorem Approves.node? (h : r.Approves store s s') (htree : s.workspace.tree.IsTree)
    (hdir : s.workspace.tree.hasDirectory r.dir = true) :
    s'.workspace.tree.IsTree ∧ s'.workspace.tree.hasDirectory r.dir = true ∧
      ∀ v n, s.workspace.tree.node? v = some n →
        (Leftover s.workspace.tree r.dir v → s'.workspace.tree.node? v = none) ∧
        (¬ Leftover s.workspace.tree r.dir v →
          s'.workspace.tree.node? v = some n ∧ ¬ Leftover s'.workspace.tree r.dir v) := by
  obtain ⟨t, hgrows, htree', hswept⟩ := h.swept htree
  obtain ⟨top, slash, hlocate, htop⟩ := exists_locate_of_hasDirectory hdir
  have hlocate' := hgrows.upholds.locate hlocate htop rfl
  have htop' := hgrows.node_of_some htop
  have hupholds := upholds_swept htree' r.dir
  have hfinal := isTree_swept htree' r.dir
  rw [hswept]
  refine ⟨hfinal, hasDirectory_of_locate (hupholds.locate hlocate' htop' rfl) (hupholds.node _ _ rfl htop'), ?_⟩
  intro v n hnode
  have hnode' := hgrows.node_of_some hnode
  -- What is a leftover in the tree as it has grown was one before.
  have hsame := leftover_grown htree htree' hgrows.upholds hdir hnode hnode'
  constructor
  · intro hleft
    have hbelow := ((leftover_iff htree hlocate htop).1 hleft).1
    refine node?_swept_of_leftover ?_ (hsame.2 hleft)
    rintro rfl
    exact (isBelow_iff.1 hbelow).2 (List.prefix_nil.1 (isBelow_iff.1 hbelow).1).symm
  · intro hkept
    have hstays : (Extraction.swept t r.dir).node? v = some n := by
      rcases node?_swept t r.dir v with heq | ⟨-, hleft⟩
      · rw [heq, hnode']
      · exact absurd (hsame.1 hleft) hkept
    refine ⟨hstays, fun hleft => hkept (hsame.1 ?_)⟩
    exact (leftover_grown htree' hfinal hupholds (hasDirectory_of_locate hlocate' htop') hnode' hstays).1 hleft

/-- **What stands after checks that find nothing changed.** Such a check takes away nothing but files of the directory
that are named like temporary files, as all files are named that an interrupted write leaves. Where the directory
stands, it takes away all of these: whatever else stood before stands still, with the same bytes and the same time, and
outlives all further checks of this kind. -/
theorem unchanged_keeps_iff (htree : s.workspace.tree.IsTree) :
    (∀ s', r.Approves store s s' → ∀ v n, s.workspace.tree.node? v = some n → s'.workspace.tree.node? v ≠ some n →
      s'.workspace.tree.node? v = none ∧ ∃ t, s.workspace.tree.Grows t ∧ Leftover t r.dir v) ∧
    (s.workspace.tree.hasDirectory r.dir = true →
      (∀ s', r.Approves store s s' → ∀ v n, s.workspace.tree.node? v = some n →
        (s'.workspace.tree.node? v = some n ↔ ¬ Leftover s.workspace.tree r.dir v)) ∧
      ∀ s', Relation.ReflTransGen (r.Approves store) s s' → ∀ v n, s.workspace.tree.node? v = some n →
        ¬ Leftover s.workspace.tree r.dir v → s'.workspace.tree.node? v = some n) := by
  refine ⟨fun s' h v n hnode hgone => ?_, fun hdir => ⟨fun s' h v n hnode => ?_, fun s' h v n hnode hkept => ?_⟩⟩
  · obtain ⟨t, hgrows, -, hswept⟩ := h.swept htree
    rw [hswept] at hgone ⊢
    rcases node?_swept t r.dir v with hsame | ⟨hnone, hleft⟩
    · exact absurd (hsame.trans (hgrows.node_of_some hnode)) hgone
    · exact ⟨hnone, t, hgrows, hleft⟩
  · obtain ⟨-, -, hcheck⟩ := h.node? htree hdir
    obtain ⟨hgone, hstays⟩ := hcheck v n hnode
    refine ⟨fun hsame hleft => ?_, fun hkept => (hstays hkept).1⟩
    rw [hgone hleft] at hsame
    cases hsame
  -- By induction on the checks, with all that the first of them leaves.
  · induction h using Relation.ReflTransGen.head_induction_on with
    | refl => exact hnode
    | head hfirst _ ih =>
      obtain ⟨htree', hdir', hcheck⟩ := hfirst.node? htree hdir
      obtain ⟨hnode', hkept'⟩ := (hcheck v n hnode).2 hkept
      exact ih htree' hdir' hnode' hkept'

/-- A package with two data files, one of which is named like a temporary file. -/
def oddlyNamed : Root :=
  ⟨"/x", [.opened (.ofFiles "a" 0 [("pkg/.d.part", "one".toUTF8), ("pkg/d.txt", "two".toUTF8)]) (some "1")], [], 1⟩

/-- The state after the build was checked for the first time and the package was unpacked. -/
def oddlyNamedUnpacked : RootState :=
  ((oddlyNamed.unpackPackage .standard "pkg").outcome
    ((oddlyNamed.checkBuild .memory).outcome ⟨.ofTree .empty, []⟩).2).2

/-- The next check finds nothing changed. -/
theorem oddlyNamed_approved : ∃ s, oddlyNamed.Approves .memory oddlyNamedUnpacked s :=
  ⟨_, outcome_eq_of_fst (by decide +kernel)⟩

/-- That check leaves the other data file alone, and so does any further one. -/
theorem oddlyNamed_keeps : ∃ s c m, oddlyNamed.Approves .memory oddlyNamedUnpacked s ∧
    oddlyNamedUnpacked.workspace.tree.node? ["x", "pkg", "d.txt"] = some (.file c m) ∧
    s.workspace.tree.node? ["x", "pkg", "d.txt"] = some (.file c m) := by
  obtain ⟨s, happroved⟩ := oddlyNamed_approved
  have htree : oddlyNamedUnpacked.workspace.tree.IsTree :=
    ⟨grounded_of_nodes (by decide +kernel) (by decide +kernel), by unfold Table.Sorted; decide +kernel⟩
  have hlocate : oddlyNamedUnpacked.workspace.tree.locate true oddlyNamed.dir = .ok (["x"], false) := by decide +kernel
  have hdir : oddlyNamedUnpacked.workspace.tree.node? ["x"] = some .directory := by decide +kernel
  have hfile : oddlyNamedUnpacked.workspace.tree.node? ["x", "pkg", "d.txt"] =
      some (.file "two".toUTF8 ⟨0, 0, by decide⟩) := by decide +kernel
  refine ⟨s, _, _, happroved, hfile, ?_⟩
  have hkeeps := ((unchanged_keeps_iff htree).2 (hasDirectory_of_locate hlocate hdir)).1 s happroved _ _ hfile
  refine hkeeps.2 fun hleft => ?_
  have hname := ((leftover_iff htree hlocate hdir).1 hleft).2.2
  revert hname
  decide +kernel

/-- **A data file is gone after a check that finds nothing changed**, though it is the artifact of an entry. -/
theorem oddlyNamed_removed : ∃ s c m, oddlyNamed.Approves .memory oddlyNamedUnpacked s ∧
    oddlyNamedUnpacked.extracted = ["pkg"] ∧
    oddlyNamedUnpacked.workspace.tree.node? ["x", "pkg", ".d.part"] = some (.file c m) ∧
    s.workspace.tree.node? ["x", "pkg", ".d.part"] = none := by
  refine ⟨_, "one".toUTF8, ⟨0, 0, by decide⟩, outcome_eq_of_fst (by decide +kernel), by decide +kernel,
    by decide +kernel, by decide +kernel⟩

end Root

end LayeredBundles
