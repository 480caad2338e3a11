import LayeredBundles.Proofs.Checks
import LayeredBundles.Proofs.Rereading
import LayeredBundles.Proofs.Straight
import LayeredBundles.Proofs.Tokens

/-! # A second check of the build

A check leaves a record of the tokens it has seen, and the next check finds it, in memory as in a file. So layers with
other tokens are noticed, provided that every layer has a token of its own.

* **`Workspace.Extends`** — what taking a lock does: the tree has grown;
* **`FileTree.Sheds`** — what removing temporary files does: something is gone, but no link;
* **`RecordStore.Knows`** — any record of a root that a store finds is of certain tokens;
* **`Root.checkBuild_cases`** — what a check that ends well has found and left;
* **`Root.tokens_kept_iff`** — where names of layers do not clash, a second check notices other tokens, and where they
  do, some are not noticed. -/

namespace LayeredBundles

open FileTree Fallible

/-! ## (1) What grows -/

namespace FileTree

variable {t t' : FileTree} {p : Place} {path : String}

/-- A directory or an empty file where nothing stood lets a tree grow. -/
theorem grows_bind (hnone : t.node? p = none) {n : Node} (hn : n = .directory ∨ ∃ m, n = .file .empty m) :
    Grows t (t.bind p n) := by
  have hp : p ≠ [] := by
    rintro rfl
    simp at hnone
  refine ⟨rfl, fun v => ?_⟩
  rw [node?_bind t hp]
  split
  · next hv => exact .inr ⟨hv ▸ hnone, hn.imp (fun h => by rw [h]) fun ⟨m, h⟩ => ⟨m, by rw [h]⟩⟩
  · exact .inl rfl

/-- Something in a directory, in place of what is no directory. -/
theorem IsTree.replace (h : t.IsTree) (hplain : t.node? p ≠ some .directory)
    (hparent : t.node? p.dropLast = some .directory) (n : Node) : (t.bind p n).IsTree := by
  have hp : p ≠ [] := by
    rintro rfl
    simp at hplain
  -- What is a directory is so still.
  have hdir : ∀ v, t.node? v = some .directory → (t.bind p n).node? v = some .directory := by
    intro v hv
    rw [node?_bind t hp, if_neg, hv]
    rintro rfl
    exact hplain hv
  refine ⟨⟨hdir _ h.base, fun v n' hv => hdir _ ?_⟩, Table.sorted_insert h.sorted p n⟩
  rw [node?_bind t hp] at hv
  split at hv
  · next heq => exact heq ▸ hparent
  · exact h.parent v n' hv

end FileTree

namespace Workspace

variable {w w' w₀ : Workspace} {path dir : String}

/-- `w.Extends w'`: the tree has grown, and no records in memory have changed. -/
structure Extends (w w' : Workspace) : Prop where
  /-- The tree has grown. -/
  grows : Grows w.tree w'.tree
  /-- It is a tree. -/
  isTree : w'.tree.IsTree
  /-- The records in memory. -/
  records : w'.records = w.records

/-- A workspace over a tree extends itself. -/
theorem Extends.refl (h : w.tree.IsTree) : w.Extends w := ⟨.refl _, h, rfl⟩

/-- What is extended twice is extended. -/
theorem Extends.trans (h : w₀.Extends w) (h' : w.Extends w') : w₀.Extends w' :=
  ⟨h.grows.trans h'.grows, h'.isTree, h'.records.trans h.records⟩

variable [Charset]

/-- Something new. -/
theorem Extends.bind (h : w₀.Extends w) {th slash : Bool} {p : Place} (hlocate : w.tree.locate th path = .ok (p, slash))
    (hnone : w.tree.node? p = none) {n : Node} (hn : n = .directory ∨ ∃ m, n = .file .empty m) :
    w₀.Extends (w.withTree (w.tree.bind p n)) :=
  ⟨h.grows.trans (grows_bind hnone hn),
    h.isTree.replace (by simp [hnone]) (h.isTree.beside_of_locate hlocate).1 n, h.records⟩

/-- From any state that was extended, creating a directory goes on extending the workspace. -/
theorem createDirectory_extends (w₀ : Workspace) (path : String) :
    (change (·.createDirectory path)).Preserves w₀.Extends := by
  intro w hw
  rw [Yields, outcome_change]
  split
  · next t ht =>
    unfold createDirectory at ht
    split at ht
    · cases ht
    next p slash hlocate =>
    split at ht
    · cases ht
    next hnone =>
    cases ht
    exact hw.bind hlocate hnone (.inl rfl)
  · exact hw

/-- So does taking a lock. -/
theorem take_extends (w₀ : Workspace) (path : String) (timeout : Nat) :
    (Lock.take path timeout).Preserves w₀.Extends := by
  intro w hw
  rw [Yields, Lock.take, outcome_ofOutcome]
  unfold ensureFile
  rcases hfile : w.tree.locateFile path with x | ⟨p, _ | n⟩
  · exact hw
  · obtain ⟨slash, hlocate, hnode, -⟩ := exists_of_locateFile hfile
    have hnew := hw.bind hlocate hnode.symm (n := .file .empty w.clock) (.inr ⟨_, rfl⟩)
    dsimp only
    split
    · exact hnew
    · exact ⟨hnew.grows, hnew.isTree, hnew.records⟩
  · have hsame : w₀.Extends (w.withTree w.tree) := ⟨hw.grows, hw.isTree, hw.records⟩
    dsimp only
    split
    · exact hsame
    · exact ⟨hsame.grows, hsame.isTree, hsame.records⟩

/-- **Taking the lock of a directory** makes the tree grow. -/
theorem acquire_extends (w₀ : Workspace) (dir : String) (timeout : Nat) :
    (Lock.acquire dir timeout).Preserves w₀.Extends := by
  unfold Lock.acquire
  refine (preserves_ofExcept _).bind fun lock => ?_
  split
  · exact ((preserves_createLineage fun p _ => createDirectory_extends w₀ p).failingAs _).bind fun _ =>
      take_extends w₀ lock timeout
  · exact (preserves_pure ()).bind fun _ => take_extends w₀ lock timeout

end Workspace

/-! ## (2) What goes -/

/-- `t.Sheds t'`: some of what stood there is gone, but no link. -/
structure FileTree.Sheds (t t' : FileTree) : Prop where
  /-- The links. -/
  links : SameLinks t t'
  /-- What is gone. -/
  node : ∀ v, t'.node? v = t.node? v ∨ t'.node? v = none

namespace Extraction

variable {t : FileTree} {dir : String}

/-- The files in a directory are files, and they are below it, or one stands in its stead. -/
theorem file_of_mem_filesIn (h : t.IsTree) {f : Place × String} (hf : f ∈ filesIn t dir) :
    (∃ c m, t.node? f.1 = some (.file c m)) ∧ ∃ top slash, t.locate true dir = .ok (top, slash) ∧ top <+: f.1 := by
  unfold filesIn at hf
  split at hf
  · next c m p slash hlook hlocate =>
    rw [List.mem_singleton] at hf
    subst hf
    obtain ⟨v, slash', hlocate', hfile⟩ := exists_of_look hlook
    obtain rfl := eq_of_locate_plain hlocate' (by simp [hfile]) hlocate
    exact ⟨⟨c, m, hfile⟩, _, slash, hlocate, List.prefix_refl _⟩
  · next hlocate =>
    obtain ⟨⟨v, n⟩, hn, hsome⟩ := List.mem_filterMap.1 hf
    split at hsome <;> cases hsome
    next hfile =>
    obtain ⟨hn, hbelow⟩ := List.mem_filter.1 hn
    have hne : v ≠ [] := by
      rintro rfl
      exact (isBelow_iff.1 hbelow).2 (List.prefix_nil.1 (isBelow_iff.1 hbelow).1).symm
    have hnode : t.node? v = some n := by rw [node?, if_neg hne, Table.find?_of_mem h.sorted.nodup hn]
    refine ⟨?_, _, _, hlocate, (isBelow_iff.1 hbelow).1⟩
    cases n with
    | file c m => exact ⟨c, m, hnode⟩
    | directory | link => cases hfile
  · cases hf

/-- **Removing temporary files** removes no links. -/
theorem removeTemporaries_sheds {w : Workspace} (h : w.tree.IsTree) (dir : String) :
    (removeTemporaries dir).Yields w fun _ w' => w'.records = w.records ∧ w.tree.Sheds w'.tree := by
  unfold removeTemporaries
  rw [yields_get_bind]
  obtain ⟨hbase, hnode⟩ := node?_unbindAll Prod.fst ((filesIn w.tree dir).filter fun f => isTemporary f.2) w.tree
  refine ⟨rfl, ⟨hbase, fun v target => ?_⟩, fun v => (hnode v).imp_right And.right⟩
  rcases hnode v with hsame | ⟨⟨f, hf, rfl⟩, hnone⟩
  · exact (congrArg (· = some (Node.link target)) hsame).to_iff
  · obtain ⟨⟨c, m, hfile⟩, -⟩ := file_of_mem_filesIn h (List.mem_filter.1 hf).1
    exact ⟨fun hlink => (nomatch hnone.symm.trans hlink), fun hlink => nomatch hfile.symm.trans hlink⟩

end Extraction

/-! ## (3) What a store knows -/

namespace RecordStore

variable {w w' : Workspace} {store : RecordStore} {root path : String} {record : BuildRecord} {rs : BuildRecords}

/-- `store.Knows root tokens w`: any record of a root that a store finds is of these tokens, also when the tree has
grown. -/
def Knows (store : RecordStore) (root : String) (tokens : Tokens) (w : Workspace) : Prop :=
  w.tree.IsTree → ∀ w', w.Extends w' → ∀ record, store.Finds w' root record →
    ∀ k, Table.find? record.layers k = Table.find? tokens k

/-- What a store knows, it knows after the tree has grown. -/
theorem Knows.extend {tokens : Tokens} (h : store.Knows root tokens w) (htree : w.tree.IsTree)
    (hextends : w.Extends w') : store.Knows root tokens w' := fun _ w'' hextends' =>
  h htree w'' (hextends.trans hextends')

/-- What was found is known, where files are gone but no links. -/
theorem knows_of_finds (hfound : store.Finds w root record) {tokens : Tokens}
    (htokens : ∀ k, Table.find? record.layers k = Table.find? tokens k) (hsheds : w.tree.Sheds w'.tree)
    (hrecords : w'.records = w.records) : store.Knows root tokens w' := by
  rintro - w'' hextends found hfound'
  cases store with
  | memory =>
    have hsame : Table.find? w''.records root = Table.find? w.records root := by rw [hextends.records, hrecords]
    cases Option.some.inj ((hfound'.symm.trans hsame).trans hfound)
    exact htokens
  | file path =>
    obtain ⟨c, hread, hfound⟩ := hfound
    obtain ⟨d, hread', hfound'⟩ := hfound'
    -- What became of a file.
    have hfiles : ∀ v c m, w.tree.node? v = some (.file c m) →
        w''.tree.node? v = some (.file c m) ∨ w''.tree.node? v = none ∨ w''.tree.node? v = some .directory ∨
          ∃ m', w''.tree.node? v = some (.file .empty m') := by
      intro v c m hfile
      rcases hsheds.node v with hsame | hnone
      · exact .inl (hextends.grows.node_of_some (hsame.trans hfile))
      · refine .inr ?_
        rcases hextends.grows.node v with hsame | ⟨-, hnew⟩
        · exact .inl (hsame.trans hnone)
        · exact .inr hnew
    have hlinks := hsheds.links.trans hextends.grows.sameLinks
    rcases read_of_sameLinks hlinks hfiles hread hread' with rfl | rfl
    · cases Option.some.inj (hfound'.symm.trans hfound)
      exact htokens
    · have hnothing : recordsOf .empty = [] := rfl
      rw [hnothing] at hfound'
      cases hfound'

/-- Where a file is replaced, it was written beside its path and moved there. -/
theorem exists_of_replaceFile {temporary : String} {contents : ByteArray}
    (h : (replaceFile temporary path contents).outcome w = (.ok (), w')) :
    ∃ t, w.tree.write temporary contents w.clock = .ok t ∧ t.move temporary path = .ok w'.tree := by
  obtain ⟨_, w₁, hwrite, hmove⟩ := exists_of_outcome_bind_ok h
  rw [Workspace.outcome_write] at hwrite
  rcases hwritten : w.tree.write temporary contents w.clock with x | t
  · rw [hwritten] at hwrite
    cases hwrite
  rw [hwritten] at hwrite
  cases hwrite
  obtain ⟨held, hresult⟩ := Workspace.outcome_move temporary path (w.withTree t)
  rw [hresult, Workspace.tree_withTree] at hmove
  rcases hmoved : t.move temporary path with x | t'
  · rw [hmoved] at hmove
    cases hmove
  · rw [hmoved] at hmove
    cases hmove
    exact ⟨t, rfl, hmoved⟩

/-- Where records are written, their file was replaced. -/
theorem exists_of_writeRecords (h : (writeRecords path rs).outcome w = (.ok (), w')) :
    ∃ (name : String) (w₁ : Workspace), DiskPath.fileName? path = some name ∧
      (Workspace.createDirectories (directory path)).outcome w = (.ok (), w₁) ∧
      (replaceFile (DiskPath.join (directory path) (temporaryName name w₁.process)) path rs.render.toUTF8).outcome w₁ =
        (.ok (), w') := by
  unfold writeRecords at h
  obtain ⟨⟨⟩, w₁, hcreate, h⟩ := exists_of_outcome_bind_ok h
  rw [outcome_failingAs, Prod.mk.injEq, mapError_eq_ok] at hcreate
  split at h
  · cases h
  next name hname =>
  obtain ⟨w₂, w₃, hget, h⟩ := exists_of_outcome_bind_ok h
  cases hget
  obtain ⟨out, w₄, hreplace, h⟩ := exists_of_outcome_bind_ok h
  cases out with
  | error x =>
    obtain ⟨-, -, -, h⟩ := exists_of_outcome_bind_ok h
    cases h
  | ok =>
    cases h
    rw [outcome_attempt, Prod.mk.injEq, Except.ok.injEq] at hreplace
    exact ⟨name, w₁, hname, Prod.ext hcreate.1 hcreate.2, Prod.ext hreplace.1 hreplace.2⟩

/-- **A record that was put is known.** -/
theorem put_knows (store : RecordStore) (w : Workspace) (root : String) (hversion : record.version < UInt32.size)
    (hlayers : Table.Sorted record.layers) :
    (store.put root record).Yields w fun out w' => out = .ok () → store.Knows root record.layers w' := by
  cases store with
  | memory =>
    rintro - - w'' hextends found hfound k
    have hsame : Table.find? w''.records root = some record :=
      (congrArg (Table.find? · root) hextends.records).trans (Table.find?_insert_self _ _ _)
    cases Option.some.inj (Eq.trans (Eq.symm hsame) hfound)
    rfl
  | file path =>
    refine Yields.bind (readRecords_finds w path) ?_ (by simp)
    rintro rs _ ⟨rfl, hrs⟩ hok htree w'' hextends found ⟨d, hread, hfound⟩ k
    obtain ⟨name, w₁, hname, -, hreplace⟩ := exists_of_writeRecords (outcome_eq_of_fst hok)
    obtain ⟨t, hwrite, hmove⟩ := exists_of_replaceFile hreplace
    obtain ⟨hisName, xs, hsteps⟩ := DiskPath.fileName?_eq_some hname
    obtain ⟨-, htemporary, hsteps', habs, hsegs⟩ := temporary_beside hname hsteps hisName.up w₁.process
    obtain rfl := read_after_move hsteps hsteps' habs hsegs hisName.up htemporary.up hwrite hmove htree.toGrounded
      hextends.grows hextends.isTree.toGrounded hread
    rw [layers_of_find? ((hrs rs rfl).1.insert root hversion) (Table.find?_insert_self _ _ _) hlayers hfound]

end RecordStore

/-! ## (4) Checks -/

namespace Root

variable {r r' : Root} {store : RecordStore} {s s' : RootState}

/-- **What a check that ends well has found and left.** It begins with the record of the root. If that is of the same
tokens, temporary files are removed, and else the tokens are known from then on. -/
theorem checkBuild_cases (h : s.workspace.tree.IsTree) : (r.checkBuild store).Yields s fun out s' =>
    ∀ check, out = .ok check → ∃ w record, s.workspace.Extends w ∧
      (∀ found, record = some found → store.Finds w r.dir found) ∧ check = compareBuild record r.tokens ∧
        (check = .unchanged ∧ w.tree.Sheds s'.workspace.tree ∧ s'.workspace.records = w.records ∨
          check ≠ .unchanged ∧ store.Knows r.dir r.tokens s'.workspace) := by
  refine (checkBuild_course r store s).mono fun out s' hcourse check hcheck => ?_
  have hextends := Workspace.acquire_extends s.workspace r.dir r.lockTimeout _ (.refl h)
  cases hcourse with
  | locking | asking | removing | recording => cases hcheck
  | @swept ticket count record w w' hacquire hget hsame hsweep =>
    have hw := hextends.of_outcome hacquire
    have hfinds := ((RecordStore.get_finds store w r.dir).of_outcome hget).2
    obtain ⟨hrecords, hsheds⟩ := (Extraction.removeTemporaries_sheds hw.isTree r.dir).of_outcome hsweep
    cases hcheck
    exact ⟨w, record, hw, fun found hrecord => hfinds found (congrArg _ hrecord), hsame.symm,
      .inl ⟨rfl, hsheds, hrecords⟩⟩
  | @recorded ticket record changed w w₁ w' hacquire hget hother hremove hput =>
    have hfinds := ((RecordStore.get_finds store w r.dir).of_outcome hget).2
    have hknows := (RecordStore.put_knows store w₁ r.dir (show 1 < UInt32.size by decide) r.sorted_tokens).of_outcome
      hput rfl
    cases hcheck
    exact ⟨w, record, hextends.of_outcome hacquire, fun found hrecord => hfinds found (congrArg _ hrecord),
      hother.symm, .inr ⟨by simp, fun htree w'' hafter =>
        hknows htree w'' ⟨hafter.grows, hafter.isTree, hafter.records⟩⟩⟩

/-- **After a check that ends well, the tokens are known.** -/
theorem checkBuild_knows (h : s.workspace.tree.IsTree) : (r.checkBuild store).Yields s fun out s' =>
    (∃ check, out = .ok check) → store.Knows r.dir r.tokens s'.workspace := by
  refine (checkBuild_cases h).mono ?_
  rintro out s' hcases ⟨check, hcheck⟩
  obtain ⟨w, record, hw, hfinds, rfl, ⟨hunchanged, hsheds, hrecords⟩ | ⟨-, hknows⟩⟩ := hcases check hcheck
  · obtain ⟨found, rfl, hdiffering⟩ := exists_of_unchanged hunchanged
    exact RecordStore.knows_of_finds (hfinds found rfl) (BuildRecord.find?_of_differing hdiffering) hsheds hrecords
  · exact hknows

/-- **Where tokens are known, nothing has changed only if they are the same.** -/
theorem checkBuild_of_knows {tokens : Tokens} (h : s.workspace.tree.IsTree)
    (hknows : store.Knows r.dir tokens s.workspace) (hsorted : Table.Sorted tokens) :
    (r.checkBuild store).Yields s fun out _ => out = .ok .unchanged → r.tokens = tokens := by
  refine (checkBuild_cases h).mono fun out s' hcases hout => ?_
  obtain ⟨w, record, hw, hfinds, hunchanged, -⟩ := hcases _ hout
  obtain ⟨found, rfl, hdiffering⟩ := exists_of_unchanged hunchanged.symm
  refine r.sorted_tokens.ext hsorted fun k => ?_
  rw [← BuildRecord.find?_of_differing hdiffering]
  exact hknows h w hw found (hfinds found rfl) k

/-- **Every layer keeps its own token exactly if no names clash.** Then a check that follows one of a root with other
tokens, which ended well, never answers that nothing has changed. Where names clash, there are other tokens for which
checks are the same. What stands has to be a tree before the first check and after it: it ceases to be one only where
the directory that is removed holds the place at which relative paths begin. -/
theorem tokens_kept_iff (r : Root) : (r.tokens.length = r.slots.length ↔ ¬ r.Clashes) ∧
    (¬ r.Clashes → ∀ (store : RecordStore) (s s₁ s₂ s₃ : RootState) (check answer : BuildCheck) (r' : Root),
      s.workspace.tree.IsTree → (r.checkBuild store).outcome s = (.ok check, s₁) → s₁.workspace.tree.IsTree →
        s₁.workspace.Extends s₂.workspace → r'.dir = r.dir → r'.names = r.names →
          r'.slots.map tokenOf ≠ r.slots.map tokenOf → (r'.checkBuild store).outcome s₂ = (.ok answer, s₃) →
            ∃ changed, answer = .invalidated changed) ∧
      (r.Clashes → ∃ r' : Root, r'.dir = r.dir ∧ r'.names = r.names ∧ r'.slots.map tokenOf ≠ r.slots.map tokenOf ∧
        r'.checkBuild = r.checkBuild) := by
  refine ⟨length_tokens_iff, ?_, ?_⟩
  · intro hclash store s s₁ s₂ s₃ check answer r' htree hfirst htree₁ hextends hdir hnames hother hsecond
    have hfirst' : (r.checkBuild store).Yields s _ := checkBuild_knows htree
    rw [Yields, hfirst] at hfirst'
    have hknows := (hfirst' ⟨check, rfl⟩).extend htree₁ hextends
    have hsecond' := checkBuild_of_knows hextends.isTree (hdir ▸ hknows) r.sorted_tokens
    rw [Yields, hsecond] at hsecond'
    cases answer with
    | unchanged => exact absurd (tokenOf_eq hclash hnames (hsecond' rfl)) hother
    | invalidated changed => exact ⟨changed, rfl⟩
  · intro hclash
    obtain ⟨slots, hnames, hother, htokens⟩ := exists_same_tokens hclash
    refine ⟨{ r with slots }, rfl, hnames, hother, funext fun store => ?_⟩
    rw [checkBuild, checkBuild, htokens]
    rfl

/-- The root of layers with the given names and tokens. -/
def labelled (layers : List (String × String)) : Root :=
  ⟨"/x", layers.map fun l => .opened (.ofFiles l.1 0 []) (some l.2), [], 1⟩

/-- The state after the check of a root, where nothing was before. -/
def firstChecked (store : RecordStore) (layers : List (String × String)) : RootState :=
  (((labelled layers).checkBuild store).outcome ⟨.ofTree .empty, []⟩).2

/-- What the first check leaves. -/
theorem outcome_firstChecked (store : RecordStore) (layers : List (String × String)) (check : BuildCheck)
    (h : (((labelled layers).checkBuild store).outcome ⟨.ofTree .empty, []⟩).1 = .ok check) :
    ((labelled layers).checkBuild store).outcome ⟨.ofTree .empty, []⟩ = (.ok check, firstChecked store layers) :=
  outcome_eq_of_fst h

/-- A second check of layers `a` and `b` sees that the token of `b` is another one. -/
theorem twoLayers_recheck : ∃ s₁ s₂ changed,
    ((labelled [("a", "1"), ("b", "1")]).checkBuild (.file "/s")).outcome ⟨.ofTree .empty, []⟩ =
      (.ok (.invalidated []), s₁) ∧
    ((labelled [("a", "1"), ("b", "2")]).checkBuild (.file "/s")).outcome s₁ = (.ok (.invalidated changed), s₂) := by
  have hclash : ¬ (labelled [("a", "1"), ("b", "1")]).Clashes :=
    length_tokens_iff.1 (by decide +kernel)
  have hfirst := outcome_firstChecked (.file "/s") [("a", "1"), ("b", "1")] (.invalidated []) (by decide +kernel)
  have hsecond : (((labelled [("a", "1"), ("b", "2")]).checkBuild (.file "/s")).outcome
    (firstChecked (.file "/s") [("a", "1"), ("b", "1")])).1.toOption.isSome = true := by decide +kernel
  have htree : (firstChecked (.file "/s") [("a", "1"), ("b", "1")]).workspace.tree.IsTree :=
    ⟨grounded_of_nodes (by decide +kernel) (by decide +kernel), by unfold Table.Sorted; decide +kernel⟩
  have hempty : FileTree.empty.IsTree := ⟨grounded_of_nodes rfl nofun, List.Pairwise.nil⟩
  generalize firstChecked (.file "/s") [("a", "1"), ("b", "1")] = s₁ at hfirst hsecond htree
  rcases hok : ((labelled [("a", "1"), ("b", "2")]).checkBuild (.file "/s")).outcome s₁ with ⟨x | answer, s₂⟩
  · rw [hok] at hsecond
    cases hsecond
  · obtain ⟨changed, rfl⟩ := (tokens_kept_iff (labelled [("a", "1"), ("b", "1")])).2.1 hclash (.file "/s")
      ⟨.ofTree .empty, []⟩ s₁ s₁ s₂ (.invalidated []) answer (labelled [("a", "1"), ("b", "2")]) hempty hfirst htree
      (.refl htree) rfl rfl (by decide) hok
    exact ⟨s₁, s₂, changed, hfirst, hok⟩

/-- **Two of three layers share a token**, and a second check does not see that one of theirs is another one. -/
theorem namedAsKey_unchanged : ∃ s₁ s₂,
    (labelled [("a#2", "1"), ("a", "1"), ("a", "1")]).tokens.length = 2 ∧
    ((labelled [("a#2", "1"), ("a", "1"), ("a", "1")]).checkBuild .memory).outcome ⟨.ofTree .empty, []⟩ =
      (.ok (.invalidated []), s₁) ∧
    ((labelled [("a#2", "2"), ("a", "1"), ("a", "1")]).checkBuild .memory).outcome s₁ = (.ok .unchanged, s₂) := by
  have hsecond : (((labelled [("a#2", "2"), ("a", "1"), ("a", "1")]).checkBuild .memory).outcome
    (firstChecked .memory [("a#2", "1"), ("a", "1"), ("a", "1")])).1 = .ok .unchanged := by decide +kernel
  exact ⟨_, _, by decide +kernel, outcome_firstChecked _ _ _ (by decide +kernel), outcome_eq_of_fst hsecond⟩

end Root

end LayeredBundles
