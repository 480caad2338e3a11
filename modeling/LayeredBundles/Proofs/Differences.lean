import LayeredBundles.Proofs.Records
import LayeredBundles.Proofs.Timestamps

/-! # What differs from a record, and what is kept of it

A check names the layers whose tokens differ from those recorded: each once and in order, be they new, changed or gone.
The tokens of all roots are in one file, so what is recorded of one root is written anew with every other one. It stays
as it was, its time included.

* **`BuildRecord.mem_differing`**, **`pairwise_differing`** — what differs, and in which order;
* **`Root.compareBuild_iff`** — what a record says about the tokens of a root;
* **`RecordStore.Exact`** — records of which nothing is lost in writing;
* **`RecordStore.recordsOf_render`** — these are read back as they were. -/

namespace LayeredBundles

/-! ## (1) What differs -/

namespace BuildRecord

variable {r : BuildRecord} {current : Tokens} {name : String}

/-- **A name differs** if its token is another one, or is on one side only. -/
theorem mem_differing (hr : Table.Sorted r.layers) (hcurrent : Table.Sorted current) :
    name ∈ r.differing current ↔ Table.find? r.layers name ≠ Table.find? current name := by
  simp only [differing, List.mem_mergeSort, List.mem_append, Table.keys, List.mem_map, List.mem_filter,
    decide_eq_true_eq, Bool.not_eq_true']
  constructor
  · rintro (⟨⟨k, v⟩, ⟨hmem, hne⟩, rfl⟩ | ⟨⟨k, v⟩, ⟨hmem, hgone⟩, rfl⟩)
    · rwa [Table.find?_of_mem hcurrent.nodup hmem]
    · rw [Table.find?_of_mem hr.nodup hmem]
      intro heq
      rw [Table.contains, ← heq] at hgone
      cases hgone
  · intro hne
    rcases hfind : Table.find? current name with _ | v
    · rcases hfound : Table.find? r.layers name with _ | v
      · exact absurd (hfound.trans hfind.symm) hne
      · exact .inr ⟨_, ⟨Table.mem_of_find? hfound, by simp [Table.contains, hfind]⟩, rfl⟩
    · exact .inl ⟨_, ⟨Table.mem_of_find? hfind, fun heq => hne (heq.trans hfind.symm)⟩, rfl⟩

/-- Names that are sorted ascend. -/
theorem pairwise_le_mergeSort (names : List String) :
    (names.mergeSort fun a b => decide (a ≤ b)).Pairwise (· ≤ ·) := by
  have hsorted : (names.mergeSort fun a b => decide (a ≤ b)).Pairwise fun a b => decide (a ≤ b) = true := by
    refine List.pairwise_mergeSort (fun a b c hab hbc => ?_) (fun a b => ?_) names
    · exact decide_eq_true (String.le_trans (of_decide_eq_true hab) (of_decide_eq_true hbc))
    · rw [Bool.or_eq_true, decide_eq_true_eq, decide_eq_true_eq]
      exact String.le_total a b
  exact hsorted.imp of_decide_eq_true

/-- **What differs is in strict order.** -/
theorem pairwise_differing (hr : Table.Sorted r.layers) (hcurrent : Table.Sorted current) :
    (r.differing current).Pairwise (· < ·) := by
  have hnames : ∀ {t : Tokens} (f : String × String → Bool), Table.Sorted t → (Table.keys (t.filter f)).Nodup :=
    fun f ht => ht.nodup.sublist (List.filter_sublist.map _)
  -- A name that is gone has no token now.
  have hnodup : (Table.keys (current.filter fun l => Table.find? r.layers l.1 ≠ some l.2) ++
      Table.keys (r.layers.filter fun l => !Table.contains current l.1)).Nodup := by
    refine List.nodup_append.2 ⟨hnames _ hcurrent, hnames _ hr, fun k hk k' hk' => ?_⟩
    rintro rfl
    obtain ⟨⟨_, v⟩, hmem, rfl⟩ := List.mem_map.1 hk
    obtain ⟨l, hgone, heq⟩ := List.mem_map.1 hk'
    have habsent := (List.mem_filter.1 hgone).2
    rw [heq, Table.contains, Table.find?_of_mem hcurrent.nodup (List.mem_filter.1 hmem).1] at habsent
    cases habsent
  refine List.Pairwise.imp₂ (fun a b hle hne => ?_) (pairwise_le_mergeSort _)
    ((List.mergeSort_perm _ _).nodup_iff.2 hnodup)
  exact String.not_le.1 fun hge => hne (String.le_antisymm hle hge)

/-- **No layer differs** exactly if the tokens that are recorded are those of today. -/
theorem differing_eq_nil_iff (hr : Table.Sorted r.layers) (hcurrent : Table.Sorted current) :
    r.differing current = [] ↔ r.layers = current := by
  refine ⟨layers_eq_of_differing hr hcurrent, fun heq => List.eq_nil_iff_forall_not_mem.2 fun name hname => ?_⟩
  exact (mem_differing hr hcurrent).1 hname (by rw [heq])

end BuildRecord

namespace Root

variable {record : Option BuildRecord} {current : Tokens} {changed : List String}

/-- **Nothing has changed** exactly if the tokens are those of the record. -/
theorem compareBuild_iff (hrecord : ∀ found, record = some found → Table.Sorted found.layers)
    (hcurrent : Table.Sorted current) :
    compareBuild record current = .unchanged ↔ ∃ found, record = some found ∧ found.layers = current := by
  rcases record with _ | found
  · simp [compareBuild]
  · have hnil := BuildRecord.differing_eq_nil_iff (hrecord found rfl) hcurrent
    simp only [compareBuild, Option.some.injEq, exists_eq_left']
    split
    · next heq => exact iff_of_true rfl (hnil.1 heq)
    · next hne => exact iff_of_false (by simp) fun heq => hne (hnil.2 heq)

/-- **What has changed** is what differs from the record, or nothing without one. -/
theorem changed_of_compareBuild (h : compareBuild record current = .invalidated changed) :
    record = none ∧ changed = [] ∨ ∃ found, record = some found ∧ changed = found.differing current := by
  unfold compareBuild at h
  split at h
  · cases h
    exact .inl ⟨rfl, rfl⟩
  · split at h
    · cases h
    · cases h
      exact .inr ⟨_, rfl, rfl⟩

end Root

/-! ## (2) What is kept -/

namespace RecordStore

variable {rs : BuildRecords} {root : String} {record : BuildRecord}

/-- Records of which nothing is lost in writing: their tokens are in order, and their times can be written. -/
structure Exact (rs : BuildRecords) : Prop extends Regular rs where
  /-- The tokens. -/
  layers : ∀ r ∈ rs, Table.Sorted r.2.layers
  /-- The times. -/
  updated : ∀ r ∈ rs, r.2.updated.Writable

/-- Nothing is lost of no records. -/
theorem Exact.nil : Exact [] := ⟨.nil, by simp, by simp⟩

/-- Nothing is lost of a further record that is written exactly. -/
theorem Exact.insert (h : Exact rs) (root : String) (hversion : record.version < UInt32.size)
    (hlayers : Table.Sorted record.layers) (hupdated : record.updated.Writable) :
    Exact (Table.insert root record rs) := by
  refine ⟨h.toRegular.insert root hversion, fun r hr => ?_, fun r hr => ?_⟩
  · rcases Table.mem_insert hr with rfl | hr
    · exact hlayers
    · exact h.layers r hr
  · rcases Table.mem_insert hr with rfl | hr
    · exact hupdated
    · exact h.updated r hr

/-- The time of a record that is read can be written. -/
theorem writable_of_ofJson? {v : Json} (h : BuildRecord.ofJson? v = some record) : record.updated.Writable := by
  rcases hfields : v.fields? ["schema_version", "layers", "updated_at"] with _ | fields
  · rw [BuildRecord.ofJson?, hfields] at h
    cases h
  · rcases fields with _ | ⟨version, _ | ⟨layers, _ | ⟨updated, _ | ⟨more, rest⟩⟩⟩⟩
    case cons.cons.cons.nil =>
      rw [BuildRecord.ofJson?_of_fields hfields] at h
      obtain ⟨n, -, h⟩ := Option.bind_eq_some_iff.1 h
      obtain ⟨t, -, h⟩ := Option.bind_eq_some_iff.1 h
      obtain ⟨u, hu, h⟩ := Option.bind_eq_some_iff.1 h
      cases h
      obtain ⟨_, hu⟩ := BuildRecord.exists_of_required hu
      obtain ⟨_, -, hu⟩ := Option.bind_eq_some_iff.1 hu
      exact Timestamp.writable_of_parse? hu
    all_goals
      rw [BuildRecord.ofJson?, hfields] at h
      cases h

/-- **Of what is read from a file** nothing is lost in writing. -/
theorem exact_recordsOf (d : ByteArray) : Exact (recordsOf d) := by
  obtain ⟨hregular, hlayers⟩ := regular_recordsOf d
  refine ⟨hregular, hlayers, fun r hr => ?_⟩
  unfold recordsOf at hr
  split at hr
  · next s hs =>
    rcases hrecords : BuildRecords.parse? s with _ | rs
    · simp [hrecords] at hr
    · rw [hrecords, Option.getD_some] at hr
      obtain ⟨v, -, htable⟩ := Option.bind_eq_some_iff.1 hrecords
      unfold Json.asTable at htable
      split at htable
      · obtain ⟨pairs, hpairs, rfl⟩ := Option.map_eq_some_iff.1 htable
        obtain ⟨m, -, hm⟩ := forall_mem_of_mapM hpairs r (Table.mem_ofPairs hr)
        obtain ⟨found, hfound, rfl⟩ := Option.map_eq_some_iff.1 hm
        exact writable_of_ofJson? hfound
      · cases htable
  · cases hr

/-- **Records that are written are read back** as they were. -/
theorem recordsOf_render (h : Exact rs) : recordsOf rs.render.toUTF8 = rs := by
  have hread : ∀ r ∈ rs, BuildRecord.ofJson? r.2.toJson = some r.2 := fun r hr => by
    rw [BuildRecord.ofJson?_toJson (h.version r hr), Timestamp.parse?_render (h.updated r hr), Option.bind_some,
      (h.layers r hr).ofPairs_eq]
  have hpairs : (rs.map fun r => (r.1, r.2.toJson)).mapM (fun m =>
      (BuildRecord.ofJson? m.2).map fun v => (m.1, v)) = some rs := by
    clear h
    induction rs with
    | nil => rfl
    | cons r rs ih =>
      rw [List.map_cons, List.mapM_cons, ih fun r' hr' => hread r' (List.mem_cons_of_mem _ hr')]
      simp [hread r (by simp)]
  rw [h.recordsOf_toUTF8, Json.asTable, hpairs, Option.map_some, Option.getD_some, h.sorted.ofPairs_eq]

end RecordStore

end LayeredBundles
