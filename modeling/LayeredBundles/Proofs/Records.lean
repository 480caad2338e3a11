import LayeredBundles.Build.Store
import LayeredBundles.Root
import LayeredBundles.Proofs.JsonText
import LayeredBundles.Proofs.Tables

/-! # Records that are written and read back

* **`Root.sorted_tokens`** — the tokens of a root are in order of their names;
* **`BuildRecord.layers_eq_of_differing`** — a record from which nothing differs has the tokens themselves;
* **`BuildRecord.ofJson?_toJson`** — a record is read back, but for its time, with the tokens it was
  written with;
* **`RecordStore.layers_of_find?`** — and so it is from the bytes of a store. -/

namespace LayeredBundles

/-! ## (1) Tokens -/

/-- Tokens are added in order. -/
theorem Root.sorted_addTokens {known : Tokens} (h : Table.Sorted known) (slots : List (Slot × Nat)) :
    Table.Sorted (Root.addTokens known slots) := by
  induction slots generalizing known with
  | nil => exact h
  | cons s slots ih => exact ih (Table.sorted_insert h _ _)

/-- The tokens of a root are in order of their names. -/
theorem Root.sorted_tokens (r : Root) : Table.Sorted r.tokens :=
  Root.sorted_addTokens List.Pairwise.nil _

namespace BuildRecord

/-- Where nothing differs, every token is that recorded. -/
theorem find?_of_differing {r : BuildRecord} {current : Tokens} (h : r.differing current = []) (k : String) :
    Table.find? r.layers k = Table.find? current k := by
  have hnil : Table.keys (current.filter fun l => Table.find? r.layers l.1 ≠ some l.2)
      ++ Table.keys (r.layers.filter fun l => !Table.contains current l.1) = [] :=
    List.eq_nil_of_length_eq_zero (by rw [← List.length_mergeSort, ← differing, h, List.length_nil])
  obtain ⟨hchanged, hgone⟩ := List.append_eq_nil_iff.1 hnil
  rw [Table.keys, List.map_eq_nil_iff, List.filter_eq_nil_iff] at hchanged hgone
  rcases hk : Table.find? current k with _ | v
  · rcases hk' : Table.find? r.layers k with _ | v
    · rfl
    · have := hgone _ (Table.mem_of_find? hk')
      simp [Table.contains, hk] at this
  · have := hchanged _ (Table.mem_of_find? hk)
    simpa using this

/-- **Where nothing differs, the tokens are those recorded.** -/
theorem layers_eq_of_differing {r : BuildRecord} {current : Tokens} (hr : Table.Sorted r.layers)
    (hcurrent : Table.Sorted current) (h : r.differing current = []) : r.layers = current :=
  hr.ext hcurrent (find?_of_differing h)

/-! ## (2) Records as JSON -/

/-- A record is written exactly if its version is in range. -/
theorem isExact_toJson {r : BuildRecord} (h : r.version < UInt32.size) : r.toJson.IsExact := by
  have hlayers : Json.HaveExact (r.layers.map fun l => (l.1, Json.string l.2)) := by
    rw [Json.haveExact_iff]
    intro m hm
    obtain ⟨l, -, rfl⟩ := List.mem_map.1 hm
    trivial
  have hlt : (r.version : Int) < UInt64.size := by
    have h32 : UInt32.size = 4294967296 := rfl
    have h64 : UInt64.size = 18446744073709551616 := rfl
    omega
  exact ⟨⟨Int.natCast_nonneg _, hlt⟩, hlayers, trivial, trivial⟩

/-- A field that is given is decoded. -/
theorem required_given {α : Type} (decode : Json → Option α) (v : Json) :
    (Json.Field.given v).required decode = decode v := rfl

/-- So is text that is given. -/
theorem required_string {α : Type} (read : String → Option α) (s : String) :
    (Json.Field.given (.string s)).required (fun v => Json.asString v >>= read) = read s := rfl

/-- A number in range is read. -/
theorem asNat_nat {bound n : Nat} (h : n < bound) : Json.asNat bound (.nat n) = some n := by
  rw [Json.nat, Json.asNat, if_pos ⟨Int.natCast_nonneg _, Int.ofNat_lt.2 h⟩, Int.toNat_natCast]

/-- A record is read from its three fields, in this order. -/
theorem ofJson?_of_fields {v : Json} {version layers updated : Json.Field}
    (h : v.fields? ["schema_version", "layers", "updated_at"] = some [version, layers, updated]) :
    ofJson? v = (version.required (Json.asNat UInt32.size)).bind fun version =>
      (layers.required (Json.asTable Json.asString)).bind fun layers =>
        (updated.required fun v => Json.asString v >>= Timestamp.parse?).bind fun updated =>
          some ⟨version, layers, updated⟩ := by
  rw [ofJson?, h]
  rfl

/-- **A record is read back**, unless its time is not, with the tokens it was written with. -/
theorem ofJson?_toJson {r : BuildRecord} (h : r.version < UInt32.size) :
    ofJson? r.toJson = (Timestamp.parse? r.updated.render).bind fun updated =>
      some ⟨r.version, Table.ofPairs r.layers, updated⟩ := by
  have hfields : r.toJson.fields? ["schema_version", "layers", "updated_at"]
      = some [.given (.nat r.version), .given (.object (r.layers.map fun l => (l.1, .string l.2))),
        .given (.string r.updated.render)] := by
    simp [toJson, Json.fields?, Json.memberField?, List.mapM_cons]
  have htable : Json.asTable Json.asString (.object (r.layers.map fun l => (l.1, .string l.2)))
      = some (Table.ofPairs r.layers) := by
    have hmap : ∀ t : Tokens, (t.map fun l => (l.1, Json.string l.2)).mapM
        (fun m => (Json.asString m.2).map fun v => (m.1, v)) = some t := by
      intro t
      induction t with
      | nil => rfl
      | cons l t ih => rw [List.map_cons, List.mapM_cons, ih]; rfl
    rw [Json.asTable, hmap]
    rfl
  rw [ofJson?_of_fields hfields, required_given, asNat_nat h, required_given, htable, required_string,
    Option.bind_some, Option.bind_some]

/-- A number that is read is in range. -/
theorem lt_of_asNat {bound n : Nat} {v : Json} (h : Json.asNat bound v = some n) : n < bound := by
  unfold Json.asNat at h
  split at h
  · split at h
    · next hrange =>
      cases h
      omega
    · cases h
  · cases h

/-- Tokens that are read are in order. -/
theorem sorted_of_asTable {v : Json} {t : Tokens} (h : Json.asTable Json.asString v = some t) :
    Table.Sorted t := by
  unfold Json.asTable at h
  split at h
  · obtain ⟨pairs, -, rfl⟩ := Option.map_eq_some_iff.1 h
    exact Table.sorted_ofPairs pairs
  · cases h

/-- A field that is required was decoded from something. -/
theorem exists_of_required {α : Type} {decode : Json → Option α} {f : Json.Field} {x : α}
    (h : f.required decode = some x) : ∃ v, decode v = some x := by
  cases f with
  | given v => exact ⟨v, h⟩
  | noMember => cases h
  | noItem => cases h

/-- A record of a JSON value has a version of 32 bits and its tokens in order. -/
theorem regular_of_ofJson? {v : Json} {r : BuildRecord} (h : ofJson? v = some r) :
    r.version < UInt32.size ∧ Table.Sorted r.layers := by
  rcases hfields : v.fields? ["schema_version", "layers", "updated_at"] with _ | fields
  · rw [ofJson?, hfields] at h
    cases h
  -- Three names are asked for, so three fields are there; the other lists cannot be.
  · match fields, hfields with
    | [version, layers, updated], hfields =>
      rw [ofJson?_of_fields hfields] at h
      obtain ⟨n, hn, h⟩ := Option.bind_eq_some_iff.1 h
      obtain ⟨t, ht, h⟩ := Option.bind_eq_some_iff.1 h
      obtain ⟨u, -, h⟩ := Option.bind_eq_some_iff.1 h
      cases h
      obtain ⟨v, hv⟩ := exists_of_required hn
      obtain ⟨v', hv'⟩ := exists_of_required ht
      exact ⟨lt_of_asNat hv, sorted_of_asTable hv'⟩
    | [], hfields => rw [ofJson?, hfields] at h; cases h
    | [_], hfields => rw [ofJson?, hfields] at h; cases h
    | [_, _], hfields => rw [ofJson?, hfields] at h; cases h
    | _ :: _ :: _ :: _ :: _, hfields => rw [ofJson?, hfields] at h; cases h

end BuildRecord

namespace RecordStore

/-! ## (3) Records in a file -/

/-- Records as a store holds them: in order of their roots, their versions in range. -/
structure Regular (rs : BuildRecords) : Prop where
  /-- In order of the roots. -/
  sorted : Table.Sorted rs
  /-- Versions are numbers of 32 bits. -/
  version : ∀ r ∈ rs, r.2.version < UInt32.size

/-- No records are regular. -/
theorem Regular.nil : Regular [] := ⟨List.Pairwise.nil, by simp⟩

/-- A further record in range keeps them regular. -/
theorem Regular.insert {rs : BuildRecords} (h : Regular rs) (root : String) {record : BuildRecord}
    (hversion : record.version < UInt32.size) : Regular (Table.insert root record rs) := by
  refine ⟨Table.sorted_insert h.sorted _ _, fun r hr => ?_⟩
  rcases Table.mem_insert hr with rfl | hr
  · exact hversion
  · exact h.version r hr

/-- The pairs that a table is made of, each read by itself. -/
theorem forall_mem_of_mapM {α β : Type} {f : α → Option β} {xs : List α} {ys : List β}
    (h : xs.mapM f = some ys) : ∀ y ∈ ys, ∃ x ∈ xs, f x = some y := by
  induction xs generalizing ys with
  | nil => cases h; simp
  | cons x xs ih =>
    rw [List.mapM_cons] at h
    obtain ⟨y, hy, h⟩ := Option.bind_eq_some_iff.1 h
    obtain ⟨ys', hys, h⟩ := Option.bind_eq_some_iff.1 h
    cases h
    intro z hz
    rcases List.mem_cons.1 hz with rfl | hz
    · exact ⟨x, by simp, hy⟩
    · obtain ⟨x', hx', hfx⟩ := ih hys z hz
      exact ⟨x', List.mem_cons_of_mem _ hx', hfx⟩

/-- Decoding the values of members leaves their names. -/
theorem map_fst_of_mapM {α β : Type} {f : α → Option β} {xs : List (String × α)} {ys : List (String × β)}
    (h : xs.mapM (fun x => (f x.2).map fun v => (x.1, v)) = some ys) : ys.map (·.1) = xs.map (·.1) := by
  induction xs generalizing ys with
  | nil => cases h; rfl
  | cons x xs ih =>
    rw [List.mapM_cons] at h
    obtain ⟨y, hy, h⟩ := Option.bind_eq_some_iff.1 h
    obtain ⟨ys', hys, h⟩ := Option.bind_eq_some_iff.1 h
    cases h
    obtain ⟨v, -, rfl⟩ := Option.map_eq_some_iff.1 hy
    simp [ih hys]

/-- **What is read from a file is regular**, with the tokens of each record in order. -/
theorem regular_recordsOf (d : ByteArray) :
    Regular (recordsOf d) ∧ ∀ r ∈ recordsOf d, Table.Sorted r.2.layers := by
  unfold recordsOf
  split
  · next s hs =>
    rcases hrecords : BuildRecords.parse? s with _ | rs
    · exact ⟨.nil, by simp⟩
    · obtain ⟨v, -, htable⟩ := Option.bind_eq_some_iff.1 hrecords
      rw [Option.getD_some]
      unfold Json.asTable at htable
      split at htable
      · next members =>
        obtain ⟨pairs, hpairs, rfl⟩ := Option.map_eq_some_iff.1 htable
        have hmem : ∀ r ∈ Table.ofPairs pairs, r.2.version < UInt32.size ∧ Table.Sorted r.2.layers := by
          intro r hr
          obtain ⟨m, -, hm⟩ := forall_mem_of_mapM hpairs r (Table.mem_ofPairs hr)
          obtain ⟨record, hrecord, rfl⟩ := Option.map_eq_some_iff.1 hm
          exact BuildRecord.regular_of_ofJson? hrecord
        exact ⟨⟨Table.sorted_ofPairs pairs, fun r hr => (hmem r hr).1⟩, fun r hr => (hmem r hr).2⟩
      · cases htable
  · exact ⟨.nil, by simp⟩

/-- The text of records is read back as the JSON value it was written from. -/
theorem Regular.recordsOf_toUTF8 {rs : BuildRecords} (h : Regular rs) : recordsOf rs.render.toUTF8 =
    (Json.asTable BuildRecord.ofJson? (.object (rs.map fun r => (r.1, r.2.toJson)))).getD [] := by
  have hutf8 : String.fromUTF8? rs.render.toUTF8 = some rs.render := by
    have hvalid : rs.render.toUTF8.IsValidUTF8 := rs.render.isValidUTF8
    rw [String.fromUTF8?, dif_pos hvalid]
    rfl
  have hexact : (Json.object (rs.map fun r => (r.1, r.2.toJson))).IsExact := by
    refine Json.haveExact_iff.2 fun m hm => ?_
    obtain ⟨r, hr, rfl⟩ := List.mem_map.1 hm
    exact BuildRecord.isExact_toJson (h.version r hr)
  rw [recordsOf, hutf8]
  dsimp only
  rw [BuildRecords.parse?, BuildRecords.render, Json.parse?_pretty hexact, Option.bind_eq_bind, Option.bind_some]

/-- **What a store reads of a record that was written** has the tokens it was written with. -/
theorem layers_of_find? {rs : BuildRecords} (hrs : Regular rs) {root : String} {record found : BuildRecord}
    (hrecord : Table.find? rs root = some record) (hlayers : Table.Sorted record.layers)
    (hfound : Table.find? (recordsOf rs.render.toUTF8) root = some found) : found.layers = record.layers := by
  rw [hrs.recordsOf_toUTF8] at hfound
  rcases hpairs : (rs.map fun r => (r.1, r.2.toJson)).mapM fun m =>
      (BuildRecord.ofJson? m.2).map fun v => (m.1, v) with _ | pairs
  · simp [Json.asTable, hpairs] at hfound
  -- Every record is read by itself, under the root it was written for, and no root occurs twice.
  · have hkeys : pairs.map (·.1) = rs.map (·.1) := by
      rw [map_fst_of_mapM hpairs, List.map_map]
      rfl
    have hnodup : (pairs.map (·.1)).Nodup := hkeys ▸ hrs.sorted.nodup
    simp only [Json.asTable, hpairs, Option.map_some, Option.getD_some] at hfound
    rw [Table.find?_ofPairs hnodup] at hfound
    obtain ⟨m, hm, hread⟩ := forall_mem_of_mapM hpairs _ (Table.mem_of_find? hfound)
    obtain ⟨r, hr, rfl⟩ := List.mem_map.1 hm
    obtain ⟨found', hfound', heq⟩ := Option.map_eq_some_iff.1 hread
    cases heq
    have hsame : r.2 = record := by
      have := Table.find?_of_mem hrs.sorted.nodup (k := r.1) (v := r.2) hr
      exact Option.some.inj (this.symm.trans hrecord)
    rw [BuildRecord.ofJson?_toJson (hrs.version r hr)] at hfound'
    obtain ⟨updated, -, heq⟩ := Option.bind_eq_some_iff.1 hfound'
    cases heq
    rw [hsame]
    exact hlayers.ofPairs_eq

end RecordStore

end LayeredBundles
