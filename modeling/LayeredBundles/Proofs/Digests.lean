import LayeredBundles.Proofs.Readers
import LayeredBundles.Proofs.Recorded
import LayeredBundles.Proofs.Utf8

/-! # What the digest of a layer tells

The digest is taken of the members as they are listed, sorted by path, each as a path and a zero byte, followed by
numbers of fixed width. So the bytes can be taken apart again, member by member, unless a path goes on where another
one ends: a path of a container may have zero bytes of its own.

* **`Layer.Row`**, **`Layer.listing`** — what is listed of a layer, stably sorted by path;
* **`Layer.listing_eq_iff`** — it depends on the members of each path, in container order;
* **`Layer.TellsApart`** — no path of a layer goes on with a zero character where one of the other ends;
* **`Layer.rows_eq_of_bytes_eq`** — the bytes determine the rows, by induction on them;
* **`Layer.digest_eq_iff`** — equal digests, equal listings. -/

namespace LayeredBundles

/-! ## (1) Sorted listings -/

namespace Layer

variable {l l' : Layer}

/-- What is listed of a member: its entry and its checksum. -/
abbrev Row := Entry × Option UInt32

/-- What is listed of a member. -/
def rowOf (m : Member) : Row := (m.entry, m.checksum)

/-- What is listed of all members, by path; rows of one path stay in container order. -/
def listing (l : Layer) : List Row := l.sortedMembers.map rowOf

/-- What is listed at a path, in container order. -/
def listedAt (l : Layer) (path : String) : List Row := (l.members.map rowOf).filter (·.1.path = path)

/-- Rows are ordered by path. -/
def ByPath (rs : List Row) : Prop := rs.Pairwise fun a b => a.1.path ≤ b.1.path

/-- The order by path is transitive. -/
theorem path_le_trans (a b c : Member) (h : decide (a.entry.path ≤ b.entry.path) = true)
    (h' : decide (b.entry.path ≤ c.entry.path) = true) : decide (a.entry.path ≤ c.entry.path) = true :=
  decide_eq_true (String.le_trans (of_decide_eq_true h) (of_decide_eq_true h'))

/-- The order by path is total. -/
theorem path_le_total (a b : Member) :
    (decide (a.entry.path ≤ b.entry.path) || decide (b.entry.path ≤ a.entry.path)) = true := by
  rw [Bool.or_eq_true, decide_eq_true_eq, decide_eq_true_eq]
  exact String.le_total a.entry.path b.entry.path

/-- A listing is sorted by path. -/
theorem byPath_listing (l : Layer) : ByPath l.listing := by
  rw [ByPath, listing, List.pairwise_map]
  exact (List.pairwise_mergeSort path_le_trans path_le_total l.members).imp of_decide_eq_true

/-- Sorting leaves the members of one path as they are. -/
theorem filter_sortedMembers (l : Layer) (path : String) :
    l.sortedMembers.filter (·.entry.path = path) = l.members.filter (·.entry.path = path) := by
  have hsame : (l.members.filter (·.entry.path = path)).Pairwise
      fun a b => decide (a.entry.path ≤ b.entry.path) = true := by
    refine List.pairwise_of_forall_mem_list ?_
    intro a ha b hb
    have ha' := of_decide_eq_true (List.mem_filter.1 ha).2
    have hb' := of_decide_eq_true (List.mem_filter.1 hb).2
    exact decide_eq_true (ha'.trans hb'.symm ▸ String.le_refl _)
  -- A part that is in order stays so, and no member is lost.
  have hsub := (List.sublist_mergeSort path_le_trans path_le_total hsame List.filter_sublist).filter
    (·.entry.path = path)
  have hidem : (l.members.filter (·.entry.path = path)).filter (·.entry.path = path) =
      l.members.filter (·.entry.path = path) := by
    rw [List.filter_filter]
    simp only [Bool.and_self]
  rw [hidem] at hsub
  have hperm := (List.mergeSort_perm l.members fun a b => decide (a.entry.path ≤ b.entry.path)).filter
    (·.entry.path = path)
  exact (hsub.eq_of_length hperm.length_eq.symm).symm

/-- What is listed at a path is in container order, since the sort is stable. -/
theorem filter_listing (l : Layer) (path : String) : l.listing.filter (·.1.path = path) = l.listedAt path := by
  have h := congrArg (List.map rowOf) (l.filter_sortedMembers path)
  rw [listing, listedAt, List.filter_map, List.filter_map]
  exact h

/-- Rows in order of their paths are determined by the rows of each path. -/
theorem eq_of_byPath {rs rs' : List Row} (h : ByPath rs) (h' : ByPath rs')
    (hat : ∀ path, rs.filter (·.1.path = path) = rs'.filter (·.1.path = path)) : rs = rs' := by
  have hmem : ∀ {rs rs' : List Row} {a : Row}, a ∈ rs →
      rs.filter (·.1.path = a.1.path) = rs'.filter (·.1.path = a.1.path) → ∃ b ∈ rs', b.1.path = a.1.path := by
    intro rs rs' a ha hfilter
    have hin : a ∈ rs'.filter (·.1.path = a.1.path) := hfilter ▸ List.mem_filter.2 ⟨ha, decide_eq_true rfl⟩
    exact ⟨a, (List.mem_filter.1 hin).1, rfl⟩
  induction rs generalizing rs' with
  | nil =>
    cases rs' with
    | nil => rfl
    | cons b rs' =>
      obtain ⟨c, hc, -⟩ := hmem List.mem_cons_self (hat b.1.path).symm
      exact absurd hc List.not_mem_nil
  | cons a rs ih =>
    cases rs' with
    | nil =>
      obtain ⟨c, hc, -⟩ := hmem List.mem_cons_self (hat a.1.path)
      exact absurd hc List.not_mem_nil
    | cons b rs' =>
      have hle : ∀ {a b : Row} {rs : List Row}, ByPath (b :: rs) → (∃ c ∈ b :: rs, c.1.path = a.1.path) →
          b.1.path ≤ a.1.path := by
        rintro a b rs hsorted ⟨c, hc, hpath⟩
        obtain rfl | hc := List.mem_cons.1 hc
        · exact hpath ▸ String.le_refl _
        · exact hpath ▸ (List.pairwise_cons.1 hsorted).1 c hc
      -- Both lists begin with the least path, so with the first row of that path.
      have hpath : a.1.path = b.1.path := String.le_antisymm
        (hle h (hmem List.mem_cons_self (hat b.1.path).symm)) (hle h' (hmem List.mem_cons_self (hat a.1.path)))
      have hfirst := hat a.1.path
      rw [List.filter_cons_of_pos (by simp), List.filter_cons_of_pos (by simp [hpath])] at hfirst
      obtain ⟨rfl, hrest⟩ := List.cons.inj hfirst
      refine congrArg (a :: ·) (ih (List.pairwise_cons.1 h).2 (List.pairwise_cons.1 h').2 ?_)
      intro path
      by_cases heq : a.1.path = path
      · rw [← heq]
        exact hrest
      · have hother := hat path
        rwa [List.filter_cons_of_neg (by simpa using heq), List.filter_cons_of_neg (by simpa using heq)] at hother

/-- A listing depends on what is listed at each path, in container order. -/
theorem listing_eq_iff : l.listing = l'.listing ↔ ∀ path, l.listedAt path = l'.listedAt path := by
  constructor
  · intro h path
    rw [← filter_listing, ← filter_listing, h]
  · intro h
    refine eq_of_byPath l.byPath_listing l'.byPath_listing ?_
    intro path
    rw [filter_listing, filter_listing, h]

end Layer

/-! ## (2) Bytes that can be taken apart -/

namespace Layer

variable {l l' : Layer} {m m' : Member}

/-- The bytes the digest is taken of. -/
def listingBytes (l : Layer) : ByteArray := Bytes.concat (l.sortedMembers.map listed)

/-- The numbers listed of a member: twenty-two bytes behind the path and its zero byte. -/
def numbers (m : Member) : List UInt8 :=
  [if m.entry.isDir then 1 else 0] ++ Bytes.littleList 8 m.entry.size ++
    Bytes.littleList 8 (m.entry.timestamp % (Nat.pow 256 8 : Nat)).toNat ++
    Bytes.littleList 4 (m.checksum.getD 0).toNat

/-- **A member is listed** as its path, a zero byte and its numbers. -/
theorem toList_listed (m : Member) : (listed m).toList = m.entry.path.toUTF8.toList ++ 0 :: numbers m := by
  simp only [listed, Bytes.ofLittleInt, Bytes.toList_append, Bytes.toList_ofList, Bytes.toList_ofLittle, numbers,
    List.append_assoc, List.cons_append, List.nil_append]

/-- The numbers of a member take twenty-one bytes. -/
theorem length_numbers (m : Member) : (numbers m).length = 21 := by
  simp only [numbers, List.length_append, Bytes.length_littleList, List.length_singleton]

/-- The numbers of a member are read back from their bytes. -/
theorem numbers_inj {f : Format} (hm : m.Recorded f) (hm' : m'.Recorded f) (hpath : m.entry.path = m'.entry.path)
    (h : numbers m = numbers m') : rowOf m = rowOf m' := by
  have hread : ∀ {width n n' : Nat}, n < 256 ^ width → n' < 256 ^ width →
      Bytes.littleList width n = Bytes.littleList width n' → n = n' := by
    intro width n n' hn hn' heq
    rw [← Bytes.littleOf_littleList_of_lt hn, heq, Bytes.littleOf_littleList_of_lt hn']
  -- Every field has a fixed width, so the bytes are taken apart from the end.
  obtain ⟨h, hchecksum⟩ := List.append_inj h (by simp [Bytes.length_littleList])
  obtain ⟨h, htime⟩ := List.append_inj h (by simp [Bytes.length_littleList])
  obtain ⟨hkind, hsize⟩ := List.append_inj h (by simp)
  have hdir : m.entry.isDir = m'.entry.isDir := by
    cases hd : m.entry.isDir <;> cases hd' : m'.entry.isDir <;> simp [hd, hd'] at hkind ⊢
  have hmodulus : ((Nat.pow 256 8 : Nat) : Int) = 18446744073709551616 := by decide
  rw [hmodulus] at htime
  have htime := hread (by omega) (by omega) htime
  -- The timestamp was written modulo the words, and is in their range.
  have hbounds := And.intro hm.lt_timestamp hm.timestamp_lt
  have hbounds' := And.intro hm'.lt_timestamp hm'.timestamp_lt
  have hseconds : m.entry.timestamp = m'.entry.timestamp := by omega
  have hvalue := hread (m.checksum.getD 0).toNat_lt (m'.checksum.getD 0).toNat_lt hchecksum
  have hsome : m.checksum.isSome = m'.checksum.isSome :=
    Bool.eq_iff_iff.2 (hm.checksum_isSome.trans hm'.checksum_isSome.symm)
  have hentry : m.entry = m'.entry := by
    rw [Entry.mk.injEq]
    exact ⟨hpath, hdir, hread hm.size_lt hm'.size_lt hsize, hseconds⟩
  have hcheck : m.checksum = m'.checksum := by
    generalize m.checksum = x at hvalue hsome
    generalize m'.checksum = y at hvalue hsome
    cases x with
    | none => cases y with
      | none => rfl
      | some y => cases hsome
    | some x => cases y with
      | none => cases hsome
      | some y => exact congrArg some (UInt32.toNat_inj.1 hvalue)
  rw [rowOf, rowOf, hentry, hcheck]

/-- `TellsApart l l'`: no path of a layer goes on with a zero character where a path of the other one ends. -/
def TellsApart (l l' : Layer) : Prop :=
  ∀ m ∈ l.members, ∀ m' ∈ l'.members, ¬ m.entry.path.toList ++ ['\x00'] <+: m'.entry.path.toList ∧
    ¬ m'.entry.path.toList ++ ['\x00'] <+: m.entry.path.toList

/-- Layers without zero characters in their paths tell each other apart. -/
theorem tellsApart_of_zeroFree (h : ∀ m ∈ l.members, '\x00' ∉ m.entry.path.toList)
    (h' : ∀ m ∈ l'.members, '\x00' ∉ m.entry.path.toList) : l.TellsApart l' := by
  intro m hm m' hm'
  constructor
  · intro hbegins
    exact h' m' hm' (hbegins.subset (by simp))
  · intro hbegins
    exact h m hm (hbegins.subset (by simp))

/-- Two texts that end in zero bytes at different places: one goes on with a zero character where the other ends. -/
theorem eq_or_goes_on {a b : String} {rest rest' : List UInt8}
    (h : a.toUTF8.toList ++ 0 :: rest = b.toUTF8.toList ++ 0 :: rest') :
    a = b ∨ a.toList ++ ['\x00'] <+: b.toList ∨ b.toList ++ ['\x00'] <+: a.toList := by
  have hgoes : ∀ {a b : String} {rest rest' c : List UInt8}, b.toUTF8.toList = a.toUTF8.toList ++ c →
      0 :: rest = c ++ 0 :: rest' → a = b ∨ a.toList ++ ['\x00'] <+: b.toList := by
    intro a b rest rest' c hb hc
    cases c with
    | nil => exact .inl (Utf8.toUTF8_inj.1 (by rw [hb, List.append_nil]))
    | cons z c =>
      obtain ⟨rfl, -⟩ := List.cons.inj hc
      have hchars := Utf8.chars_toUTF8 b []
      rw [List.append_nil, hb, Utf8.chars_toUTF8, Utf8.chars, List.append_nil, Utf8.chars_cons] at hchars
      refine .inr ⟨Utf8.chars none c, ?_⟩
      rw [← hchars, List.append_assoc]
      rfl
  obtain ⟨c, hb, hc⟩ | ⟨c, ha, hc⟩ := List.append_eq_append_iff.1 h
  · exact (hgoes hb hc).imp_right .inl
  · exact (hgoes ha hc).imp Eq.symm .inr

/-- Pieces put together hold the bytes of one after the other. -/
theorem toList_concat (pieces : List ByteArray) :
    (Bytes.concat pieces).toList = pieces.flatMap ByteArray.toList := by
  have hfold : ∀ (pieces : List ByteArray) (d : ByteArray),
      (pieces.foldl (· ++ ·) d).toList = d.toList ++ pieces.flatMap ByteArray.toList := by
    intro pieces
    induction pieces with
    | nil => exact fun d => (List.append_nil _).symm
    | cons p pieces ih =>
      intro d
      rw [List.foldl_cons, ih, Bytes.toList_append, List.flatMap_cons, List.append_assoc]
  rw [Bytes.concat, hfold, ByteArray.toList_empty, List.nil_append]

/-- **The bytes determine the rows.** -/
theorem rows_eq_of_bytes_eq {f : Format} {ms ms' : List Member} (hms : ∀ m ∈ ms, m.Recorded f)
    (hms' : ∀ m ∈ ms', m.Recorded f) (hapart : ∀ m ∈ ms, ∀ m' ∈ ms',
      ¬ m.entry.path.toList ++ ['\x00'] <+: m'.entry.path.toList ∧
        ¬ m'.entry.path.toList ++ ['\x00'] <+: m.entry.path.toList)
    (h : (ms.map listed).flatMap ByteArray.toList = (ms'.map listed).flatMap ByteArray.toList) :
    ms.map rowOf = ms'.map rowOf := by
  induction ms generalizing ms' with
  | nil =>
    cases ms' with
    | nil => rfl
    | cons m' ms' =>
      rw [List.map_cons, List.flatMap_cons, toList_listed] at h
      simp at h
  | cons m ms ih =>
    cases ms' with
    | nil =>
      rw [List.map_cons, List.flatMap_cons, toList_listed] at h
      simp at h
    | cons m' ms' =>
      obtain ⟨hgoes, hgoes'⟩ := hapart m List.mem_cons_self m' List.mem_cons_self
      simp only [List.map_cons, List.flatMap_cons, toList_listed, List.append_assoc, List.cons_append] at h
      -- The paths end at the same place, so the numbers behind them do too.
      have hpath : m.entry.path = m'.entry.path :=
        (eq_or_goes_on h).resolve_right (not_or_intro hgoes hgoes')
      rw [hpath] at h
      obtain ⟨-, h⟩ := List.cons.inj (List.append_cancel_left h)
      obtain ⟨hnumbers, hrest⟩ := List.append_inj h ((length_numbers m).trans (length_numbers m').symm)
      have hrow := numbers_inj (hms m List.mem_cons_self) (hms' m' List.mem_cons_self) hpath hnumbers
      have hrows := ih (fun a ha => hms a (List.mem_cons_of_mem _ ha)) (fun a ha => hms' a (List.mem_cons_of_mem _ ha))
        (fun a ha b hb => hapart a (List.mem_cons_of_mem _ ha) b (List.mem_cons_of_mem _ hb)) hrest
      rw [List.map_cons, List.map_cons, hrow, hrows]

/-! ## (3) Digests -/

/-- A digit is read back as its value. -/
theorem hex_digit : ∀ n < 16, Hex.value? (Hex.digit n) = some n := by decide

/-- Bytes are told by their digits. -/
theorem toHex_inj {d e : ByteArray} : Bytes.toHex d = Bytes.toHex e ↔ d = e := by
  constructor
  · intro h
    rw [Bytes.toHex, Bytes.toHex, String.ofList_inj] at h
    rw [← Bytes.toList_inj]
    generalize d.toList = bs at h
    generalize e.toList = cs at h
    induction bs generalizing cs with
    | nil => cases cs with
      | nil => rfl
      | cons c cs => cases h
    | cons b bs ih => cases cs with
      | nil => cases h
      | cons c cs =>
        simp only [List.flatMap_cons, List.cons_append, List.nil_append, List.cons.injEq] at h
        obtain ⟨hhigh, hlow, hrest⟩ := h
        have hb := b.toNat_lt
        have hc := c.toNat_lt
        have hhigh := congrArg Hex.value? hhigh
        have hlow := congrArg Hex.value? hlow
        rw [hex_digit _ (by omega), hex_digit _ (by omega), Option.some.injEq] at hhigh hlow
        rw [UInt8.toNat_inj.1 (show b.toNat = c.toNat by omega), ih cs hrest]
  · exact congrArg Bytes.toHex

/-- The bytes are those of the rows. -/
theorem listingBytes_eq (l : Layer) :
    l.listingBytes = Bytes.concat (l.listing.map fun r => listed ⟨r.1, r.2, .none⟩) := by
  rw [listingBytes, listing, List.map_map]
  rfl

/-- **Equal digests, equal listings.** Take two containers of one format that open, no path of either going on with a
zero character where a path of the other ends. If the hash does not take the bytes of the two listings for each other,
the digests are equal exactly if the listings are, stably sorted by path. These are equal exactly if both containers
list the same at every path, in the same order: the order of members of different paths does not matter. -/
theorem digest_eq_iff {name name' : String} {s s' : Medium} (h : Layer.ofMedium name s = .ok l)
    (h' : Layer.ofMedium name' s' = .ok l') (hformat : l.format = l'.format) (hapart : l.TellsApart l')
    (hhash : Sha256.hash l.listingBytes = Sha256.hash l'.listingBytes → l.listingBytes = l'.listingBytes) :
    (l.digest = l'.digest ↔ l.listing = l'.listing) ∧
      (l.listing = l'.listing ↔ ∀ path, l.listedAt path = l'.listedAt path) := by
  refine ⟨⟨?_, ?_⟩, listing_eq_iff⟩
  · intro hdigest
    have hbytes := congrArg ByteArray.toList (hhash (toHex_inj.1 hdigest))
    rw [listingBytes, listingBytes, toList_concat, toList_concat] at hbytes
    have hmem : ∀ {l : Layer} {m : Member}, m ∈ l.sortedMembers → m ∈ l.members :=
      fun hm => (List.mergeSort_perm _ _).mem_iff.1 hm
    have hrecorded := recorded_ofMedium h
    rw [hformat] at hrecorded
    exact rows_eq_of_bytes_eq (fun m hm => hrecorded m (hmem hm)) (fun m hm => recorded_ofMedium h' m (hmem hm))
      (fun m hm m' hm' => hapart m (hmem hm) m' (hmem hm')) hbytes
  · intro hlisting
    change Bytes.toHex (Sha256.hash l.listingBytes) = Bytes.toHex (Sha256.hash l'.listingBytes)
    rw [listingBytes_eq, listingBytes_eq, hlisting]

/-! ## (4) Containers of small files -/

/-- What is listed of a small file without a time. -/
def fileRow (file : String × String) : Row :=
  (Entry.file file.1 file.2.utf8ByteSize 0, some (Crc32.ofBytes file.2.toUTF8))

/-- `OpensAs files l`: the zip container of these files opens as the layer, and all of them are listed. -/
def OpensAs (files : List (String × String)) (l : Layer) : Prop :=
  Layer.ofMedium "b" (Medium.ofBytes (Zip.ofFiles files)) = .ok l ∧ l.format = .zip ∧
    l.members.map rowOf = files.map fileRow

/-- A zip file made of some files opens as these, if its members are seen to be. -/
theorem exists_opensAs (files : List (String × String))
    (h : (Layer.ofMedium "b" (Medium.ofBytes (Zip.ofFiles files))).toOption.any
      (fun l => decide (l.format = .zip) && decide (l.members.map rowOf = files.map fileRow)) = true) :
    ∃ l, OpensAs files l := by
  obtain ⟨l, hopens, h⟩ := exists_ofMedium h
  rw [Bool.and_eq_true, decide_eq_true_eq, decide_eq_true_eq] at h
  exact ⟨l, hopens, h⟩

variable {files files' : List (String × String)}

/-- Files in order of their paths are listed as they stand in the container. -/
theorem OpensAs.listing_eq (h : OpensAs files l) (hsorted : ByPath (files.map fileRow)) :
    l.listing = files.map fileRow := by
  rw [← h.2.2] at hsorted ⊢
  exact eq_of_byPath l.byPath_listing hsorted l.filter_listing

/-- Layers of files without zero characters in their names tell each other apart. -/
theorem OpensAs.tellsApart (h : OpensAs files l) (h' : OpensAs files' l')
    (hfree : ∀ r ∈ (files ++ files').map fileRow, '\x00' ∉ r.1.path.toList) : l.TellsApart l' := by
  refine tellsApart_of_zeroFree ?_ ?_
  · intro m hm
    refine hfree (rowOf m) ?_
    rw [List.map_append, ← h.2.2]
    exact List.mem_append_left _ (List.mem_map.2 ⟨m, hm, rfl⟩)
  · intro m hm
    refine hfree (rowOf m) ?_
    rw [List.map_append, ← h'.2.2]
    exact List.mem_append_right _ (List.mem_map.2 ⟨m, hm, rfl⟩)

/-- Two files in another order have the same digest, and a file of another size changes it. -/
theorem digest_of_files : ∃ l l' l'', OpensAs [("a", "1"), ("b", "")] l ∧ OpensAs [("b", ""), ("a", "1")] l' ∧
    OpensAs [("a", "22"), ("b", "")] l'' ∧ l.digest = l'.digest ∧ l.digest ≠ l''.digest := by
  obtain ⟨l, h⟩ := exists_opensAs [("a", "1"), ("b", "")] (by decide +kernel)
  obtain ⟨l', h'⟩ := exists_opensAs [("b", ""), ("a", "1")] (by decide +kernel)
  obtain ⟨l'', h''⟩ := exists_opensAs [("a", "22"), ("b", "")] (by decide +kernel)
  have hreordered : l.listing = l'.listing := by
    refine listing_eq_iff.2 ?_
    intro path
    rw [listedAt, listedAt, h.2.2, h'.2.2]
    by_cases ha : "a" = path <;> by_cases hb : "b" = path <;> simp [fileRow, Entry.file, ha, hb]
    exact absurd (ha.trans hb.symm) (by decide)
  have hlisting := h.listing_eq (by unfold ByPath; decide)
  have hlisting'' := h''.listing_eq (by unfold ByPath; decide)
  have hhash : Sha256.hash l.listingBytes ≠ Sha256.hash l''.listingBytes := by
    rw [listingBytes_eq, listingBytes_eq, hlisting, hlisting'']
    decide +kernel
  have hresized : l.listing ≠ l''.listing := by
    rw [hlisting, hlisting'']
    decide
  refine ⟨l, l', l'', h, h', h'', ?_, ?_⟩
  · exact (digest_eq_iff h.1 h'.1 (h.2.1.trans h'.2.1.symm) (h.tellsApart h' (by decide))
      fun _ => by rw [listingBytes_eq, listingBytes_eq, hreordered]).1.2 hreordered
  · exact fun hdigest => hresized ((digest_eq_iff h.1 h''.1 (h.2.1.trans h''.2.1.symm) (h.tellsApart h'' (by decide))
      fun heq => absurd heq hhash).1.1 hdigest)

/-- A path that goes on where the path `a` ends: with the bytes that follow `a` when it is listed as an empty file
without a time, and then with the path `b`. -/
def swallowing : String := "a" ++ String.ofList (List.replicate 22 '\x00') ++ "b"

/-- **One file in the place of two** leaves the digest as it is, when its path has zero characters. -/
theorem digest_misses : ∃ l l', OpensAs [("a", ""), ("b", "")] l ∧ OpensAs [(swallowing, "")] l' ∧
    l.digest = l'.digest ∧ l.listing ≠ l'.listing := by
  obtain ⟨l, h⟩ := exists_opensAs [("a", ""), ("b", "")] (by decide +kernel)
  obtain ⟨l', h'⟩ := exists_opensAs [(swallowing, "")] (by decide +kernel)
  have hlisting := h.listing_eq (by unfold ByPath; decide)
  have hlisting' := h'.listing_eq (List.pairwise_singleton _ _)
  have hbytes : l.listingBytes = l'.listingBytes := by
    rw [listingBytes_eq, listingBytes_eq, hlisting, hlisting']
    decide +kernel
  refine ⟨l, l', h, h', congrArg (fun d => Bytes.toHex (Sha256.hash d)) hbytes, ?_⟩
  rw [hlisting, hlisting']
  exact fun heq => absurd (congrArg List.length heq) (by decide)

end Layer

end LayeredBundles
