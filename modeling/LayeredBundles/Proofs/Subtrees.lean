import LayeredBundles.Proofs.Catalogs

/-! # What stands below a directory

A catalog finds the entries below a directory by a scan: it starts at the first path that can begin with the directory
and a slash, and ends with the first path that does not. Nothing is missed, because in the order of texts those that
begin with a given text stand next to each other, behind all that are smaller. A sibling whose name only begins with the
name of the directory stands before or after them, according to its next character.

* **`Text.startsWith_of_between`** — texts that begin with a given one stand next to each other;
* **`Table.scan_eq_filter`** — a scan of a table in order finds all keys of a run that has nothing before its start;
* **`ArchivePath.startsWith_below_iff`** — what paths below a directory begin with;
* **`Catalog.descendants_eq`** — the scan finds all that stand below the directory;
* **`Catalog.descendants_subtree`** — all this together. -/

namespace LayeredBundles

/-! ## (1) Texts that begin with a given one -/

namespace Text

variable {start s t : List Char}

/-- No list is smaller than its beginnings. -/
theorem not_lt_of_prefix (h : start <+: s) : ¬ s < start := by
  induction start generalizing s with
  | nil => exact List.not_lt_nil s
  | cons c start ih =>
    obtain ⟨rest, rfl⟩ := h
    rw [List.cons_append, List.cons_lt_cons_iff]
    rintro (hlt | ⟨-, hlt⟩)
    · exact lt_irrefl c hlt
    · exact ih (List.prefix_append start rest) hlt

/-- Between a list and one that begins so, all begin so. -/
theorem prefix_of_between (hstart : ¬ s < start) (hst : s < t) (ht : start <+: t) : start <+: s := by
  induction start generalizing s t with
  | nil => exact List.nil_prefix
  | cons c start ih =>
    obtain ⟨rest, rfl⟩ := ht
    cases s with
    | nil => exact absurd (List.nil_lt_cons c start) hstart
    | cons d s =>
      rw [List.cons_append] at hst
      rw [List.cons_lt_cons_iff, not_or, not_and] at hstart
      -- The first character is not below that of the beginning and not above that of the greater list: it is the same.
      obtain hlt | ⟨rfl, hlt⟩ := List.cons_lt_cons_iff.1 hst
      · exact absurd hlt hstart.1
      · exact (List.prefix_cons_inj d).2 (ih (hstart.2 rfl) hlt (List.prefix_append start rest))

/-- A text that starts with another is not in front of it. -/
theorem not_lt_of_startsWith {start s : String} (h : startsWith start s = true) : ¬ s < start := by
  rw [String.lt_iff_toList_lt]
  exact not_lt_of_prefix (List.isPrefixOf_iff_prefix.1 h)

/-- **Texts that begin with a given one stand next to each other.** -/
theorem startsWith_of_between {start s t : String} (hstart : ¬ s < start) (hst : s < t)
    (ht : startsWith start t = true) : startsWith start s = true := by
  rw [String.lt_iff_toList_lt] at hstart hst
  exact List.isPrefixOf_iff_prefix.2 (prefix_of_between hstart hst (List.isPrefixOf_iff_prefix.1 ht))

end Text

/-! ## (2) Scans of a table in order -/

namespace Table

section Runs

variable {α : Type*} {p q : α → Bool} {xs : List α}

/-- When nothing comes back once it has ceased, taking while it lasts takes all. -/
theorem takeWhile_eq_filter (h : xs.Pairwise fun x y => p y = true → p x = true) : xs.takeWhile p = xs.filter p := by
  induction xs with
  | nil => rfl
  | cons x xs ih =>
    obtain ⟨hfirst, hrest⟩ := List.pairwise_cons.1 h
    by_cases hx : p x = true
    · rw [List.takeWhile_cons_of_pos hx, List.filter_cons_of_pos hx, ih hrest]
    · have hnone : xs.filter p = [] := List.filter_eq_nil_iff.2 fun y hy hpy => hx (hfirst y hy hpy)
      rw [List.takeWhile_cons_of_neg hx, List.filter_cons_of_neg hx, hnone]

/-- When nothing comes back once it has ceased, dropping while it lasts drops all. -/
theorem dropWhile_eq_filter (h : xs.Pairwise fun x y => q y = true → q x = true) :
    xs.dropWhile q = xs.filter fun x => !q x := by
  induction xs with
  | nil => rfl
  | cons x xs ih =>
    obtain ⟨hfirst, hrest⟩ := List.pairwise_cons.1 h
    by_cases hx : q x = true
    · rw [List.dropWhile_cons_of_pos hx, ih hrest, List.filter_cons_of_neg (by simp [hx])]
    · have hall : ∀ y ∈ x :: xs, (!q y) = true := by
        rintro y (_ | ⟨_, hy⟩)
        · simpa using hx
        · simpa using fun hqy => hx (hfirst y hy hqy)
      rw [List.dropWhile_cons_of_neg hx, List.filter_eq_self.2 hall]

end Runs

variable {κ : Type*} {β : Type*} [LT κ] [DecidableLT κ] [Trans (@LT.lt κ _) (@LT.lt κ _) (@LT.lt κ _)]

/-- **A scan finds the whole run.** Keys that satisfy `f` are not below `k`, and between `k` and one of them all keys
satisfy `f`: then those from `k` on, while `f` lasts, are all there are. -/
theorem scan_eq_filter {t : Table κ β} (ht : Sorted t) {k : κ} {f : κ → Bool} (hstart : ∀ x, f x = true → ¬ x < k)
    (hrun : ∀ x y, ¬ x < k → x < y → f y = true → f x = true) :
    (startingAt k t).takeWhile (fun p => f p.1) = t.filter fun p => f p.1 := by
  have hdrop : startingAt k t = t.filter fun p => !decide (p.1 < k) := by
    refine dropWhile_eq_filter (ht.imp fun {p q} hlt hbelow => ?_)
    have hq : q.1 < k := of_decide_eq_true hbelow
    have hp : p.1 < k := Trans.trans hlt hq
    exact decide_eq_true hp
  have htake : ((startingAt k t).Pairwise fun p q => f q.1 = true → f p.1 = true) := by
    rw [hdrop]
    refine List.Pairwise.imp_of_mem (fun hp _ hlt => ?_) (ht.filter _)
    exact hrun _ _ (by simpa using (List.mem_filter.1 hp).2) hlt
  rw [takeWhile_eq_filter htake, hdrop, List.filter_filter]
  refine List.filter_congr fun p _ => ?_
  cases hf : f p.1 with
  | false => rfl
  | true => simpa using hstart p.1 hf

end Table

/-! ## (3) What paths below a directory begin with -/

namespace ArchivePath

variable {dir path : String}

/-- What stands above a path does so however it is written. -/
theorem isAbove_normalize : IsAbove (normalize dir) path ↔ IsAbove dir path := by
  rw [IsAbove, segments_normalize, ← IsAbove]

/-- All paths but the root stand below the root. -/
theorem isAbove_of_root (hdir : normalize dir = "") (hpath : normalize path = path) (hne : path ≠ "") :
    IsAbove dir path := by
  rw [← isAbove_normalize, hdir, IsAbove, segments_empty]
  exact ⟨List.nil_prefix, (segments_ne_nil (hpath.symm ▸ hne)).symm⟩

/-- **What paths below a directory begin with**: the directory and a slash, or nothing for the root. -/
theorem startsWith_below_iff (hdir : normalize dir = dir) (hpath : normalize path = path) (hne : path ≠ "") :
    Text.startsWith (below dir) path = true ↔ IsAbove dir path := by
  rw [Text.startsWith_iff, below]
  split
  · next hroot => exact ⟨fun _ => isAbove_of_root (hdir.trans hroot) hpath hne, fun _ => ⟨path, by simp⟩⟩
  · next hroot =>
    constructor
    · rintro ⟨rest, heq⟩
      have hsplit : segments path = segments dir ++ Text.split '/' rest := by
        rw [segments_eq_split hpath hne, heq, Text.split_append_slash, segments_eq_split hdir hroot]
      refine ⟨hsplit ▸ List.prefix_append _ _, fun hsame => Text.split_ne_nil '/' rest ?_⟩
      exact List.append_cancel_left (hsplit.symm.trans (hsame.symm.trans (List.append_nil _).symm))
    · rintro ⟨⟨more, hmore⟩, hproper⟩
      have hmne : more ≠ [] := fun hnil => hproper (by rw [← hmore, hnil, List.append_nil])
      have hclean : ∀ s ∈ more, '/' ∉ s.toList := fun s hs =>
        (isSegment_of_mem_segments (hmore ▸ List.mem_append_right _ hs)).2.2
      refine ⟨Text.join '/' more, ?_⟩
      -- Both sides have the same pieces.
      have hsplit : Text.split '/' path = Text.split '/' (dir ++ "/" ++ Text.join '/' more) := by
        rw [Text.split_append_slash, Text.split_join hmne hclean, ← segments_eq_split hpath hne,
          ← segments_eq_split hdir hroot, hmore]
      rw [← Text.join_split '/' path, hsplit, Text.join_split]

end ArchivePath

/-! ## (4) The entries below a directory -/

namespace Catalog

/-- Each entry of a catalog with its key: a path in normal form, not the root. -/
theorem key_ofList {es : List Entry} {p : String × Entry} (hp : p ∈ (ofList es).entries) :
    p.2.path = p.1 ∧ ArchivePath.normalize p.1 = p.1 ∧ p.1 ≠ "" := by
  refine ⟨keyed_ofList es _ _ (Table.find?_of_mem (sorted_ofList es).nodup hp), normal_ofList es p hp, fun hroot => ?_⟩
  have hlisted : Table.contains (ofList es).entries p.1 = true := Table.contains_iff.2 (List.mem_map_of_mem hp)
  rw [hroot, root_not_listed] at hlisted
  cases hlisted

/-- All entries come in the order of their paths. -/
theorem ascending_toList (es : List Entry) : (ofList es).toList.Pairwise fun e e' => e.path < e'.path := by
  rw [toList, Table.values, List.pairwise_map]
  refine List.Pairwise.imp_of_mem (fun hp hq hlt => ?_) (sorted_ofList es)
  rwa [(key_ofList hp).1, (key_ofList hq).1]

/-- The path of an entry is in normal form, and not the root. -/
theorem path_of_mem_toList {es : List Entry} {e : Entry} (he : e ∈ (ofList es).toList) :
    ArchivePath.normalize e.path = e.path ∧ e.path ≠ "" := by
  obtain ⟨p, hp, rfl⟩ := List.mem_map.1 he
  obtain ⟨hkey, hproper⟩ := key_ofList hp
  exact hkey.symm ▸ hproper

/-- **The scan finds all that stand below the directory.** -/
theorem descendants_eq (es : List Entry) (dir : String) :
    (ofList es).descendants dir = (ofList es).toList.filter fun e => ArchivePath.IsAbove dir e.path := by
  let start := ArchivePath.below (ArchivePath.normalize dir)
  have hscan : (Table.startingAt start (ofList es).entries).takeWhile (fun p => Text.startsWith start p.1)
      = (ofList es).entries.filter fun p => Text.startsWith start p.1 :=
    Table.scan_eq_filter (sorted_ofList es) (fun _ => Text.not_lt_of_startsWith) fun _ _ => Text.startsWith_of_between
  have hkeep : (ofList es).entries.filter (fun p => Text.startsWith start p.1)
      = (ofList es).entries.filter fun p => decide (ArchivePath.IsAbove dir p.2.path) := by
    refine List.filter_congr fun p hp => ?_
    obtain ⟨hkey, hnormal, hne⟩ := key_ofList hp
    have hbegins := ArchivePath.startsWith_below_iff (ArchivePath.normalize_normalize dir) hnormal hne
    rw [Bool.eq_iff_iff, hbegins, ArchivePath.isAbove_normalize, decide_eq_true_eq, hkey]
  rw [descendants, hscan, hkeep, toList, Table.values, Table.values, List.filter_map]
  rfl

/-- **The entries below a directory are its whole subtree and nothing else.** They come in the order of their paths,
each once, and are those whose path has the directory above it, whether the directory has an entry itself or not. Below
the root they are all entries, below another directory those that have its normal form among their ancestors. No entry
at or below another path of the same depth is among them: however the names of siblings begin, their subtrees stay
apart. -/
theorem descendants_subtree (es : List Entry) (dir : String) :
    ((ofList es).descendants dir).Pairwise (fun e e' => e.path < e'.path) ∧
    (∀ e, e ∈ (ofList es).descendants dir ↔ e ∈ (ofList es).toList ∧ ArchivePath.IsAbove dir e.path) ∧
    (ArchivePath.normalize dir = "" → (ofList es).descendants dir = (ofList es).toList) ∧
    (ArchivePath.normalize dir ≠ "" → ∀ e, e ∈ (ofList es).descendants dir ↔
      e ∈ (ofList es).toList ∧ ArchivePath.normalize dir ∈ ArchivePath.ancestors e.path) ∧
    ∀ sibling, (ArchivePath.segments sibling).length = (ArchivePath.segments dir).length →
      ArchivePath.normalize sibling ≠ ArchivePath.normalize dir →
      ∀ e ∈ (ofList es).descendants dir, ¬ ArchivePath.segments sibling <+: ArchivePath.segments e.path := by
  have hmem : ∀ e, e ∈ (ofList es).descendants dir ↔ e ∈ (ofList es).toList ∧ ArchivePath.IsAbove dir e.path := by
    simp [descendants_eq, List.mem_filter]
  refine ⟨?_, hmem, fun hroot => ?_, fun hne e => ?_, fun sibling hdepth hother e he hsibling => ?_⟩
  · rw [descendants_eq]
    exact (ascending_toList es).filter _
  · rw [descendants_eq]
    refine List.filter_eq_self.2 fun e he => decide_eq_true ?_
    obtain ⟨hnormal, hproper⟩ := path_of_mem_toList he
    exact ArchivePath.isAbove_of_root hroot hnormal hproper
  · rw [hmem]
    refine and_congr_right fun he => ?_
    have habove : ArchivePath.IsAbove (ArchivePath.normalize dir) e.path ↔ _ :=
      ArchivePath.isAbove_iff (ArchivePath.normalize_normalize dir) hne
    rwa [ArchivePath.isAbove_normalize, (path_of_mem_toList he).1] at habove
  · -- Two beginnings of one length are the same.
    have hdir := ((hmem e).1 he).2.1
    have hsame := List.prefix_of_prefix_length_le hsibling hdir hdepth.le |>.eq_of_length hdepth
    exact hother (by rw [ArchivePath.normalize, hsame, ← ArchivePath.normalize])

/-- Siblings whose names begin alike are none of the descendants. -/
theorem descendants_subtree_beside_siblings :
    let c := ofList [Entry.file "a0" 1 0, Entry.file "a-b/c" 1 0, Entry.file "a/d/e" 1 0, Entry.file "./a//b" 1 0,
      Entry.directory "a.b" 0]
    (c.toList.map (·.path) = ["a", "a-b", "a-b/c", "a.b", "a/b", "a/d", "a/d/e", "a0"] ∧
      (c.descendants "a/").map (·.path) = ["a/b", "a/d", "a/d/e"] ∧ c.descendants "a/x" = []) ∧
    (c.descendants "a/").Pairwise (fun e e' => e.path < e'.path) ∧
    c.descendants "/." = c.toList ∧
    (Entry.file "a/b" 1 0 ∈ c.descendants "a/" ↔
      Entry.file "a/b" 1 0 ∈ c.toList ∧ ArchivePath.normalize "a/" ∈ ArchivePath.ancestors "a/b") ∧
    ∀ e ∈ c.descendants "a/", ¬ ArchivePath.segments "a-b" <+: ArchivePath.segments e.path := by
  intro c
  obtain ⟨hascend, -, -, habove, hsiblings⟩ := descendants_subtree _ "a/"
  obtain ⟨-, -, hroot, -⟩ := descendants_subtree _ "/."
  exact ⟨by decide, hascend, hroot (by decide), habove (by decide) _, hsiblings "a-b" (by decide) (by decide)⟩

end Catalog

end LayeredBundles
