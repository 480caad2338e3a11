import LayeredBundles.Text.Split

/-! # Paths inside an archive

A path is text with `/` between segments. Empty segments and `.` segments say nothing and are
dropped, so a path has one **normal form**; `..` is a segment like any other here.

* **`ArchivePath.segments`** — the segments that count;
* **`ArchivePath.normalize`** — the normal form, empty for the root of the archive;
* **`ArchivePath.ofSegments`** — segments with `/` between them;
* **`ArchivePath.name`**, **`ArchivePath.parent`** — the text after and before the last `/`;
* **`ArchivePath.ancestors`** — the directories above a path, outermost first, without the root.

`segments_ofSegments` makes `ofSegments` a right inverse of `segments` on proper segments, hence
`normalize_normalize`. -/

namespace LayeredBundles

namespace ArchivePath

/-- A segment that counts: neither empty nor `.`. -/
def counts (s : String) : Bool := s ≠ "" && s ≠ "."

/-- The segments of a path that count. -/
def segments (path : String) : List String := (Text.split '/' path).filter counts

/-- The path made of the given segments. -/
def ofSegments (segs : List String) : String := Text.join '/' segs

/-- The normal form of a path. -/
def normalize (path : String) : String := ofSegments (segments path)

/-- A segment as it stands in a normal form: not empty, not `.`, without `/`. -/
def IsSegment (s : String) : Prop := s ≠ "" ∧ s ≠ "." ∧ '/' ∉ s.toList

instance (s : String) : Decidable (IsSegment s) := by unfold IsSegment; infer_instance

/-- The segments of a path are segments. -/
theorem isSegment_of_mem_segments {path s : String} (h : s ∈ segments path) : IsSegment s := by
  obtain ⟨hm, hc⟩ := List.mem_filter.1 h
  simp only [counts, ne_eq, decide_not, Bool.and_eq_true, Bool.not_eq_eq_eq_not, Bool.not_true,
    decide_eq_false_iff_not] at hc
  exact ⟨hc.1, hc.2, Text.not_mem_of_mem_split hm⟩

/-- The empty path has none. -/
@[simp] theorem segments_empty : segments "" = [] := by
  simp [segments, Text.split, Text.splitChars, counts]

/-- Proper segments put together are taken apart again. -/
theorem segments_ofSegments {segs : List String} (h : ∀ s ∈ segs, IsSegment s) :
    segments (ofSegments segs) = segs := by
  cases segs with
  | nil => simp [ofSegments, Text.join, Text.joinChars]
  | cons s rest =>
    rw [segments, ofSegments, Text.split_join (by simp) (fun t ht => (h t ht).2.2)]
    apply List.filter_eq_self.2
    intro t ht
    simp [counts, (h t ht).1, (h t ht).2.1]

/-- A path in normal form has the segments it was made of. -/
@[simp] theorem segments_normalize (path : String) : segments (normalize path) = segments path :=
  segments_ofSegments fun _ h => isSegment_of_mem_segments h

/-- The normal form is in normal form. -/
@[simp] theorem normalize_normalize (path : String) : normalize (normalize path) = normalize path := by
  rw [normalize, segments_normalize, ← normalize]

/-- The text after the last `/`. -/
def name (path : String) : String := Text.afterLast '/' path

/-- The text before the last `/`, empty when there is none. -/
def parent (path : String) : String := (Text.beforeLast? '/' path).getD ""

/-- The directory a path written below `dir` would have: `dir` itself when it is the root. -/
def child (dir name : String) : String := if dir = "" then name else dir ++ "/" ++ name

/-- What every path strictly below `dir` begins with. -/
def below (dir : String) : String := if dir = "" then "" else dir ++ "/"

/-- The proper, non-empty beginnings of a list, shortest first. -/
def properBeginnings : List String → List (List String)
  | [] => []
  | [_] => []
  | s :: t :: rest => [s] :: (properBeginnings (t :: rest)).map (s :: ·)

/-- The directories above a path in normal form, outermost first, without the root. -/
def ancestors (path : String) : List String := (properBeginnings (segments path)).map ofSegments

end ArchivePath

end LayeredBundles
