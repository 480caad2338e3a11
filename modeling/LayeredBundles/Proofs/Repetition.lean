import LayeredBundles.Proofs.Atomicity
import LayeredBundles.Proofs.Runs

/-! # Making an artifact again

An artifact that is current is not made again. Whether one that was just made is current is a matter of its size: a copy
has the time of its entry, but what was read may be longer or shorter than the container says. In a tar container the
size says where the bytes end, so the two cannot differ; in a zip container they are two fields.

* **`Layer.size_of_contents`** — the bytes of a tar container's file are as many as its entry says;
* **`Extraction.Target.makeArtifact_eq_self`** — nothing is done exactly if the artifact is current;
* **`Extraction.makeArtifact_again`** — when it is, a second time. -/

namespace LayeredBundles

/-! ## (1) Sizes -/

namespace Layer

variable {l : Layer} {path : String} {e : Entry} {c : ByteArray}

/-- **What is read of a tar container** is as long as the entry says. -/
theorem size_of_contents {name : String} {s : Medium} (hopen : Layer.ofMedium name s = .ok l) (htar : l.format = .tar)
    (hentry : l.entry path = .ok e) (hfile : e.isDir = false) (h : l.contents path = .ok c) : c.size = e.size := by
  obtain ⟨m, ⟨before, after, hmembers, -, hmfile, -⟩, -, hentry', hread⟩ :=
    (sound_ofMedium hopen).read_of_isFile (isFile_iff.2 ⟨e, hentry, hfile⟩)
  obtain rfl : e = m.entry := Except.ok.inj (hentry.symm.trans hentry')
  obtain ⟨n, hwrite⟩ := contents_eq_ok.1 h
  obtain ⟨hzip, -⟩ | ⟨-, hlist⟩ := members_of_ofMedium hopen
  · exact absurd (hzip.symm.trans htar) (by decide)
  · obtain ⟨-, offset, hbody, -⟩ := Tar.exists_span hlist (m := m) (by simp [hmembers]) hmfile
    rw [hread, hbody, copyBody] at hwrite
    rcases hspan : copySpan l.medium (ArchivePath.normalize path) offset m.entry.size with ⟨out, - | damage⟩
    · simp only [hspan, Prod.mk.injEq] at hwrite
      exact hwrite.1 ▸ size_copySpan hspan
    · simp only [hspan] at hwrite
      cases hwrite

end Layer

/-! ## (2) A second time -/

namespace Extraction

open FileTree Fallible

variable {w w' : Workspace} {l : Layer} {e : Entry} {dir dest path name : String} {names : List String}

/-- **Nothing is done exactly if the artifact is current**: what is produced uses up a number. -/
theorem Target.makeArtifact_eq_self (h : Target dir l path names name e dest) :
    (makeArtifact dir l path).outcome w = (.ok dest, w) ↔ isFresh w.tree dest e = true := by
  rw [h.outcome_makeArtifact]
  split
  · next hfresh => exact iff_of_true rfl hfresh
  · next hstale =>
    refine iff_of_false (fun hdone => ?_) hstale
    rw [Prod.mk.injEq] at hdone
    rcases hout : (produce l e dest).outcome w with ⟨x | _, w'⟩ <;> rw [hout] at hdone
    · cases hdone.1
    · obtain ⟨-, rfl⟩ := hdone
      exact (serial_lt_of_produce hout).false

/-- **Making an artifact again.** For any container that opens, any path, any directory and any tree, with links or
without: if making the artifact succeeds, then a second time the same path is answered and nothing at all is done
exactly if the artifact is current by then. Unless links are in the way, this is so exactly if it was current the first
time, or the bytes that were read are as many as the entry says; for a tar container it always is. -/
theorem makeArtifact_again {s : Medium} (hopen : Layer.ofMedium name s = .ok l)
    (h : (makeArtifact dir l path).outcome w = (.ok dest, w')) :
    ∃ e, l.entry path = .ok e ∧
      ((makeArtifact dir l path).outcome w' = (.ok dest, w') ↔ isFresh w'.tree dest e = true) ∧
      (Unhindered w dest (ArchivePath.name (ArchivePath.normalize path)) →
        (isFresh w'.tree dest e = true ↔
          isFresh w.tree dest e = true ∨ ∃ c, l.contents path = .ok c ∧ c.size = e.size) ∧
        (l.format = .tar → (makeArtifact dir l path).outcome w' = (.ok dest, w') ∧ isFresh w'.tree dest e = true)) := by
  obtain ⟨names, last, e, htarget⟩ := exists_target_of_ok h
  have hname : ArchivePath.name (ArchivePath.normalize path) = last := by
    rw [← Layer.entry_path htarget.entry]
    exact htarget.name_eq
  refine ⟨e, htarget.entry, htarget.makeArtifact_eq_self, fun hway => ?_⟩
  rw [htarget.makeArtifact_eq_self, and_self]
  rcases htarget.arrives_of_makeArtifact (hname ▸ hway) h with
    ⟨hfresh, rfl⟩ | ⟨hstale, p, c, w₁, -, -, hcontents, hlook, -⟩
  · simp [hfresh]
  · rw [isFresh_iff hlook, htarget.wholeSeconds_eq hopen]
    exact ⟨by simp [hstale, hcontents], fun htar => ⟨Layer.size_of_contents hopen htar htarget.entry htarget.file
      hcontents, rfl⟩⟩

/-- A file that was made in place of a directory is not made again. -/
theorem crowded_again : ∃ l w', Layer.ofMedium "a" singleFile = .ok l ∧
    (makeArtifact "/x" l "a.txt").outcome crowded = (.ok "/x/a.txt", w') ∧
    (makeArtifact "/x" l "a.txt").outcome w' = (.ok "/x/a.txt", w') := by
  have hmakes : (Layer.ofMedium "a" singleFile).toOption.any (fun l =>
      decide (((makeArtifact "/x" l "a.txt").outcome crowded).1 = .ok "/x/a.txt") &&
        ((l.contents "a.txt").toOption.map ByteArray.size == (l.entry "a.txt").toOption.map Entry.size)) = true := by
    decide +kernel
  obtain ⟨l, hopen, hmakes⟩ := Layer.exists_ofMedium hmakes
  simp only [Bool.and_eq_true, decide_eq_true_eq, beq_iff_eq] at hmakes
  have hmake := outcome_eq_of_fst hmakes.1
  obtain ⟨e, hentry, hagain, hfresh⟩ := makeArtifact_again hopen hmake
  refine ⟨l, _, hopen, hmake, hagain.2 ((hfresh (unhindered_of_linkFree crowded_linkFree _ _)).1.2 (.inr ?_))⟩
  have hsizes := hmakes.2
  rcases hcontents : l.contents "a.txt" with x | c
  · simp [hcontents, hentry, Except.toOption] at hsizes
  · exact ⟨c, rfl, by simpa [hcontents, hentry, Except.toOption] using hsizes⟩

/-- A container whose directory says of a file with three bytes that it has four. -/
def misstated : Medium := Medium.ofBytes ((Zip.ofFiles [("a.txt", "one")]).set! 62 4)

/-- Its file is made again each time: it never is as long as the container says. -/
theorem misstated_again : ∃ l e w', Layer.ofMedium "a" misstated = .ok l ∧ l.entry "a.txt" = .ok e ∧
    (makeArtifact "/x" l "a.txt").outcome (.ofTree .empty) = (.ok "/x/a.txt", w') ∧
    isFresh w'.tree "/x/a.txt" e = false ∧ ((makeArtifact "/x" l "a.txt").outcome w').2.serial ≠ w'.serial := by
  have hmakes : (Layer.ofMedium "a" misstated).toOption.any (fun l =>
      let (r, w') := (makeArtifact "/x" l "a.txt").outcome (.ofTree .empty)
      decide (r = .ok "/x/a.txt") && (l.entry "a.txt").toOption.any (fun e => !isFresh w'.tree "/x/a.txt" e) &&
        ((makeArtifact "/x" l "a.txt").outcome w').2.serial != w'.serial) = true := by
    decide +kernel
  obtain ⟨l, hopen, hmakes⟩ := Layer.exists_ofMedium hmakes
  rcases hout : (makeArtifact "/x" l "a.txt").outcome (.ofTree .empty) with ⟨r, w'⟩
  rcases hentry : l.entry "a.txt" with x | e
  · simp [hout, hentry, Except.toOption] at hmakes
  · simp only [hout, hentry, Except.toOption, Option.any_some, Bool.and_eq_true, decide_eq_true_eq,
      Bool.not_eq_true', bne_iff_ne] at hmakes
    obtain ⟨⟨rfl, hstale⟩, hagain⟩ := hmakes
    exact ⟨l, e, w', hopen, hentry, hout, hstale, hagain⟩

end Extraction

end LayeredBundles
