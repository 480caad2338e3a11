import LayeredBundles.Proofs.Loading
import LayeredBundles.Proofs.Tables
import LayeredBundles.Proofs.UnitFiles
import Mathlib.Logic.Relation

/-! # Loading is reachability

Where the files, the locator and the host's verdicts stay as they are, libraries and what they need form a graph. The
loader finds out exactly which names can be reached in it, whatever the order in which it is asked.

* **`Loader.Setting`** — what stays as it is; **`Setting.Governs`** tells that a host and a locator keep to it;
* **`Setting.Reached`** — the names that can be reached from what some files need;
* **`Setting.recorded_iff_reached`** — these are the names on record, each with the outcome of its own verdict. -/

namespace LayeredBundles

namespace Loader

/-- What does not change while libraries are loaded. -/
structure Setting where
  /-- The bundled copy of a library, if there is one. -/
  found : String → Option String
  /-- What the file at a path needs, if there is one that is understood. -/
  needs : String → Option (List String)
  /-- The host's verdict on a call. -/
  verdict : HostCall → Except String Unit

namespace Setting

variable {g : Setting} {host : Host} {locator : Locator} {I : Workspace → Prop} {names paths : List String}
  {name : String} {s s' : LoaderState}

/-- What a library needs: what its bundled copy needs, if there is one that is understood. -/
def deps (g : Setting) (name : String) : List String := ((g.found name).bind g.needs).getD []

/-- One library needs another. -/
def Needs (g : Setting) (name dep : String) : Prop := dep ∈ g.deps name

/-- What becomes of a library. -/
def outcome (g : Setting) (name : String) : LoadStatus :=
  .ofVerdict (g.found name) (g.verdict (.ofFound name (g.found name)))

/-- `g.Reached paths n`: some of these files is understood and needs a library by which `n` can be reached. -/
def Reached (g : Setting) (paths : List String) (n : String) : Prop :=
  ∃ path ∈ paths, ∃ names, g.needs path = some names ∧ ∃ m ∈ names, Relation.ReflTransGen g.Needs m n

/-- `g.Locates locator I`: in every workspace that satisfies `I`, the locator does as `g` says, whatever the host's
verdicts, and `I` stays true. -/
structure Locates (g : Setting) (locator : Locator) (I : Workspace → Prop) : Prop where
  /-- Only listed names have a copy. -/
  unlisted : ∀ n, n ∉ locator.names → g.found n = none
  /-- The locator answers a name the same way every time. That it fails means that there is no copy. -/
  located : ∀ w, I w → ∀ n ∈ locator.names, ((locator.locate n).outcome w).1.toOption.join = g.found n
  /-- The locator may change the workspace, yet nothing that matters here. -/
  kept : ∀ w, I w → ∀ n ∈ locator.names, I ((locator.locate n).outcome w).2
  /-- A copy that was found needs the same every time. -/
  needs : ∀ w, I w → ∀ n ∈ locator.names, ∀ path, g.found n = some path →
    ((Elf.neededOf path).outcome ((locator.locate n).outcome w).2).1.toOption = g.needs path

/-- `g.Governs host locator I`: in every workspace that satisfies `I`, host and locator do as `g` says, and `I` stays
true. -/
structure Governs (g : Setting) (host : Host) (locator : Locator) (I : Workspace → Prop) : Prop
    extends g.Locates locator I where
  /-- The verdict depends on the call alone. -/
  verdict : ∀ calls call, host calls call = g.verdict call

/-! ## (1) A walk in a setting -/

/-- What is located, and what that needs. -/
theorem Locates.located_run (h : g.Locates locator I) (hs : I s.workspace) {found : Option String}
    {needs : List String} {s₁ s₂ : LoaderState} (hfound : (locate locator name).run s = (found, s₁))
    (hneeds : (declared found).run s₁ = (needs, s₂)) :
    found = g.found name ∧ needs = g.deps name ∧ s₂ = { s with workspace := s₂.workspace } ∧ I s₂.workspace := by
  cases hneeds.symm.trans (declared_run found s₁)
  by_cases hmem : name ∈ locator.names
  · cases hfound.symm.trans (locate_run_of_mem hmem s)
    have hlocated := h.located _ hs name hmem
    refine ⟨hlocated, ?_, rfl, h.kept _ hs name hmem⟩
    rw [hlocated, deps]
    rcases hcopy : g.found name with _ | path
    · rfl
    · rw [Option.bind_some, Option.bind_some]
      exact congrArg (Option.getD · []) (h.needs _ hs name hmem path hcopy)
  · cases hfound.symm.trans (locate_run_of_notMem hmem s)
    rw [deps, h.unlisted name hmem]
    exact ⟨rfl, rfl, rfl, hs⟩

/-- `g.Visits names s s'`: loading these libraries leads from `s` to `s'`. -/
structure Visits (g : Setting) (names : List String) (s s' : LoaderState) : Prop where
  /-- What was recorded keeps its outcome. -/
  kept : ∀ n, Recorded s n → Table.find? s'.record n = Table.find? s.record n
  /-- All the libraries are recorded. -/
  all : ∀ n ∈ names, Recorded s' n
  /-- What is new can be reached, has the outcome of its verdict, and needs nothing that is not recorded. -/
  new : ∀ n, Recorded s' n → ¬ Recorded s n → (∃ m ∈ names, Relation.ReflTransGen g.Needs m n) ∧
    Table.find? s'.record n = some (g.outcome n) ∧ ∀ d ∈ g.deps n, Recorded s' d
  /-- The record stays in order. -/
  sorted : Table.Sorted s.record → Table.Sorted s'.record

/-- What was recorded stays recorded. -/
theorem Visits.recorded (h : g.Visits names s s') {n : String} (hn : Recorded s n) : Recorded s' n := by
  rw [Recorded, Table.contains, h.kept n hn]
  exact hn

/-- With no library to load nothing changes. -/
theorem Visits.done (g : Setting) (s : LoaderState) : g.Visits [] s s where
  kept _ _ := rfl
  all := by simp
  new n hn hn' := absurd hn hn'
  sorted hs := hs

/-- A library that is recorded is passed over. -/
theorem Visits.known (hname : Recorded s name) (h : g.Visits names s s') : g.Visits (name :: names) s s' where
  kept := h.kept
  all n hn := by
    rcases List.mem_cons.1 hn with rfl | hn
    · exact h.recorded hname
    · exact h.all n hn
  new n hn hn' := by
    obtain ⟨⟨m, hm, hreach⟩, hrest⟩ := h.new n hn hn'
    exact ⟨⟨m, List.mem_cons_of_mem _ hm, hreach⟩, hrest⟩
  sorted := h.sorted

/-- Any other library is marked; what it needs is loaded, then it has its outcome, and the others follow. That it is
marked keeps nothing from being loaded: all that is passed over on the way is recorded. -/
theorem Visits.fresh (hverdict : ∀ calls call, host calls call = g.verdict call) {s₂ s₃ : LoaderState}
    (hname : ¬ Recorded s name) (hrecord : s₂.record = Table.insert name .pending s.record)
    (hneeds : g.Visits (g.deps name) s₂ s₃) (hrest : g.Visits names (concluded host name (g.found name) s₃) s') :
    g.Visits (name :: names) s s' := by
  have hmarked : ∀ n, Recorded s₂ n ↔ n = name ∨ Recorded s n := fun n => recorded_of_insert hrecord
  have hother : ∀ n, n ≠ name →
      Table.find? (concluded host name (g.found name) s₃).record n = Table.find? s₃.record n :=
    fun n hn => Table.find?_insert_of_ne hn _ _
  have hdeps : ∀ n, Recorded s₃ n → Recorded s' n := fun n hn => hrest.recorded (recorded_concluded.2 (.inr hn))
  refine { kept := fun n hn => ?_, all := fun n hn => ?_, new := fun n hn hn' => ?_, sorted := fun hs => ?_ }
  · have hne : n ≠ name := fun heq => hname (heq ▸ hn)
    have hn₂ := (hmarked n).2 (.inr hn)
    rw [hrest.kept n (recorded_concluded.2 (.inr (hneeds.recorded hn₂))), hother n hne, hneeds.kept n hn₂, hrecord,
      Table.find?_insert_of_ne hne]
  · rcases List.mem_cons.1 hn with rfl | hn
    · exact hrest.recorded (recorded_concluded.2 (.inl rfl))
    · exact hrest.all n hn
  -- What is new is the library itself, or came on record with what it needs, or with the libraries after it.
  · by_cases heq : n = name
    · subst heq
      have hself : Recorded (concluded host n (g.found n) s₃) n := recorded_concluded.2 (.inl rfl)
      refine ⟨⟨n, List.mem_cons_self, .refl⟩, ?_, fun d hd => hdeps d (hneeds.all d hd)⟩
      rw [hrest.kept n hself, concluded, Table.find?_insert_self, hverdict, outcome]
    by_cases hn₃ : Recorded s₃ n
    · have hn₂ : ¬ Recorded s₂ n := fun h => ((hmarked n).1 h).elim heq hn'
      obtain ⟨⟨m, hm, hreach⟩, hstatus, hclosed⟩ := hneeds.new n hn₃ hn₂
      refine ⟨⟨name, List.mem_cons_self, .head hm hreach⟩, ?_, fun d hd => hdeps d (hclosed d hd)⟩
      rw [hrest.kept n (recorded_concluded.2 (.inr hn₃)), hother n heq, hstatus]
    · have hn₄ : ¬ Recorded (concluded host name (g.found name) s₃) n := fun h =>
        (recorded_concluded.1 h).elim heq hn₃
      obtain ⟨⟨m, hm, hreach⟩, hrest'⟩ := hrest.new n hn hn₄
      exact ⟨⟨m, List.mem_cons_of_mem _ hm, hreach⟩, hrest'⟩
  · exact hrest.sorted (Table.sorted_insert (hneeds.sorted (hrecord ▸ Table.sorted_insert hs _ _)) _ _)

/-- **A walk in a setting** visits what can be reached and is not recorded. -/
theorem Governs.visits (h : g.Governs host locator I) (hloads : Loads host locator names s s') (hs : I s.workspace) :
    g.Visits names s s' ∧ I s'.workspace := by
  induction hloads with
  | done s => exact ⟨.done g s, hs⟩
  | known hname _ ih => exact ⟨.known hname (ih hs).1, (ih hs).2⟩
  | fresh hname hfound hneeds _ _ ihneeds ihrest =>
    obtain ⟨rfl, rfl, hsame, hs₂⟩ := h.toLocates.located_run (s := marked _ _) hs hfound hneeds
    obtain ⟨hvisits, hs₃⟩ := ihneeds hs₂
    obtain ⟨hrest, hs'⟩ := ihrest hs₃
    exact ⟨.fresh h.verdict hname (congrArg LoaderState.record hsame) hvisits hrest, hs'⟩

/-! ## (2) A sequence of requests -/

/-- The state after the requests to load all that some files need. -/
def loadAll (host : Host) (locator : Locator) (s : LoaderState) (paths : List String) : LoaderState :=
  paths.foldl (fun s path => ((loadNeeds host locator path).outcome s).2) s

/-- Some files after others are loaded where those left off. -/
theorem loadAll_append (before after : List String) :
    loadAll host locator s (before ++ after) = loadAll host locator (loadAll host locator s before) after :=
  List.foldl_append

/-- `g.Complete paths s`: on record is what can be reached from what these files need, each with its outcome. -/
structure Complete (g : Setting) (paths : List String) (s : LoaderState) : Prop where
  /-- What is recorded can be reached. -/
  reached : ∀ n, Recorded s n → g.Reached paths n
  /-- What the files need is recorded. -/
  all : ∀ path ∈ paths, ∀ names, g.needs path = some names → ∀ n ∈ names, Recorded s n
  /-- What is recorded needs nothing that is not recorded. -/
  closed : ∀ n, Recorded s n → ∀ d ∈ g.deps n, Recorded s d
  /-- What is recorded has the outcome of its verdict. -/
  outcome : ∀ n, Recorded s n → Table.find? s.record n = some (g.outcome n)
  /-- The record is in order. -/
  sorted : Table.Sorted s.record

/-- What can be reached is recorded. -/
theorem Complete.recorded_iff (h : g.Complete paths s) (n : String) : Recorded s n ↔ g.Reached paths n := by
  refine ⟨h.reached n, ?_⟩
  rintro ⟨path, hpath, names, hnames, m, hm, hreach⟩
  -- The record holds what the files need and is closed, so by induction it holds what can be reached.
  induction hreach with
  | refl => exact h.all path hpath names hnames m hm
  | tail _ hstep ih => exact h.closed _ ih _ hstep

/-- What can be reached from some of the files can be reached from all of them. -/
theorem Reached.mono {paths' : List String} (hsub : ∀ p ∈ paths, p ∈ paths') {n : String} (h : g.Reached paths n) :
    g.Reached paths' n := by
  obtain ⟨path, hpath, hrest⟩ := h
  exact ⟨path, hsub path hpath, hrest⟩

/-- One more request. -/
theorem Complete.step (hgoverns : g.Governs host locator I) {path : String}
    (hpath : ((Elf.neededOf path).outcome s.workspace).1.toOption = g.needs path) (hs : I s.workspace)
    (h : g.Complete paths s) :
    g.Complete (paths ++ [path]) ((loadNeeds host locator path).outcome s).2 ∧
      I ((loadNeeds host locator path).outcome s).2.workspace := by
  have hold : ∀ p ∈ paths, p ∈ paths ++ [path] := fun p hp => List.mem_append_left _ hp
  have hfinishes := finishes_loadNeeds host locator path s
  generalize (loadNeeds host locator path).outcome s = out at hfinishes
  cases hfinishes with
  | failed hfile =>
    -- A file that is not understood needs nothing, now or later.
    have hnone : g.needs path = none := by rw [← hpath, hfile]; rfl
    refine ⟨{ h with reached := fun n hn => (h.reached n hn).mono hold, all := fun p hp names hnames => ?_ }, hs⟩
    rcases List.mem_append.1 hp with hp | hp
    · exact h.all p hp names hnames
    · cases List.mem_singleton.1 hp
      cases hnone.symm.trans hnames
  | @loaded names s' hfile hloads =>
    -- What is on record was so before, or the request has come by it.
    have hsome : g.needs path = some names := by rw [← hpath, hfile]; rfl
    obtain ⟨hvisits, hs'⟩ := hgoverns.visits hloads hs
    refine ⟨?_, hs'⟩
    refine
      { reached := fun n hn => ?_, all := fun p hp names' hnames' n hn => ?_, closed := fun n hn => ?_,
        outcome := fun n hn => ?_, sorted := hvisits.sorted h.sorted }
    · by_cases hknown : Recorded s n
      · exact (h.reached n hknown).mono hold
      · exact ⟨path, by simp, names, hsome, (hvisits.new n hn hknown).1⟩
    · rcases List.mem_append.1 hp with hp | hp
      · exact hvisits.recorded (h.all p hp names' hnames' n hn)
      · cases List.mem_singleton.1 hp
        cases hsome.symm.trans hnames'
        exact hvisits.all n hn
    · by_cases hknown : Recorded s n
      · exact fun d hd => hvisits.recorded (h.closed n hknown d hd)
      · exact (hvisits.new n hn hknown).2.2
    · by_cases hknown : Recorded s n
      · rw [hvisits.kept n hknown, h.outcome n hknown]
      · exact (hvisits.new n hn hknown).2.1

/-- **The record is complete** after every sequence of requests that began with none. -/
theorem Governs.complete (hgoverns : g.Governs host locator I)
    (hpaths : ∀ path ∈ paths, ∀ w, I w → ((Elf.neededOf path).outcome w).1.toOption = g.needs path)
    (hs : I s.workspace) (hempty : s.record = []) :
    g.Complete paths (loadAll host locator s paths) ∧ I (loadAll host locator s paths).workspace := by
  -- The last request comes to a record that is complete for those before it.
  induction paths using List.reverseRecOn with
  | nil =>
    have hnone : ∀ n, ¬ Recorded s n := fun n hn => by simp [Recorded, Table.contains, hempty] at hn
    refine ⟨⟨fun n hn => absurd hn (hnone n), by simp, fun n hn => absurd hn (hnone n),
      fun n hn => absurd hn (hnone n), ?_⟩, hs⟩
    rw [show (loadAll host locator s []).record = [] from hempty]
    exact List.Pairwise.nil
  | append_singleton before path ih =>
    obtain ⟨hbefore, hw⟩ := ih fun p hp => hpaths p (List.mem_append_left _ hp)
    rw [loadAll_append]
    exact hbefore.step hgoverns (hpaths path (by simp) _ hw) hw

/-- **Loading is reachability.** Files, locator and verdicts being as a setting says, take any sequence of requests
that begins without a record. Every request ends by itself, circles or not. In the end the names on record are those
that can be reached from what the requested files need; each has the outcome of the verdict on its own copy, or on
the library of the system if it has none, and none is left as being loaded. Any other sequence of requests for the
same files, in whatever order and however often, ends with the same record. -/
theorem recorded_iff_reached (hgoverns : g.Governs host locator I)
    (hpaths : ∀ path ∈ paths, ∀ w, I w → ((Elf.neededOf path).outcome w).1.toOption = g.needs path)
    (hs : I s.workspace) (hempty : s.record = []) :
    (∀ path t, Finishes host locator path t ((loadNeeds host locator path).outcome t)) ∧
      (∀ n, Recorded (loadAll host locator s paths) n ↔ g.Reached paths n) ∧
      (∀ n, g.Reached paths n → Table.find? (loadAll host locator s paths).record n = some (g.outcome n) ∧
        g.outcome n ≠ .pending) ∧
      ∀ paths', (∀ p, p ∈ paths' ↔ p ∈ paths) →
        (loadAll host locator s paths').record = (loadAll host locator s paths).record := by
  obtain ⟨hcomplete, -⟩ := hgoverns.complete hpaths hs hempty
  refine ⟨finishes_loadNeeds host locator, hcomplete.recorded_iff, fun n hn => ⟨?_, ?_⟩, fun paths' hsame => ?_⟩
  · exact hcomplete.outcome n ((hcomplete.recorded_iff n).2 hn)
  · exact LoadStatus.ofVerdict_ne_pending _ _
  · obtain ⟨hcomplete', -⟩ := hgoverns.complete (fun p hp => hpaths p ((hsame p).1 hp)) hs hempty
    have hrecorded : ∀ n, Recorded (loadAll host locator s paths') n ↔ Recorded (loadAll host locator s paths) n :=
      fun n => by
        rw [hcomplete.recorded_iff, hcomplete'.recorded_iff]
        exact ⟨Reached.mono fun p => (hsame p).1, Reached.mono fun p => (hsame p).2⟩
    refine hcomplete'.sorted.ext hcomplete.sorted fun n => ?_
    by_cases hn : Recorded (loadAll host locator s paths) n
    · rw [hcomplete.outcome n hn, hcomplete'.outcome n ((hrecorded n).2 hn)]
    · have hn' := mt (hrecorded n).1 hn
      rw [Recorded, Table.contains, Bool.not_eq_true, Option.isSome_eq_false_iff, Option.isNone_iff_eq_none] at hn hn'
      rw [hn, hn']

/-- A bundled library that needs itself. -/
def circle : Setting := ⟨fun n => if n = "libz.so" then some "/z" else none, fun _ => some ["libz.so"], fun _ => .ok ()⟩

/-- The workspace in which it stands. -/
def circleWorkspace : Workspace := .ofTree (FileTree.empty.bind ["z"] (.file Importer.needingZ Instant.epoch))

/-- The locator that finds it. -/
def circleLocator : Locator := ⟨["libz.so"], fun _ => return some "/z"⟩

/-- A library that needs itself is loaded once, and on record it is loaded. -/
theorem circle_recorded : circle.Governs (fun _ _ => .ok ()) circleLocator (· = circleWorkspace) ∧
    (∀ path ∈ ["/z"], ∀ w, w = circleWorkspace → ((Elf.neededOf path).outcome w).1.toOption = circle.needs path) ∧
    (∀ n, Recorded (loadAll (fun _ _ => .ok ()) circleLocator ⟨circleWorkspace, [], []⟩ ["/z"]) n ↔
      circle.Reached ["/z"] n) ∧
    circle.Reached ["/z"] "libz.so" ∧
    (loadAll (fun _ _ => .ok ()) circleLocator ⟨circleWorkspace, [], []⟩ ["/z", "/z"]).record
      = (loadAll (fun _ _ => .ok ()) circleLocator ⟨circleWorkspace, [], []⟩ ["/z"]).record := by
  have hfile : ((Elf.neededOf "/z").outcome circleWorkspace).1.toOption = some ["libz.so"] := by decide +kernel
  have hgoverns : circle.Governs (fun _ _ => .ok ()) circleLocator (· = circleWorkspace) :=
    { verdict := fun _ _ => rfl
      unlisted := fun n hn => if_neg fun heq : n = "libz.so" => hn (List.mem_singleton.2 heq)
      located := fun w _ n hn => (if_pos (List.mem_singleton.1 hn)).symm
      kept := fun w hw n _ => hw
      needs := fun w hw n hn path hpath => by
        cases hw
        cases (if_pos (List.mem_singleton.1 hn)).symm.trans hpath
        exact hfile }
  have hpaths : ∀ path ∈ ["/z"], ∀ w, w = circleWorkspace →
      ((Elf.neededOf path).outcome w).1.toOption = circle.needs path := by
    rintro path hpath w rfl
    cases List.mem_singleton.1 hpath
    exact hfile
  obtain ⟨-, hrecorded, -, hsame⟩ := recorded_iff_reached (s := ⟨circleWorkspace, [], []⟩) hgoverns hpaths rfl rfl
  exact ⟨hgoverns, hpaths, hrecorded, ⟨"/z", by simp, ["libz.so"], rfl, "libz.so", by simp, .refl⟩,
    hsame ["/z", "/z"] (by simp)⟩

end Setting

end Loader

end LayeredBundles
