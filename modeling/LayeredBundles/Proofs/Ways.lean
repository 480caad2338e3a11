import LayeredBundles.Proofs.Paths

/-! # Where paths lead

A path is followed segment by segment, links included, and what stands on the way decides whether it can be followed at
all. Where it leads depends on the links alone, and on nothing else that stands there.

* **`FileTree.Leads t A n dir steps q`** — the steps lead from `dir` to `q` over `n` links, through places that satisfy
  `A`; **`FileTree.Leads.unique`** — they lead to one place;
* **`FileTree.Stands`** — a path that names a place, whatever stands there or on the way;
* **`FileTree.Named`**, **`FileTree.Resolves`** — a path that names a link, and where that leads;
* **`FileTree.Site`** — a directory at a place, without links in it;
* **`FileTree.Inside`** — a path that stands below that of a directory; **`FileTree.Site.inside`** — it names a place
  below that of the directory. -/

namespace LayeredBundles

namespace FileTree

open DiskPath

variable {t t' : FileTree} {A B : Place → Prop} {n m : Nat} {dir p q d : Place} {xs ys : List String}
  {path name : String}

/-! ## (1) Ways -/

/-- `t.Leads A n dir steps q`: the steps lead from `dir` to `q`. On the way are `n` links, and every
place that is stepped down to satisfies `A`. What is no link counts as a directory. -/
inductive Leads (t : FileTree) (A : Place → Prop) : Nat → Place → List String → Place → Prop
  /-- No step leads nowhere else. -/
  | here {dir : Place} : Leads t A 0 dir [] dir
  /-- A step up. -/
  | up {n : Nat} {dir q : Place} {rest : List String} (next : Leads t A n dir.dropLast rest q) :
      Leads t A n dir (".." :: rest) q
  /-- A step down to what is no link. -/
  | down {n : Nat} {dir q : Place} {s : String} {rest : List String} (name : s ≠ "..")
      (admitted : A (dir ++ [s])) (plain : ∀ target, t.node? (dir ++ [s]) ≠ some (.link target))
      (next : Leads t A n (dir ++ [s]) rest q) : Leads t A n dir (s :: rest) q
  /-- A step to a link, and on from where it stands. -/
  | through {n : Nat} {dir q : Place} {s target : String} {rest : List String} (name : s ≠ "..")
      (admitted : A (dir ++ [s])) (link : t.node? (dir ++ [s]) = some (.link target))
      (next : Leads t A n (if isAbsolute target then [] else dir) (steps target ++ rest) q) :
      Leads t A (n + 1) dir (s :: rest) q

/-- A way leads where it does, also when less is asked of it. -/
theorem Leads.mono (h : Leads t A n dir xs q) (hAB : ∀ v, A v → B v) : Leads t B n dir xs q := by
  induction h with
  | here => exact .here
  | up _ ih => exact .up ih
  | down hs hA hlink _ ih => exact .down hs (hAB _ hA) hlink ih
  | through hs hA hlink _ ih => exact .through hs (hAB _ hA) hlink ih

/-- Trees with the same links have the same ways. -/
theorem Leads.congr (h : Leads t A n dir xs q)
    (hlinks : ∀ v target, A v → (t'.node? v = some (.link target) ↔ t.node? v = some (.link target))) :
    Leads t' A n dir xs q := by
  induction h with
  | here => exact .here
  | up _ ih => exact .up ih
  | down hs hA hlink _ ih => exact .down hs hA (fun target h => hlink target ((hlinks _ _ hA).1 h)) ih
  | through hs hA hlink _ ih => exact .through hs hA ((hlinks _ _ hA).2 hlink) ih

/-- A way goes on where another one ends. -/
theorem Leads.append (h : Leads t A n dir xs p) (h' : Leads t A m p ys q) :
    Leads t A (n + m) dir (xs ++ ys) q := by
  induction h with
  | here => simpa using h'
  | up _ ih => exact .up (ih h')
  | down hs hA hlink _ ih => exact .down hs hA hlink (ih h')
  | through hs hA hlink _ ih =>
    rw [List.append_assoc] at ih
    rw [Nat.add_right_comm]
    exact .through hs hA hlink (ih h')

/-- A way can be divided between any two steps. -/
theorem Leads.divide (h : Leads t A n dir (xs ++ ys) q) :
    ∃ k m p, Leads t A k dir xs p ∧ Leads t A m p ys q := by
  -- By induction on the way, whose steps have to be a variable for that.
  generalize hzs : xs ++ ys = zs at h
  induction h generalizing xs with
  | here =>
    obtain ⟨rfl, rfl⟩ := List.append_eq_nil_iff.1 hzs
    exact ⟨0, 0, _, .here, .here⟩
  | @up n dir q rest next ih =>
    cases xs with
    | nil =>
      rw [List.nil_append] at hzs
      exact ⟨0, n, dir, .here, hzs.symm ▸ .up next⟩
    | cons s xs =>
      simp only [List.cons_append, List.cons.injEq] at hzs
      obtain ⟨rfl, hrest⟩ := hzs
      obtain ⟨k, m, p, hk, hm⟩ := ih hrest
      exact ⟨k, m, p, .up hk, hm⟩
  | @down n dir q s rest hs hA hlink next ih =>
    cases xs with
    | nil =>
      rw [List.nil_append] at hzs
      exact ⟨0, n, dir, .here, hzs.symm ▸ .down hs hA hlink next⟩
    | cons s' xs =>
      simp only [List.cons_append, List.cons.injEq] at hzs
      obtain ⟨rfl, hrest⟩ := hzs
      obtain ⟨k, m, p, hk, hm⟩ := ih hrest
      exact ⟨k, m, p, .down hs hA hlink hk, hm⟩
  | @through n dir q s target rest hs hA hlink next ih =>
    cases xs with
    | nil =>
      rw [List.nil_append] at hzs
      exact ⟨0, n + 1, dir, .here, hzs.symm ▸ .through hs hA hlink next⟩
    | cons s' xs =>
      simp only [List.cons_append, List.cons.injEq] at hzs
      obtain ⟨rfl, hrest⟩ := hzs
      -- The steps of the target stand before what is left of `xs`: the way is divided behind both.
      have hmore : steps target ++ xs ++ ys = steps target ++ rest := by rw [List.append_assoc, hrest]
      obtain ⟨k, m, p, hk, hm⟩ := ih hmore
      exact ⟨k + 1, m, p, .through hs hA hlink hk, hm⟩

/-- A way is determined by its steps, and by the links on it: trees may differ in others. -/
theorem Leads.unique_across (h : Leads t A n dir xs p) (h' : Leads t' B m dir xs q)
    (hlinks : ∀ v target, A v → B v → (t'.node? v = some (.link target) ↔ t.node? v = some (.link target))) :
    n = m ∧ p = q := by
  -- What stands in the trees decides between the three kinds of step.
  induction h generalizing m with
  | here => cases h'; exact ⟨rfl, rfl⟩
  | up _ ih =>
    cases h' with
    | up next => exact ih next
    | down hs => exact absurd rfl hs
    | through hs => exact absurd rfl hs
  | down hs hA hlink _ ih =>
    cases h' with
    | up => exact absurd rfl hs
    | down _ _ _ next => exact ih next
    | through _ hB hlink' => exact absurd ((hlinks _ _ hA hB).1 hlink') (hlink _)
  | through hs hA hlink _ ih =>
    cases h' with
    | up => exact absurd rfl hs
    | down _ hB hlink' => exact absurd ((hlinks _ _ hA hB).2 hlink) (hlink' _)
    | through _ hB hlink' next =>
      rw [hlinks _ _ hA hB, hlink] at hlink'
      cases hlink'
      obtain ⟨hn, hq⟩ := ih next
      exact ⟨by rw [hn], hq⟩

/-- A way is determined by its steps. -/
theorem Leads.unique (h : Leads t A n dir xs p) (h' : Leads t B m dir xs q) : n = m ∧ p = q :=
  h.unique_across h' fun _ _ _ _ => Iff.rfl

/-- After a step up, a way goes on from above. -/
theorem Leads.after_up (h : Leads t A n dir (".." :: xs) q) : Leads t A n dir.dropLast xs q := by
  cases h with
  | up next => exact next
  | down hup | through hup => exact absurd rfl hup

/-- After a step to what is no link, a way goes on from there. -/
theorem Leads.after_down {s : String} (h : Leads t A n dir (s :: xs) q) (hup : s ≠ "..")
    (hplain : ∀ target, t.node? (dir ++ [s]) ≠ some (.link target)) :
    A (dir ++ [s]) ∧ Leads t A n (dir ++ [s]) xs q := by
  cases h with
  | up => exact absurd rfl hup
  | down _ hA _ next => exact ⟨hA, next⟩
  | through _ _ hlink => exact absurd hlink (hplain _)

/-- After a step to a link, a way goes on with its target. -/
theorem Leads.after_link {s target : String} (h : Leads t A n dir (s :: xs) q) (hup : s ≠ "..")
    (hlink : t.node? (dir ++ [s]) = some (.link target)) :
    ∃ m, n = m + 1 ∧ A (dir ++ [s]) ∧
      Leads t A m (if isAbsolute target then [] else dir) (steps target ++ xs) q := by
  cases h with
  | up => exact absurd rfl hup
  | down _ _ hplain => exact absurd hlink (hplain _)
  | through _ hA hlink' next =>
    cases hlink.symm.trans hlink'
    exact ⟨_, rfl, hA, next⟩

/-- Names lead straight down where there are no links. -/
theorem leads_names {names : List String} (hnames : ∀ s ∈ names, s ≠ "..")
    (hA : ∀ v, d <+: v → v <+: d ++ names → v ≠ d → A v)
    (hlinks : ∀ v, d <+: v → v <+: d ++ names → v ≠ d → ∀ target, t.node? v ≠ some (.link target)) :
    Leads t A 0 d names (d ++ names) := by
  induction names generalizing d with
  | nil => simpa using Leads.here
  | cons s names ih =>
    have hstep : d <+: d ++ [s] := List.prefix_append _ _
    have hpre : d ++ [s] <+: d ++ s :: names := ⟨names, by simp⟩
    have hne : d ++ [s] ≠ d := by simp
    have hbelow : ∀ v, d ++ [s] <+: v → v ≠ d := fun v hv h => by
      have := hv.length_le
      rw [h, List.length_append, List.length_singleton] at this
      omega
    -- One step down. What was assumed of all places below `d` holds of those below the place it leads to.
    refine .down (hnames s (by simp)) (hA _ hstep hpre hne) (hlinks _ hstep hpre hne) ?_
    have happend : d ++ s :: names = d ++ [s] ++ names := by simp
    rw [happend] at hA hlinks ⊢
    exact ih (fun s' hs' => hnames s' (List.mem_cons_of_mem _ hs'))
      (fun v hv hle _ => hA v (hstep.trans hv) hle (hbelow v hv))
      (fun v hv hle _ => hlinks v (hstep.trans hv) hle (hbelow v hv))

/-! ## (2) Where things stand -/

/-- Where a path begins. -/
def start (t : FileTree) (path : String) : Place := if isAbsolute path then [] else t.base

/-- Slashes are no steps. -/
theorem filter_slashes {segs : List String} (h : ∀ x ∈ segs, x = "") : segs.filter counts = [] :=
  List.filter_eq_nil_iff.2 fun x hx => by rw [h x hx]; decide

/-- The segments of a path, split at the last step. Those after it do not count, and where the text ends with the
step there are none. -/
theorem exists_segments (h : steps path = xs ++ [name]) :
    ∃ front tail, segments path = front ++ name :: tail ∧ front.filter counts = xs ∧
      tail.filter counts = [] ∧ counts name = true ∧ (∀ segs, segments path = segs ++ [name] → tail = []) := by
  obtain ⟨front, more, hsegs, hfront, hmore⟩ := List.filter_eq_append_iff.1 h
  obtain ⟨skipped, tail, rfl, hskipped, hcounts, htail⟩ := List.filter_eq_cons_iff.1 hmore
  have hsplit : segments path = front ++ skipped ++ name :: tail := by simp [hsegs]
  refine ⟨front ++ skipped, tail, hsplit, ?_, htail, hcounts, fun segs heq => ?_⟩
  · rw [List.filter_append, hfront, List.filter_eq_nil_iff.2 hskipped, List.append_nil]
  -- Where the text ends with the step, another segment would be a second last one, and it does not count.
  · rcases List.eq_nil_or_concat tail with rfl | ⟨tail', s, rfl⟩
    · rfl
    · rw [hsplit, List.concat_eq_append, ← List.cons_append, ← List.append_assoc] at heq
      have hs := (List.append_inj' heq rfl).2
      simp only [List.cons.injEq, and_true] at hs
      rw [List.concat_eq_append, List.filter_append, hs, List.filter_cons_of_pos hcounts] at htail
      simp at htail

/-- The text of a path ends with the last name of a place. -/
def Ends (path : String) (p : Place) : Prop :=
  ∃ segs name, segments path = segs ++ [name] ∧ p.getLast? = some name

/-- `t.Stands A path p`: a path names the place `p`, which is no link. Nothing need stand there, or on the
way, and every place on the way satisfies `A`. -/
structure Stands (t : FileTree) (A : Place → Prop) (path : String) (p : Place) : Prop where
  /-- The last step is to a name. -/
  way : ∃ n xs q name, steps path = xs ++ [name] ∧ name ≠ ".." ∧ p = q ++ [name] ∧
    Leads t A n (t.start path) xs q
  /-- It is no link. -/
  plain : ∀ target, t.node? p ≠ some (.link target)

/-- Trees with the same links on the way name the same place. -/
theorem Stands.congr (h : t.Stands A path p) (hbase : t'.base = t.base)
    (hlinks : ∀ v target, A v → (t'.node? v = some (.link target) ↔ t.node? v = some (.link target)))
    (hplain : ∀ target, t'.node? p ≠ some (.link target)) : t'.Stands A path p := by
  obtain ⟨n, xs, q, name, hsteps, hup, hp, hway⟩ := h.way
  have hstart : t'.start path = t.start path := by rw [start, start, hbase]
  exact ⟨⟨n, xs, q, name, hsteps, hup, hp, hstart ▸ hway.congr hlinks⟩, hplain⟩

/-- A place is named, also when less is asked of the way. -/
theorem Stands.mono (h : t.Stands A path p) (hAB : ∀ v, A v → B v) : t.Stands B path p := by
  obtain ⟨n, xs, q, name, hsteps, hup, hp, hway⟩ := h.way
  exact ⟨⟨n, xs, q, name, hsteps, hup, hp, hway.mono hAB⟩, h.plain⟩

/-- What is named by its last step is not the root. -/
theorem Stands.ne_root (h : t.Stands A path p) : p ≠ [] := by
  obtain ⟨n, xs, q, name, -, -, rfl, -⟩ := h.way
  simp

/-- A slash at the end makes no difference. -/
theorem Stands.bare (h : t.Stands A path p) : t.Stands A (bare path) p := by
  obtain ⟨n, xs, q, name, hsteps, hup, hp, hway⟩ := h.way
  have hstart : t.start (FileTree.bare path) = t.start path := by rw [start, start, isAbsolute_bare]
  exact ⟨⟨n, xs, q, name, (steps_bare path).trans hsteps, hup, hp, hstart ▸ hway⟩, h.plain⟩

/-! ## (3) Links at the end -/

/-- `t.Named A path p`: by its last step, a path names the place `p`. Where a link stands, the text ends with its
name, so that it is the link that is named, and not what it leads to. -/
structure Named (t : FileTree) (A : Place → Prop) (path : String) (p : Place) : Prop where
  /-- The last step is to a name. -/
  way : ∃ n xs q name, steps path = xs ++ [name] ∧ name ≠ ".." ∧ p = q ++ [name] ∧
    Leads t A n (t.start path) xs q
  /-- A link is named by the end of the text. -/
  ends : ∀ target, t.node? p = some (.link target) → Ends path p

/-- A place that a path stands for is named by it. -/
theorem Stands.named (h : t.Stands A path p) : t.Named A path p :=
  ⟨h.way, fun target hlink => absurd hlink (h.plain target)⟩

/-- A place that is named and no link is what the path stands for. -/
theorem Named.stands (h : t.Named A path p) (hplain : ∀ target, t.node? p ≠ some (.link target)) :
    t.Stands A path p := ⟨h.way, hplain⟩

/-- A place is named, also when less is asked of the way. -/
theorem Named.mono (h : t.Named A path p) (hAB : ∀ v, A v → B v) : t.Named B path p := by
  obtain ⟨n, xs, q, name, hsteps, hup, hp, hway⟩ := h.way
  exact ⟨⟨n, xs, q, name, hsteps, hup, hp, hway.mono hAB⟩, h.ends⟩

/-- What is named is not the root. -/
theorem Named.ne_root (h : t.Named A path p) : p ≠ [] := by
  obtain ⟨n, xs, q, name, -, -, rfl, -⟩ := h.way
  simp

/-- Trees with the same links on the way name the same place. -/
theorem Named.congr (h : t.Named A path p) (hbase : t'.base = t.base)
    (hlinks : ∀ v target, A v → (t'.node? v = some (.link target) ↔ t.node? v = some (.link target)))
    (hends : ∀ target, t'.node? p = some (.link target) → Ends path p) : t'.Named A path p := by
  obtain ⟨n, xs, q, name, hsteps, hup, hp, hway⟩ := h.way
  have hstart : t'.start path = t.start path := by rw [start, start, hbase]
  exact ⟨⟨n, xs, q, name, hsteps, hup, hp, hstart ▸ hway.congr hlinks⟩, hends⟩

/-- A path whose text ends with a step ends with what it names. -/
theorem Named.ends_of_segments (h : t.Named A path p) {segs : List String} (hsegs : segments path = segs ++ [name])
    (hcounts : counts name = true) : Ends path p := by
  obtain ⟨n, xs, q, last, hsteps, -, rfl, -⟩ := h.way
  rw [steps, hsegs, List.filter_append, List.filter_cons_of_pos hcounts] at hsteps
  obtain ⟨-, hlast⟩ := List.append_inj' hsteps rfl
  exact ⟨segs, name, hsegs, by rw [List.getLast?_concat, ← List.singleton_inj.1 hlast]⟩

/-- `t.Resolves A p q`: what stands at `p` leads to `q`, links followed, through places that satisfy `A`. -/
inductive Resolves (t : FileTree) (A : Place → Prop) (p : Place) : Place → Prop
  /-- It is no link. -/
  | self (plain : ∀ target, t.node? p ≠ some (.link target)) : Resolves t A p p
  /-- It is a link. -/
  | through {n : Nat} {target : String} {q : Place} (link : t.node? p = some (.link target))
      (way : Leads t A n (if isAbsolute target then [] else p.dropLast) (steps target) q)
      (admitted : A q) : Resolves t A p q

/-- A place resolves to another, also when less is asked of the way. -/
theorem Resolves.mono (h : t.Resolves A p q) (hAB : ∀ v, A v → B v) : t.Resolves B p q := by
  cases h with
  | self hplain => exact .self hplain
  | through hlink hway hq => exact .through hlink (hway.mono hAB) (hAB q hq)

/-- It leads to one place only. -/
theorem Resolves.unique {q' : Place} (h : t.Resolves A p q) (h' : t.Resolves B p q') : q = q' := by
  cases h with
  | self hplain =>
    cases h' with
    | self => rfl
    | through hlink => exact absurd hlink (hplain _)
  | through hlink hway =>
    cases h' with
    | self hplain => exact absurd hlink (hplain _)
    | through hlink' hway' =>
      rw [hlink] at hlink'
      cases hlink'
      exact (hway.unique hway').2

/-- Trees with the same link there, and the same links on the way, lead to the same place. -/
theorem Resolves.congr (h : t.Resolves A p q)
    (hself : ∀ target, t'.node? p = some (.link target) ↔ t.node? p = some (.link target))
    (hlinks : ∀ v target, A v → (t'.node? v = some (.link target) ↔ t.node? v = some (.link target))) :
    t'.Resolves A p q := by
  cases h with
  | self hplain => exact .self fun target hlink => hplain target ((hself target).1 hlink)
  | through hlink hway hq => exact .through ((hself _).2 hlink) (hway.congr hlinks) hq

/-! ## (4) Directories without links -/

/-- The places that are neither `d` nor below it. -/
def Outside (d v : Place) : Prop := ¬ d <+: v

/-- No links are at or below `d`. -/
def Plain (t : FileTree) (d : Place) : Prop := ∀ v, d <+: v → ∀ target, t.node? v ≠ some (.link target)

/-- `t.Site A path d`: the path of a directory names `d`, and there are no links at or below `d`. -/
structure Site (t : FileTree) (A : Place → Prop) (path : String) (d : Place) : Prop where
  /-- The path names the place. -/
  stands : t.Stands A path d
  /-- No links. -/
  plain : t.Plain d

/-- A directory is found where it was if the links on the way are the same. -/
theorem Site.congr (h : t.Site A path d) (hbase : t'.base = t.base)
    (hlinks : ∀ v target, A v → (t'.node? v = some (.link target) ↔ t.node? v = some (.link target)))
    (hplain : t'.Plain d) : t'.Site A path d :=
  ⟨h.stands.congr hbase hlinks (hplain d (List.prefix_refl d)), hplain⟩

/-- `Inside dir names name path`: by its text, a path stands below the directory path `dir`, at the names
that are given. -/
structure Inside (dir : String) (names : List String) (name path : String) : Prop where
  /-- The steps of the directory and the names. -/
  steps_eq : steps path = steps dir ++ (names ++ [name])
  /-- It begins where the directory's path begins. -/
  isAbsolute_eq : isAbsolute path = isAbsolute dir
  /-- Its text ends with the last name. -/
  ends : ∃ segs, segments path = segs ++ [name]
  /-- The names are names. -/
  isName : ∀ s ∈ names ++ [name], IsName s

variable {names : List String}

/-- A path of names below a place goes on from it. -/
theorem prefix_inside (d : Place) (names : List String) (name : String) : d <+: d ++ names ++ [name] :=
  (List.prefix_append _ _).trans (List.prefix_append _ _)

/-- The places on the way to what stands right below `p` in a site. -/
def Around (A : Place → Prop) (p v : Place) : Prop := A v ∨ v <+: p

/-- What is below a path below a directory is not around that path. -/
theorem not_around (d : Place) (names more : List String) (name : String) :
    ¬ Around (Outside d) (d ++ names) (d ++ names ++ name :: more) := by
  rintro (h | h)
  · exact h ((List.prefix_append d names).trans (List.prefix_append _ _))
  · have := h.length_le
    simp only [List.length_append, List.length_cons] at this
    omega

/-- A path of names leads from a directory to below it. -/
theorem Site.leads_inside (h : t.Site A path d) (hnames : ∀ s ∈ names, s ≠ "..") :
    ∃ n, Leads t (Around A (d ++ names)) n (t.start path) (steps path ++ names) (d ++ names) := by
  obtain ⟨n, xs, q, name, hsteps, hup, hd, hway⟩ := h.stands.way
  -- Up to the last step of the directory's path, that step, and then the names.
  have hlast : Leads t (Around A (d ++ names)) 0 q [name] d := by
    rw [hd]
    refine .down hup (.inr ?_) ?_ .here
    · exact List.prefix_append _ _
    · rw [← hd]; exact h.stands.plain
  have hdown : Leads t (Around A (d ++ names)) 0 d names (d ++ names) :=
    leads_names hnames (fun v _ hv _ => .inr hv) fun v hv _ _ => h.plain v hv
  refine ⟨n, ?_⟩
  rw [hsteps]
  exact ((hway.mono fun v hv => .inl hv).append hlast).append hdown

/-- **A path below a site names the place it is given by.** -/
theorem Site.inside (h : t.Site A path d) {dest : String} (hdest : Inside path names name dest) :
    t.Stands (Around A (d ++ names)) dest (d ++ names ++ [name]) := by
  obtain ⟨n, hway⟩ := h.leads_inside fun s hs => (hdest.isName s (List.mem_append_left _ hs)).up
  have hstart : t.start dest = t.start path := by rw [start, start, hdest.isAbsolute_eq]
  refine ⟨⟨n, _, d ++ names, name, ?_, (hdest.isName name (by simp)).up, rfl, hstart ▸ hway⟩,
    h.plain _ (prefix_inside d names name)⟩
  rw [hdest.steps_eq, List.append_assoc]

/-- Such a path ends in its last name. -/
theorem Inside.ends_at {dest : String} (h : Inside path names name dest) (d : Place) :
    Ends dest (d ++ names ++ [name]) := by
  obtain ⟨segs, hsegs⟩ := h.ends
  exact ⟨segs, name, hsegs, List.getLast?_concat⟩

end FileTree

end LayeredBundles
