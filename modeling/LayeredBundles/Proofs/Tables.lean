import LayeredBundles.Table
import Mathlib.Data.String.Basic

/-! # Tables in key order

A table whose keys ascend is determined by its look-up, and binding pairs in turn gives such a table.

* **`Table.sorted_insert`**, **`sorted_ofPairs`** — keys stay in order;
* **`Table.Sorted.ext`** — tables in order with the same look-up are the same;
* **`Table.Sorted.ofPairs_eq`** — the pairs of a table in order give that table. -/

namespace LayeredBundles

namespace Table

universe u v

variable {κ : Type u} {β : Type v} [DecidableEq κ] [LT κ] [DecidableLT κ]

/-! ## (1) Tables and their pairs -/

omit [LT κ] [DecidableLT κ] in
/-- Nothing is found under what is no key. -/
theorem find?_eq_none_iff {t : Table κ β} {k : κ} : find? t k = none ↔ k ∉ t.map (·.1) := by
  induction t with
  | nil => simp
  | cons p t ih =>
    obtain ⟨k', v'⟩ := p
    by_cases hk : k = k'
    · simp [find?_cons, hk]
    · simp [find?_cons, hk, ih]

omit [LT κ] [DecidableLT κ] in
/-- A table contains its keys. -/
theorem contains_iff {t : Table κ β} {k : κ} : contains t k = true ↔ k ∈ t.map (·.1) := by
  rw [contains, Option.isSome_iff_ne_none, ne_eq, find?_eq_none_iff, not_not]

/-- Binding a key adds that key and no other one. -/
theorem contains_insert {t : Table κ β} {j k : κ} {v : β} :
    contains (insert k v t) j = true ↔ contains t j = true ∨ j = k := by
  rw [contains, find?_insert]
  split
  · next heq => simp [heq]
  · next hne => simp [hne, contains]

omit [LT κ] [DecidableLT κ] in
/-- Where no key is bound twice, every pair is found. -/
theorem find?_of_mem {t : Table κ β} (h : (t.map (·.1)).Nodup) {k : κ} {v : β} (hmem : (k, v) ∈ t) :
    find? t k = some v := by
  induction t with
  | nil => cases hmem
  | cons p t ih =>
    obtain ⟨k', v'⟩ := p
    obtain ⟨hnew, hrest⟩ := List.nodup_cons.1 h
    rcases List.mem_cons.1 hmem with heq | hlater
    · cases heq
      simp [find?_cons]
    · have hk : k ≠ k' := by
        rintro rfl
        exact hnew (List.mem_map.2 ⟨_, hlater, rfl⟩)
      simp [find?_cons, hk, ih hrest hlater]

/-- Binding pairs in turn, where no key is bound twice. -/
theorem find?_ofPairs {t : List (κ × β)} (h : (t.map (·.1)).Nodup) (k : κ) :
    find? (ofPairs t) k = find? t k := by
  have hfold : ∀ (t : List (κ × β)) (start : Table κ β), (t.map (·.1)).Nodup →
      find? (t.foldl (fun t p => insert p.1 p.2 t) start) k = (find? t k).or (find? start k) := by
    intro t
    induction t with
    | nil => exact fun start _ => rfl
    | cons p t ih =>
      intro start ht
      obtain ⟨k', v'⟩ := p
      obtain ⟨hnew, hrest⟩ := List.nodup_cons.1 ht
      rw [List.foldl_cons, ih _ hrest, find?_insert, find?_cons]
      split
      · next hk => rw [find?_eq_none_iff.2 (hk ▸ hnew)]; rfl
      · rfl
  rw [ofPairs, hfold t [] h]
  simp

/-- A table made of pairs has none but these. -/
theorem mem_ofPairs {t : List (κ × β)} {p : κ × β} (h : p ∈ ofPairs t) : p ∈ t := by
  have hfold : ∀ (t : List (κ × β)) (start : Table κ β),
      p ∈ t.foldl (fun t p => insert p.1 p.2 t) start → p ∈ t ∨ p ∈ start := by
    intro t
    induction t with
    | nil => exact fun start h => .inr h
    | cons q t ih =>
      intro start h
      rcases ih _ h with hmem | hmem
      · exact .inl (List.mem_cons_of_mem _ hmem)
      · rcases mem_insert hmem with heq | hmem
        · exact .inl (heq ▸ List.mem_cons_self)
        · exact .inr hmem
  exact (hfold t [] h).resolve_right (by simp)

/-! ## (2) Tables in order -/

variable [Std.Trichotomous (@LT.lt κ _)] [Trans (@LT.lt κ _) (@LT.lt κ _) (@LT.lt κ _)]

/-- Binding a key keeps the keys in order. -/
theorem sorted_insert {t : Table κ β} (h : Sorted t) (k : κ) (v : β) : Sorted (insert k v t) := by
  induction t with
  | nil => simp [insert_nil, Sorted]
  | cons p t ih =>
    obtain ⟨k', v'⟩ := p
    obtain ⟨hfirst, hrest⟩ := List.pairwise_cons.1 h
    rw [insert_cons]
    split
    · next hk => exact List.pairwise_cons.2 ⟨fun q hq => hk ▸ hfirst q hq, hrest⟩
    · next hk =>
      split
      · next hlt =>
        refine List.pairwise_cons.2 ⟨fun q hq => ?_, h⟩
        rcases List.mem_cons.1 hq with rfl | hq
        · exact hlt
        · exact Trans.trans hlt (hfirst q hq)
      · next hlt =>
        have hgt : k' < k := by
          by_contra hgt
          exact hk (Std.Trichotomous.trichotomous k k' hlt hgt)
        refine List.pairwise_cons.2 ⟨fun q hq => ?_, ih hrest⟩
        rcases mem_insert hq with rfl | hq
        · exact hgt
        · exact hfirst q hq

/-- **Pairs bound in turn are in order.** -/
theorem sorted_ofPairs (t : List (κ × β)) : Sorted (ofPairs t) := by
  have hfold : ∀ (t : List (κ × β)) (start : Table κ β), Sorted start →
      Sorted (t.foldl (fun t p => insert p.1 p.2 t) start) := by
    intro t
    induction t with
    | nil => exact fun start h => h
    | cons p t ih => exact fun start h => ih _ (sorted_insert h p.1 p.2)
  exact hfold t [] List.Pairwise.nil

variable [Std.Irrefl (@LT.lt κ _)]

omit [DecidableEq κ] [DecidableLT κ] [Std.Trichotomous (@LT.lt κ _)]
  [Trans (@LT.lt κ _) (@LT.lt κ _) (@LT.lt κ _)] in
/-- No key of a table in order is bound twice. -/
theorem Sorted.nodup {t : Table κ β} (h : Sorted t) : (t.map (·.1)).Nodup := by
  rw [List.nodup_iff_pairwise_ne, List.pairwise_map]
  refine List.Pairwise.imp (fun {p q} hlt heq => ?_) h
  exact Std.Irrefl.irrefl (r := @LT.lt κ _) q.1 (heq ▸ hlt)

omit [DecidableLT κ] [Std.Trichotomous (@LT.lt κ _)] in
/-- **Tables in order with the same look-up are the same.** -/
theorem Sorted.ext {t t' : Table κ β} (h : Sorted t) (h' : Sorted t')
    (hfind : ∀ k, find? t k = find? t' k) : t = t' := by
  induction t generalizing t' with
  | nil =>
    cases t' with
    | nil => rfl
    | cons p t' =>
      have := hfind p.1
      simp [find?] at this
  | cons p t ih =>
    cases t' with
    | nil =>
      have := hfind p.1
      simp [find?] at this
    | cons q t' =>
      obtain ⟨hfirst, hrest⟩ := List.pairwise_cons.1 h
      obtain ⟨hfirst', hrest'⟩ := List.pairwise_cons.1 h'
      have hp : p ∈ q :: t' := mem_of_find? ((hfind p.1).symm.trans (by simp [find?]))
      have hq : q ∈ p :: t := mem_of_find? ((hfind q.1).trans (by simp [find?]))
      -- The first keys are equal: each is found in the other table, and would come after its first key otherwise.
      have hpq : p = q := by
        rcases List.mem_cons.1 hp with heq | hp
        · exact heq
        · rcases List.mem_cons.1 hq with heq | hq
          · exact heq.symm
          · exact absurd (Trans.trans (hfirst q hq) (hfirst' p hp)) (Std.Irrefl.irrefl (r := @LT.lt κ _) _)
      subst hpq
      congr 1
      -- The rests look up the same, and the first key in neither of them.
      refine ih hrest hrest' fun k => ?_
      have hk := hfind k
      obtain ⟨k', v'⟩ := p
      simp only [find?_cons] at hk
      split at hk
      · next heq =>
        have hnot : ∀ {t : Table κ β}, (∀ q ∈ t, k' < q.1) → find? t k = none := by
          intro t ht
          rw [find?_eq_none_iff, heq]
          intro hmem
          obtain ⟨q, hq, hqk⟩ := List.mem_map.1 hmem
          exact Std.Irrefl.irrefl (r := @LT.lt κ _) k' (hqk ▸ ht q hq)
        rw [hnot hfirst, hnot hfirst']
      · exact hk

/-- The pairs of a table in order give that table. -/
theorem Sorted.ofPairs_eq {t : Table κ β} (h : Sorted t) : ofPairs t = t :=
  (sorted_ofPairs t).ext h fun k => find?_ofPairs h.nodup k

end Table

end LayeredBundles
