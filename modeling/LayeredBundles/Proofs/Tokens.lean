import LayeredBundles.Proofs.JsonText
import LayeredBundles.Proofs.Layers
import LayeredBundles.Proofs.Records
import LayeredBundles.Proofs.Tables
import Mathlib.Data.List.Dedup

/-! # The tokens of the layers of a root

The tokens of a root are kept by key. The key of a layer is its name, or, where that is a key already, the name with the
position of the layer behind it. Hosts choose names freely, so a layer may bear the very name that is made for a later
one. Whether that happens decides whether the tokens tell of every layer.

* **`Root.keys`** — the keys of the layers, in turn;
* **`Root.tokens_eq`** — the tokens bind keys to tokens of layers, in turn;
* **`Root.Clashes`** — a layer's name is made once more for a later layer;
* **`Root.nodup_keys_iff`** — no key comes twice exactly if there is no clash;
* **`Root.length_tokens_iff`**, **`Root.tokenOf_eq`**, **`Root.exists_same_tokens`** — then there is a token for every
  layer, and the tokens tell those of the layers; otherwise neither is so. -/

namespace LayeredBundles

namespace Table

variable {β : Type}

/-! ## (1) Pairs bound in turn -/

/-- The keys of a table are those it was made of. -/
theorem contains_ofPairs {ps : List (String × β)} {k : String} :
    contains (ofPairs ps) k = true ↔ k ∈ ps.map Prod.fst := by
  have hfold : ∀ (ps : List (String × β)) (t : Table String β),
      contains (ps.foldl (fun t p => insert p.1 p.2 t) t) k = true ↔ contains t k = true ∨ k ∈ ps.map Prod.fst := by
    intro ps
    induction ps with
    | nil => simp
    | cons p ps ih =>
      intro t
      rw [List.foldl_cons, ih, contains_insert, List.map_cons, List.mem_cons, or_assoc]
  rw [ofPairs, hfold]
  simp [contains]

/-- A table has as many pairs as it was made of exactly if no key was bound twice. -/
theorem length_ofPairs_iff {ps : List (String × β)} :
    (ofPairs ps).length = ps.length ↔ (ps.map Prod.fst).Nodup := by
  have hkeys : ((ofPairs ps).map Prod.fst).Perm (ps.map Prod.fst).dedup := by
    refine (List.perm_ext_iff_of_nodup (sorted_ofPairs ps).nodup (List.nodup_dedup _)).2 fun k => ?_
    rw [List.mem_dedup, ← contains_iff, contains_ofPairs]
  have hlength : (ofPairs ps).length = (ps.map Prod.fst).dedup.length := by
    rw [← hkeys.length_eq, List.length_map]
  have hlength' : ps.length = (ps.map Prod.fst).length := by rw [List.length_map]
  rw [hlength, hlength']
  constructor
  · intro hlength
    rw [← (List.dedup_sublist _).eq_of_length hlength]
    exact List.nodup_dedup _
  · intro hnodup
    rw [hnodup.dedup]

/-- What is bound to a key does not matter where the key is bound anew later. -/
theorem ofPairs_shadowed (before : List (String × β)) {after : List (String × β)} {k : String}
    (hlater : k ∈ after.map Prod.fst) (x x' : β) :
    ofPairs (before ++ (k, x) :: after) = ofPairs (before ++ (k, x') :: after) := by
  have hfold : ∀ (ps : List (String × β)) (t t' : Table String β),
      (∀ j, j ∈ ps.map Prod.fst ∨ find? t j = find? t' j) → ∀ j,
        find? (ps.foldl (fun t p => insert p.1 p.2 t) t) j = find? (ps.foldl (fun t p => insert p.1 p.2 t) t') j := by
    intro ps
    induction ps with
    | nil => exact fun t t' h j => (h j).resolve_left (by simp)
    | cons p ps ih =>
      refine fun t t' h => ih _ _ fun j => ?_
      rw [find?_insert, find?_insert]
      by_cases hj : j = p.1
      · exact .inr (by rw [if_pos hj, if_pos hj])
      · rw [if_neg hj, if_neg hj]
        exact (h j).imp_left fun hmem => (List.mem_cons.1 hmem).resolve_left hj
  refine (sorted_ofPairs _).ext (sorted_ofPairs _) fun j => ?_
  simp only [ofPairs, List.foldl_append, List.foldl_cons]
  refine hfold after _ _ (fun j => ?_) j
  by_cases hj : j = k
  · exact .inl (hj ▸ hlater)
  · exact .inr (by rw [find?_insert_of_ne hj, find?_insert_of_ne hj])

end Table

namespace Root

/-! ## (2) The keys of layers -/

/-- The key of a layer after those of the layers before it: its name, or, where that is a key already, the name with its
position behind it. -/
def keyAfter (known : List String) (layer : String × Nat) : String :=
  if layer.1 ∈ known then layer.1 ++ "#" ++ toString layer.2 else layer.1

/-- The keys of layers with their positions, after those that are known. -/
def keysAfter (known : List String) : List (String × Nat) → List String
  | [] => []
  | layer :: rest => keyAfter known layer :: keysAfter (known ++ [keyAfter known layer]) rest

/-- The names of the layers. -/
def names (r : Root) : List String := r.slots.map Slot.name

/-- The keys of the layers, by position. -/
def keys (r : Root) : List String := keysAfter [] r.names.zipIdx

variable {r r' : Root}

/-- Tokens are inserted one after the other, under the key of each layer. -/
theorem addTokens_eq {slots : List (Slot × Nat)} {known : Tokens} {ks : List String}
    (hknown : ∀ k, Table.contains known k = true ↔ k ∈ ks) : addTokens known slots =
      ((keysAfter ks (slots.map fun s => (s.1.name, s.2))).zip (slots.map fun s => tokenOf s.1)).foldl
        (fun t p => Table.insert p.1 p.2 t) known := by
  induction slots generalizing known ks with
  | nil => rfl
  | cons s slots ih =>
    obtain ⟨s, i⟩ := s
    have hkey : (if Table.contains known s.name then s.name ++ "#" ++ toString i else s.name) =
        keyAfter ks (s.name, i) := by simp [keyAfter, hknown]
    rw [addTokens, hkey]
    refine ih fun k => ?_
    rw [Table.contains_insert, hknown, List.mem_append, List.mem_singleton]

/-- **The tokens of a root** bind keys to the tokens of layers, in turn. -/
theorem tokens_eq (r : Root) : r.tokens = Table.ofPairs (r.keys.zip (r.slots.map tokenOf)) := by
  have hnames : r.slots.zipIdx.map (fun s => (s.1.name, s.2)) = r.names.zipIdx := by
    rw [names, List.zipIdx_map]
    rfl
  have htokens : r.slots.zipIdx.map (fun s => tokenOf s.1) = r.slots.map tokenOf := by
    conv_rhs => rw [← List.zipIdx_map_fst 0 r.slots, List.map_map]
    rfl
  have hnone : ∀ k, Table.contains ([] : Tokens) k = true ↔ k ∈ ([] : List String) := by simp [Table.contains]
  rw [tokens, addTokens_eq hnone, hnames, htokens]
  rfl

/-- Every layer has a key. -/
theorem length_keysAfter (known : List String) (layers : List (String × Nat)) :
    (keysAfter known layers).length = layers.length := by
  induction layers generalizing known with
  | nil => rfl
  | cons layer layers ih => simp [keysAfter, ih]

/-- So there are as many keys as layers. -/
@[simp] theorem length_keys (r : Root) : r.keys.length = r.slots.length := by
  rw [keys, length_keysAfter, List.length_zipIdx, names, List.length_map]

/-- A key is chosen in sight of those known before and those of the layers in front. -/
theorem getElem?_keysAfter {known : List String} {layers : List (String × Nat)} {j : Nat} {layer : String × Nat}
    (h : layers[j]? = some layer) :
    (keysAfter known layers)[j]? = some (keyAfter (known ++ (keysAfter known layers).take j) layer) := by
  induction layers generalizing known j with
  | nil => cases h
  | cons first layers ih =>
    cases j with
    | zero =>
      cases h
      simp [keysAfter]
    | succ j =>
      rw [keysAfter, List.getElem?_cons_succ, List.take_succ_cons, ih h, List.append_assoc, List.singleton_append]

/-- The key of each layer, told by those of the layers before it. -/
theorem getElem?_keys {j : Nat} {name : String} (h : r.names[j]? = some name) :
    r.keys[j]? = some (keyAfter (r.keys.take j) (name, j)) := by
  have hlayer : r.names.zipIdx[j]? = some (name, j) := by simp [List.getElem?_zipIdx, h]
  exact getElem?_keysAfter hlayer

/-- The name of a layer is a key of the layer or of one before it. -/
theorem name_mem_keys {i j : Nat} {name : String} (h : r.names[i]? = some name) (hlt : i < j) :
    name ∈ r.keys.take j := by
  have hkey := getElem?_keys h
  by_cases hknown : name ∈ r.keys.take i
  · exact (List.take_subset_take_left _ (Nat.le_of_lt hlt)) hknown
  · rw [keyAfter, if_neg hknown] at hkey
    refine List.mem_of_getElem? (i := i) ?_
    rw [List.getElem?_take_of_lt hlt, hkey]

/-! ## (3) Clashes -/

/-- A name with a position behind it tells the position. -/
theorem position_eq {a b : String} {i j : Nat} (h : a ++ "#" ++ toString i = b ++ "#" ++ toString j) : i = j := by
  have hdigits : ∀ n : Nat, (toString n).toList = Nat.toDigits 10 n := fun n => by simp [toString]
  have hnone : ∀ n : Nat, '#' ∉ Nat.toDigits 10 n := fun n hmem =>
    absurd (Nat.isDigit_of_mem_toDigits (by decide) (by decide) hmem) (by decide)
  have hsplit : ∀ (a : String) (n : Nat), Text.splitChars '#' (a ++ "#" ++ toString n).toList =
      Text.splitChars '#' a.toList ++ [Nat.toDigits 10 n] := by
    intro a n
    rw [← Text.splitChars_of_not_mem (hnone n), ← Text.splitChars_append, ← hdigits]
    simp
  have hpieces := hsplit a i
  rw [h, hsplit] at hpieces
  have hsame := (List.append_inj' hpieces rfl).2
  rw [List.singleton_inj] at hsame
  rw [← Json.natOfDigits_toDigits i, ← Json.natOfDigits_toDigits j, hsame]

/-- `r.Clashes`: the name of a layer is a key already, and what is made of it and the position of the layer is the name
of a layer before it. -/
def Clashes (r : Root) : Prop :=
  ∃ i j name, i < j ∧ r.names[j]? = some name ∧ name ∈ r.keys.take j ∧
    r.names[i]? = some (name ++ "#" ++ toString j)

/-- **No key comes twice exactly if there is no clash.** -/
theorem nodup_keys_iff : r.keys.Nodup ↔ ¬ r.Clashes := by
  have hname : ∀ j < r.keys.length, ∃ name, r.names[j]? = some name ∧
      r.keys[j]? = some (keyAfter (r.keys.take j) (name, j)) := by
    intro j hj
    have hlt : j < r.names.length := by simpa [names] using hj
    exact ⟨_, List.getElem?_eq_getElem hlt, getElem?_keys (List.getElem?_eq_getElem hlt)⟩
  constructor
  · rintro hnodup ⟨i, j, name, hlt, hj, hknown, hi⟩
    have hkey := getElem?_keys hj
    rw [keyAfter, if_pos hknown] at hkey
    -- The earlier name is a key before the later layer gets it.
    obtain ⟨k, hk, hfirst⟩ := List.mem_iff_getElem.1 (name_mem_keys hi hlt)
    rw [List.length_take] at hk
    rw [List.getElem_take] at hfirst
    have hfirst' : r.keys[k]? = r.keys[j]? := by rw [hkey, ← hfirst, List.getElem?_eq_getElem]
    have heq := (List.getElem?_inj (by omega) hnodup).1 hfirst'
    omega
  · intro hclash
    rw [List.nodup_iff_getElem?_ne_getElem?]
    intro i j hlt hj heq
    obtain ⟨name, hnamej, hkeyj⟩ := hname j hj
    obtain ⟨name', hnamei, hkeyi⟩ := hname i (by omega)
    have hmem : keyAfter (r.keys.take j) (name, j) ∈ r.keys.take j := by
      refine List.mem_of_getElem? (i := i) ?_
      rw [List.getElem?_take_of_lt hlt, heq, hkeyj]
    -- So the later name is a key already, and it gets its position, which no earlier one can have got.
    by_cases hknown : name ∈ r.keys.take j
    · rw [heq, hkeyj, keyAfter, if_pos hknown, Option.some.injEq, keyAfter] at hkeyi
      split at hkeyi
      · exact absurd (position_eq hkeyi) (by omega)
      · exact hclash ⟨i, j, name, hlt, hnamej, hknown, by rw [hnamei, hkeyi]⟩
    · rw [keyAfter, if_neg hknown] at hmem
      exact hknown hmem

/-- **There is a token for every layer exactly if there is no clash.** -/
theorem length_tokens_iff : r.tokens.length = r.slots.length ↔ ¬ r.Clashes := by
  have hkeys : (r.keys.zip (r.slots.map tokenOf)).map Prod.fst = r.keys := List.map_fst_zip (by simp)
  have hlength : (r.keys.zip (r.slots.map tokenOf)).length = r.slots.length := by simp
  rw [tokens_eq, ← hlength, Table.length_ofPairs_iff, hkeys, nodup_keys_iff]

/-- Where something is there twice, it is there again behind itself. -/
theorem exists_of_not_nodup {α : Type} {xs : List α} (h : ¬ xs.Nodup) :
    ∃ before x after, xs = before ++ x :: after ∧ x ∈ after := by
  induction xs with
  | nil => exact absurd List.nodup_nil h
  | cons x xs ih =>
    by_cases hx : x ∈ xs
    · exact ⟨[], x, xs, rfl, hx⟩
    · obtain ⟨before, y, after, rfl, hy⟩ := ih fun hnodup => h (List.nodup_cons.2 ⟨hx, hnodup⟩)
      exact ⟨x :: before, y, after, rfl, hy⟩

/-- Keys depend on the names of the layers alone. -/
theorem keys_eq (hnames : r'.names = r.names) : r'.keys = r.keys := by rw [keys, keys, hnames]

/-- **Without a clash the tokens of a root tell those of its layers.** -/
theorem tokenOf_eq (hclash : ¬ r.Clashes) (hnames : r'.names = r.names) (htokens : r'.tokens = r.tokens) :
    r'.slots.map tokenOf = r.slots.map tokenOf := by
  have hlength : r'.slots.length = r.slots.length := by simpa [names] using congrArg List.length hnames
  rw [tokens_eq, tokens_eq, keys_eq hnames] at htokens
  have hnodup := nodup_keys_iff.2 hclash
  -- Each token is found under the key of its layer.
  have hfind : ∀ (tokens : List String) (i : Nat) (hi : i < tokens.length) (hlength : r.keys.length = tokens.length),
      Table.find? (Table.ofPairs (r.keys.zip tokens)) r.keys[i] = some tokens[i] := by
    intro tokens i hi hlength
    have hpairs : ((r.keys.zip tokens).map Prod.fst).Nodup := by rwa [List.map_fst_zip (by omega)]
    rw [Table.find?_ofPairs hpairs]
    refine Table.find?_of_mem hpairs ?_
    rw [← List.getElem_zip (h := by simpa [hlength] using hi)]
    exact List.getElem_mem _
  refine List.ext_getElem (by simpa using hlength) fun i hi hi' => ?_
  have h := hfind (r'.slots.map tokenOf) i hi (by simp [hlength])
  rw [htokens, hfind (r.slots.map tokenOf) i hi' (by simp)] at h
  exact (Option.some.inj h).symm

end Root

/-- An open layer of the same name with another token. -/
def Slot.retokened (s : Slot) : Slot := .opened (.ofFiles s.name 0 []) (some (Root.tokenOf s ++ "#"))

/-- Another token does not change the name. -/
@[simp] theorem Slot.name_retokened (s : Slot) : s.retokened.name = s.name := rfl

/-- The new token is another one. -/
@[simp] theorem Slot.tokenOf_retokened (s : Slot) : Root.tokenOf s.retokened = Root.tokenOf s ++ "#" := rfl

namespace Root

variable {r : Root}

/-- **With a clash they do not**: some layer can be replaced by one of the same name with another token. -/
theorem exists_same_tokens (hclash : r.Clashes) : ∃ slots : List Slot, { r with slots }.names = r.names ∧
    slots.map tokenOf ≠ r.slots.map tokenOf ∧ { r with slots }.tokens = r.tokens := by
  obtain ⟨before, k, after, hkeys, hlater⟩ := exists_of_not_nodup (mt nodup_keys_iff.1 (not_not_intro hclash))
  obtain ⟨front, s, rest, hslots, hfront⟩ : ∃ front s rest, r.slots = front ++ s :: rest ∧
      front.length = before.length := by
    have hlt : before.length < r.slots.length := by rw [← length_keys, hkeys]; simp
    refine ⟨r.slots.take before.length, r.slots[before.length], r.slots.drop (before.length + 1), ?_, by simp; omega⟩
    rw [List.getElem_cons_drop, List.take_append_drop]
  have hrest : after.length = rest.length := by
    have hlength := r.length_keys
    rw [hkeys, hslots] at hlength
    simpa [hfront] using hlength
  have hnames : { r with slots := front ++ s.retokened :: rest : Root }.names = r.names := by simp [names, hslots]
  refine ⟨front ++ s.retokened :: rest, hnames, ?_, ?_⟩
  · simp [hslots]
  · rw [tokens_eq, tokens_eq, keys_eq hnames, hkeys, hslots, List.map_append, List.map_append, List.map_cons,
      List.map_cons, List.zip_append (by simpa using hfront.symm), List.zip_append (by simpa using hfront.symm),
      List.zip_cons_cons, List.zip_cons_cons]
    refine Table.ofPairs_shadowed _ ?_ _ _
    rwa [List.map_fst_zip (by simp [hrest])]

end Root

end LayeredBundles
