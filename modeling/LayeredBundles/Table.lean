/-! # Tables — finite maps kept in key order

A **table** is a list of key-value pairs. Every operation here keeps the keys strictly ascending, so
a table has one form for each finite map, and reading it from front to back visits the keys in order.

* **`Table.find?`** — the value of a key;
* **`Table.insert`** — bind a key, replacing what it was bound to;
* **`Table.erase`** — unbind a key;
* **`Table.ofPairs`** — bind pairs one after another, so the last pair of a key wins;
* **`Table.startingAt`** — the pairs from a key on.

`find?_insert` and `find?_erase` say what each does to look-up, and `Sorted` is the order of keys. -/

namespace LayeredBundles

universe u v

/-- A **table** from `κ` to `β`: pairs in ascending key order. -/
abbrev Table (κ : Type u) (β : Type v) : Type (max u v) := List (κ × β)

namespace Table

variable {κ : Type u} {β : Type v} [DecidableEq κ] [LT κ] [DecidableLT κ]

/-- The value bound to `k`, if any. -/
def find? : Table κ β → κ → Option β
  | [], _ => none
  | (k', v) :: rest, k => if k = k' then some v else find? rest k

/-- Whether `k` is bound. -/
def contains (t : Table κ β) (k : κ) : Bool := (find? t k).isSome

/-- Bind `k` to `v`: in place when `k` is bound already, else before the first greater key. -/
def insert (k : κ) (v : β) : Table κ β → Table κ β
  | [] => [(k, v)]
  | (k', v') :: rest =>
    if k = k' then (k, v) :: rest
    else if k < k' then (k, v) :: (k', v') :: rest
    else (k', v') :: insert k v rest

/-- Unbind `k`. -/
def erase (k : κ) (t : Table κ β) : Table κ β := t.filter (fun p => p.1 ≠ k)

/-- Bind pairs in turn: the last pair of a key wins. -/
def ofPairs (pairs : List (κ × β)) : Table κ β := pairs.foldl (fun t p => insert p.1 p.2 t) []

/-- The bound keys, ascending. -/
def keys (t : Table κ β) : List κ := t.map (·.1)

/-- The bound values, in key order. -/
def values (t : Table κ β) : List β := t.map (·.2)

/-- The pairs from the first key that is not below `k` on. -/
def startingAt (k : κ) (t : Table κ β) : Table κ β := t.dropWhile fun p => p.1 < k

/-! ## (1) Look-up after each operation -/

omit [LT κ] [DecidableLT κ] in
/-- Nothing is found in an empty table. -/
@[simp] theorem find?_nil (k : κ) : find? ([] : Table κ β) k = none := rfl

omit [LT κ] [DecidableLT κ] in
/-- A key is looked for from the front. -/
theorem find?_cons (k k' : κ) (v : β) (t : Table κ β) :
    find? ((k', v) :: t) k = if k = k' then some v else find? t k := rfl

/-- The first entry of a table. -/
theorem insert_nil (k : κ) (v : β) : insert k v ([] : Table κ β) = [(k, v)] := rfl

/-- An entry is put in place of one with its key, or in front of the first greater key. -/
theorem insert_cons (k k' : κ) (v v' : β) (t : Table κ β) :
    insert k v ((k', v') :: t) = if k = k' then (k, v) :: t
      else if k < k' then (k, v) :: (k', v') :: t
      else (k', v') :: insert k v t := rfl

/-- What was inserted is found. -/
@[simp] theorem find?_insert_self (k : κ) (v : β) (t : Table κ β) :
    find? (insert k v t) k = some v := by
  induction t with
  | nil => simp [insert_nil, find?_cons]
  | cons p t ih =>
    obtain ⟨k', v'⟩ := p
    rw [insert_cons]
    split
    · simp [find?_cons]
    · split
      · simp [find?_cons]
      · simp [find?_cons, *]

/-- Other keys find what they found. -/
theorem find?_insert_of_ne {j k : κ} (h : j ≠ k) (v : β) (t : Table κ β) :
    find? (insert k v t) j = find? t j := by
  induction t with
  | nil => simp [insert_nil, find?_cons, h]
  | cons p t ih =>
    obtain ⟨k', v'⟩ := p
    rw [insert_cons]
    split
    · next hk => subst hk; simp [find?_cons, h]
    · split
      · simp [find?_cons, h]
      · simp only [find?_cons, ih]

/-- What is found after something was inserted. -/
theorem find?_insert (j k : κ) (v : β) (t : Table κ β) :
    find? (insert k v t) j = if j = k then some v else find? t j := by
  by_cases h : j = k
  · subst h; simp
  · simp [h, find?_insert_of_ne h]

omit [LT κ] [DecidableLT κ] in
/-- What is found among the keys that are kept. -/
theorem find?_filter (f : κ → Bool) (t : Table κ β) (k : κ) :
    find? (t.filter (fun p => f p.1)) k = if f k then find? t k else none := by
  induction t with
  | nil => simp
  | cons p t ih =>
    obtain ⟨k', v'⟩ := p
    by_cases hf : f k' <;> by_cases hk : k = k'
    · subst hk; simp [find?_cons, hf]
    · simp [find?_cons, hf, ih, hk]
    · subst hk; simp [hf, ih]
    · simp [find?_cons, hf, ih, hk]

omit [LT κ] [DecidableLT κ] in
/-- What is found after a key was erased. -/
theorem find?_erase (j k : κ) (t : Table κ β) :
    find? (erase k t) j = if j = k then none else find? t j := by
  have := find?_filter (fun x => decide (x ≠ k)) t j
  simp only [erase, this]
  by_cases h : j = k <;> simp [h]

omit [LT κ] [DecidableLT κ] in
/-- What is found is an entry. -/
theorem mem_of_find? {t : Table κ β} {k : κ} {v : β} (h : find? t k = some v) : (k, v) ∈ t := by
  induction t with
  | nil => simp at h
  | cons p t ih =>
    obtain ⟨k', v'⟩ := p
    rw [find?_cons] at h
    split at h
    · next hk => cases h; subst hk; simp
    · exact List.mem_cons_of_mem _ (ih h)

/-! ## (2) The order of keys -/

/-- Keys ascend strictly from front to back. -/
def Sorted (t : Table κ β) : Prop := t.Pairwise (fun p q => p.1 < q.1)

/-- An entry after something was inserted is that, or was one before. -/
theorem mem_insert {k : κ} {v : β} {t : Table κ β} {p : κ × β} (h : p ∈ insert k v t) :
    p = (k, v) ∨ p ∈ t := by
  induction t with
  | nil => simpa [insert_nil] using h
  | cons q t ih =>
    obtain ⟨k', v'⟩ := q
    rw [insert_cons] at h
    split at h
    · rcases List.mem_cons.1 h with h | h
      · exact .inl h
      · exact .inr (List.mem_cons_of_mem _ h)
    · split at h
      · rcases List.mem_cons.1 h with h | h
        · exact .inl h
        · exact .inr h
      · rcases List.mem_cons.1 h with h | h
        · exact .inr (h ▸ List.mem_cons_self)
        · rcases ih h with h | h
          · exact .inl h
          · exact .inr (List.mem_cons_of_mem _ h)

end Table

end LayeredBundles
