import Mathlib.Data.String.Basic
import Mathlib.Data.List.Pairwise

/-!
# Ordered maps

A map with ordered keys, kept as the list of its entries in strictly ascending key order
(`BTreeMap`).  Two maps with the same entries are equal, so a map survives being written out in
order and read back by insertion.
-/

namespace Yew

/-- A finite map with its entries in ascending key order. -/
structure OrdMap (κ ν : Type) [LinearOrder κ] where
  entries : List (κ × ν)
  sorted : entries.Pairwise fun a b ↦ a.1 < b.1

namespace OrdMap

variable {κ ν : Type} [LinearOrder κ]

instance [DecidableEq ν] : DecidableEq (OrdMap κ ν) := fun a b ↦
  decidable_of_iff (a.entries = b.entries) ⟨fun h ↦ by cases a; cases b; cases h; rfl, fun h ↦ h ▸ rfl⟩

/-- The map with no entry. -/
def empty : OrdMap κ ν := ⟨[], .nil⟩

/-- The value a list of entries gives a key. -/
def lookup (k : κ) : List (κ × ν) → Option ν
  | [] => none
  | e :: es => if e.1 = k then some e.2 else lookup k es

/-- The value of a key. -/
def get? (m : OrdMap κ ν) (k : κ) : Option ν := lookup k m.entries

/-- Insertion into a sorted list of entries, over an entry of the same key. -/
def insertEntry (k : κ) (v : ν) : List (κ × ν) → List (κ × ν)
  | [] => [(k, v)]
  | e :: es =>
    if k < e.1 then (k, v) :: e :: es
    else if k = e.1 then (k, v) :: es
    else e :: insertEntry k v es

theorem mem_insertEntry {k : κ} {v : ν} {es : List (κ × ν)} {e : κ × ν}
    (h : e ∈ insertEntry k v es) : e = (k, v) ∨ e ∈ es := by
  induction es with
  | nil => simpa [insertEntry] using h
  | cons f fs ih =>
    unfold insertEntry at h
    split_ifs at h
    · simpa using h
    · rcases List.mem_cons.mp h with rfl | h
      · exact .inl rfl
      · exact .inr (List.mem_cons_of_mem _ h)
    · rcases List.mem_cons.mp h with rfl | h
      · exact .inr List.mem_cons_self
      · exact (ih h).imp_right (List.mem_cons_of_mem _)

theorem sorted_insertEntry {k : κ} {v : ν} {es : List (κ × ν)}
    (h : es.Pairwise fun a b ↦ a.1 < b.1) :
    (insertEntry k v es).Pairwise fun a b ↦ a.1 < b.1 := by
  induction es with
  | nil => exact List.pairwise_singleton _ _
  | cons f fs ih =>
    obtain ⟨hf, hfs⟩ := List.pairwise_cons.mp h
    unfold insertEntry
    split_ifs with hlt heq
    · refine List.pairwise_cons.mpr ⟨fun e he ↦ ?_, h⟩
      rcases List.mem_cons.mp he with rfl | he
      · exact hlt
      · exact hlt.trans (hf e he)
    · exact List.pairwise_cons.mpr ⟨fun e he ↦ heq ▸ hf e he, hfs⟩
    · refine List.pairwise_cons.mpr ⟨fun e he ↦ ?_, ih hfs⟩
      rcases mem_insertEntry he with rfl | he
      · exact lt_of_le_of_ne (not_lt.mp hlt) (Ne.symm heq)
      · exact hf e he

/-- `BTreeMap::insert`. -/
def insert (m : OrdMap κ ν) (k : κ) (v : ν) : OrdMap κ ν :=
  ⟨insertEntry k v m.entries, sorted_insertEntry m.sorted⟩

/-- `retain`, by key. -/
def filter (p : κ → Bool) (m : OrdMap κ ν) : OrdMap κ ν :=
  ⟨m.entries.filter fun e ↦ p e.1, m.sorted.filter _⟩

/-- `retain`. -/
def retain (p : κ → ν → Bool) (m : OrdMap κ ν) : OrdMap κ ν :=
  ⟨m.entries.filter fun e ↦ p e.1 e.2, m.sorted.filter _⟩

/-- `remove`. -/
def erase (m : OrdMap κ ν) (k : κ) : OrdMap κ ν := m.filter fun j ↦ j ≠ k

/-- `values_mut`: every value changed. -/
def map (f : ν → ν) (m : OrdMap κ ν) : OrdMap κ ν :=
  ⟨m.entries.map fun e ↦ (e.1, f e.2), List.pairwise_map.mpr m.sorted⟩

/-- Insertion of a key that is not there yet. -/
def insertNew (m : OrdMap κ ν) (k : κ) (v : ν) : OrdMap κ ν :=
  match m.get? k with
  | some _ => m
  | none => m.insert k v

/-- The keys, ascending. -/
def keys (m : OrdMap κ ν) : List κ := m.entries.map Prod.fst

/-- The map of a list of entries, inserted in order. -/
def ofList (es : List (κ × ν)) : OrdMap κ ν := es.foldl (fun m e ↦ m.insert e.1 e.2) empty

@[simp] theorem get?_empty (k : κ) : (empty : OrdMap κ ν).get? k = none := rfl

theorem lookup_insertEntry (k : κ) (v : ν) (es : List (κ × ν)) (j : κ) :
    lookup j (insertEntry k v es) = if k = j then some v else lookup j es := by
  induction es with
  | nil => rfl
  | cons e es ih =>
    by_cases hlt : k < e.1
    · simp [insertEntry, lookup, hlt]
    by_cases heq : k = e.1
    · by_cases hj : k = j
      · simp [insertEntry, lookup, ← heq, hj]
      · simp [insertEntry, lookup, ← heq, hj]
    · simp only [insertEntry, if_neg hlt, if_neg heq, lookup, ih]
      by_cases hj : k = j
      · rw [if_neg fun he ↦ heq (hj.trans he.symm), if_pos hj, if_pos hj]
      · rw [if_neg hj, if_neg hj]

@[simp] theorem get?_insert (m : OrdMap κ ν) (k : κ) (v : ν) (j : κ) :
    (m.insert k v).get? j = if k = j then some v else m.get? j :=
  lookup_insertEntry k v m.entries j

theorem lookup_eq_none {k : κ} {es : List (κ × ν)} (h : ∀ e ∈ es, e.1 ≠ k) :
    lookup k es = none := by
  induction es with
  | nil => rfl
  | cons e es ih =>
    simp only [lookup, if_neg (h e List.mem_cons_self)]
    exact ih fun f hf ↦ h f (List.mem_cons_of_mem _ hf)

theorem mem_of_lookup {k : κ} {v : ν} {es : List (κ × ν)} (h : lookup k es = some v) :
    (k, v) ∈ es := by
  induction es with
  | nil => cases h
  | cons e es ih =>
    simp only [lookup] at h
    split_ifs at h with hk
    · cases h
      exact hk ▸ List.mem_cons_self
    · exact List.mem_cons_of_mem _ (ih h)

theorem lookup_of_mem {k : κ} {v : ν} {es : List (κ × ν)}
    (hs : es.Pairwise fun a b ↦ a.1 < b.1) (h : (k, v) ∈ es) : lookup k es = some v := by
  induction es with
  | nil => cases h
  | cons e es ih =>
    obtain ⟨he, hes⟩ := List.pairwise_cons.mp hs
    rcases List.mem_cons.mp h with rfl | h
    · simp [lookup]
    · simp only [lookup, if_neg (he _ h).ne]
      exact ih hes h

/-- The entries are exactly the keys with their values. -/
theorem mem_entries {m : OrdMap κ ν} {k : κ} {v : ν} : (k, v) ∈ m.entries ↔ m.get? k = some v :=
  ⟨lookup_of_mem m.sorted, mem_of_lookup⟩

theorem lookup_filter (p : κ → Bool) (k : κ) (es : List (κ × ν)) :
    lookup k (es.filter fun e ↦ p e.1) = if p k then lookup k es else none := by
  induction es with
  | nil => simp [lookup]
  | cons e es ih =>
    by_cases hk : e.1 = k
    · subst hk
      by_cases hp : p e.1 = true
      · simp [hp, lookup]
      · simp [hp, ih]
    · by_cases hp : p e.1 = true
      · simp [hp, lookup, hk, ih]
      · simp [hp, lookup, hk, ih]

@[simp] theorem get?_filter (p : κ → Bool) (m : OrdMap κ ν) (k : κ) :
    (m.filter p).get? k = if p k then m.get? k else none := lookup_filter p k m.entries

theorem lookup_map (f : ν → ν) (k : κ) (es : List (κ × ν)) :
    lookup k (es.map fun e ↦ (e.1, f e.2)) = (lookup k es).map f := by
  induction es with
  | nil => rfl
  | cons e es ih =>
    simp only [List.map_cons, lookup, ih]
    split <;> rfl

@[simp] theorem get?_map (f : ν → ν) (m : OrdMap κ ν) (k : κ) :
    (m.map f).get? k = (m.get? k).map f := lookup_map f k m.entries

@[simp] theorem get?_retain (p : κ → ν → Bool) (m : OrdMap κ ν) (k : κ) :
    (m.retain p).get? k = (m.get? k).filter (p k) := by
  cases h : (m.retain p).get? k with
  | some v =>
    have hmem := List.mem_filter.mp (mem_entries.mpr h)
    rw [mem_entries.mp hmem.1, Option.filter_some, if_pos hmem.2]
  | none =>
    cases hv : m.get? k with
    | none => rfl
    | some v =>
      by_cases hp : p k v = true
      · have hmem : (k, v) ∈ (m.retain p).entries :=
          List.mem_filter.mpr ⟨mem_entries.mpr hv, hp⟩
        rw [mem_entries.mp hmem] at h
        cases h
      · rw [Option.filter_some, if_neg hp]

@[simp] theorem get?_erase (m : OrdMap κ ν) (j k : κ) :
    (m.erase j).get? k = if j = k then none else m.get? k := by
  rw [erase, get?_filter]
  by_cases h : j = k
  · simp [h]
  · simp [h, Ne.symm h]

theorem get?_foldl_erase (ks : List κ) (m : OrdMap κ ν) (k : κ) :
    (ks.foldl erase m).get? k = if k ∈ ks then none else m.get? k := by
  induction ks generalizing m with
  | nil => simp
  | cons j ks ih =>
    rw [List.foldl_cons, ih, get?_erase]
    by_cases hj : j = k
    · simp [hj]
    · simp [hj, Ne.symm hj]

@[simp] theorem get?_insertNew (m : OrdMap κ ν) (j : κ) (v : ν) (k : κ) :
    (m.insertNew j v).get? k = if j = k then some ((m.get? k).getD v) else m.get? k := by
  rw [insertNew]
  by_cases h : j = k
  · subst h
    cases hm : m.get? j <;> simp [hm]
  · cases hm : m.get? j <;> simp [h]

/-- A map is its values at the keys. -/
theorem ext_get? {a b : OrdMap κ ν} (h : ∀ k, a.get? k = b.get? k) : a = b := by
  have hmem (e : κ × ν) : e ∈ a.entries ↔ e ∈ b.entries := by
    rw [show e = (e.1, e.2) from rfl, mem_entries, mem_entries, h]
  have hnodup {m : OrdMap κ ν} : m.entries.Nodup :=
    m.sorted.imp fun hlt heq ↦ hlt.ne (congrArg Prod.fst heq)
  have hperm : a.entries.Perm b.entries := (List.perm_ext_iff_of_nodup hnodup hnodup).mpr hmem
  have heq : a.entries = b.entries :=
    hperm.eq_of_pairwise (fun x y _ _ hxy hyx ↦ absurd hxy hyx.asymm) a.sorted b.sorted
  cases a
  cases b
  cases heq
  rfl

/-- Maps that agree on the keys that are kept. -/
theorem filter_congr {p : κ → Bool} {a b : OrdMap κ ν} (h : ∀ k, p k → a.get? k = b.get? k) :
    a.filter p = b.filter p := by
  apply ext_get?
  intro k
  rw [get?_filter, get?_filter]
  split
  · exact h k ‹_›
  · rfl

/-- Keeping every key there is. -/
theorem filter_eq_self {p : κ → Bool} {m : OrdMap κ ν} :
    m.filter p = m ↔ ∀ k, ¬ p k → m.get? k = none := by
  constructor
  · intro h k hk
    rw [← h, get?_filter, if_neg hk]
  · intro h
    apply ext_get?
    intro k
    rw [get?_filter]
    split
    · rfl
    · exact (h k ‹_›).symm

theorem insert_get?_self {m : OrdMap κ ν} {k : κ} {v : ν} (h : m.get? k = some v) :
    m.insert k v = m := by
  apply ext_get?
  intro j
  rw [get?_insert]
  split
  · rename_i hk
    rw [← hk, h]
  · rfl

theorem foldl_insert_get? (es : List (κ × ν)) (m : OrdMap κ ν) (k : κ)
    (hs : es.Pairwise fun a b ↦ a.1 < b.1) :
    (es.foldl (fun m e ↦ m.insert e.1 e.2) m).get? k = (lookup k es).or (m.get? k) := by
  induction es generalizing m with
  | nil => rfl
  | cons e es ih =>
    obtain ⟨he, hes⟩ := List.pairwise_cons.mp hs
    simp only [List.foldl_cons, ih _ hes, get?_insert, lookup]
    split_ifs with hk
    · rw [lookup_eq_none fun f hf ↦ (hk ▸ (he f hf)).ne']
      rfl
    · rfl

/-- Reading back what a map wrote gives every key its value. -/
@[simp] theorem get?_ofList_entries (m : OrdMap κ ν) (k : κ) :
    (ofList m.entries).get? k = m.get? k := by
  rw [ofList, foldl_insert_get? _ _ _ m.sorted, get?_empty, Option.or_none]
  rfl

section Foldl

variable {α : Type} {key : α → κ} {value : α → ν} {l : List α} {m : OrdMap κ ν} {k : κ}

/-- A value behind insertions is one that was inserted, or was there. -/
theorem get?_foldl_insert {v : ν}
    (h : (l.foldl (fun m a ↦ m.insert (key a) (value a)) m).get? k = some v) :
    (∃ a ∈ l, key a = k ∧ value a = v) ∨ m.get? k = some v := by
  induction l generalizing m with
  | nil => exact .inr h
  | cons a l ih =>
    rcases ih h with ⟨b, hb, hkey⟩ | hget
    · exact .inl ⟨b, List.mem_cons_of_mem _ hb, hkey⟩
    · rw [get?_insert] at hget
      split at hget
      · exact .inl ⟨a, List.mem_cons_self, ‹_›, Option.some.inj hget⟩
      · exact .inr hget

theorem isSome_foldl_insert :
    ((l.foldl (fun m a ↦ m.insert (key a) (value a)) m).get? k).isSome ↔
      (∃ a ∈ l, key a = k) ∨ (m.get? k).isSome := by
  induction l generalizing m with
  | nil => simp
  | cons a l ih =>
    rw [List.foldl_cons, ih, get?_insert]
    by_cases hk : key a = k
    · simp [hk]
    · simp [hk]

end Foldl

theorem mem_keys {m : OrdMap κ ν} {k : κ} : k ∈ m.keys ↔ (m.get? k).isSome := by
  constructor
  · intro h
    obtain ⟨⟨_, v⟩, he, rfl⟩ := List.mem_map.mp h
    rw [mem_entries.mp he]
    rfl
  · intro h
    obtain ⟨v, hv⟩ := Option.isSome_iff_exists.mp h
    exact List.mem_map.mpr ⟨(k, v), mem_entries.mpr hv, rfl⟩

theorem mem_keys_ofList {es : List (κ × ν)} {k : κ} :
    k ∈ (ofList es).keys ↔ k ∈ es.map Prod.fst := by
  rw [mem_keys, ofList, isSome_foldl_insert]
  simp only [get?_empty, Option.isSome_none, Bool.false_eq_true, or_false, List.mem_map]

end OrdMap

end Yew
