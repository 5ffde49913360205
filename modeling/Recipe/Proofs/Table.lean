import Mathlib.Data.List.Nodup
import Recipe.Table

/-!
# What a table answers

A table is known by its answers: writing and erasing change the answer of one key (`get?_insert`,
`get?_erase`), and a sequence of them the answers of the keys in it.
-/

namespace Recipe.Table

variable {α β γ : Type} [DecidableEq α]

theorem get?_erase (t : Table α β) (k j : α) :
    (t.erase k).get? j = if j = k then none else t.get? j := by
  unfold get? erase
  rw [List.find?_filter]
  split
  · rename_i h
    subst h
    rw [Option.map_eq_none_iff, List.find?_eq_none]
    intro e _ he
    simp at he
  · rename_i h
    congr 2
    funext e
    by_cases he : e.1 = j
    · simp [he, h]
    · simp [he]

theorem get?_insert (t : Table α β) (k : α) (v : β) (j : α) :
    (t.insert k v).get? j = if j = k then some v else t.get? j := by
  have h := get?_erase t k j
  unfold get? at h
  unfold get? insert
  rw [List.find?_append, Option.map_or, h]
  split
  · rename_i hj
    simp [hj]
  · rename_i hj
    have : (k = j) = False := by simp [Ne.symm hj]
    simp [this]

theorem mem_keys {t : Table α β} {k : α} : k ∈ t.keys ↔ (t.get? k).isSome = true := by
  rw [get?, Option.isSome_map, List.find?_isSome, keys, List.mem_map]
  simp

/-! ## Values -/

theorem mem_values_of_get? {t : Table α β} {k : α} {v : β} (h : t.get? k = some v) :
    v ∈ t.values := by
  obtain ⟨e, he, rfl⟩ := Option.map_eq_some_iff.1 h
  exact List.mem_map_of_mem (List.mem_of_find?_eq_some he)

theorem values_erase_sublist (t : Table α β) (k : α) : (t.erase k).values.Sublist t.values :=
  List.filter_sublist.map Prod.snd

theorem values_insert (t : Table α β) (k : α) (v : β) :
    (t.insert k v).values = (t.erase k).values ++ [v] := by
  rw [values, insert, List.map_append]
  rfl

/-- A value that stands in a table once is erased with its key. -/
theorem not_mem_values_erase {t : Table α β} {k : α} {v : β} (hn : t.values.Nodup)
    (h : t.get? k = some v) : v ∉ (t.erase k).values := by
  obtain ⟨e, he, rfl⟩ := Option.map_eq_some_iff.1 h
  have hk : e.1 = k := by simpa using List.find?_some he
  intro hm
  obtain ⟨f, hf, hfe⟩ := List.mem_map.1 hm
  obtain ⟨hmem, hne⟩ := List.mem_filter.1 hf
  have heq := List.inj_on_of_nodup_map hn hmem (List.mem_of_find?_eq_some he) hfe
  rw [heq, hk] at hne
  simp at hne

/-! ## Keys -/

/-- A table answers with its entries, since each key stands in it once. -/
theorem get?_of_mem {t : Table α β} {e : α × β} (he : e ∈ t.entries) : t.get? e.1 = some e.2 := by
  obtain ⟨f, hf⟩ := Option.isSome_iff_exists.1
    (List.find?_isSome.2 ⟨e, he, by simp⟩ : (t.entries.find? (·.1 = e.1)).isSome = true)
  have hfe : f.1 = e.1 := by simpa using List.find?_some hf
  have heq := List.inj_on_of_nodup_map t.nodup (List.mem_of_find?_eq_some hf) he hfe
  rw [get?, hf, heq, Option.map_some]

theorem get?_eq_some_iff {t : Table α β} {k : α} {v : β} : t.get? k = some v ↔ (k, v) ∈ t.entries := by
  refine ⟨fun h => ?_, get?_of_mem⟩
  obtain ⟨e, he, rfl⟩ := Option.map_eq_some_iff.1 h
  have hk : e.1 = k := by simpa using List.find?_some he
  rw [← hk]
  exact List.mem_of_find?_eq_some he

/-- The order of the entries does not show in what a table answers. -/
theorem get?_eq_of_perm {t u : Table α β} (h : t.entries.Perm u.entries) (k : α) :
    t.get? k = u.get? k :=
  Option.ext fun v => by rw [get?_eq_some_iff, get?_eq_some_iff, h.mem_iff]

/-- A table backwards. -/
def reverse (t : Table α β) : Table α β where
  entries := t.entries.reverse
  nodup := by
    rw [List.map_reverse]
    exact List.nodup_reverse.2 t.nodup

theorem mem_values {t : Table α β} {v : β} : v ∈ t.values ↔ ∃ k, t.get? k = some v := by
  refine ⟨fun hv => ?_, fun ⟨k, hk⟩ => mem_values_of_get? hk⟩
  obtain ⟨e, he, rfl⟩ := List.mem_map.1 hv
  exact ⟨e.1, get?_of_mem he⟩

theorem insert_insert (t : Table α β) (k : α) (v w : β) : (t.insert k v).insert k w = t.insert k w := by
  ext1
  show ((t.erase k).entries ++ [(k, v)]).filter (·.1 ≠ k) ++ [(k, w)] = (t.erase k).entries ++ [(k, w)]
  have hkept : (t.erase k).entries.filter (·.1 ≠ k) = (t.erase k).entries :=
    List.filter_eq_self.2 fun e he => (List.mem_filter.1 he).2
  rw [List.filter_append, hkept]
  simp

/-! ## Values seen through a function -/

/-- The table of the values that a function gives for those of a table. -/
def filterMap (f : β → Option γ) (t : Table α β) : Table α γ where
  entries := t.entries.filterMap fun e => (f e.2).map (e.1, ·)
  nodup := by
    rw [List.map_filterMap]
    refine t.nodup.sublist ?_
    rw [← List.filterMap_eq_map]
    induction t.entries with
    | nil => exact .slnil
    | cons e es ih =>
      rw [List.filterMap_cons, List.filterMap_cons]
      cases f e.2 with
      | none => exact ih.cons _
      | some w => exact ih.cons_cons _

variable (f : β → Option γ)

theorem get?_filterMap (t : Table α β) (k : α) : (t.filterMap f).get? k = (t.get? k).bind f := by
  rw [Option.ext_iff]
  intro w
  constructor
  · intro h
    obtain ⟨e, he, hw⟩ := List.mem_filterMap.1 (get?_eq_some_iff.1 h)
    obtain ⟨w, hf, heq⟩ := Option.map_eq_some_iff.1 hw
    cases heq
    rw [get?_of_mem he]
    exact hf
  · intro h
    obtain ⟨v, hv, hf⟩ := Option.bind_eq_some_iff.1 h
    refine get?_eq_some_iff.2 (List.mem_filterMap.2 ⟨(k, v), get?_eq_some_iff.1 hv, ?_⟩)
    rw [hf]
    rfl

omit [DecidableEq α] in
theorem values_filterMap (t : Table α β) : (t.filterMap f).values = t.values.filterMap f := by
  rw [values, values, filterMap, List.map_filterMap, List.filterMap_map]
  congr 1
  funext e
  cases h : f e.2 with
  | none => simp [h]
  | some w => simp [h]

theorem filterMap_erase (t : Table α β) (k : α) :
    (t.erase k).filterMap f = (t.filterMap f).erase k := by
  ext1
  show (t.entries.filter _).filterMap _ = (t.entries.filterMap _).filter _
  rw [List.filterMap_filter, List.filter_filterMap]
  congr 1
  funext e
  cases f e.2 with
  | none => simp
  | some w => by_cases hk : e.1 = k <;> simp [Option.filter, hk]

variable {f} in
theorem filterMap_insert {v : β} {w : γ} (h : f v = some w) (t : Table α β) (k : α) :
    (t.insert k v).filterMap f = (t.filterMap f).insert k w := by
  ext1
  have hlast : [(k, v)].filterMap (fun e => (f e.2).map (e.1, ·)) = [(k, w)] := by simp [h]
  show ((t.erase k).entries ++ [(k, v)]).filterMap _ = ((t.filterMap f).erase k).entries ++ [(k, w)]
  rw [← filterMap_erase, List.filterMap_append, hlast]
  rfl

/-! ## Several keys -/

theorem get?_foldl_erase (ks : List α) (t : Table α β) (j : α) :
    (ks.foldl erase t).get? j = if j ∈ ks then none else t.get? j := by
  induction ks generalizing t with
  | nil => simp
  | cons k ks ih =>
    rw [List.foldl_cons, ih, get?_erase]
    by_cases hk : j = k
    · simp [hk]
    · simp [hk]

/-- Values written one after the other. -/
def insertAll (key : γ → α) (value : γ → β) (xs : List γ) (t : Table α β) : Table α β :=
  xs.foldl (fun t x => t.insert (key x) (value x)) t

variable {key : γ → α} {value : γ → β}

/-- The table answers with the last value that was written at a key. -/
theorem get?_insertAll (xs : List γ) (t : Table α β) (j : α) :
    (insertAll key value xs t).get? j
      = (((xs.filter fun x => key x = j).getLast?).map value).or (t.get? j) := by
  induction xs generalizing t with
  | nil => rfl
  | cons x xs ih =>
    rw [insertAll, List.foldl_cons]
    refine (ih _).trans ?_
    rw [get?_insert]
    by_cases hx : key x = j
    · cases hlast : (xs.filter fun x => key x = j).getLast? with
      | none => simp [hx, hlast, List.getLast?_cons]
      | some y => simp [hx, hlast, List.getLast?_cons]
    · simp [hx, Ne.symm hx]

theorem get?_insertAll_of_not_mem {xs : List γ} {t : Table α β} {j : α} (h : j ∉ xs.map key) :
    (insertAll key value xs t).get? j = t.get? j := by
  have hnone : (xs.filter fun x => key x = j) = [] :=
    List.filter_eq_nil_iff.2 fun x hx hk => h (List.mem_map.2 ⟨x, hx, of_decide_eq_true hk⟩)
  rw [get?_insertAll, hnone]
  rfl

/-- If keys are written once, the table has every value that was written. -/
theorem get?_insertAll_of_mem {xs : List γ} {t : Table α β} (hn : (xs.map key).Nodup) {x : γ}
    (h : x ∈ xs) : (insertAll key value xs t).get? (key x) = some (value x) := by
  have hx : x ∈ xs.filter fun y => key y = key x := List.mem_filter.2 ⟨h, decide_eq_true rfl⟩
  obtain ⟨y, hy⟩ := Option.isSome_iff_exists.1 (List.getLast?_isSome.2 (List.ne_nil_of_mem hx))
  obtain ⟨hmem, hkey⟩ := List.mem_filter.1 (List.mem_of_getLast? hy)
  obtain rfl : y = x := List.inj_on_of_nodup_map hn hmem h (of_decide_eq_true hkey)
  rw [get?_insertAll, hy]
  rfl

end Recipe.Table
