/-!
# Tables

Finite maps as lists of entries with distinct keys. Entries stand in the order in which their keys
were last written.
-/

namespace Recipe

/-- A finite map from `α` to `β`. -/
@[ext] structure Table (α β : Type) where
  entries : List (α × β)
  nodup : (entries.map Prod.fst).Nodup

namespace Table

variable {α β : Type} [DecidableEq α]

/-- The table without entries. -/
def empty : Table α β :=
  ⟨[], .nil⟩

instance : Inhabited (Table α β) :=
  ⟨empty⟩

/-- The value of a key. -/
def get? (t : Table α β) (k : α) : Option β :=
  (t.entries.find? (·.1 = k)).map Prod.snd

/-- The table without a key. -/
def erase (t : Table α β) (k : α) : Table α β where
  entries := t.entries.filter (·.1 ≠ k)
  nodup := t.nodup.sublist (List.filter_sublist.map _)

theorem not_mem_erase (t : Table α β) (k : α) : k ∉ (t.erase k).entries.map Prod.fst := by
  intro h
  obtain ⟨e, he, rfl⟩ := List.mem_map.1 h
  exact of_decide_eq_true (List.mem_filter.1 he).2 rfl

/-- The table with a value written at a key. -/
def insert (t : Table α β) (k : α) (v : β) : Table α β where
  entries := (t.erase k).entries ++ [(k, v)]
  nodup := by
    rw [List.map_append, List.map_singleton]
    refine List.nodup_append.2 ⟨(t.erase k).nodup, List.pairwise_singleton _ _, fun a ha b hb h => ?_⟩
    rw [h, List.mem_singleton.1 hb] at ha
    exact t.not_mem_erase k ha

/-- The keys of a table. -/
def keys (t : Table α β) : List α :=
  t.entries.map Prod.fst

/-- The values of a table. -/
def values (t : Table α β) : List β :=
  t.entries.map Prod.snd

end Table

end Recipe
