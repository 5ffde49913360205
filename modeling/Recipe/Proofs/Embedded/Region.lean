import Recipe.Embedded.Region

/-!
# Numbers of regions

The regions of a language are numbered from zero in their order (`Tree.index_regions`), so language
and number tell a region from all others of its tree (`Tree.regions_nodup`) and find it
(`Tree.getElem?_regions`).
-/

namespace Recipe

/-- The regions of a language. -/
def Region.ofLanguage (rs : List Region) (l : Language) : List Region :=
  rs.filter (·.language == l)

/-- What tells a region from the others of its tree. -/
def Region.key (r : Region) : Language × Nat :=
  (r.language, r.index)

namespace Candidate

/-- Each language counts on from the number of regions that came before. -/
theorem index_number (counts : Language → Nat) (cs : List Candidate) (l : Language) :
    (Region.ofLanguage (number counts cs) l).map (·.index)
      = List.range' (counts l) (Region.ofLanguage (number counts cs) l).length := by
  induction cs generalizing counts with
  | nil => rfl
  | cons c cs ih =>
    have h := ih fun m => if m = c.language then counts m + 1 else counts m
    rw [number, Region.ofLanguage]
    by_cases hl : c.language = l
    · subst hl
      rw [List.filter_cons_of_pos (by simp), List.map_cons, List.length_cons, List.range'_succ]
      rw [if_pos rfl] at h
      exact congrArg (_ :: ·) h
    · rw [if_neg (Ne.symm hl)] at h
      rw [List.filter_cons_of_neg (by simpa using hl)]
      exact h

theorem le_index_number {counts : Language → Nat} {cs : List Candidate} {r : Region}
    (h : r ∈ number counts cs) : counts r.language ≤ r.index := by
  have hr : r.index ∈ (Region.ofLanguage (number counts cs) r.language).map (·.index) :=
    List.mem_map_of_mem (by simp [Region.ofLanguage, h])
  rw [index_number, List.mem_range'_1] at hr
  exact hr.1

theorem nodup_key_number (counts : Language → Nat) (cs : List Candidate) :
    ((number counts cs).map Region.key).Nodup := by
  induction cs generalizing counts with
  | nil => exact List.nodup_nil
  | cons c cs ih =>
    rw [number, List.map_cons, List.nodup_cons]
    refine ⟨fun hm => ?_, ih _⟩
    obtain ⟨r, hr, hk⟩ := List.mem_map.1 hm
    obtain ⟨hl, hi⟩ := Prod.mk.injEq .. ▸ hk
    -- The rest counts on from one more than the number of `c`.
    have hle := le_index_number hr
    rw [hl, if_pos rfl, hi] at hle
    exact Nat.not_succ_le_self _ hle

end Candidate

namespace Tree

theorem index_regions (t : Tree) (l : Language) :
    (Region.ofLanguage t.regions l).map (·.index)
      = List.range (Region.ofLanguage t.regions l).length := by
  rw [List.range_eq_range']
  exact Candidate.index_number (fun _ => 0) _ l

/-- A region stands at its number among the regions of its language. -/
theorem getElem?_regions {t : Tree} {r : Region} (h : r ∈ t.regions) :
    (Region.ofLanguage t.regions r.language)[r.index]? = some r := by
  have hm : r ∈ Region.ofLanguage t.regions r.language := by simp [Region.ofLanguage, h]
  obtain ⟨k, hk, hr⟩ := List.getElem_of_mem hm
  have hi := congrArg (·[k]?) (t.index_regions r.language)
  simp only [List.getElem?_map, List.getElem?_eq_getElem hk, hr, List.getElem?_range hk,
    Option.map_some, Option.some.injEq] at hi
  rw [hi, List.getElem?_eq_getElem hk, hr]

theorem regions_nodup (t : Tree) : (t.regions.map Region.key).Nodup :=
  Candidate.nodup_key_number _ _

end Tree

end Recipe
