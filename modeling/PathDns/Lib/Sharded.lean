import Mathlib.Data.Finmap
import Mathlib.Data.List.AList
import Mathlib.Data.Fintype.Defs

/-!
# Sharded maps

A map cut into shards, each behind a lock of its own; `index` says which shard owns a key. A key is only
ever looked up, inserted and removed in the shard that owns it, so the shards together are one map.
-/

namespace Sharded

variable {κ ν ι : Type} [DecidableEq κ]

/-- The shards. -/
abbrev Table (κ ν ι : Type) := ι → AList (fun _ : κ => ν)

variable (index : κ → ι) (t : Table κ ν ι)

def get (k : κ) : Option ν := (t (index k)).lookup k

/-- Every key is in the shard that owns it. -/
def Placed : Prop := ∀ i k v, (t i).lookup k = some v → index k = i

section

variable {index t} {i : ι} {k : κ} {v : ν}

theorem get_empty : get index (fun _ => ∅ : Table κ ν ι) k = none :=
  AList.lookup_empty k

theorem placed_empty : Placed index (fun _ => ∅ : Table κ ν ι) := by
  intro i k v h
  simp at h

theorem Placed.get (h : Placed index t) (hlook : (t i).lookup k = some v) : get index t k = some v := by
  rw [Sharded.get, h i k v hlook, hlook]

end

variable [DecidableEq ι]

def insert (k : κ) (v : ν) : Table κ ν ι := Function.update t (index k) ((t (index k)).insert k v)

def remove (k : κ) : Table κ ν ι := Function.update t (index k) ((t (index k)).erase k)

/-- One shard emptied. -/
def clear (i : ι) : Table κ ν ι := Function.update t i ∅

variable {index t} {i : ι} {k k' : κ} {v v' : ν}

theorem get_insert : get index (insert index t k v) k = some v := by
  rw [get, insert, Function.update_self, AList.lookup_insert]

theorem get_insert_ne (h : k' ≠ k) : get index (insert index t k v) k' = get index t k' := by
  rw [get, insert, Function.update_apply]
  split_ifs with hi
  · rw [AList.lookup_insert_ne h, get, hi]
  · rfl

theorem get_remove : get index (remove index t k) k = none := by
  rw [get, remove, Function.update_self, AList.lookup_erase]

theorem get_remove_ne (h : k' ≠ k) : get index (remove index t k) k' = get index t k' := by
  rw [get, remove, Function.update_apply]
  split_ifs with hi
  · rw [AList.lookup_erase_ne h, get, hi]
  · rfl

theorem get_clear : get index (clear t i) k = if index k = i then none else get index t k := by
  rw [get, clear, Function.update_apply]
  split_ifs
  · exact AList.lookup_empty k
  · rfl

theorem get_insert_ite : get index (insert index t k v) k' = if k' = k then some v else get index t k' := by
  split_ifs with h
  · exact h ▸ get_insert
  · exact get_insert_ne h

theorem get_remove_ite : get index (remove index t k) k' = if k' = k then none else get index t k' := by
  split_ifs with h
  · exact h ▸ get_remove
  · exact get_remove_ne h

theorem of_get_insert (h : get index (insert index t k v) k' = some v') :
    (k' = k ∧ v' = v) ∨ (k' ≠ k ∧ get index t k' = some v') := by
  by_cases hk : k' = k
  · rw [hk, get_insert, Option.some.injEq] at h
    exact .inl ⟨hk, h.symm⟩
  · rw [get_insert_ne hk] at h
    exact .inr ⟨hk, h⟩

theorem of_get_remove (h : get index (remove index t k) k' = some v') :
    k' ≠ k ∧ get index t k' = some v' := by
  by_cases hk : k' = k
  · rw [hk, get_remove] at h
    simp at h
  · rw [get_remove_ne hk] at h
    exact ⟨hk, h⟩

theorem of_get_clear (h : get index (clear t i) k' = some v') : get index t k' = some v' := by
  rw [get_clear] at h
  split_ifs at h
  exact h

theorem remove_insert_empty :
    remove index (insert index (fun _ => ∅ : Table κ ν ι) k v) k = fun _ => ∅ := by
  have herase : ((∅ : AList (fun _ : κ => ν)).insert k v).erase k = ∅ := by
    apply AList.ext
    simp [AList.insert, AList.erase, List.kinsert, List.kerase]
  funext i
  rw [remove, insert, Function.update_self, herase, Function.update_apply]
  split_ifs with hi
  · rfl
  · rw [Function.update_of_ne hi]

/-! ### Placement -/

theorem Placed.update (h : Placed index t) {shard : AList (fun _ : κ => ν)}
    (hs : ∀ k v, shard.lookup k = some v → index k = i) : Placed index (Function.update t i shard) := by
  intro j k v hlook
  rw [Function.update_apply] at hlook
  split_ifs at hlook with hj
  · exact (hs k v hlook).trans hj.symm
  · exact h j k v hlook

theorem Placed.insert (h : Placed index t) : Placed index (insert index t k v) := by
  apply h.update
  intro k' v' hlook
  by_cases hk : k' = k
  · rw [hk]
  · rw [AList.lookup_insert_ne hk] at hlook
    exact h _ k' v' hlook

theorem Placed.remove (h : Placed index t) : Placed index (remove index t k) := by
  apply h.update
  intro k' v' hlook
  by_cases hk : k' = k
  · rw [hk]
  · rw [AList.lookup_erase_ne hk] at hlook
    exact h _ k' v' hlook

theorem Placed.clear (h : Placed index t) : Placed index (clear t i) := by
  apply h.update
  intro k' v' hlook
  simp at hlook

end Sharded
