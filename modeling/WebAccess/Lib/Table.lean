/-
Tables of rows under integer ids, over arbitrary rows. Ids come from a sequence that is never set
back, which the table carries with it, so that an id names one row at a time and, once its row is
gone, no row any more.
-/
import Mathlib.Data.List.Nodup

namespace WebAccess

/-- Rows under their ids, and the last id given out. -/
structure Table {ρ : Type} (id : ρ → Int) where
  rows : List ρ
  seq : Int
  id_le : ∀ r ∈ rows, id r ≤ seq
  nodup : (rows.map id).Nodup

namespace Table

variable {ρ : Type} {id : ρ → Int}

def empty : Table id := ⟨[], 0, by simp, by simp⟩

/-- `INSERT`: the row gets the next id. -/
def insert (t : Table id) (row : Int → ρ) (hrow : ∀ n, id (row n) = n) : Table id where
  rows := t.rows ++ [row (t.seq + 1)]
  seq := t.seq + 1
  id_le r hr := by
    rcases List.mem_append.1 hr with hr | hr
    · have hle := t.id_le r hr
      omega
    · obtain rfl := List.mem_singleton.1 hr
      exact Int.le_of_eq (hrow _)
  nodup := by
    rw [List.map_append, List.map_singleton, hrow, List.nodup_append]
    refine ⟨t.nodup, by simp, fun a ha b hb => ?_⟩
    obtain ⟨r, hr, rfl⟩ := List.mem_map.1 ha
    rw [List.mem_singleton.1 hb]
    exact fun h => absurd (t.id_le r hr) (by omega)

/-- `UPDATE`: the rows that satisfy `p` are changed, and keep their ids. -/
def update (t : Table id) (p : ρ → Bool) (f : ρ → ρ) (hf : ∀ r, id (f r) = id r) : Table id where
  rows := t.rows.map fun r => if p r then f r else r
  seq := t.seq
  id_le r hr := by
    obtain ⟨v, hv, rfl⟩ := List.mem_map.1 hr
    have hle := t.id_le v hv
    split
    · rwa [hf]
    · exact hle
  nodup := by
    have hids : (id ∘ fun r => if p r then f r else r) = id := by
      funext r
      by_cases hp : p r <;> simp [hp, hf]
    rw [List.map_map, hids]
    exact t.nodup

/-- `DELETE`: the rows that satisfy `p` go; the sequence stays. -/
def delete (t : Table id) (p : ρ → Bool) : Table id where
  rows := t.rows.filter fun r => !p r
  seq := t.seq
  id_le r hr := t.id_le r (List.mem_of_mem_filter hr)
  nodup := t.nodup.sublist ((List.filter_sublist).map _)

/-- The row of an id. -/
def byId (t : Table id) (n : Int) : Option ρ := t.rows.find? (id · == n)

variable {t : Table id}

theorem byId_eq_some {n : Int} {r : ρ} (h : t.byId n = some r) : r ∈ t.rows ∧ id r = n :=
  ⟨List.mem_of_find?_eq_some h, by simpa using List.find?_some h⟩

/-- Ids name one row. -/
theorem eq_of_id_eq {r r' : ρ} (hr : r ∈ t.rows) (hr' : r' ∈ t.rows) (h : id r = id r') : r = r' :=
  List.inj_on_of_nodup_map t.nodup hr hr' h

theorem byId_of_mem {r : ρ} (hr : r ∈ t.rows) : t.byId (id r) = some r := by
  unfold byId
  cases hfound : t.rows.find? (id · == id r) with
  | none => exact absurd (beq_self_eq_true (id r)) (List.find?_eq_none.1 hfound r hr)
  | some r' =>
    have hid : id r' = id r := by simpa using List.find?_some hfound
    rw [eq_of_id_eq (List.mem_of_find?_eq_some hfound) hr hid]

end Table

end WebAccess
