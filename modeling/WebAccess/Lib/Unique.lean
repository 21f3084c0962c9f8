/-
Columns of a table that tell its rows apart (`UNIQUE`, under a collation), over arbitrary rows: when
an insertion or an update keeps them so, and that an update which changes no row changes nothing.
-/
import WebAccess.Lib.Table

namespace WebAccess.Table

variable {ρ κ : Type} {id : ρ → Int} {t : Table id} {key : ρ → κ}

/-- Two rows with one key are one row. -/
def Unique (t : Table id) (key : ρ → κ) : Prop := ∀ r ∈ t.rows, ∀ r' ∈ t.rows, key r = key r' → r = r'

theorem mem_insert {row : Int → ρ} {hrow : ∀ n, id (row n) = n} {r : ρ} :
    r ∈ (t.insert row hrow).rows ↔ r ∈ t.rows ∨ r = row (t.seq + 1) := by
  show r ∈ t.rows ++ [row (t.seq + 1)] ↔ _
  rw [List.mem_append, List.mem_singleton]

theorem mem_delete {p : ρ → Bool} {r : ρ} : r ∈ (t.delete p).rows ↔ r ∈ t.rows ∧ p r = false := by
  show r ∈ t.rows.filter (fun r => !p r) ↔ _
  simp [List.mem_filter]

/-- The rows of an update of one row. -/
theorem mem_update_one {n : Int} {f : ρ → ρ} {hf : ∀ r, id (f r) = id r} {r : ρ} :
    r ∈ (t.update (id · == n) f hf).rows ↔ (∃ r₀ ∈ t.rows, id r₀ = n ∧ r = f r₀) ∨ (r ∈ t.rows ∧ id r ≠ n) := by
  show r ∈ t.rows.map (fun r => if id r == n then f r else r) ↔ _
  rw [List.mem_map]
  constructor
  · rintro ⟨r₀, hr₀, rfl⟩
    by_cases h : id r₀ = n
    · rw [if_pos (beq_iff_eq.2 h)]
      exact .inl ⟨r₀, hr₀, h, rfl⟩
    · rw [if_neg (by simpa using h)]
      exact .inr ⟨hr₀, h⟩
  · rintro (⟨r₀, hr₀, h, rfl⟩ | ⟨hr, h⟩)
    · exact ⟨r₀, hr₀, if_pos (beq_iff_eq.2 h)⟩
    · exact ⟨r, hr, if_neg (by simpa using h)⟩

theorem unique_empty : (empty : Table id).Unique key := nofun

namespace Unique

theorem insert (h : t.Unique key) {row : Int → ρ} {hrow : ∀ n, id (row n) = n}
    (hnew : ∀ r ∈ t.rows, key r ≠ key (row (t.seq + 1))) : (t.insert row hrow).Unique key := by
  intro r hr r' hr' hkey
  rcases mem_insert.1 hr with hr | rfl <;> rcases mem_insert.1 hr' with hr' | rfl
  · exact h r hr r' hr' hkey
  · exact absurd hkey (hnew r hr)
  · exact absurd hkey.symm (hnew r' hr')
  · rfl

theorem delete (h : t.Unique key) {p : ρ → Bool} : (t.delete p).Unique key := fun r hr r' hr' =>
  h r (mem_delete.1 hr).1 r' (mem_delete.1 hr').1

variable {n : Int}

/-- One row gets a key that no other one has. -/
theorem update_one (h : t.Unique key) {f : ρ → ρ} {hf : ∀ r, id (f r) = id r}
    (hnew : ∀ r ∈ t.rows, id r = n → ∀ r' ∈ t.rows, key (f r) = key r' → id r' = n) :
    (t.update (id · == n) f hf).Unique key := by
  intro r hr r' hr' hkey
  rcases mem_update_one.1 hr with ⟨a, ha, hn, rfl⟩ | ⟨hr, hn⟩ <;>
    rcases mem_update_one.1 hr' with ⟨b, hb, hn', rfl⟩ | ⟨hr', hn'⟩
  · rw [eq_of_id_eq ha hb (hn.trans hn'.symm)]
  · exact absurd (hnew a ha hn r' hr' hkey) hn'
  · exact absurd (hnew b hb hn' r hr hkey.symm) hn
  · exact h r hr r' hr' hkey

/-- The rows keep their keys. -/
theorem update_same (h : t.Unique key) {f : ρ → ρ} {hf : ∀ r, id (f r) = id r}
    (hkey : ∀ r ∈ t.rows, id r = n → key (f r) = key r) : (t.update (id · == n) f hf).Unique key :=
  h.update_one fun r hr hn r' hr' hsame => by
    rw [← h r hr r' hr' ((hkey r hr hn).symm.trans hsame)]
    exact hn

/-- The row of a key is the one that is found. -/
theorem find?_eq_some (h : t.Unique key) [BEq κ] [LawfulBEq κ] {k : κ} {r : ρ} :
    t.rows.find? (fun r => key r == k) = some r ↔ r ∈ t.rows ∧ key r = k := by
  constructor
  · intro hfound
    exact ⟨List.mem_of_find?_eq_some hfound, by simpa using List.find?_some hfound⟩
  · rintro ⟨hr, rfl⟩
    cases hfound : t.rows.find? (fun r' => key r' == key r) with
    | none => exact absurd (beq_self_eq_true (key r)) (List.find?_eq_none.1 hfound r hr)
    | some r' =>
      have hkey : key r' = key r := by simpa using List.find?_some hfound
      rw [h r' (List.mem_of_find?_eq_some hfound) r hr hkey]

end Unique

/-- An update that changes no row changes nothing. -/
theorem update_eq_self {p : ρ → Bool} {f : ρ → ρ} {hf : ∀ r, id (f r) = id r}
    (h : ∀ r ∈ t.rows, p r = true → f r = r) : t.update p f hf = t := by
  have hrows : t.rows.map (fun r => if p r then f r else r) = t.rows := by
    refine (List.map_congr_left fun r hr => ?_).trans (List.map_id _)
    split
    · exact h r hr ‹_›
    · rfl
  obtain ⟨rows, seq, id_le, nodup⟩ := t
  simp only [update, mk.injEq]
  exact ⟨hrows, trivial⟩

end WebAccess.Table
