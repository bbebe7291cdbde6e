import Mathlib.Data.List.Nodup

/-!
# Tables with a primary key and a unique index

A `Table ρ` is a list of rows in insertion order that carries, as fields, what
the store enforces: no two rows share a primary key, no two rows share the
value of the unique index. A statement that would break either does not
happen (`insert?`, `update?` answer `none`), so the two facts never have to be
proved again downstream.

The primary key is filled in by the store, as one more than the largest in
use (`next`), which is what SQLite does for an `INTEGER PRIMARY KEY`. There is
no delete here; the tables this is used for have none.

The lemmas say what each statement does to the rows and when it is refused,
and what a lookup by the unique index finds (`filter_key`, `find_of_mem`).

A row type says where its primary key and its unique value are (`Record`). The
stronger fact that the primary keys have no gap is not a field, since an
insertion that names its own key would break it; it is a property of its own
(`Dense`), kept by the insertions that take the next one.
-/

namespace ZeroTrustLab.Lib

/-- A stored record: a primary key the store fills in, and a unique index. -/
class Record (ρ : Type) (κ : outParam Type) where
  pk : ρ → Option Nat
  setPk : Nat → ρ → ρ
  key : ρ → κ
  pk_setPk : ∀ n r, pk (setPk n r) = some n

attribute [simp] Record.pk_setPk

/-- The rows of a table, with the two constraints the store enforces. -/
@[ext] structure Table (ρ : Type) {κ : Type} [Record ρ κ] where
  rows : List ρ
  pks : (rows.map Record.pk).Nodup
  keys : (rows.map Record.key).Nodup

namespace Table

variable {ρ κ : Type} [Record ρ κ]

/-- The table without rows. -/
def empty : Table ρ := ⟨[], List.nodup_nil, List.nodup_nil⟩

@[simp] theorem rows_empty : (empty : Table ρ).rows = [] := rfl

/-- The primary key the next row gets. -/
def next (t : Table ρ) : Nat := (t.rows.filterMap Record.pk).foldr max 0 + 1

/-- The maximum of a list is as large as each of its numbers. -/
private theorem le_foldr_max {n : Nat} : ∀ {l : List Nat}, n ∈ l → n ≤ l.foldr max 0
  | m :: l, h => by
    rw [List.foldr_cons]
    rcases List.mem_cons.mp h with rfl | h
    · exact Nat.le_max_left _ _
    · exact Nat.le_trans (le_foldr_max h) (Nat.le_max_right _ _)

/-- The next primary key is a new one. -/
theorem next_notMem (t : Table ρ) : some t.next ∉ t.rows.map Record.pk := by
  intro h
  obtain ⟨r, hr, hpk⟩ := List.mem_map.mp h
  have hle : t.next ≤ (t.rows.filterMap Record.pk).foldr max 0 :=
    le_foldr_max (List.mem_filterMap.mpr ⟨r, hr, hpk⟩)
  unfold next at hle
  omega

/-! ## Lookups -/

/-- Rows agreeing on the unique index are one row. -/
theorem eq_of_key (t : Table ρ) {r r' : ρ} (hr : r ∈ t.rows) (hr' : r' ∈ t.rows)
    (h : Record.key r = Record.key r') : r = r' :=
  List.inj_on_of_nodup_map t.keys hr hr' h

/-- Rows agreeing on the primary key are one row. -/
theorem eq_of_pk (t : Table ρ) {r r' : ρ} (hr : r ∈ t.rows) (hr' : r' ∈ t.rows)
    (h : Record.pk r = Record.pk r') : r = r' :=
  List.inj_on_of_nodup_map t.pks hr hr' h

/-- A row is found under a value that no other row has. -/
private theorem find_of_unique {β : Type} [DecidableEq β] {g : ρ → β} {l : List ρ}
    (hnd : (l.map g).Nodup) {r : ρ} (hr : r ∈ l) :
    l.find? (fun r' => decide (g r' = g r)) = some r := by
  rcases h : l.find? (fun r' => decide (g r' = g r)) with _ | r'
  · exact absurd (List.find?_eq_none.mp h r hr) (by simp)
  · have hg : g r' = g r := of_decide_eq_true (List.find?_some h :)
    rw [List.inj_on_of_nodup_map hnd (List.mem_of_find?_eq_some h) hr hg]

/-- Where at most one element satisfies a condition, filtering is finding. -/
private theorem filter_eq_toList_find {p : ρ → Bool} : ∀ {l : List ρ},
    (∀ r ∈ l, ∀ r' ∈ l, p r = true → p r' = true → r = r') → l.Nodup →
      l.filter p = (l.find? p).toList
  | [], _, _ => rfl
  | r :: l, huniq, hnd => by
    by_cases hr : p r = true
    · rw [List.filter_cons_of_pos hr, List.find?_cons_of_pos hr]
      have hnil : l.filter p = [] := by
        refine List.filter_eq_nil_iff.mpr fun r' hr' hp => ?_
        have he := huniq r (List.mem_cons_self ..) r' (List.mem_cons_of_mem _ hr') hr hp
        exact (List.nodup_cons.mp hnd).1 (he ▸ hr')
      rw [hnil]
      rfl
    · rw [List.filter_cons_of_neg hr, List.find?_cons_of_neg hr]
      exact filter_eq_toList_find
        (fun a ha b hb => huniq a (List.mem_cons_of_mem _ ha) b (List.mem_cons_of_mem _ hb))
        (List.nodup_cons.mp hnd).2

variable [DecidableEq κ]

/-- A query on the unique index answers at most one row. -/
theorem filter_key (t : Table ρ) (x : κ) :
    t.rows.filter (fun r => decide (Record.key r = x))
      = (t.rows.find? fun r => decide (Record.key r = x)).toList := by
  refine filter_eq_toList_find (fun r hr r' hr' h h' => ?_) (List.Nodup.of_map _ t.keys)
  simp only [decide_eq_true_eq] at h h'
  exact t.eq_of_key hr hr' (h.trans h'.symm)

/-- The query finds the row there is. -/
theorem find_of_mem (t : Table ρ) {r : ρ} (hr : r ∈ t.rows) :
    t.rows.find? (fun r' => decide (Record.key r' = Record.key r)) = some r :=
  find_of_unique t.keys hr

omit [DecidableEq κ] in
/-- The query by primary key finds the row there is. -/
theorem find_pk_of_mem (t : Table ρ) {r : ρ} (hr : r ∈ t.rows) :
    t.rows.find? (fun r' => decide (Record.pk r' = Record.pk r)) = some r :=
  find_of_unique t.pks hr

/-! ## Statements -/

/-- `INSERT`: refused when the row clashes with a stored one. -/
def insert? (t : Table ρ) (r : ρ) : Option (Table ρ) :=
  if h : Record.pk r ∉ t.rows.map Record.pk ∧ Record.key r ∉ t.rows.map Record.key then
    some
      { rows := t.rows ++ [r]
        pks := by
          rw [List.map_append]
          exact t.pks.append (List.nodup_singleton _) (by simpa using h.1)
        keys := by
          rw [List.map_append]
          exact t.keys.append (List.nodup_singleton _) (by simpa using h.2) }
  else none

/-- `UPDATE ... WHERE pk = k`: refused when the changed row would clash. -/
def update? (t : Table ρ) (k : Option Nat) (f : ρ → ρ) : Option (Table ρ) :=
  if h : ((t.rows.map fun r => if Record.pk r = k then f r else r).map Record.pk).Nodup ∧
      ((t.rows.map fun r => if Record.pk r = k then f r else r).map Record.key).Nodup then
    some ⟨t.rows.map fun r => if Record.pk r = k then f r else r, h.1, h.2⟩
  else none

/-- An insertion that succeeds puts the row last, under a key that was free. -/
theorem insert?_eq_some {t t' : Table ρ} {r : ρ} (h : t.insert? r = some t') :
    t'.rows = t.rows ++ [r] ∧ Record.key r ∉ t.rows.map Record.key := by
  unfold insert? at h
  split at h
  next hfresh =>
    rw [← Option.some.inj h]
    exact ⟨rfl, hfresh.2⟩
  next => exact absurd h (by simp)

/-- A row with the next primary key is refused only for its index value. -/
theorem insert?_next_eq_none {t : Table ρ} {r : ρ} (hpk : Record.pk r = some t.next)
    (h : t.insert? r = none) : ∃ r' ∈ t.rows, Record.key r' = Record.key r := by
  unfold insert? at h
  split at h
  next => exact absurd h (by simp)
  next hclash =>
    by_contra hno
    push Not at hno
    refine hclash ⟨by rw [hpk]; exact t.next_notMem, fun hmem => ?_⟩
    obtain ⟨r', hr', he⟩ := List.mem_map.mp hmem
    exact hno r' hr' he

/-- A row with the next primary key and an unused index value is stored. -/
theorem insert?_next {t : Table ρ} {r : ρ} (hpk : Record.pk r = some t.next)
    (hkey : ∀ r' ∈ t.rows, Record.key r' ≠ Record.key r) :
    ∃ t', t.insert? r = some t' ∧ t'.rows = t.rows ++ [r] := by
  rcases h : t.insert? r with _ | t'
  · obtain ⟨r', hr', he⟩ := insert?_next_eq_none hpk h
    exact absurd he (hkey r' hr')
  · exact ⟨t', rfl, (insert?_eq_some h).1⟩

/-- An update that succeeds changes the row with the primary key, and no
other. -/
theorem update?_eq_some {t t' : Table ρ} {k : Option Nat} {f : ρ → ρ}
    (h : t.update? k f = some t') :
    t'.rows = t.rows.map fun r => if Record.pk r = k then f r else r := by
  unfold update? at h
  split at h
  next => rw [← Option.some.inj h]
  next => exact absurd h (by simp)

/-- A change that touches neither key always goes through. -/
theorem update?_isSome (t : Table ρ) (k : Option Nat) {f : ρ → ρ}
    (hpk : ∀ r, Record.pk (f r) = Record.pk r) (hkey : ∀ r ∈ t.rows, Record.key (f r) = Record.key r) :
    ∃ t', t.update? k f = some t' ∧
      t'.rows = t.rows.map fun r => if Record.pk r = k then f r else r := by
  have h₁ : (t.rows.map fun r => if Record.pk r = k then f r else r).map Record.pk
      = t.rows.map Record.pk := by
    rw [List.map_map]
    refine List.map_congr_left fun r _ => ?_
    show Record.pk (if Record.pk r = k then f r else r) = Record.pk r
    split
    · exact hpk r
    · rfl
  have h₂ : (t.rows.map fun r => if Record.pk r = k then f r else r).map Record.key
      = t.rows.map Record.key := by
    rw [List.map_map]
    refine List.map_congr_left fun r hr => ?_
    show Record.key (if Record.pk r = k then f r else r) = Record.key r
    split
    · exact hkey r hr
    · rfl
  unfold update?
  rw [dif_pos ⟨by rw [h₁]; exact t.pks, by rw [h₂]; exact t.keys⟩]
  exact ⟨_, rfl, rfl⟩

/-! ## Numbering -/

/-- The primary keys are one, two, three and so on, in the order of insertion. -/
def Dense (t : Table ρ) : Prop :=
  t.rows.map Record.pk = (List.range t.rows.length).map fun k => some (k + 1)

omit [DecidableEq κ] in
theorem dense_empty : (empty : Table ρ).Dense := rfl

omit [DecidableEq κ] in
/-- The row at a place has its number. -/
theorem Dense.pk_getElem? {t : Table ρ} (h : t.Dense) {k : ℕ} {r : ρ} (hr : t.rows[k]? = some r) :
    Record.pk r = some (k + 1) := by
  have hk : (t.rows.map Record.pk)[k]? = some (Record.pk r) := by
    rw [List.getElem?_map, hr]
    rfl
  have hlt : k < t.rows.length := (List.getElem?_eq_some_iff.mp hr).1
  rw [h, List.getElem?_map, List.getElem?_range hlt] at hk
  exact (Option.some.inj hk).symm

omit [DecidableEq κ] in
/-- The next number is the next place. -/
theorem Dense.next {t : Table ρ} (h : t.Dense) : t.next = t.rows.length + 1 := by
  have hpks : t.rows.filterMap Record.pk = (List.range t.rows.length).map fun k => k + 1 := by
    have hid : t.rows.filterMap Record.pk = (t.rows.map Record.pk).filterMap id := by
      rw [List.filterMap_map]
      rfl
    rw [hid, h, List.filterMap_map]
    show List.filterMap (some ∘ fun k => k + 1) _ = _
    rw [List.filterMap_eq_map]
  have hmax : ∀ n : ℕ, ((List.range n).map fun k => k + 1).foldr max 0 = n := by
    intro n
    induction n with
    | zero => rfl
    | succ n ih =>
      have hle : ∀ (l : List ℕ) (m : ℕ), (l ++ [m]).foldr max 0 = max (l.foldr max 0) m := by
        intro l m
        induction l with
        | nil => simp
        | cons x l ihl => rw [List.cons_append, List.foldr_cons, ihl, List.foldr_cons, Nat.max_assoc]
      rw [List.range_succ, List.map_append, List.map_singleton, hle, ih]
      omega
  unfold Table.next
  rw [hpks, hmax]

/-- An insertion under the next primary key keeps a table dense. -/
theorem Dense.insert {t t' : Table ρ} {r : ρ} (h : t.Dense) (hpk : Record.pk r = some t.next)
    (ht : t.insert? r = some t') : t'.Dense := by
  unfold Dense at h ⊢
  rw [(insert?_eq_some ht).1, List.map_append, List.length_append, List.length_singleton,
    List.range_succ, List.map_append, h, List.map_singleton, List.map_singleton, hpk, Dense.next h]

/-- An update that keeps primary keys keeps a table dense. -/
theorem Dense.update {t t' : Table ρ} {k : Option Nat} {f : ρ → ρ} (h : t.Dense)
    (hpk : ∀ r, Record.pk (f r) = Record.pk r) (ht : t.update? k f = some t') : t'.Dense := by
  have hrows := update?_eq_some ht
  have hsame : t'.rows.map Record.pk = t.rows.map Record.pk := by
    rw [hrows, List.map_map]
    refine List.map_congr_left fun r _ => ?_
    show Record.pk (if Record.pk r = k then f r else r) = Record.pk r
    split
    · exact hpk r
    · rfl
  have hlength : t'.rows.length = t.rows.length := by rw [hrows, List.length_map]
  unfold Dense
  rw [hsame, hlength]
  exact h

end Table

end ZeroTrustLab.Lib
