import Mathlib.Data.List.Nodup
import Mathlib.Order.Basic

/- Tables of a database, as the statements that write them leave them.

   A table holds its rows in the order they were inserted. No two rows have one rowid, and
   no two have one value of the table's unique index; the index may leave a row out
   (`Row.key` is `none`), as a partial index does. A `Table` carries both facts, so every
   operation here is one the database accepts.

   What is proved:
     1. `id_le_maxId`, `id_ne_nextId`: a fresh rowid is above every rowid in use.
     2. `eq_of_key_eq`, `find?_eq_some`: a key names the one row that has it.
     3. `holds_insertOrIgnoreAll`: after ignoring inserts every key is held, and
        `insertOrIgnoreAll_of_holds`: then the same inserts change nothing;
        `exists_mem_insertOrIgnoreAll`: a row without a key goes in.
     4. `settled_upsertAll`, `upsertAll_of_settled`: the same for upserts of distinct keys.
     5. `lookup_idMap`: a temp table made by a join, looked up. -/
namespace SqlTable

/-! Id maps. -/

/-- A temp table keyed by an id: each `x` of `l` under its id, beside what it joins. -/
def idMap {α β : Type} (id : α → Int) (join : α → Option β) (l : List α) : List (Int × β) :=
  l.filterMap (fun x => (join x).map (fun y => (id x, y)))

theorem lookup_idMap {α β : Type} {id : α → Int} {join : α → Option β} {l : List α}
    (hl : (l.map id).Nodup) {i : Int} {y : β} :
    (idMap id join l).lookup i = some y ↔ ∃ x ∈ l, id x = i ∧ join x = some y := by
  induction l with
  | nil => simp [idMap]
  | cons x l ih =>
    rw [List.map_cons, List.nodup_cons] at hl
    have hrest := ih hl.2
    unfold idMap at hrest ⊢
    rw [List.filterMap_cons]
    cases hx : join x with
    | none =>
      simp only [Option.map_none, List.mem_cons, exists_eq_or_imp, hx, reduceCtorEq, and_false,
        false_or]
      exact hrest
    | some z =>
      simp only [Option.map_some, List.lookup_cons, List.mem_cons, exists_eq_or_imp, hx,
        Option.some.injEq]
      by_cases hi : i = id x
      · subst hi
        simp only [beq_self_eq_true, Option.some.injEq, true_and]
        constructor
        · exact Or.inl
        · rintro (h | ⟨x', hx', hid, -⟩)
          · exact h
          · exact absurd (List.mem_map.mpr ⟨x', hx', hid⟩) hl.1
      · rw [show (i == id x) = false by simpa using hi, hrest]
        constructor
        · exact Or.inr
        · rintro (⟨h, -⟩ | h)
          · exact absurd h.symm hi
          · exact h

/-- What a table declares of its rows: the rowid, and the value of the unique index. -/
class Row (ρ : Type) (κ : outParam Type) where
  id : ρ → Int
  key : ρ → Option κ

structure Table (ρ : Type) {κ : Type} [Row ρ κ] where
  rows : List ρ
  ids_nodup : (rows.map Row.id).Nodup
  keys_nodup : (rows.filterMap Row.key).Nodup

/-- A row to insert, but for the rowid it is given. -/
structure New (ρ : Type) {κ : Type} [Row ρ κ] where
  row : Int → ρ
  key : Option κ
  id_row : ∀ i, Row.id (row i) = i
  key_row : ∀ i, Row.key (row i) = key

/-- An update of one row: it keeps the rowid, and keeps or gives up its place in the unique
index. -/
structure Change (ρ : Type) {κ : Type} [Row ρ κ] where
  apply : ρ → ρ
  id_apply : ∀ r, Row.id (apply r) = Row.id r
  key_apply : ∀ r, Row.key (apply r) = Row.key r ∨ Row.key (apply r) = none

namespace Table
variable {ρ κ : Type} [Row ρ κ]

def empty : Table ρ := ⟨[], List.nodup_nil, List.nodup_nil⟩

@[ext] theorem ext {t t' : Table ρ} (h : t.rows = t'.rows) : t = t' := by
  cases t
  cases t'
  simpa using h

/-- `COALESCE(MAX(id), 0)`. -/
def maxId (t : Table ρ) : Int := ((t.rows.map Row.id).max?).getD 0

/-- The rowid a new row is given. -/
def nextId (t : Table ρ) : Int := t.maxId + 1

theorem id_le_maxId {t : Table ρ} {r : ρ} (h : r ∈ t.rows) : Row.id r ≤ t.maxId := by
  have hmem : Row.id r ∈ t.rows.map Row.id := List.mem_map.mpr ⟨r, h, rfl⟩
  unfold maxId
  cases hmax : (t.rows.map Row.id).max? with
  | none => exact absurd (List.max?_eq_none_iff.mp hmax) (List.ne_nil_of_mem hmem)
  | some m => exact (List.max?_eq_some_iff.mp hmax).2 _ hmem

theorem id_ne_nextId {t : Table ρ} {r : ρ} (h : r ∈ t.rows) : Row.id r ≠ t.nextId := by
  have := id_le_maxId h
  unfold nextId
  omega

/-- One row of a table for each rowid. -/
theorem eq_of_id_eq {t : Table ρ} {r r' : ρ} (h : r ∈ t.rows) (h' : r' ∈ t.rows)
    (hid : Row.id r = Row.id r') : r = r' :=
  List.inj_on_of_nodup_map t.ids_nodup h h' hid

/-- One row of a table for each value of the unique index. -/
theorem eq_of_key_eq {t : Table ρ} {r r' : ρ} {k : κ} (h : r ∈ t.rows) (h' : r' ∈ t.rows)
    (hk : Row.key r = some k) (hk' : Row.key r' = some k) : r = r' := by
  have hnodup := t.keys_nodup
  generalize t.rows = rows at h h' hnodup
  induction rows with
  | nil => cases h
  | cons x xs ih =>
    rw [List.filterMap_cons] at hnodup
    rcases List.mem_cons.mp h with rfl | hr
    · rcases List.mem_cons.mp h' with rfl | hr'
      · rfl
      · rw [hk] at hnodup
        exact absurd (List.mem_filterMap.mpr ⟨r', hr', hk'⟩) (List.nodup_cons.mp hnodup).1
    · rcases List.mem_cons.mp h' with rfl | hr'
      · rw [hk'] at hnodup
        exact absurd (List.mem_filterMap.mpr ⟨r, hr, hk⟩) (List.nodup_cons.mp hnodup).1
      · refine ih hr hr' ?_
        split at hnodup
        · exact hnodup
        · exact (List.nodup_cons.mp hnodup).2

/-- A select that no two rows answer gives at most one. -/
theorem length_filterMap_le_one {β : Type} {f : ρ → Option β} {t : Table ρ}
    (h : ∀ x ∈ t.rows, ∀ y ∈ t.rows, (f x).isSome = true → (f y).isSome = true → x = y) :
    (t.rows.filterMap f).length ≤ 1 := by
  have hnodup := t.ids_nodup.of_map
  generalize t.rows = rows at h hnodup
  induction rows with
  | nil => simp
  | cons x xs ih =>
    rw [List.nodup_cons] at hnodup
    cases hx : f x with
    | none =>
      rw [List.filterMap_cons_none hx]
      exact ih (fun y hy z hz => h y (List.mem_cons_of_mem _ hy) z (List.mem_cons_of_mem _ hz)) hnodup.2
    | some b =>
      have hrest : xs.filterMap f = [] := by
        rw [List.filterMap_eq_nil_iff]
        intro y hy
        by_contra hne
        have hxy := h x (List.mem_cons_self ..) y (List.mem_cons_of_mem _ hy) (by simp [hx])
          (Option.isSome_iff_ne_none.mpr hne)
        exact hnodup.1 (hxy ▸ hy)
      rw [List.filterMap_cons_some hx, hrest]
      simp

/-! Update and delete. -/

theorem filterMap_key_change (f : Change ρ) (rows : List ρ) :
    ((rows.map f.apply).filterMap Row.key).Sublist (rows.filterMap Row.key) := by
  induction rows with
  | nil => exact List.Sublist.refl _
  | cons r rs ih =>
    rw [List.map_cons, List.filterMap_cons, List.filterMap_cons]
    rcases f.key_apply r with h | h
    · rw [h]
      cases Row.key r with
      | none => exact ih
      | some k => exact ih.cons_cons k
    · rw [h]
      cases Row.key r with
      | none => exact ih
      | some k => exact ih.cons k

/-- `UPDATE t SET …`, the condition being part of the change. -/
def update (f : Change ρ) (t : Table ρ) : Table ρ where
  rows := t.rows.map f.apply
  ids_nodup := by
    rw [List.map_map]
    have : Row.id ∘ f.apply = Row.id := funext f.id_apply
    rw [this]
    exact t.ids_nodup
  keys_nodup := t.keys_nodup.sublist (filterMap_key_change f t.rows)

/-- `DELETE FROM t WHERE p`. -/
def delete (p : ρ → Bool) (t : Table ρ) : Table ρ where
  rows := t.rows.filter (fun r => !p r)
  ids_nodup := t.ids_nodup.sublist (List.filter_sublist.map _)
  keys_nodup := t.keys_nodup.sublist (List.filter_sublist.filterMap _)

@[simp] theorem rows_update (f : Change ρ) (t : Table ρ) :
    (t.update f).rows = t.rows.map f.apply := rfl

@[simp] theorem rows_delete (p : ρ → Bool) (t : Table ρ) :
    (t.delete p).rows = t.rows.filter (fun r => !p r) := rfl

@[simp] theorem maxId_update (f : Change ρ) (t : Table ρ) : (t.update f).maxId = t.maxId := by
  have hid : Row.id ∘ f.apply = Row.id := funext f.id_apply
  unfold maxId
  rw [rows_update, List.map_map, hid]

theorem mem_delete {p : ρ → Bool} {t : Table ρ} {r : ρ} :
    r ∈ (t.delete p).rows ↔ r ∈ t.rows ∧ p r = false := by
  simp

/-! Insert. -/

section
variable [DecidableEq κ]

/-- Whether a row has the key. -/
def holds (k : Option κ) (t : Table ρ) : Bool :=
  match k with
  | none => false
  | some k => t.rows.any (fun r => Row.key r == some k)

theorem holds_iff {k : Option κ} {t : Table ρ} :
    t.holds k = true ↔ ∃ r ∈ t.rows, ∃ v, k = some v ∧ Row.key r = some v := by
  cases k with
  | none => simp [holds]
  | some v => simp [holds]

/-- The row that has the key. -/
def find? (k : κ) (t : Table ρ) : Option ρ := t.rows.find? (fun r => Row.key r == some k)

theorem find?_of_mem {t : Table ρ} {r : ρ} {k : κ} (h : r ∈ t.rows) (hk : Row.key r = some k) :
    t.find? k = some r := by
  unfold find?
  cases hfind : t.rows.find? (fun r => Row.key r == some k) with
  | none =>
    have := List.find?_eq_none.mp hfind r h
    simp [hk] at this
  | some r' =>
    have hr' : Row.key r' = some k := by simpa using List.find?_some hfind
    rw [eq_of_key_eq (List.mem_of_find?_eq_some hfind) h hr' hk]

theorem find?_eq_some {t : Table ρ} {r : ρ} {k : κ} :
    t.find? k = some r ↔ r ∈ t.rows ∧ Row.key r = some k := by
  constructor
  · intro h
    exact ⟨List.mem_of_find?_eq_some h, by simpa using List.find?_some h⟩
  · rintro ⟨h, hk⟩
    exact find?_of_mem h hk

theorem find?_update {f : Change ρ} (hf : ∀ r, Row.key (f.apply r) = Row.key r) (k : κ)
    (t : Table ρ) : (t.update f).find? k = (t.find? k).map f.apply := by
  show (t.rows.map f.apply).find? _ = _
  rw [List.find?_map]
  unfold find?
  congr 2
  funext r
  simp [hf]

theorem find?_delete (p : ρ → Bool) (k : κ) (t : Table ρ) :
    (t.delete p).find? k = (t.find? k).filter (fun r => !p r) := by
  apply Option.ext
  intro r
  rw [find?_eq_some, mem_delete, Option.filter_eq_some_iff, find?_eq_some]
  constructor
  · rintro ⟨⟨hr, hp⟩, hk⟩
    exact ⟨⟨hr, hk⟩, by simp [hp]⟩
  · rintro ⟨⟨hr, hk⟩, hp⟩
    exact ⟨⟨hr, by simpa using hp⟩, hk⟩

/-- `INSERT INTO t …` of one row; `none` when the unique index refuses it. -/
def insert (n : New ρ) (t : Table ρ) : Option (Table ρ) :=
  if h : t.holds n.key = false then
    some {
      rows := t.rows ++ [n.row t.nextId]
      ids_nodup := by
        rw [List.map_append, List.map_singleton, n.id_row, ← List.concat_eq_append,
          List.nodup_concat]
        refine ⟨?_, t.ids_nodup⟩
        intro hmem
        obtain ⟨r, hr, hid⟩ := List.mem_map.mp hmem
        exact id_ne_nextId hr hid
      keys_nodup := by
        rw [List.filterMap_append]
        cases hkey : n.key with
        | none =>
          have hnew : [n.row t.nextId].filterMap Row.key = [] := by simp [n.key_row, hkey]
          rw [hnew, List.append_nil]
          exact t.keys_nodup
        | some k =>
          have hnew : [n.row t.nextId].filterMap Row.key = [k] := by simp [n.key_row, hkey]
          rw [hnew, ← List.concat_eq_append, List.nodup_concat]
          refine ⟨?_, t.keys_nodup⟩
          intro hmem
          obtain ⟨r, hr, hk⟩ := List.mem_filterMap.mp hmem
          exact Bool.eq_false_iff.mp h (holds_iff.mpr ⟨r, hr, k, hkey, hk⟩) }
  else none

theorem insert_eq_some {n : New ρ} {t t' : Table ρ} (h : t.insert n = some t') :
    t.holds n.key = false ∧ t'.rows = t.rows ++ [n.row t.nextId] := by
  unfold insert at h
  split at h
  · next hfree =>
    cases h
    exact ⟨hfree, rfl⟩
  · cases h

theorem insert_eq_none {n : New ρ} {t : Table ρ} : t.insert n = none ↔ t.holds n.key = true := by
  unfold insert
  split
  · next h => simp [h]
  · next h => simpa using h

/-- `INSERT INTO t … ON CONFLICT DO NOTHING` of one row. -/
def insertOrIgnore (n : New ρ) (t : Table ρ) : Table ρ := (t.insert n).getD t

theorem rows_insertOrIgnore (n : New ρ) (t : Table ρ) :
    (t.insertOrIgnore n).rows =
      if t.holds n.key = true then t.rows else t.rows ++ [n.row t.nextId] := by
  unfold insertOrIgnore
  cases h : t.insert n with
  | none => simp [insert_eq_none.mp h]
  | some t' =>
    obtain ⟨hfree, hrows⟩ := insert_eq_some h
    simp [hfree, hrows]

theorem insertOrIgnore_of_holds {n : New ρ} {t : Table ρ} (h : t.holds n.key = true) :
    t.insertOrIgnore n = t := by
  apply Table.ext
  rw [rows_insertOrIgnore, if_pos h]

theorem holds_mono {t t' : Table ρ} (h : ∀ r ∈ t.rows, r ∈ t'.rows) {k : Option κ}
    (hk : t.holds k = true) : t'.holds k = true := by
  obtain ⟨r, hr, hv⟩ := holds_iff.mp hk
  exact holds_iff.mpr ⟨r, h r hr, hv⟩

theorem subset_insertOrIgnore (n : New ρ) (t : Table ρ) :
    ∀ r ∈ t.rows, r ∈ (t.insertOrIgnore n).rows := by
  intro r hr
  rw [rows_insertOrIgnore]
  split
  · exact hr
  · exact List.mem_append_left _ hr

theorem holds_insertOrIgnore {n : New ρ} {k : κ} (hk : n.key = some k) (t : Table ρ) :
    (t.insertOrIgnore n).holds n.key = true := by
  by_cases h : t.holds n.key = true
  · rw [insertOrIgnore_of_holds h]
    exact h
  · refine holds_iff.mpr ⟨n.row t.nextId, ?_, k, hk, by rw [n.key_row, hk]⟩
    rw [rows_insertOrIgnore, if_neg h]
    simp

/-- `INSERT INTO t SELECT … ON CONFLICT DO NOTHING`. -/
def insertOrIgnoreAll (ns : List (New ρ)) (t : Table ρ) : Table ρ :=
  ns.foldl (fun t n => t.insertOrIgnore n) t

theorem insertOrIgnoreAll_append (ns ns' : List (New ρ)) (t : Table ρ) :
    t.insertOrIgnoreAll (ns ++ ns') = (t.insertOrIgnoreAll ns).insertOrIgnoreAll ns' :=
  List.foldl_append

/-- What ignoring inserts add: rows of the ones made, under rowids above every one before. -/
theorem insertOrIgnoreAll_spec (ns : List (New ρ)) (t : Table ρ) :
    ∃ added, (t.insertOrIgnoreAll ns).rows = t.rows ++ added ∧
      ∀ r ∈ added, t.maxId < Row.id r ∧ ∃ n ∈ ns, r = n.row (Row.id r) := by
  induction ns generalizing t with
  | nil => exact ⟨[], by simp [insertOrIgnoreAll], by simp⟩
  | cons n ns ih =>
    obtain ⟨added, hrows, hadded⟩ := ih (t.insertOrIgnore n)
    by_cases hkey : t.holds n.key = true
    · rw [insertOrIgnore_of_holds hkey] at hrows hadded
      refine ⟨added, ?_, fun r hr => ?_⟩
      · rw [← hrows]
        simp [insertOrIgnoreAll, insertOrIgnore_of_holds hkey]
      · obtain ⟨hid, n', hn', hrow⟩ := hadded r hr
        exact ⟨hid, n', List.mem_cons_of_mem _ hn', hrow⟩
    · have hone : (t.insertOrIgnore n).rows = t.rows ++ [n.row t.nextId] := by
        rw [rows_insertOrIgnore, if_neg hkey]
      have hmax : t.maxId < (t.insertOrIgnore n).maxId := by
        have hlast : Row.id (n.row t.nextId) ≤ (t.insertOrIgnore n).maxId :=
          id_le_maxId (by rw [hone]; simp)
        rw [n.id_row] at hlast
        unfold nextId at hlast
        omega
      refine ⟨n.row t.nextId :: added, ?_, fun r hr => ?_⟩
      · have : t.insertOrIgnoreAll (n :: ns) = (t.insertOrIgnore n).insertOrIgnoreAll ns := rfl
        rw [this, hrows, hone]
        simp
      · rcases List.mem_cons.mp hr with rfl | hr
        · refine ⟨?_, n, List.mem_cons_self, by rw [n.id_row]⟩
          rw [n.id_row]
          unfold nextId
          omega
        · obtain ⟨hid, n', hn', hrow⟩ := hadded r hr
          exact ⟨by omega, n', List.mem_cons_of_mem _ hn', hrow⟩

theorem subset_insertOrIgnoreAll (ns : List (New ρ)) (t : Table ρ) :
    ∀ r ∈ t.rows, r ∈ (t.insertOrIgnoreAll ns).rows := by
  obtain ⟨added, hrows, -⟩ := insertOrIgnoreAll_spec ns t
  intro r hr
  rw [hrows]
  exact List.mem_append_left _ hr

theorem holds_insertOrIgnoreAll {ns : List (New ρ)} {n : New ρ} (hn : n ∈ ns) {k : κ}
    (hk : n.key = some k) (t : Table ρ) : (t.insertOrIgnoreAll ns).holds n.key = true := by
  induction ns generalizing t with
  | nil => cases hn
  | cons n' ns ih =>
    rcases List.mem_cons.mp hn with rfl | hn
    · exact holds_mono (subset_insertOrIgnoreAll ns _) (holds_insertOrIgnore hk t)
    · exact ih hn (t.insertOrIgnore n')

/-- A row the unique index leaves out always goes in. -/
theorem exists_mem_insertOrIgnoreAll {ns : List (New ρ)} {n : New ρ} (hn : n ∈ ns)
    (hk : n.key = none) (t : Table ρ) : ∃ i, n.row i ∈ (t.insertOrIgnoreAll ns).rows := by
  induction ns generalizing t with
  | nil => cases hn
  | cons n' ns ih =>
    rcases List.mem_cons.mp hn with rfl | hn
    · refine ⟨t.nextId, subset_insertOrIgnoreAll ns (t.insertOrIgnore n) _ ?_⟩
      rw [rows_insertOrIgnore, hk]
      simp [holds]
    · exact ih hn (t.insertOrIgnore n')

theorem insertOrIgnoreAll_of_holds {ns : List (New ρ)} {t : Table ρ}
    (h : ∀ n ∈ ns, t.holds n.key = true) : t.insertOrIgnoreAll ns = t := by
  induction ns with
  | nil => rfl
  | cons n ns ih =>
    have hn := insertOrIgnore_of_holds (h n List.mem_cons_self)
    have hns := ih (fun n' hn' => h n' (List.mem_cons_of_mem _ hn'))
    simp only [insertOrIgnoreAll, List.foldl_cons, hn]
    exact hns

/-! Insert or update. -/

/-- A row to insert, and the update a row that has its key takes in its place. -/
structure Upsert (ρ : Type) {κ : Type} [Row ρ κ] where
  new : New ρ
  change : Change ρ
  keeps : ∀ r, Row.key (change.apply r) = Row.key r
  settled_row : ∀ i, change.apply (new.row i) = new.row i
  settled : ∀ r, change.apply (change.apply r) = change.apply r

/-- The update of the row that has the key, and of no other. -/
def Upsert.onKey (u : Upsert ρ) : Change ρ where
  apply r := if Row.key r = u.new.key then u.change.apply r else r
  id_apply r := by
    split
    · exact u.change.id_apply r
    · rfl
  key_apply r := by
    split
    · exact u.change.key_apply r
    · exact Or.inl rfl

/-- `INSERT INTO t … ON CONFLICT DO UPDATE SET …` of one row. -/
def upsert (u : Upsert ρ) (t : Table ρ) : Table ρ :=
  (t.insert u.new).getD (t.update u.onKey)

/-- `INSERT INTO t SELECT … ON CONFLICT DO UPDATE SET …`. -/
def upsertAll (us : List (Upsert ρ)) (t : Table ρ) : Table ρ :=
  us.foldl (fun t u => t.upsert u) t

/-- A row has the key and the upsert would change nothing in it. -/
def Settled (u : Upsert ρ) (t : Table ρ) : Prop :=
  ∃ r ∈ t.rows, ∃ k, u.new.key = some k ∧ Row.key r = some k ∧ u.change.apply r = r

theorem rows_upsert (u : Upsert ρ) (t : Table ρ) :
    (t.upsert u).rows = if t.holds u.new.key = true then t.rows.map u.onKey.apply
      else t.rows ++ [u.new.row t.nextId] := by
  unfold upsert
  cases h : t.insert u.new with
  | none => simp [insert_eq_none.mp h]
  | some t' =>
    obtain ⟨hfree, hrows⟩ := insert_eq_some h
    simp [hfree, hrows]

theorem mem_insertOrIgnore {n : New ρ} {t : Table ρ} {r : ρ} :
    r ∈ (t.insertOrIgnore n).rows ↔
      r ∈ t.rows ∨ (t.holds n.key = false ∧ r = n.row t.nextId) := by
  rw [rows_insertOrIgnore]
  split
  · next h => simp [h]
  · next h => simp [h]

/-- An upserted key finds the row it had, changed, or the new one; another key finds what it
did. -/
theorem find?_upsert {u : Upsert ρ} {k : κ} (hk : u.new.key = some k) (k' : κ) (t : Table ρ) :
    (t.upsert u).find? k' =
      if k' = k then some (((t.find? k).map u.change.apply).getD (u.new.row t.nextId))
      else t.find? k' := by
  have hkeep : ∀ r, Row.key (u.onKey.apply r) = Row.key r := by
    intro r
    show Row.key (if _ then _ else _) = _
    split
    · exact u.keeps r
    · rfl
  cases hins : t.insert u.new with
  | none =>
    obtain ⟨r, hr, v, hv, hrv⟩ := holds_iff.mp (insert_eq_none.mp hins)
    obtain rfl : k = v := Option.some.inj (hk.symm.trans hv)
    have hfind := find?_of_mem hr hrv
    have hup : t.upsert u = t.update u.onKey := by
      unfold upsert
      rw [hins]
      rfl
    rw [hup, find?_update hkeep]
    split
    · next h =>
      rw [h, hfind]
      show some (if _ then _ else _) = _
      rw [if_pos (hrv.trans hk.symm)]
      rfl
    · next h =>
      cases hf : t.find? k' with
      | none => rfl
      | some r' =>
        show some (if _ then _ else _) = _
        rw [if_neg]
        intro he
        rw [(find?_eq_some.mp hf).2, hk] at he
        exact h (Option.some.inj he)
  | some t' =>
    obtain ⟨hfree, hrows⟩ := insert_eq_some hins
    have hup : (t.upsert u) = t' := by
      unfold upsert
      rw [hins]
      rfl
    have hnew : Row.key (u.new.row t.nextId) = some k := (u.new.key_row _).trans hk
    rw [hup]
    split
    · next h =>
      subst h
      have hnone : t.find? k' = none := by
        cases hf : t.find? k' with
        | none => rfl
        | some r =>
          obtain ⟨hr, hrk⟩ := find?_eq_some.mp hf
          rw [holds_iff.mpr ⟨r, hr, k', hk, hrk⟩] at hfree
          cases hfree
      rw [hnone]
      exact find?_of_mem (by rw [hrows]; simp) hnew
    · next h =>
      apply Option.ext
      intro r
      rw [find?_eq_some, find?_eq_some, hrows]
      constructor
      · rintro ⟨hr, hrk⟩
        rcases List.mem_append.mp hr with hr | hr
        · exact ⟨hr, hrk⟩
        · rw [List.mem_singleton.mp hr, hnew] at hrk
          exact absurd (Option.some.inj hrk).symm h
      · rintro ⟨hr, hrk⟩
        exact ⟨List.mem_append_left _ hr, hrk⟩

/-- A row keeps its rowid and its key through upserts. -/
theorem exists_mem_upsertAll (us : List (Upsert ρ)) {t : Table ρ} {r : ρ} (hr : r ∈ t.rows) :
    ∃ r' ∈ (t.upsertAll us).rows, Row.id r' = Row.id r ∧ Row.key r' = Row.key r := by
  induction us generalizing t r with
  | nil => exact ⟨r, hr, rfl, rfl⟩
  | cons u us ih =>
    have hone : ∃ r' ∈ (t.upsert u).rows, Row.id r' = Row.id r ∧ Row.key r' = Row.key r := by
      rw [rows_upsert]
      split
      · refine ⟨u.onKey.apply r, List.mem_map.mpr ⟨r, hr, rfl⟩, u.onKey.id_apply r, ?_⟩
        show Row.key (if Row.key r = u.new.key then u.change.apply r else r) = _
        split
        · exact u.keeps r
        · rfl
      · exact ⟨r, List.mem_append_left _ hr, rfl, rfl⟩
    obtain ⟨r₁, hr₁, hid₁, hkey₁⟩ := hone
    obtain ⟨r', hr', hid', hkey'⟩ := ih hr₁
    exact ⟨r', hr', hid'.trans hid₁, hkey'.trans hkey₁⟩

theorem settled_upsert {u : Upsert ρ} {k : κ} (hk : u.new.key = some k) (t : Table ρ) :
    (t.upsert u).Settled u := by
  by_cases h : t.holds u.new.key = true
  · obtain ⟨r, hr, v, hv, hrv⟩ := holds_iff.mp h
    have hon : u.onKey.apply r = u.change.apply r := if_pos (by rw [hrv, hv])
    refine ⟨u.change.apply r, ?_, v, hv, by rw [u.keeps, hrv], u.settled r⟩
    rw [rows_upsert, if_pos h]
    exact List.mem_map.mpr ⟨r, hr, hon⟩
  · refine ⟨u.new.row t.nextId, ?_, k, hk, by rw [u.new.key_row, hk], u.settled_row _⟩
    rw [rows_upsert, if_neg h]
    simp

/-- An upsert of another key leaves a settled row as it is. -/
theorem Settled.upsert {u u' : Upsert ρ} {t : Table ρ} (h : t.Settled u)
    (hne : u'.new.key ≠ u.new.key) : (t.upsert u').Settled u := by
  obtain ⟨r, hr, k, hk, hrk, hsame⟩ := h
  refine ⟨r, ?_, k, hk, hrk, hsame⟩
  rw [rows_upsert]
  split
  · refine List.mem_map.mpr ⟨r, hr, if_neg ?_⟩
    rw [hrk, ← hk]
    exact fun he => hne he.symm
  · exact List.mem_append_left _ hr

theorem upsert_of_settled {u : Upsert ρ} {t : Table ρ} (h : t.Settled u) : t.upsert u = t := by
  obtain ⟨r, hr, k, hk, hrk, hsame⟩ := h
  apply Table.ext
  rw [rows_upsert, if_pos (holds_iff.mpr ⟨r, hr, k, hk, hrk⟩)]
  refine (List.map_congr_left fun r' hr' => ?_).trans (List.map_id _)
  show (if Row.key r' = u.new.key then u.change.apply r' else r') = r'
  split
  · next he => rw [eq_of_key_eq hr' hr (he.trans hk) hrk, hsame]
  · rfl

theorem Settled.upsertAll {us : List (Upsert ρ)} {u : Upsert ρ} {t : Table ρ} (h : t.Settled u)
    (hne : ∀ u' ∈ us, u'.new.key ≠ u.new.key) : (t.upsertAll us).Settled u := by
  induction us generalizing t with
  | nil => exact h
  | cons u' us ih =>
    exact ih (h.upsert (hne u' List.mem_cons_self))
      (fun v hv => hne v (List.mem_cons_of_mem _ hv))

theorem settled_upsertAll {us : List (Upsert ρ)} (hkeys : ∀ u ∈ us, ∃ k, u.new.key = some k)
    (hnodup : (us.map (fun u => u.new.key)).Nodup) (t : Table ρ) :
    ∀ u ∈ us, (t.upsertAll us).Settled u := by
  induction us generalizing t with
  | nil => simp
  | cons u us ih =>
    rw [List.map_cons, List.nodup_cons] at hnodup
    intro v hv
    rcases List.mem_cons.mp hv with rfl | hv
    · obtain ⟨k, hk⟩ := hkeys v List.mem_cons_self
      refine Settled.upsertAll (t := t.upsert v) (settled_upsert hk t) fun u' hu' he => ?_
      exact hnodup.1 (List.mem_map.mpr ⟨u', hu', he⟩)
    · exact ih (fun u' hu' => hkeys u' (List.mem_cons_of_mem _ hu')) hnodup.2 _ v hv

theorem upsertAll_of_settled {us : List (Upsert ρ)} {t : Table ρ}
    (h : ∀ u ∈ us, t.Settled u) : t.upsertAll us = t := by
  induction us with
  | nil => rfl
  | cons u us ih =>
    have hu := upsert_of_settled (h u List.mem_cons_self)
    have hus := ih (fun v hv => h v (List.mem_cons_of_mem _ hv))
    simp only [upsertAll, List.foldl_cons, hu]
    exact hus

end

end Table

end SqlTable
