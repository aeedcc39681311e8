import Mathlib.Data.List.Pairwise

/-!
# `Lib.Table` — tables with constraints

A table keeps rows that meet its `CHECK` constraints, no two of which share a key. Both facts are fields of `Table`,
so a table that breaks a constraint cannot be built, and a statement that would break one fails instead.

`insert?` and `update?` are the statements as they succeed or fail; `insert` also says why it fails, with the checks
of the row itself before its keys, and `insertAll` inserts rows one after the other. The lemmas say when a statement
succeeds (`insert_ok_iff`, `insertAll_ok_iff`, `update?_of_keeps`), and what its rows are then.
-/

/-- The constraints of a table: what a row meets by itself, and which two rows differ in every key. -/
structure Schema (ρ : Type) where
  check : ρ → Bool
  distinct : ρ → ρ → Bool
  distinct_comm : ∀ r r', distinct r r' = distinct r' r

structure Table {ρ : Type} (schema : Schema ρ) where
  rows : List ρ
  checked : ∀ r ∈ rows, schema.check r = true
  unique : rows.Pairwise fun r r' => schema.distinct r r' = true

namespace Table

variable {ρ : Type} {schema : Schema ρ}

def empty : Table schema := ⟨[], by simp, .nil⟩

/-- The table with these rows, if they meet the constraints. -/
def ofRows? (rows : List ρ) : Option (Table schema) :=
  if h : (∀ r ∈ rows, schema.check r = true) ∧ rows.Pairwise fun r r' => schema.distinct r r' = true then
    some ⟨rows, h.1, h.2⟩
  else none

/-- `INSERT INTO`. -/
def insert? (t : Table schema) (r : ρ) : Option (Table schema) := ofRows? (t.rows ++ [r])

/-- Why an insert fails. -/
inductive Violation where
  | check
  | unique
deriving DecidableEq, Repr

/-- `INSERT INTO`, with the reason when it fails: the row is checked by itself first, and then against the keys
    in the table. -/
def insert (t : Table schema) (r : ρ) : Except Violation (Table schema) :=
  if hcheck : schema.check r = true then
    if hunique : ∀ r' ∈ t.rows, schema.distinct r' r = true then
      .ok {
        rows := t.rows ++ [r]
        checked := by
          intro r' hr'
          rcases List.mem_append.mp hr' with hr' | hr'
          · exact t.checked r' hr'
          · rw [List.mem_singleton.mp hr']
            exact hcheck
        unique := by
          refine List.pairwise_append.mpr ⟨t.unique, List.pairwise_singleton _ r, ?_⟩
          intro r' hr' r'' hr''
          rw [List.mem_singleton.mp hr'']
          exact hunique r' hr' }
    else .error .unique
  else .error .check

/-- Insert rows one after the other; the first that fails ends it. -/
def insertAll (t : Table schema) : List ρ → Except Violation (Table schema)
  | [] => .ok t
  | r :: rs =>
      match t.insert r with
      | .error v => .error v
      | .ok t => insertAll t rs

/-- `UPDATE … SET … WHERE`. -/
def update? (t : Table schema) (matching : ρ → Bool) (set : ρ → ρ) : Option (Table schema) :=
  ofRows? (t.rows.map fun r => if matching r then set r else r)

@[simp] theorem rows_empty : (empty : Table schema).rows = [] := rfl

@[ext] theorem ext {t t' : Table schema} (h : t.rows = t'.rows) : t = t' := by
  cases t
  cases t'
  obtain rfl := h
  rfl

theorem rows_of_ofRows? {rows : List ρ} {t : Table schema} (h : ofRows? rows = some t) : t.rows = rows := by
  unfold ofRows? at h
  split at h
  · obtain rfl := Option.some.inj h
    rfl
  · cases h

/-- Rows that meet the constraints make a table. -/
theorem ofRows?_of_constraints {rows : List ρ} (hcheck : ∀ r ∈ rows, schema.check r = true)
    (hunique : rows.Pairwise fun r r' => schema.distinct r r' = true) :
    ∃ t : Table schema, ofRows? rows = some t ∧ t.rows = rows :=
  ⟨⟨rows, hcheck, hunique⟩, dif_pos ⟨hcheck, hunique⟩, rfl⟩

theorem rows_of_insert? {t t' : Table schema} {r : ρ} (h : t.insert? r = some t') :
    t'.rows = t.rows ++ [r] := rows_of_ofRows? h

/-- Two rows that share a key are one row. -/
theorem eq_of_not_distinct (t : Table schema) {r r' : ρ} (hr : r ∈ t.rows) (hr' : r' ∈ t.rows)
    (h : schema.distinct r r' = false) : r = r' := by
  by_contra hne
  have hsymm : Std.Symm fun r r' => schema.distinct r r' = true :=
    ⟨fun a b hab => (schema.distinct_comm b a).trans hab⟩
  have hdistinct : schema.distinct r r' = true := t.unique.forall hr hr' hne
  rw [h] at hdistinct
  cases hdistinct

/-- An update that touches no key and no checked column cannot fail. -/
theorem update?_of_keeps (t : Table schema) (matching : ρ → Bool) (set : ρ → ρ)
    (hcheck : ∀ r, schema.check r = true → schema.check (set r) = true)
    (hkeys : ∀ r r', schema.distinct (set r) r' = schema.distinct r r') :
    ∃ t', t.update? matching set = some t' ∧ t'.rows = t.rows.map fun r => if matching r then set r else r := by
  have hdistinct : ∀ r r', schema.distinct (if matching r then set r else r)
      (if matching r' then set r' else r') = schema.distinct r r' := by
    intro r r'
    split
    · split
      · rw [hkeys, schema.distinct_comm, hkeys, schema.distinct_comm]
      · rw [hkeys]
    · split
      · rw [schema.distinct_comm, hkeys, schema.distinct_comm]
      · rfl
  apply ofRows?_of_constraints
  · intro r hr
    obtain ⟨r₀, hr₀, rfl⟩ := List.mem_map.mp hr
    split
    · exact hcheck r₀ (t.checked r₀ hr₀)
    · exact t.checked r₀ hr₀
  · rw [List.pairwise_map]
    exact t.unique.imp fun {r r'} h => (hdistinct r r').trans h

/-- The one row of a query whose rows are all the same. -/
theorem head?_eq_some_iff {α : Type} {rows : List α} (h : ∀ r ∈ rows, ∀ r' ∈ rows, r = r') {r : α} :
    rows.head? = some r ↔ r ∈ rows := by
  constructor
  · exact List.mem_of_head?
  · intro hr
    cases rows with
    | nil => cases hr
    | cons r' rows => rw [h r hr r' List.mem_cons_self, List.head?_cons]

/-! ## Inserting one row after the other -/

theorem insert_ok {t t' : Table schema} {r : ρ} (h : t.insert r = .ok t') :
    t'.rows = t.rows ++ [r] ∧ schema.check r = true ∧ ∀ r' ∈ t.rows, schema.distinct r' r = true := by
  unfold insert at h
  split at h
  next hcheck =>
    split at h
    next hunique =>
      obtain rfl := Except.ok.inj h
      exact ⟨rfl, hcheck, hunique⟩
    next => cases h
  next => cases h

/-- An insert succeeds if and only if the constraints allow the row. -/
theorem insert_ok_iff {t : Table schema} {r : ρ} :
    (∃ t', t.insert r = .ok t') ↔ schema.check r = true ∧ ∀ r' ∈ t.rows, schema.distinct r' r = true := by
  constructor
  · rintro ⟨t', h⟩
    exact (insert_ok h).2
  · rintro ⟨hcheck, hunique⟩
    unfold insert
    rw [dif_pos hcheck, dif_pos hunique]
    exact ⟨_, rfl⟩

/-- A row that meets the checks fails on a key or not at all. -/
theorem insert_error {t : Table schema} {r : ρ} (hcheck : schema.check r = true) {v : Violation}
    (h : t.insert r = .error v) : v = .unique := by
  unfold insert at h
  rw [dif_pos hcheck] at h
  split at h
  next => cases h
  next =>
    cases h
    rfl

/-- Rows that went in stand behind those that were there. -/
theorem insertAll_ok {t t' : Table schema} {rs : List ρ} (h : t.insertAll rs = .ok t') :
    t'.rows = t.rows ++ rs := by
  induction rs generalizing t with
  | nil =>
      cases h
      exact (List.append_nil _).symm
  | cons r rs ih =>
      unfold insertAll at h
      split at h
      next => cases h
      next t₁ hinsert =>
        rw [ih h, (insert_ok hinsert).1, List.append_assoc]
        rfl

/-- **Rows go in one after the other** if and only if the constraints allow them all together. -/
theorem insertAll_ok_iff {t : Table schema} {rs : List ρ} :
    (∃ t', t.insertAll rs = .ok t')
      ↔ (∀ r ∈ rs, schema.check r = true) ∧ (t.rows ++ rs).Pairwise fun r r' => schema.distinct r r' = true := by
  constructor
  · rintro ⟨t', h⟩
    have hrows := insertAll_ok h
    refine ⟨?_, hrows ▸ t'.unique⟩
    intro r hr
    exact t'.checked r (hrows ▸ List.mem_append_right _ hr)
  · induction rs generalizing t with
    | nil => exact fun _ => ⟨t, rfl⟩
    | cons r rs ih =>
        rintro ⟨hcheck, hunique⟩
        obtain ⟨hhead, hcheck⟩ := List.forall_mem_cons.mp hcheck
        have hnew : ∀ r' ∈ t.rows, schema.distinct r' r = true := fun r' hr' =>
          (List.pairwise_append.mp hunique).2.2 r' hr' r List.mem_cons_self
        obtain ⟨t₁, hinsert⟩ := insert_ok_iff.mpr ⟨hhead, hnew⟩
        have hrows : t₁.rows ++ rs = t.rows ++ r :: rs := by
          rw [(insert_ok hinsert).1, List.append_assoc]
          rfl
        unfold insertAll
        rw [hinsert]
        exact ih ⟨hcheck, hrows ▸ hunique⟩

end Table
