import Slung.Lib.Bloom
import Slung.Lib.LwwMap
import Slung.Lib.Machine
import Slung.Types

/-!
# Slung.Memory.ColumnTable — the column store (`memory/table.zig`)

Rows are appended column by column, then indexed by their key, then counted.  An insert that fails behind its
first append leaves values that no row has, and every later row lies beside its number.  `aligned_iff` says when
the columns hold the rows that were inserted.  A function that allocates takes the allocation that fails.
-/

namespace Slung

open Slung.Lib

namespace ColumnTable

structure Row where
  key : Bytes
  values : List Value
deriving DecidableEq, Repr

structure Column where
  name : Bytes
  data : List Value
deriving DecidableEq, Repr

inductive Err where
  | outOfMemory
  | columnCountMismatch
  | columnNotFound
  | emptyColumn
  | invalidColumnId
  | invalidRange
  | rowOutOfBounds
  /-- an index of the source that is not checked -/
  | indexOutOfBounds
deriving DecidableEq, Repr

/-- The allocations of `insert`. -/
inductive InsertAlloc where
  | value (column : ℕ) | append (column : ℕ) | key | indexRow
deriving DecidableEq, Repr

/-- The allocations of `get`. -/
inductive GetAlloc where
  | values | value (column : ℕ) | key
deriving DecidableEq, Repr

/-- Does duplicating the value allocate? -/
def allocates : Value → Bool
  | .bytes b => b ≠ []
  | _ => false

/-- Where the loop of `insert` fails. -/
def FailsAt (fault : Option InsertAlloc) (column : ℕ) (value : Value) : Prop :=
  fault = some (.value column) ∧ allocates value ∨ fault = some (.append column)

instance (fault : Option InsertAlloc) (column : ℕ) (value : Value) : Decidable (FailsAt fault column value) :=
  inferInstanceAs (Decidable (_ ∨ _))

def Column.push (col : Column) (value : Value) : Column := { col with data := col.data ++ [value] }

/-- The loop of `insert`: append a value to each column, and say whether it came to its end. -/
def appendAll (fault : Option InsertAlloc) : ℕ → List Column → List Value → List Column × Bool
  | i, col :: columns, value :: values =>
    if FailsAt fault i value then (col :: columns, false)
    else
      let (columns, done) := appendAll fault (i + 1) columns values
      (col.push value :: columns, done)
  | _, columns, _ => (columns, true)

/-- The loop of `get`: duplicate the value of each column. -/
def copyRow (fault : Option GetAlloc) (rowId : ℕ) : ℕ → List Column → Except Err (List Value)
  | _, [] => .ok []
  | i, col :: columns =>
    match col.data[rowId]? with
    | none => .error .indexOutOfBounds
    | some v =>
      if fault = some (.value i) ∧ allocates v then .error .outOfMemory
      else (v :: ·) <$> copyRow fault rowId (i + 1) columns

end ColumnTable

/-- The columns, with an index of their names, and an index of the keys behind a filter that knows them all. -/
structure ColumnTable (hash : Bytes → ℕ) where
  numRows : ℕ
  columns : List ColumnTable.Column
  bloom : Bloom 4096
  indexRow : FMap Bytes ℕ
  indexColumn : FMap Bytes ℕ
  indexed : ∀ key, (indexRow.lookup key).isSome → bloom.contains hash key = true

namespace ColumnTable

variable {hash : Bytes → ℕ}

def init (columnNames : List Bytes) : ColumnTable hash where
  numRows := 0
  columns := columnNames.map fun name => ⟨name, []⟩
  bloom := Bloom.init
  indexRow := ∅
  indexColumn := columnNames.zipIdx.foldl (fun index p => index.insert p.1 p.2) ∅
  indexed := fun key h => absurd h (by simp)

def clear (self : ColumnTable hash) : ColumnTable hash :=
  { self with
    columns := self.columns.map fun col => { col with data := [] }
    bloom := self.bloom.reset
    indexRow := ∅
    numRows := 0
    indexed := by simp }

/-- The key is known to the filter, whatever follows. -/
def note (self : ColumnTable hash) (key : Bytes) : ColumnTable hash :=
  { self with
    bloom := self.bloom.insert hash key
    indexed := fun key' h => Bloom.contains_insert hash (self.indexed key' h) key }

/-- The row is indexed by its key and counted. -/
def putRow (self : ColumnTable hash) (key : Bytes) (h : self.bloom.contains hash key = true) : ColumnTable hash :=
  { self with
    indexRow := self.indexRow.insert key self.numRows
    numRows := self.numRows + 1
    indexed := by
      intro key' h'
      rw [FMap.lookup_insert_eq] at h'
      by_cases heq : key' = key
      · exact heq ▸ h
      · rw [if_neg heq] at h'
        exact self.indexed key' h' }

/-- `getOrPut` needs room only for a key that is not there. -/
def insert (fault : Option InsertAlloc) (self : ColumnTable hash) (row : Row) : ColumnTable hash × Except Err Unit :=
  if row.values.length ≠ self.columns.length then (self, .error .columnCountMismatch)
  else
    let (columns, done) := appendAll fault 0 self.columns row.values
    let stored : ColumnTable hash := { self.note row.key with columns := columns }
    if ¬ done then (stored, .error .outOfMemory)
    else if fault = some .key ∧ row.key ≠ [] then (stored, .error .outOfMemory)
    else if fault = some .indexRow ∧ self.indexRow.lookup row.key = none then (stored, .error .outOfMemory)
    else (stored.putRow row.key (Bloom.contains_insert_self hash self.bloom row.key), .ok ())

def get (fault : Option GetAlloc) (self : ColumnTable hash) (key : Bytes) : Except Err (Option Row) :=
  if ¬ self.bloom.contains hash key then .ok none
  else match self.indexRow.lookup key with
    | none => .ok none
    | some rowId =>
      if fault = some .values ∧ self.columns ≠ [] then .error .outOfMemory
      else do
        let values ← copyRow fault rowId 0 self.columns
        if fault = some .key ∧ key ≠ [] then .error .outOfMemory else .ok (some ⟨key, values⟩)

/-! ### Reads of columns -/

def getColumnRangeById (self : ColumnTable hash) (columnId startRow endRow : ℕ) : Except Err (List Value) :=
  match self.columns[columnId]? with
  | none => .error .invalidColumnId
  | some col =>
    if endRow ≥ self.numRows then .error .rowOutOfBounds
    else if startRow > endRow then .error .invalidRange
    else if endRow + 1 ≤ col.data.length then .ok ((col.data.drop startRow).take (endRow + 1 - startRow))
    else .error .indexOutOfBounds

def getLatest (self : ColumnTable hash) (columnName : Bytes) : Except Err Value :=
  match self.indexColumn.lookup columnName with
  | none => .error .columnNotFound
  | some colId =>
    match self.columns[colId]? with
    | none => .error .indexOutOfBounds
    | some col =>
      match col.data.getLast? with
      | none => .error .emptyColumn
      | some v => .ok v

def getByRow (self : ColumnTable hash) (columnName : Bytes) (row : ℕ) : Except Err Value :=
  if row ≥ self.numRows then .error .rowOutOfBounds
  else match self.indexColumn.lookup columnName with
    | none => .error .columnNotFound
    | some colId =>
      match self.columns[colId]?.bind (·.data[row]?) with
      | none => .error .indexOutOfBounds
      | some v => .ok v

/-! ## What an insert does -/

section Insert

variable {fault : Option InsertAlloc} {columns : List Column} {values : List Value}

theorem appendAll_done_iff (i : ℕ) (h : values.length = columns.length) :
    (appendAll fault i columns values).2 = true ↔
      ∀ (j : ℕ) (v : Value), values[j]? = some v → ¬ FailsAt fault (i + j) v := by
  induction columns generalizing i values with
  | nil =>
    obtain rfl := List.eq_nil_of_length_eq_zero h
    exact iff_of_true rfl fun j v hv => absurd hv (by simp)
  | cons col columns ih =>
    cases values with
    | nil => cases h
    | cons value values =>
      unfold appendAll
      by_cases hfails : FailsAt fault i value
      · rw [if_pos hfails]
        exact iff_of_false Bool.false_ne_true fun hall => hall 0 value rfl hfails
      · rw [if_neg hfails]
        refine (ih (i + 1) (Nat.succ.inj h)).trans ⟨fun hall j v hv => ?_, fun hall j v hv => ?_⟩
        · cases j with
          | zero =>
            obtain rfl := Option.some.inj hv
            exact hfails
          | succ j =>
            rw [Nat.add_comm j 1, ← Nat.add_assoc]
            exact hall j v hv
        · rw [Nat.add_assoc, Nat.add_comm 1 j]
          exact hall (j + 1) v hv

/-- A loop that comes to its end has appended every value. -/
theorem appendAll_done {i : ℕ} (h : values.length = columns.length)
    (hdone : (appendAll fault i columns values).2 = true) :
    (appendAll fault i columns values).1 = columns.zipWith Column.push values := by
  induction columns generalizing i values with
  | nil => rw [List.zipWith_nil_left]; cases values <;> rfl
  | cons col columns ih =>
    cases values with
    | nil => cases h
    | cons value values =>
      unfold appendAll at hdone ⊢
      by_cases hfails : FailsAt fault i value
      · rw [if_pos hfails] at hdone
        cases hdone
      · rw [if_neg hfails] at hdone ⊢
        exact congrArg (col.push value :: ·) (ih (Nat.succ.inj h) hdone)

/-- Behind the first column, the first column has one value more. -/
theorem appendAll_head {i : ℕ} {col : Column} {value : Value} (hfirst : ¬ FailsAt fault i value) :
    ∃ columns', (appendAll fault i (col :: columns) (value :: values)).1 = col.push value :: columns' := by
  unfold appendAll
  rw [if_neg hfirst]
  exact ⟨_, rfl⟩

theorem appendAll_first {i : ℕ} {value : Value} (hfirst : FailsAt fault i value) (hvalue : values[0]? = some value) :
    (appendAll fault i columns values).1 = columns := by
  cases values with
  | nil => cases hvalue
  | cons v values =>
    obtain rfl := Option.some.inj hvalue
    cases columns with
    | nil => rfl
    | cons col columns =>
      unfold appendAll
      rw [if_pos hfirst]

end Insert

variable {fault : Option InsertAlloc} {self : ColumnTable hash} {row : Row}

/-- No allocation of the insert fails. -/
def Completes (fault : Option InsertAlloc) (self : ColumnTable hash) (row : Row) : Prop :=
  (∀ (j : ℕ) (v : Value), row.values[j]? = some v → ¬ FailsAt fault j v) ∧
    ¬ (fault = some .key ∧ row.key ≠ []) ∧ ¬ (fault = some .indexRow ∧ self.indexRow.lookup row.key = none)

theorem insert_ok (h : row.values.length = self.columns.length) (hall : Completes fault self row) :
    insert fault self row =
      ({ self.note row.key with columns := self.columns.zipWith Column.push row.values }.putRow row.key
        (Bloom.contains_insert_self hash self.bloom row.key), .ok ()) := by
  obtain ⟨hvalues, hkey, hindex⟩ := hall
  have hdone : (appendAll fault 0 self.columns row.values).2 = true := by
    rw [appendAll_done_iff 0 h]
    simpa using hvalues
  unfold insert
  rw [if_neg (not_not_intro h)]
  simp only [hdone, appendAll_done h hdone]
  rw [if_neg (not_not_intro trivial), if_neg hkey, if_neg hindex]

/-- What an insert that fails leaves. -/
theorem insert_error (h : row.values.length = self.columns.length) (hno : ¬ Completes fault self row) :
    insert fault self row =
      ({ self.note row.key with columns := (appendAll fault 0 self.columns row.values).1 },
        .error .outOfMemory) := by
  unfold insert
  rw [if_neg (not_not_intro h)]
  dsimp only
  by_cases hdone : (appendAll fault 0 self.columns row.values).2 = true
  · rw [if_neg (not_not_intro hdone)]
    by_cases hkey : fault = some .key ∧ row.key ≠ []
    · rw [if_pos hkey]
    rw [if_neg hkey]
    by_cases hindex : fault = some .indexRow ∧ self.indexRow.lookup row.key = none
    · rw [if_pos hindex]
    refine absurd ⟨?_, hkey, hindex⟩ hno
    rw [appendAll_done_iff 0 h] at hdone
    simpa using hdone
  · rw [if_pos hdone]

/-! ## Runs -/

inductive Call where
  | insert (fault : Option InsertAlloc) (row : Row)
  | clear
deriving DecidableEq, Repr

/-- A table with the rows whose insert succeeded since the last `clear`. -/
structure Tracked (hash : Bytes → ℕ) where
  table : ColumnTable hash
  rows : List Row

namespace Tracked

def start (columnNames : List Bytes) : Tracked hash := ⟨init columnNames, []⟩

def step (s : Tracked hash) : Call → Tracked hash
  | .insert fault row =>
    match s.table.insert fault row with
    | (table, .ok _) => ⟨table, s.rows ++ [row]⟩
    | (table, .error _) => ⟨table, s.rows⟩
  | .clear => ⟨s.table.clear, []⟩

variable {s : Tracked hash} {fault : Option InsertAlloc} {row : Row} {table : ColumnTable hash}

theorem step_ok (h : s.table.insert fault row = (table, .ok ())) :
    s.step (.insert fault row) = ⟨table, s.rows ++ [row]⟩ := by
  simp only [step, h]

theorem step_error {e : Err} (h : s.table.insert fault row = (table, .error e)) :
    s.step (.insert fault row) = ⟨table, s.rows⟩ := by
  simp only [step, h]

end Tracked

/-- The last row with a key. -/
def latest (rows : List Row) (key : Bytes) : Option Row := rows.reverse.find? fun row => row.key == key

/-- Every column holds the rows, one value for each, and a key is found with its last row. -/
structure Aligned (s : Tracked hash) : Prop where
  count : ∀ col ∈ s.table.columns, col.data.length = s.table.numRows
  rows : ∀ (j : ℕ) (col : Column), s.table.columns[j]? = some col →
    ∀ i : ℕ, col.data[i]? = s.rows[i]?.bind (·.values[j]?)
  get : ∀ key, s.table.get none key = .ok (latest s.rows key)

/-- The insert does not fail, or it fails before it appends: there is no column, the row does not fit the columns,
or the first column fails. -/
def Fits (s : Tracked hash) : Call → Prop
  | .insert fault row => row.values.length ≠ s.table.columns.length ∨ s.table.columns = [] ∨
      (∃ v, row.values[0]? = some v ∧ FailsAt fault 0 v) ∨ Completes fault s.table row
  | .clear => True

/-- What aligned tables keep. -/
structure Inv (s : Tracked hash) : Prop where
  numRows : s.table.numRows = s.rows.length
  width : ∀ row ∈ s.rows, row.values.length = s.table.columns.length
  data : ∀ (j : ℕ) (col : Column), s.table.columns[j]? = some col → col.data.map some = s.rows.map (·.values[j]?)
  found : ∀ key id, s.table.indexRow.lookup key = some id →
    ∃ row, s.rows[id]? = some row ∧ latest s.rows key = some row
  absent : ∀ key, s.table.indexRow.lookup key = none → latest s.rows key = none

theorem latest_append (rows : List Row) (row : Row) (key : Bytes) :
    latest (rows ++ [row]) key = if row.key = key then some row else latest rows key := by
  unfold latest
  rw [List.reverse_append, List.reverse_singleton, List.singleton_append]
  by_cases h : row.key = key
  · rw [List.find?_cons_of_pos (by simpa using h), if_pos h]
  · rw [List.find?_cons_of_neg (by simpa using h), if_neg h]

theorem copyRow_eq {rowId i : ℕ} {columns : List Column} {values : List Value}
    (hlength : values.length = columns.length)
    (h : ∀ (j : ℕ) (col : Column), columns[j]? = some col → col.data[rowId]? = values[j]?) :
    copyRow none rowId i columns = .ok values := by
  induction columns generalizing values i with
  | nil =>
    obtain rfl := List.eq_nil_of_length_eq_zero hlength
    rfl
  | cons col columns ih =>
    cases values with
    | nil => cases hlength
    | cons value values =>
      have hvalue : col.data[rowId]? = some value := h 0 col rfl
      unfold copyRow
      rw [hvalue]
      dsimp only
      rw [if_neg fun hfault => Option.some_ne_none _ hfault.1.symm,
        ih (Nat.succ.inj hlength) fun j col' hj => h (j + 1) col' hj]
      rfl

namespace Inv

variable {s : Tracked hash} (h : Inv s)

include h

theorem getElem? {j : ℕ} {col : Column} (hcol : s.table.columns[j]? = some col) (i : ℕ) :
    col.data[i]? = s.rows[i]?.bind (·.values[j]?) := by
  have hdata := congrArg (·[i]?) (h.data j col hcol)
  simp only [List.getElem?_map] at hdata
  cases hrow : s.rows[i]? with
  | none =>
    rw [hrow, Option.map_none, Option.map_eq_none_iff] at hdata
    exact hdata
  | some row =>
    rw [hrow, Option.map_some] at hdata
    obtain ⟨v, hv, heq⟩ := Option.map_eq_some_iff.mp hdata
    rw [hv]
    exact heq

/-- **What the invariant says of the table.** -/
theorem aligned : Aligned s where
  count col hcol := by
    obtain ⟨j, hj⟩ := List.mem_iff_getElem?.mp hcol
    have hlength := congrArg List.length (h.data j col hj)
    rw [List.length_map, List.length_map] at hlength
    rw [hlength, h.numRows]
  rows j col hcol := h.getElem? hcol
  get key := by
    unfold get
    cases hlookup : s.table.indexRow.lookup key with
    | none =>
      rw [h.absent key hlookup]
      split_ifs <;> rfl
    | some id =>
      have hbloom : s.table.bloom.contains hash key = true := s.table.indexed key (by rw [hlookup]; rfl)
      obtain ⟨row, hrow, hlatest⟩ := h.found key id hlookup
      have hkey : row.key = key := by simpa using List.find?_some hlatest
      have hcopy : copyRow none id 0 s.table.columns = .ok row.values := by
        refine copyRow_eq (h.width row (List.mem_of_getElem? hrow)) fun j col hcol => ?_
        rw [h.getElem? hcol, hrow]
        rfl
      rw [if_neg (not_not_intro hbloom), hlatest]
      dsimp only
      rw [if_neg fun hfault => Option.some_ne_none _ hfault.1.symm, hcopy]
      rw [← hkey]
      rfl

/-- Tables that differ in their filters only. -/
theorem of_eq {table : ColumnTable hash} (hrows : table.numRows = s.table.numRows)
    (hcolumns : table.columns = s.table.columns) (hindex : table.indexRow = s.table.indexRow) :
    Inv ⟨table, s.rows⟩ where
  numRows := hrows.trans h.numRows
  width row hrow := by
    rw [hcolumns]
    exact h.width row hrow
  data j col hcol := by
    rw [hcolumns] at hcol
    exact h.data j col hcol
  found key id hid := by
    rw [hindex] at hid
    exact h.found key id hid
  absent key hkey := by
    rw [hindex] at hkey
    exact h.absent key hkey

/-- **An insert that completes.** -/
theorem insert {row : Row} (hlength : row.values.length = s.table.columns.length) :
    Inv (⟨{ s.table.note row.key with columns := s.table.columns.zipWith Column.push row.values }.putRow row.key
      (Bloom.contains_insert_self hash s.table.bloom row.key), s.rows ++ [row]⟩ : Tracked hash) where
  numRows := by
    rw [List.length_append, List.length_singleton, ← h.numRows]
    rfl
  width row' hrow' := by
    show row'.values.length = (s.table.columns.zipWith Column.push row.values).length
    rw [List.length_zipWith, hlength, Nat.min_self]
    rcases List.mem_append.mp hrow' with hold | hnew
    · exact h.width row' hold
    · rw [List.mem_singleton.mp hnew, hlength]
  data j col hcol := by
    obtain ⟨col', v, hcol', hv, rfl⟩ := List.getElem?_zipWith_eq_some.mp hcol
    show (col'.data ++ [v]).map some = _
    rw [List.map_append, List.map_append, h.data j col' hcol']
    exact congrArg (s.rows.map (·.values[j]?) ++ ·) (congrArg (fun x => [x]) hv.symm)
  found key id hid := by
    have hid : (s.table.indexRow.insert row.key s.table.numRows).lookup key = some id := hid
    rw [FMap.lookup_insert_eq] at hid
    rw [latest_append]
    by_cases hkey : key = row.key
    · rw [if_pos hkey, h.numRows] at hid
      obtain rfl := Option.some.inj hid
      rw [if_pos hkey.symm]
      exact ⟨row, List.getElem?_concat_length, rfl⟩
    · rw [if_neg hkey] at hid
      rw [if_neg (Ne.symm hkey)]
      obtain ⟨row', hrow', hlatest⟩ := h.found key id hid
      exact ⟨row', (List.getElem?_append_left (List.getElem?_eq_some_iff.mp hrow').1).trans hrow', hlatest⟩
  absent key hnone := by
    have hnone : (s.table.indexRow.insert row.key s.table.numRows).lookup key = none := hnone
    rw [FMap.lookup_insert_eq] at hnone
    by_cases hkey : key = row.key
    · rw [if_pos hkey] at hnone
      cases hnone
    · rw [if_neg hkey] at hnone
      rw [latest_append, if_neg (Ne.symm hkey)]
      exact h.absent key hnone

omit h in
theorem of_no_rows {table : ColumnTable hash} (hrows : table.numRows = 0) (hindex : table.indexRow = ∅)
    (hdata : ∀ (j : ℕ) (col : Column), table.columns[j]? = some col → col.data = []) :
    Inv ⟨table, []⟩ where
  numRows := hrows
  width row hrow := absurd hrow List.not_mem_nil
  data j col hcol := by
    rw [hdata j col hcol]
    rfl
  found key id hid := by
    rw [hindex] at hid
    exact absurd hid (by simp)
  absent key _ := rfl

omit h in
theorem clear (table : ColumnTable hash) : Inv (⟨table.clear, []⟩ : Tracked hash) := by
  refine of_no_rows rfl rfl fun j col hcol => ?_
  obtain ⟨col', -, rfl⟩ := Option.map_eq_some_iff.mp (List.getElem?_map.symm.trans hcol)
  rfl

omit h in
theorem start (columnNames : List Bytes) : Inv (Tracked.start columnNames : Tracked hash) := by
  refine of_no_rows rfl rfl fun j col hcol => ?_
  obtain ⟨name, -, rfl⟩ := Option.map_eq_some_iff.mp (List.getElem?_map.symm.trans hcol)
  rfl

/-- A call that fits keeps the invariant. -/
theorem step_of_fits {call : Call} (hfits : Fits s call) : Inv (s.step call) := by
  cases call with
  | clear => exact clear s.table
  | insert fault row =>
    by_cases hlength : row.values.length = s.table.columns.length
    case neg =>
      rw [Tracked.step_error (if_pos hlength)]
      exact h
    by_cases hall : Completes fault s.table row
    · rw [Tracked.step_ok (insert_ok hlength hall)]
      exact h.insert hlength
    · rw [Tracked.step_error (insert_error hlength hall)]
      refine h.of_eq rfl ?_ rfl
      rcases hfits with hmismatch | hnone | ⟨v, hv, hfirst⟩ | hcompletes
      · exact absurd hlength hmismatch
      · show (appendAll fault 0 s.table.columns row.values).1 = s.table.columns
        rw [hnone] at hlength ⊢
        rw [List.eq_nil_of_length_eq_zero hlength]
        rfl
      · exact appendAll_first hfirst hv
      · exact absurd hcompletes hall

/-- **A call that does not fit leaves a column that is longer than the table.** -/
theorem not_aligned_step {call : Call} (hno : ¬ Fits s call) : ¬ Aligned (s.step call) := by
  cases call with
  | clear => exact absurd trivial hno
  | insert fault row =>
    simp only [Fits, not_or, not_not, not_exists, not_and] at hno
    obtain ⟨hlength, hcolumns, hfirst, hall⟩ := hno
    obtain ⟨col, columns, heq⟩ := List.exists_cons_of_ne_nil hcolumns
    obtain ⟨value, values, hvalues⟩ : ∃ value values, row.values = value :: values := by
      refine List.exists_cons_of_ne_nil fun hnil => ?_
      rw [hnil, heq] at hlength
      cases hlength
    have hnotfirst : ¬ FailsAt fault 0 value := hfirst value (by rw [hvalues]; rfl)
    obtain ⟨columns', hhead⟩ : ∃ columns', (appendAll fault 0 s.table.columns row.values).1 =
        col.push value :: columns' := by
      rw [heq, hvalues]
      exact appendAll_head hnotfirst
    rw [Tracked.step_error (insert_error hlength hall)]
    intro haligned
    have hlonger := haligned.count (col.push value) (by
      show _ ∈ (appendAll fault 0 s.table.columns row.values).1
      rw [hhead]
      exact List.mem_cons_self)
    have hcount := h.aligned.count col (by rw [heq]; exact List.mem_cons_self)
    have hpush : (col.push value).data.length = col.data.length + 1 := List.length_append
    rw [hpush, hcount] at hlonger
    exact absurd hlonger (Nat.succ_ne_self s.table.numRows)

end Inv

/-- **When rows stay aligned.**  For any columns and any calls: after each call every column holds one value of
each row that was inserted since the last `clear`, and every key is found with its last row, iff every insert
that fails has not appended anything. -/
theorem aligned_iff (hash : Bytes → ℕ) (columnNames : List Bytes) (calls : List Call) :
    (∀ before after, calls = before ++ after →
      Aligned (before.foldl Tracked.step (Tracked.start columnNames : Tracked hash))) ↔
    ∀ before call after, calls = before ++ call :: after →
      Fits (before.foldl Tracked.step (Tracked.start columnNames : Tracked hash)) call :=
  forall_foldl_iff Inv Aligned Fits (Inv.start columnNames) (fun _ h => h.aligned)
    (fun _ _ h => h.step_of_fits) (fun _ _ h => h.not_aligned_step) calls

/-- The second of two appends fails, and the value of the first stays. -/
theorem not_aligned : ¬ ∀ (hash : Bytes → ℕ) (columnNames : List Bytes) (calls : List Call), ∀ before after,
    calls = before ++ after → Aligned (before.foldl Tracked.step (Tracked.start columnNames : Tracked hash)) := by
  intro h
  have haligned := h (fun _ => 0) [[97], [98]] [.insert (some (.append 1)) ⟨[107], [.int 1, .int 2]⟩]
    [.insert (some (.append 1)) ⟨[107], [.int 1, .int 2]⟩] [] rfl
  exact absurd (haligned.count ⟨[97], [.int 1]⟩ List.mem_cons_self) (by decide)

/-! ## Reads -/

theorem copyRow_fault (fault : Option GetAlloc) (rowId i : ℕ) (columns : List Column) :
    copyRow fault rowId i columns = copyRow none rowId i columns ∨
      copyRow fault rowId i columns = .error .outOfMemory := by
  induction columns generalizing i with
  | nil => exact Or.inl rfl
  | cons col columns ih =>
    unfold copyRow
    cases col.data[rowId]? with
    | none => exact Or.inl rfl
    | some v =>
      by_cases hfault : fault = some (.value i) ∧ allocates v
      · exact Or.inr (if_pos hfault)
      · rcases ih (i + 1) with hsame | hfails
        · refine Or.inl ?_
          simp [hfault, hsame]
        · refine Or.inr ?_
          simp only [if_neg hfault, hfails]
          rfl

/-- A failing allocation of `get` is the only thing that changes its result. -/
theorem get_fault (fault : Option GetAlloc) (self : ColumnTable hash) (key : Bytes) :
    self.get fault key = self.get none key ∨ self.get fault key = .error .outOfMemory := by
  unfold get
  by_cases hbloom : ¬ self.bloom.contains hash key = true
  · exact Or.inl (by rw [if_pos hbloom, if_pos hbloom])
  rw [if_neg hbloom, if_neg hbloom]
  cases self.indexRow.lookup key with
  | none => exact Or.inl rfl
  | some rowId =>
    by_cases hvalues : fault = some .values ∧ self.columns ≠ []
    · exact Or.inr (if_pos hvalues)
    rcases copyRow_fault fault rowId 0 self.columns with hsame | hfails
    · by_cases hkey : fault = some .key ∧ key ≠ []
      · simp only [if_neg hvalues, hsame, if_pos hkey]
        cases hcopy : copyRow none rowId 0 self.columns with
        | error e => exact Or.inl (by simp [bind, Except.bind])
        | ok values => exact Or.inr rfl
      · refine Or.inl ?_
        simp [hvalues, hsame, hkey]
    · refine Or.inr ?_
      simp only [if_neg hvalues, hfails]
      rfl

section Aligned

variable {s : Tracked hash} (h : Aligned s) {columnName : Bytes} {j : ℕ} {col : Column}

include h

theorem Aligned.getByRow (hid : s.table.indexColumn.lookup columnName = some j) (hcol : s.table.columns[j]? = some col)
    {row : ℕ} (hrow : row < s.table.numRows) :
    ∃ v, s.table.getByRow columnName row = .ok v ∧ s.rows[row]?.bind (·.values[j]?) = some v := by
  have hlt : row < col.data.length := by
    rw [h.count col (List.mem_of_getElem? hcol)]
    exact hrow
  refine ⟨col.data[row], ?_, ?_⟩
  · unfold ColumnTable.getByRow
    rw [if_neg (Nat.not_le.mpr hrow), hid]
    dsimp only
    rw [hcol, Option.bind_some, List.getElem?_eq_getElem hlt]
  · rw [← h.rows j col hcol row, List.getElem?_eq_getElem hlt]

theorem Aligned.getLatest (hid : s.table.indexColumn.lookup columnName = some j)
    (hcol : s.table.columns[j]? = some col) (hrows : s.table.numRows ≠ 0) :
    ∃ v, s.table.getLatest columnName = .ok v ∧
      s.rows[s.table.numRows - 1]?.bind (·.values[j]?) = some v := by
  have hlength := h.count col (List.mem_of_getElem? hcol)
  have hlt : s.table.numRows - 1 < col.data.length := by omega
  refine ⟨col.data[s.table.numRows - 1], ?_, ?_⟩
  · unfold ColumnTable.getLatest
    rw [hid]
    dsimp only
    rw [hcol]
    dsimp only
    rw [List.getLast?_eq_getElem?, hlength, List.getElem?_eq_getElem hlt]
  · rw [← h.rows j col hcol, List.getElem?_eq_getElem hlt]

theorem Aligned.getColumnRangeById (hcol : s.table.columns[j]? = some col) {startRow endRow : ℕ}
    (hend : endRow < s.table.numRows) (hstart : startRow ≤ endRow) :
    ∃ values, s.table.getColumnRangeById j startRow endRow = .ok values ∧ values.length = endRow + 1 - startRow ∧
      ∀ i, startRow + i ≤ endRow → values[i]? = s.rows[startRow + i]?.bind (·.values[j]?) := by
  have hlength := h.count col (List.mem_of_getElem? hcol)
  refine ⟨(col.data.drop startRow).take (endRow + 1 - startRow), ?_, ?_, fun i hi => ?_⟩
  · unfold ColumnTable.getColumnRangeById
    rw [hcol]
    dsimp only
    rw [if_neg (Nat.not_le.mpr hend), if_neg (Nat.not_lt.mpr hstart), if_pos (by omega)]
  · rw [List.length_take, List.length_drop]
    omega
  · rw [List.getElem?_take_of_lt (by omega), List.getElem?_drop, h.rows j col hcol]

end Aligned

end ColumnTable

end Slung
