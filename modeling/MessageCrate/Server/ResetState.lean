import MessageCrate.Lib.SqlQuote
import MessageCrate.Lib.Utf8Text
import MessageCrate.Lib.Like
import MessageCrate.Lib.Text

/- What a reset compares of two databases (`reset_demo.rs`).

   A prepared database is installed over the active one only if it has changed nothing outside
   the Demo Account. For that the rows of every table that are not the Demo Account's are read
   as one text each, put in order and hashed, and the digests of the two databases are compared
   table by table.

   Correspondence (Rust ↔ Lean):
     `verify_non_demo_state_preserved`   ↔ `verifyNonDemoStatePreserved`
     `non_demo_state_on_conn`            ↔ `comparedTables`, `nonDemoState`, `tableDigest`
     `row_owner`                         ↔ `rowOwner`
     its `SELECT .. FROM .. WHERE ..`    ↔ `selection`
     `table_columns`                     ↔ `Database.tableColumns`
   A foreign key of several columns is a row of `pragma_foreign_key_list` for each of them.

   What SQLite's comparisons call equal depends on declared types and collations: it is the
   parameter `Comparing`. `sha256` is the hash in hexadecimal.

   Left out: the context that errors are wrapped in, and the texts of SQLite's own. -/
namespace MessageCrate.ResetDemo
open SqlQuote (RealText)

/-- The value of a column. -/
abbrev Cell (R : Type) := SqlQuote.Value R

structure Column where
  name : String
  /-- Its type and collation, as declared. -/
  declared : String
  notNull : Bool
  deriving DecidableEq

/-- A row of `pragma_foreign_key_list`. -/
structure ForeignKey where
  parent : String
  seq : Nat
  fromColumn : String
  /-- `none` where the primary key of `parent` is meant. -/
  toColumn : Option String
  deriving DecidableEq

structure Table (R : Type) where
  name : String
  sql : Option String
  columns : List Column
  primaryKey : List String
  foreignKeys : List ForeignKey
  rows : List (List (Cell R))
  columns_ne : columns ≠ []
  width : ∀ row ∈ rows, row.length = columns.length

/-- The tables of `sqlite_master`, by name. -/
structure Database (R : Type) where
  tables : List (Table R)
  sorted : tables.Pairwise (fun t t' => t.name < t'.name)

/-- What SQLite calls equal, of values that are not NULL. -/
structure Comparing (R : Type) where
  isInteger : Column → Cell R → Int → Bool
  keysMatch : Column → Column → Cell R → Cell R → Bool

inductive Failure where
  | bail (message : String)
  | sqlite
  deriving DecidableEq

variable {R : Type} (reals : RealText R) (cmp : Comparing R) (sha256 : List UInt8 → String)

/-- SQLite's names are the same in either case of an ASCII letter. -/
def sameName (a b : String) : Bool := Text.toAsciiLower a == Text.toAsciiLower b

def Table.columnNames (t : Table R) : List String := t.columns.map Column.name

/-- The place of a column that a statement names. -/
def Table.find (t : Table R) (name : String) : Option Nat :=
  t.columns.findIdx? (fun column => sameName column.name name)

def Table.column (t : Table R) (i : Nat) : Column := t.columns.getD i ⟨"", "", false⟩

def Database.find (db : Database R) (name : String) : Option (Table R) :=
  db.tables.find? (fun t => sameName t.name name)

/-- `pragma_table_info` knows nothing of a table that is not there. -/
def Database.tableColumns (db : Database R) (name : String) : List String :=
  ((db.find name).map Table.columnNames).getD []

def Database.hasAccountsTable (db : Database R) : Bool := db.tables.any (·.name == "accounts")

/-! The tables. -/

/-- `name NOT LIKE 'sqlite\_%' ESCAPE '\'`. -/
def Database.listed (db : Database R) : List (Table R) :=
  db.tables.filter (fun t => !Like.likeMatches '\\' "sqlite\\_%".toList t.name.toList)

def Table.isVirtual (t : Table R) : Bool :=
  "CREATE VIRTUAL TABLE".toList.isPrefixOf
    (((t.sql.getD "").toList.dropWhile Text.isWhitespace).map Char.toUpper)

def Database.virtualTables (db : Database R) : List String :=
  (db.listed.filter Table.isVirtual).map Table.name

/-- `UNCOMPARED_TABLES`. -/
def uncomparedTables : List String := ["demo_account_build"]

/-- A virtual table, or one that holds the data of a virtual table. -/
def isIndex (virtualTables : List String) (table : String) : Bool :=
  virtualTables.any (fun vt => table == vt || (vt ++ "_").toList.isPrefixOf table.toList)

def Database.comparedTables (db : Database R) : List (Table R) :=
  db.listed.filter
    (fun t => !(isIndex db.virtualTables t.name || uncomparedTables.contains t.name))

/-! Whose a row is. -/

/-- `JOIN parent p ON p.toColumn = t.fromColumn`. -/
structure Join where
  parent : String
  toColumn : String
  fromColumn : String
  deriving DecidableEq

/-- Where the account of a row stands: in a column of the table that is joined, or else of the
    row itself. -/
structure RowOwner where
  join : Option Join
  account : String
  deriving DecidableEq

/-- The keys whose column is `NOT NULL`, by the key's number. -/
def Table.notNullKeys (t : Table R) : List ForeignKey :=
  t.foreignKeys.filter
    (fun key => t.columns.any (fun column => column.name == key.fromColumn && column.notNull))

def ForeignKey.join (key : ForeignKey) : Join :=
  ⟨key.parent, key.toColumn.getD "", key.fromColumn⟩

/-- The row read as three texts: a NULL is none. -/
def ForeignKey.decode (key : ForeignKey) : Except Failure Join :=
  if key.toColumn.isSome then .ok key.join else .error .sqlite

/-- The first key to a table with an `account_id`. -/
def owningKey (db : Database R) (keys : List Join) : Option Join :=
  keys.find? (fun key => (db.tableColumns key.parent).any (· == "account_id"))

/-- What `row_owner` tells from the keys. -/
def ownerByKeys (db : Database R) (t : Table R) (keys : List Join) :
    Except Failure (Option RowOwner) :=
  match owningKey db keys with
  | some key => .ok (some ⟨some key, "account_id"⟩)
  | none =>
    if t.foreignKeys.length > 0 then
      .error (.bail ("cannot tell which account a row of " ++ t.name ++ " belongs to"))
    else .ok none

/-- `row_owner`. -/
def rowOwner (db : Database R) (t : Table R) : Except Failure (Option RowOwner) :=
  if t.name = "accounts" then .ok (some ⟨none, "id"⟩)
  else if t.columnNames.any (· == "account_id") then .ok (some ⟨none, "account_id"⟩)
  else do
    let keys ← t.notNullKeys.mapM ForeignKey.decode
    ownerByKeys db t keys

/-! The rows. -/

/-- `column != $1`; a NULL is neither equal nor different. -/
def differs (column : Column) (v : Cell R) (demo : Int) : Bool :=
  match v with
  | .null => false
  | v => !cmp.isInteger column v demo

/-- `p.parentColumn = t.column`. -/
def matchesKey (parentColumn column : Column) (v w : Cell R) : Bool :=
  match v, w with
  | .null, _ => false
  | _, .null => false
  | v, w => cmp.keysMatch parentColumn column v w

/-- The rows whose value at `i` is another account than `demo`. -/
def ofOthers (t : Table R) (i : Nat) (demo : Int) : List (List (Cell R)) :=
  t.rows.filter (fun row => differs cmp (t.column i) (row.getD i .null) demo)

/-- The rows of the parent `p` that a row of `t` points at. -/
def parents (t p : Table R) (fromPlace toPlace : Nat) (row : List (Cell R)) :
    List (List (Cell R)) → List (List (Cell R)) :=
  List.filter (fun parent =>
    matchesKey cmp (p.column toPlace) (t.column fromPlace) (parent.getD toPlace .null)
      (row.getD fromPlace .null))

/-- Each row of `t`, once for every row of another account that it points at. -/
def joinedToOthers (t p : Table R) (fromPlace toPlace account : Nat) (demo : Int) :
    List (List (Cell R)) :=
  t.rows.flatMap (fun row =>
    (parents cmp t p fromPlace toPlace row (ofOthers cmp p account demo)).map (fun _ => row))

/-- A name in a statement: SQLite knows it or the statement fails. -/
def resolve {α : Type} : Option α → Except Failure α
  | some a => .ok a
  | none => .error .sqlite

/-- The rows that the statement selects. -/
def selection (db : Database R) (demo : Int) (t : Table R) :
    Option RowOwner → Except Failure (List (List (Cell R)))
  | none => .ok t.rows
  | some ⟨none, account⟩ => do
    let i ← resolve (t.find account)
    return ofOthers cmp t i demo
  | some ⟨some key, account⟩ => do
    let p ← resolve (db.find key.parent)
    let fromPlace ← resolve (t.find key.fromColumn)
    let toPlace ← resolve (p.find key.toColumn)
    let i ← resolve (p.find account)
    return joinedToOthers cmp t p fromPlace toPlace i demo

/-- The rows of `t` that a reset must leave as they were. -/
def nonDemoRows (db : Database R) (demo : Int) (t : Table R) :
    Except Failure (List (List (Cell R))) := do
  let owner ← rowOwner db t
  selection cmp db demo t owner

/-! The digests. -/

structure TableDigest where
  rows : Nat
  sha256 : String
  deriving DecidableEq

/-- The texts of rows, `ORDER BY 1`. -/
def rowTexts (rows : List (List (Cell R))) : List (List Char) :=
  (rows.map (SqlQuote.rowText reals)).insertionSort (· ≤ ·)

/-- What is hashed: every row's text and a newline. -/
def hashed (rows : List (List (Cell R))) : List UInt8 :=
  (rowTexts reals rows).flatMap (fun row => Utf8.encode row ++ Utf8.encode ['\n'])

def digestOf (rows : List (List (Cell R))) : TableDigest :=
  ⟨(rowTexts reals rows).length, sha256 (hashed reals rows)⟩

def tableDigest (db : Database R) (demo : Int) (t : Table R) :
    Except Failure (String × TableDigest) := do
  let rows ← nonDemoRows cmp db demo t
  return (t.name, digestOf reals sha256 rows)

/-- `non_demo_state_on_conn`. -/
def nonDemoState (db : Database R) (demo : Int) : Except Failure (List (String × TableDigest)) :=
  db.comparedTables.mapM (tableDigest reals cmp sha256 db demo)

/-! The comparison. -/

def rowsOf (state : List (String × TableDigest)) (table : String) : String :=
  match state.lookup table with
  | some digest => digest.rows.repr
  | none => "no table"

/-- The tables of either state whose digests are not the same. -/
def changedTables (active prepared : List (String × TableDigest)) : List String :=
  (Text.sortedSet (active.map Prod.fst ++ prepared.map Prod.fst)).filter
    (fun table => active.lookup table ≠ prepared.lookup table)

def describeChange (active prepared : List (String × TableDigest)) (table : String) : String :=
  table ++ " (active rows=" ++ rowsOf active table ++ ", prepared rows=" ++ rowsOf prepared table ++
    ")"

/-- The reset is refused over the tables that changed. -/
def compareStates (active prepared : List (String × TableDigest)) : Except Failure Unit :=
  let changed := changedTables active prepared
  if changed.isEmpty then .ok ()
  else .error (.bail ("prepared reset database changed rows outside the Demo Account in: " ++
    ", ".intercalate (changed.map (describeChange active prepared))))

/-- `verify_non_demo_state_preserved`; there may be no file of an active database. -/
def verifyNonDemoStatePreserved (active : Option (Database R)) (prepared : Database R)
    (demo : Int) : Except Failure Unit :=
  match active with
  | none => .ok ()
  | some active =>
    if !active.hasAccountsTable then .ok ()
    else do
      let activeState ← nonDemoState reals cmp sha256 active demo
      let preparedState ← nonDemoState reals cmp sha256 prepared demo
      compareStates activeState preparedState

end MessageCrate.ResetDemo
