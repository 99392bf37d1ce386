import MessageCrate.Server.ResetState
import MessageCrate.Lib.Aligned

/- What a reset that is accepted has left as it was.

   `Kept` says which rows of a table a reset must leave alone: those of an account other than the
   Demo Account, by `account_id` or through the first `NOT NULL` foreign key to a table with one,
   all rows of a table that belongs to no account, and the rows that belong to no account of a
   table whose other rows do: their `account_id` is NULL. Of these last the comparison reads none,
   since a NULL is not different from the Demo Account's id.

   What is proved:
     1. `nonDemoRows_eq_ok`: the others are the rows that are compared, where the keys say which
        column of their parent they mean (`KeysNamed`).
     2. `digestOf_eq_iff`: two digests are the same exactly when the rows are, in any order, but
        for what a text holds past a NUL: `quote` leaves that out.
     3. `verify_eq_ok_iff`: so a reset is accepted exactly when the compared rows are the same up
        to the first NULs.
     4. `perm_iff_toNul`: rows that are the same up to the first NULs are the same when those that
        hold a NUL are. `verify_iff_preserved_iff`: so a reset is judged right just where the keys
        are named when, and only when, the rows that the comparison cannot tell apart are the same:
        those with a NUL and those of no account. `verify_of_plain`: so it is where there are none.
     5. `changed_past_a_nul`: a change of each kind that is not seen.

   Assumed: of what is hashed here, nothing else has the same SHA-256 (`NoCollision`). -/
namespace MessageCrate.ResetDemo
open SqlQuote (RealText)

variable {R : Type} {reals : RealText R} {cmp : Comparing R} {sha256 : List UInt8 → String}
  {db A B : Database R} {t t' p : Table R} {demo : Int} {rows rows' : List (List (Cell R))}

/-! Which rows are kept. -/

/-- The column of the parent that a key means. -/
def ForeignKey.pointsAt (key : ForeignKey) (p : Table R) : Option Nat :=
  match key.toColumn with
  | some name => p.find name
  | none => p.primaryKey[key.seq]?.bind p.find

/-- The rows of `t` belong to accounts by no column of their own. -/
def Table.Unowned (t : Table R) : Prop := t.name ≠ "accounts" ∧ "account_id" ∉ t.columnNames

/-- The first `NOT NULL` key to a table with an `account_id`. -/
def Database.firstKey (db : Database R) (t : Table R) : Option ForeignKey :=
  t.notNullKeys.find? (fun key => (db.tableColumns key.parent).any (· == "account_id"))

def isNull : Cell R → Bool
  | .null => true
  | _ => false

/-- The rows whose value at `i` is no account. -/
def ofNone (t : Table R) (i : Nat) : List (List (Cell R)) :=
  t.rows.filter (fun row => isNull (row.getD i .null))

/-- The rows of `t` that point at no row of an account. -/
def joinedToNone (cmp : Comparing R) (t p : Table R) (fromPlace toPlace account : Nat) :
    List (List (Cell R)) :=
  t.rows.filter (fun row => (parents cmp t p fromPlace toPlace row p.rows).all
    (fun parent => isNull (parent.getD account .null)))

/-- The rows of a table that a reset must leave as they were. -/
structure KeptRows (R : Type) where
  /-- Those of other accounts, or of a table that belongs to no account. -/
  compared : List (List (Cell R))
  /-- Those of no account, of a table whose other rows belong to accounts. -/
  strays : List (List (Cell R))

/-- The rows of `t` that a reset must leave as they were. -/
inductive Kept (cmp : Comparing R) (db : Database R) (demo : Int) (t : Table R) :
    KeptRows R → Prop
  | accounts {i : Nat} (hname : t.name = "accounts") (hid : t.find "id" = some i) :
      Kept cmp db demo t ⟨ofOthers cmp t i demo, ofNone t i⟩
  | accountId {i : Nat} (hname : t.name ≠ "accounts") (hcolumn : "account_id" ∈ t.columnNames)
      (hid : t.find "account_id" = some i) :
      Kept cmp db demo t ⟨ofOthers cmp t i demo, ofNone t i⟩
  | throughKey {key : ForeignKey} {p : Table R} {fromPlace toPlace i : Nat} (hown : t.Unowned)
      (hkey : db.firstKey t = some key)
      (hparent : db.find key.parent = some p) (hfrom : t.find key.fromColumn = some fromPlace)
      (hto : key.pointsAt p = some toPlace) (hid : p.find "account_id" = some i) :
      Kept cmp db demo t ⟨joinedToOthers cmp t p fromPlace toPlace i demo,
        joinedToNone cmp t p fromPlace toPlace i⟩
  | noAccount (hown : t.Unowned) (hkeys : t.foreignKeys = []) : Kept cmp db demo t ⟨t.rows, []⟩

/-- The keys that may say whose a row is name the columns they point at. -/
def Table.KeysNamed (t : Table R) : Prop :=
  t.Unowned → ∀ key ∈ t.notNullKeys, key.toColumn.isSome = true

theorem mem_ofOthers {i : Nat} {row : List (Cell R)} : row ∈ ofOthers cmp t i demo ↔
    row ∈ t.rows ∧ differs cmp (t.column i) (row.getD i .null) demo = true := List.mem_filter

/-- A row is joined when it points at a row of another account. -/
theorem mem_joinedToOthers {fromPlace toPlace i : Nat} {row : List (Cell R)} :
    row ∈ joinedToOthers cmp t p fromPlace toPlace i demo ↔
      row ∈ t.rows ∧
        parents cmp t p fromPlace toPlace row (ofOthers cmp p i demo) ≠ [] := by
  rw [joinedToOthers, List.mem_flatMap]
  constructor
  · rintro ⟨r, hr, hrow⟩
    obtain ⟨parent, hparent, rfl⟩ := List.mem_map.mp hrow
    exact ⟨hr, List.ne_nil_of_mem hparent⟩
  · rintro ⟨hr, hne⟩
    obtain ⟨parent, hparent⟩ := List.exists_mem_of_ne_nil _ hne
    exact ⟨row, hr, List.mem_map.mpr ⟨parent, hparent, rfl⟩⟩

/-- **Where a key points at one row at most**, as a parent key does, each row of the table is
    kept once or not at all. -/
theorem joinedToOthers_eq_filter {fromPlace toPlace i : Nat}
    (hunique : ∀ row ∈ t.rows, (parents cmp t p fromPlace toPlace row p.rows).length ≤ 1) :
    joinedToOthers cmp t p fromPlace toPlace i demo = t.rows.filter
      (fun row => !(parents cmp t p fromPlace toPlace row (ofOthers cmp p i demo)).isEmpty) := by
  refine Aligned.flatMap_map_self fun row hrow => ?_
  -- The rows of other accounts are among the rows that the key points at.
  have hsub : (parents cmp t p fromPlace toPlace row (ofOthers cmp p i demo)).Sublist
      (parents cmp t p fromPlace toPlace row p.rows) := List.filter_sublist.filter _
  exact hsub.length_le.trans (hunique row hrow)

/-- What must be left of a table is settled. -/
theorem Kept.unique {kept kept' : KeptRows R} (h : Kept cmp db demo t kept)
    (h' : Kept cmp db demo t kept') : kept = kept' := by
  cases h with
  | accounts hname hid =>
    cases h' with
    | accounts _ hid' =>
      obtain rfl := Option.some.inj (hid.symm.trans hid')
      rfl
    | accountId hname' => exact absurd hname hname'
    | throughKey hown' => exact absurd hname hown'.1
    | noAccount hown' => exact absurd hname hown'.1
  | accountId hname hcolumn hid =>
    cases h' with
    | accounts hname' => exact absurd hname' hname
    | accountId _ _ hid' =>
      obtain rfl := Option.some.inj (hid.symm.trans hid')
      rfl
    | throughKey hown' => exact absurd hcolumn hown'.2
    | noAccount hown' => exact absurd hcolumn hown'.2
  | throughKey hown hkey hparent hfrom hto hid =>
    cases h' with
    | accounts hname' => exact absurd hname' hown.1
    | accountId _ hcolumn' => exact absurd hcolumn' hown.2
    | throughKey _ hkey' hparent' hfrom' hto' hid' =>
      obtain rfl := Option.some.inj (hkey.symm.trans hkey')
      obtain rfl := Option.some.inj (hparent.symm.trans hparent')
      obtain rfl := Option.some.inj (hfrom.symm.trans hfrom')
      obtain rfl := Option.some.inj (hto.symm.trans hto')
      obtain rfl := Option.some.inj (hid.symm.trans hid')
      rfl
    | noAccount _ hkeys' =>
      rw [Database.firstKey, Table.notNullKeys, hkeys'] at hkey
      cases hkey
  | noAccount hown hkeys =>
    cases h' with
    | accounts hname' => exact absurd hname' hown.1
    | accountId _ hcolumn' => exact absurd hcolumn' hown.2
    | throughKey _ hkey' =>
      rw [Database.firstKey, Table.notNullKeys, hkeys] at hkey'
      cases hkey'
    | noAccount => rfl

theorem Kept.subset {kept : KeptRows R} (h : Kept cmp db demo t kept) :
    ∀ row ∈ kept.compared, row ∈ t.rows := by
  intro row hrow
  cases h with
  | accounts hname hid => exact (mem_ofOthers.mp hrow).1
  | accountId hname hcolumn hid => exact (mem_ofOthers.mp hrow).1
  | throughKey hown hkey hparent hfrom hto hid => exact (mem_joinedToOthers.mp hrow).1
  | noAccount hown hkeys => exact hrow

/-! The rows that are compared. -/

theorem mapM_decode {keys : List ForeignKey} {joins : List Join} :
    keys.mapM ForeignKey.decode = .ok joins ↔
      (∀ key ∈ keys, key.toColumn.isSome = true) ∧ joins = keys.map ForeignKey.join := by
  rw [Aligned.mapM_eq_ok]
  induction keys generalizing joins with
  | nil =>
    rw [List.forall₂_nil_left_iff]
    exact ⟨fun h => ⟨fun key hkey => absurd hkey List.not_mem_nil, h⟩, fun h => h.2⟩
  | cons key keys ih =>
    rw [List.forall₂_cons_left_iff, List.forall_mem_cons, List.map_cons]
    constructor
    · rintro ⟨join, rest, hkey, hrest, rfl⟩
      rw [ForeignKey.decode] at hkey
      split at hkey
      · next hsome =>
        obtain rfl := Except.ok.inj hkey
        obtain ⟨hall, rfl⟩ := ih.mp hrest
        exact ⟨⟨hsome, hall⟩, rfl⟩
      · cases hkey
    · rintro ⟨⟨hsome, hall⟩, rfl⟩
      exact ⟨key.join, keys.map ForeignKey.join, if_pos hsome, ih.mpr ⟨hall, rfl⟩, rfl⟩

theorem owningKey_join (db : Database R) (keys : List ForeignKey) :
    owningKey db (keys.map ForeignKey.join) =
      (keys.find? (fun key => (db.tableColumns key.parent).any (· == "account_id"))).map
        ForeignKey.join := List.find?_map

theorem any_account_id : t.columnNames.any (· == "account_id") = true ↔
    "account_id" ∈ t.columnNames := by
  rw [List.any_beq']
  exact List.contains_iff_mem

/-! Whose the rows of a table are. -/

theorem rowOwner_unowned (hown : t.Unowned) : rowOwner db t = (do
    let keys ← t.notNullKeys.mapM ForeignKey.decode
    ownerByKeys db t keys) := by
  rw [rowOwner, if_neg hown.1, if_neg fun h => hown.2 (any_account_id.mp h)]

theorem rowOwner_named (hown : t.Unowned)
    (hnamed : ∀ key ∈ t.notNullKeys, key.toColumn.isSome = true) :
    rowOwner db t = ownerByKeys db t (t.notNullKeys.map ForeignKey.join) := by
  rw [rowOwner_unowned hown, mapM_decode.mpr ⟨hnamed, rfl⟩]
  rfl

/-- A key that names no column is an error. -/
theorem named_of_rowOwner {owner : Option RowOwner} (h : rowOwner db t = .ok owner) :
    t.KeysNamed := by
  intro hown
  rw [rowOwner_unowned hown] at h
  cases hkeys : t.notNullKeys.mapM ForeignKey.decode with
  | ok joins => exact (mapM_decode.mp hkeys).1
  | error e =>
    rw [hkeys] at h
    cases h

theorem ownerByKeys_some {key : ForeignKey} (hkey : db.firstKey t = some key) :
    ownerByKeys db t (t.notNullKeys.map ForeignKey.join) =
      .ok (some ⟨some key.join, "account_id"⟩) := by
  rw [ownerByKeys, owningKey_join, ← Database.firstKey, hkey]
  rfl

theorem ownerByKeys_none (hkey : db.firstKey t = none) {owner : Option RowOwner} :
    ownerByKeys db t (t.notNullKeys.map ForeignKey.join) = .ok owner ↔
      t.foreignKeys = [] ∧ owner = none := by
  rw [ownerByKeys, owningKey_join, ← Database.firstKey, hkey]
  show (if t.foreignKeys.length > 0 then _ else _) = _ ↔ _
  split
  · next hpos =>
    constructor
    · intro h
      cases h
    · rintro ⟨hnil, -⟩
      rw [hnil] at hpos
      exact absurd hpos (Nat.lt_irrefl 0)
  · next hpos =>
    have hnil : t.foreignKeys = [] := List.length_eq_zero_iff.mp (by omega)
    exact ⟨fun h => ⟨hnil, (Except.ok.inj h).symm⟩, fun h => congrArg Except.ok h.2.symm⟩

/-! The rows that are selected. -/

theorem resolve_eq_ok {α : Type} {x : Option α} {a : α} : resolve x = .ok a ↔ x = some a := by
  cases x with
  | none =>
    constructor
    · intro h
      cases h
    · intro h
      cases h
  | some b => exact ⟨fun h => congrArg some (Except.ok.inj h), fun h => congrArg Except.ok
      (Option.some.inj h)⟩

theorem selection_own {account : String} :
    selection cmp db demo t (some ⟨none, account⟩) = .ok rows ↔
      ∃ i, t.find account = some i ∧ rows = ofOthers cmp t i demo := by
  rw [selection, Aligned.bind_eq_ok]
  apply exists_congr
  intro i
  rw [resolve_eq_ok]
  exact and_congr_right fun _ => ⟨fun h => (Except.ok.inj h).symm, fun h => congrArg Except.ok h.symm⟩

theorem selection_joined {key : Join} {account : String} :
    selection cmp db demo t (some ⟨some key, account⟩) = .ok rows ↔
      ∃ p fromPlace toPlace i, db.find key.parent = some p ∧
        t.find key.fromColumn = some fromPlace ∧ p.find key.toColumn = some toPlace ∧
        p.find account = some i ∧ rows = joinedToOthers cmp t p fromPlace toPlace i demo := by
  rw [selection]
  constructor
  · intro h
    obtain ⟨p, hp, h⟩ := Aligned.bind_eq_ok.mp h
    obtain ⟨fromPlace, hfrom, h⟩ := Aligned.bind_eq_ok.mp h
    obtain ⟨toPlace, hto, h⟩ := Aligned.bind_eq_ok.mp h
    obtain ⟨i, hi, h⟩ := Aligned.bind_eq_ok.mp h
    exact ⟨p, fromPlace, toPlace, i, resolve_eq_ok.mp hp, resolve_eq_ok.mp hfrom,
      resolve_eq_ok.mp hto, resolve_eq_ok.mp hi, (Except.ok.inj h).symm⟩
  · rintro ⟨p, fromPlace, toPlace, i, hp, hfrom, hto, hi, rfl⟩
    apply Aligned.bind_eq_ok.mpr
    refine ⟨p, resolve_eq_ok.mpr hp, Aligned.bind_eq_ok.mpr ⟨fromPlace, resolve_eq_ok.mpr hfrom, ?_⟩⟩
    refine Aligned.bind_eq_ok.mpr ⟨toPlace, resolve_eq_ok.mpr hto, ?_⟩
    exact Aligned.bind_eq_ok.mpr ⟨i, resolve_eq_ok.mpr hi, rfl⟩

theorem pointsAt_named {key : ForeignKey} (hnamed : key.toColumn.isSome = true) :
    key.pointsAt p = p.find key.join.toColumn := by
  obtain ⟨name, hname⟩ := Option.isSome_iff_exists.mp hnamed
  rw [ForeignKey.pointsAt, ForeignKey.join, hname]
  rfl

/-- **The rows that are compared are those that a reset must leave as they were**, but for those
    of no account, where the keys name their columns. -/
theorem nonDemoRows_eq_ok : nonDemoRows cmp db demo t = .ok rows ↔
    t.KeysNamed ∧ ∃ strays, Kept cmp db demo t ⟨rows, strays⟩ := by
  rw [nonDemoRows, Aligned.bind_eq_ok]
  constructor
  · rintro ⟨owner, howner, hrows⟩
    refine ⟨named_of_rowOwner howner, ?_⟩
    by_cases hname : t.name = "accounts"
    · rw [rowOwner, if_pos hname] at howner
      obtain rfl := Except.ok.inj howner
      obtain ⟨i, hi, rfl⟩ := selection_own.mp hrows
      exact ⟨_, .accounts hname hi⟩
    by_cases hcolumn : "account_id" ∈ t.columnNames
    · rw [rowOwner, if_neg hname, if_pos (any_account_id.mpr hcolumn)] at howner
      obtain rfl := Except.ok.inj howner
      obtain ⟨i, hi, rfl⟩ := selection_own.mp hrows
      exact ⟨_, .accountId hname hcolumn hi⟩
    have hown : t.Unowned := ⟨hname, hcolumn⟩
    have hnamed := named_of_rowOwner howner hown
    rw [rowOwner_named hown hnamed] at howner
    cases hkey : db.firstKey t with
    | some key =>
      rw [ownerByKeys_some hkey] at howner
      obtain rfl := Except.ok.inj howner
      obtain ⟨p, fromPlace, toPlace, i, hp, hfrom, hto, hi, rfl⟩ := selection_joined.mp hrows
      rw [← pointsAt_named (hnamed key (List.mem_of_find?_eq_some hkey))] at hto
      exact ⟨_, .throughKey hown hkey hp hfrom hto hi⟩
    | none =>
      obtain ⟨hnil, rfl⟩ := (ownerByKeys_none hkey).mp howner
      obtain rfl := Except.ok.inj hrows
      exact ⟨_, .noAccount hown hnil⟩
  · rintro ⟨hnamed, strays, hkept⟩
    cases hkept with
    | accounts hname hid =>
      refine ⟨some ⟨none, "id"⟩, ?_, selection_own.mpr ⟨_, hid, rfl⟩⟩
      rw [rowOwner, if_pos hname]
    | accountId hname hcolumn hid =>
      refine ⟨some ⟨none, "account_id"⟩, ?_, selection_own.mpr ⟨_, hid, rfl⟩⟩
      rw [rowOwner, if_neg hname, if_pos (any_account_id.mpr hcolumn)]
    | @throughKey key p fromPlace toPlace i hown hkey hparent hfrom hto hid =>
      rw [pointsAt_named (hnamed hown key (List.mem_of_find?_eq_some hkey))] at hto
      refine ⟨some ⟨some key.join, "account_id"⟩, ?_, ?_⟩
      · rw [rowOwner_named hown (hnamed hown), ownerByKeys_some hkey]
      · exact selection_joined.mpr ⟨p, fromPlace, toPlace, i, hparent, hfrom, hto, hid, rfl⟩
    | noAccount hown hkeys =>
      refine ⟨none, ?_, rfl⟩
      rw [rowOwner_named hown (hnamed hown)]
      have hkey : db.firstKey t = none := by
        rw [Database.firstKey, Table.notNullKeys, hkeys]
        rfl
      exact (ownerByKeys_none hkey).mpr ⟨hkeys, rfl⟩

/-! What a digest tells. -/

/-- The rows without what their texts hold past a NUL. -/
def cutRows (rows : List (List (Cell R))) : List (List (Cell R)) :=
  rows.map (List.map SqlQuote.Value.cut)

theorem encode_injective : Function.Injective Utf8.encode := by
  intro cs ds h
  have hdecode := congrArg Utf8.decode h
  rw [Utf8.decode_encode, Utf8.decode_encode] at hdecode
  exact Option.some.inj hdecode

theorem hashed_eq (rows : List (List (Cell R))) :
    hashed reals rows = Utf8.encode (SqlQuote.dump (rowTexts reals rows)) := by
  rw [hashed, SqlQuote.dump]
  show _ = ((rowTexts reals rows).flatMap (· ++ ['\n'])).flatMap String.utf8EncodeChar
  rw [List.flatMap_assoc]
  apply List.flatMap_congr
  intro row _
  exact Utf8.encode_append.symm

/-- Rows in any order have one sequence of texts. -/
theorem rowTexts_eq_iff : rowTexts reals rows = rowTexts reals rows' ↔
    (rows.map (SqlQuote.rowText reals)).Perm (rows'.map (SqlQuote.rowText reals)) := by
  constructor
  · intro h
    have hperm := List.perm_insertionSort (· ≤ ·) (rows.map (SqlQuote.rowText reals))
    rw [← rowTexts, h] at hperm
    exact hperm.symm.trans (List.perm_insertionSort _ _)
  · intro h
    have hsorted := ((List.perm_insertionSort (· ≤ ·) _).trans h).trans
      (List.perm_insertionSort (· ≤ ·) _).symm
    exact hsorted.eq_of_pairwise' (List.pairwise_insertionSort _ _) (List.pairwise_insertionSort _ _)

/-- **Two digests are the same exactly when the rows are**, in any order and but for what follows
    a NUL. -/
theorem digestOf_eq_iff {width : Nat} (hwidth : width ≠ 0) (hrows : ∀ row ∈ rows, row.length = width)
    (hrows' : ∀ row ∈ rows', row.length = width)
    (hsha : sha256 (hashed reals rows) = sha256 (hashed reals rows') →
      hashed reals rows = hashed reals rows') :
    digestOf reals sha256 rows = digestOf reals sha256 rows' ↔
      (cutRows rows).Perm (cutRows rows') := by
  have htexts : ∀ rows : List (List (Cell R)), (∀ row ∈ rows, row.length = width) →
      ∀ text ∈ rowTexts reals rows, SqlQuote.IsRowText reals width text := by
    intro rows hrows text htext
    obtain ⟨row, hrow, rfl⟩ := List.mem_map.mp ((List.mem_insertionSort _).mp htext)
    exact ⟨row, hrows row hrow, rfl⟩
  rw [cutRows, cutRows, ← SqlQuote.perm_rowText_iff hwidth hrows hrows', ← rowTexts_eq_iff]
  constructor
  · intro h
    have hhash := hsha (TableDigest.mk.inj h).2
    rw [hashed_eq, hashed_eq] at hhash
    exact SqlQuote.dump_inj hwidth (htexts rows hrows) (htexts rows' hrows')
      (encode_injective hhash)
  · intro h
    rw [digestOf, digestOf, hashed, hashed, h]

/-! Two databases. -/

/-- What two databases with the same tables and columns share of a table. -/
def Table.heading (t : Table R) : String × Bool × List String :=
  (t.name, t.isVirtual, t.columnNames)

def SameTables (A B : Database R) : Prop := A.tables.map Table.heading = B.tables.map Table.heading

theorem listed_headings (h : SameTables A B) :
    A.listed.map Table.heading = B.listed.map Table.heading := by
  have hlisted : ∀ db : Database R, db.listed.map Table.heading =
      (db.tables.map Table.heading).filter
        (fun heading => !Like.likeMatches '\\' "sqlite\\_%".toList heading.1.toList) := by
    intro db
    rw [List.filter_map]
    rfl
  rw [hlisted A, hlisted B, h]

theorem virtualTables_eq (h : SameTables A B) : A.virtualTables = B.virtualTables := by
  have hvirtual : ∀ db : Database R, db.virtualTables =
      ((db.listed.map Table.heading).filter (fun heading => heading.2.1)).map Prod.fst := by
    intro db
    rw [List.filter_map, List.map_map]
    rfl
  rw [hvirtual A, hvirtual B, listed_headings h]

theorem compared_headings (h : SameTables A B) :
    A.comparedTables.map Table.heading = B.comparedTables.map Table.heading := by
  have hcompared : ∀ db : Database R, db.comparedTables.map Table.heading =
      (db.listed.map Table.heading).filter (fun heading =>
        !(isIndex db.virtualTables heading.1 || uncomparedTables.contains heading.1)) := by
    intro db
    rw [List.filter_map]
    rfl
  rw [hcompared A, hcompared B, listed_headings h, virtualTables_eq h]

theorem compared_nodup (db : Database R) : (db.comparedTables.map Table.name).Nodup := by
  have hall : (db.tables.map Table.name).Nodup := by
    rw [List.Nodup, List.pairwise_map]
    exact db.sorted.imp fun hlt => ne_of_lt hlt
  have hsub : (db.comparedTables.map Table.name).Sublist (db.tables.map Table.name) :=
    (List.filter_sublist.trans List.filter_sublist).map _
  exact hall.sublist hsub

theorem compared_names (h : SameTables A B) :
    A.comparedTables.map Table.name = B.comparedTables.map Table.name := by
  have hnames : ∀ db : Database R, db.comparedTables.map Table.name =
      (db.comparedTables.map Table.heading).map Prod.fst := fun db => by rw [List.map_map]; rfl
  rw [hnames A, hnames B, compared_headings h]

/-- Tables of one name have the same columns. -/
theorem width_eq (h : SameTables A B) (ht : t ∈ A.comparedTables) (ht' : t' ∈ B.comparedTables)
    (hname : t.name = t'.name) : t.columns.length = t'.columns.length := by
  have haligned := Aligned.map_eq_iff.mp (compared_headings h)
  have hpairs := (Aligned.forall₂_iff_of_keys (compared_names h) (compared_nodup A)).mp haligned
  have hcolumns : t.columnNames = t'.columnNames :=
    congrArg (fun heading => heading.2.2) (hpairs t ht t' ht' hname)
  rw [← List.length_map (f := Column.name), ← List.length_map (f := Column.name)]
  exact congrArg List.length hcolumns

/-- Table by table the kept rows of two databases are `same`. -/
def Agree (cmp : Comparing R) (same : KeptRows R → KeptRows R → Prop) (A B : Database R)
    (demo : Int) : Prop :=
  ∀ t ∈ A.comparedTables, ∀ t' ∈ B.comparedTables, t.name = t'.name →
    ∃ kept kept', Kept cmp A demo t kept ∧ Kept cmp B demo t' kept' ∧ same kept kept'

/-- **Nothing outside the Demo Account has changed**: every compared table keeps the same rows. -/
def Preserved (cmp : Comparing R) (A B : Database R) (demo : Int) : Prop :=
  Agree cmp (fun kept kept' => kept.compared.Perm kept'.compared ∧ kept.strays.Perm kept'.strays)
    A B demo

/-- The compared rows are the same up to the first NUL of each text. -/
def SameToNul (cmp : Comparing R) (A B : Database R) (demo : Int) : Prop :=
  Agree cmp (fun kept kept' => (cutRows kept.compared).Perm (cutRows kept'.compared)) A B demo

/-- The rows of which a text holds a NUL. -/
def withNul (rows : List (List (Cell R))) : List (List (Cell R)) :=
  rows.filter (fun row => row.any SqlQuote.Value.holdsNul)

/-- The rows that a comparison cannot tell apart are the same: those with a NUL in a text, and those
    of no account. -/
def HiddenSame (cmp : Comparing R) (A B : Database R) (demo : Int) : Prop :=
  Agree cmp (fun kept kept' => (withNul kept.compared).Perm (withNul kept'.compared) ∧
    kept.strays.Perm kept'.strays) A B demo

/-- No two things that are hashed here have one hash. -/
def NoCollision (reals : RealText R) (cmp : Comparing R) (sha256 : List UInt8 → String)
    (A B : Database R) (demo : Int) : Prop :=
  ∀ t ∈ A.comparedTables, ∀ t' ∈ B.comparedTables, ∀ rows rows',
    nonDemoRows cmp A demo t = .ok rows → nonDemoRows cmp B demo t' = .ok rows' →
      sha256 (hashed reals rows) = sha256 (hashed reals rows') →
        hashed reals rows = hashed reals rows'

theorem cut_row {row : List (Cell R)} (h : row.any SqlQuote.Value.holdsNul = false) :
    row.map SqlQuote.Value.cut = row := by
  conv_rhs => rw [← List.map_id row]
  apply List.map_congr_left
  intro v hv
  exact SqlQuote.cut_of_holdsNul (by simpa using List.any_eq_false.mp h v hv)

/-- The others. -/
def withoutNul (rows : List (List (Cell R))) : List (List (Cell R)) :=
  rows.filter (fun row => !row.any SqlQuote.Value.holdsNul)

theorem withNul_append_perm (rows : List (List (Cell R))) :
    (withNul rows ++ withoutNul rows).Perm rows := List.filter_append_perm _ rows

theorem cutRows_withoutNul (rows : List (List (Cell R))) :
    cutRows (withoutNul rows) = withoutNul rows := by
  conv_rhs => rw [← List.map_id (withoutNul rows)]
  apply List.map_congr_left
  intro row hrow
  exact cut_row (by simpa using (List.mem_filter.mp hrow).2)

theorem cutRows_withNul_append_perm (rows : List (List (Cell R))) :
    (cutRows (withNul rows) ++ withoutNul rows).Perm (cutRows rows) := by
  have hparts := (withNul_append_perm rows).map (List.map SqlQuote.Value.cut)
  rw [List.map_append] at hparts
  rwa [← cutRows_withoutNul rows]

/-- **Rows that are the same up to the first NULs are the same when those that hold a NUL are**: the
    others are left when these are taken from both. -/
theorem perm_iff_toNul : rows.Perm rows' ↔
    (cutRows rows).Perm (cutRows rows') ∧ (withNul rows).Perm (withNul rows') := by
  constructor
  · exact fun h => ⟨h.map _, h.filter _⟩
  · rintro ⟨hsame, hnul⟩
    have hboth : (cutRows (withNul rows) ++ withoutNul rows).Perm
        (cutRows (withNul rows') ++ withoutNul rows') :=
      ((cutRows_withNul_append_perm rows).trans hsame).trans
        (cutRows_withNul_append_perm rows').symm
    have hfirst : (cutRows (withNul rows) ++ withoutNul rows).Perm
        (cutRows (withNul rows) ++ withoutNul rows') :=
      hboth.trans ((hnul.map _).symm.append_right _)
    have hrest := (List.perm_append_left_iff _).mp hfirst
    exact ((withNul_append_perm rows).symm.trans (hnul.append hrest)).trans
      (withNul_append_perm rows')

theorem Agree.imp {same same' : KeptRows R → KeptRows R → Prop} (h : Agree cmp same A B demo)
    (himp : ∀ kept kept', same kept kept' → same' kept kept') : Agree cmp same' A B demo := by
  intro t ht t' ht' hname
  obtain ⟨kept, kept', hkept, hkept', hsame⟩ := h t ht t' ht' hname
  exact ⟨kept, kept', hkept, hkept', himp kept kept' hsame⟩

theorem Agree.and {same same' : KeptRows R → KeptRows R → Prop} (h : Agree cmp same A B demo)
    (h' : Agree cmp same' A B demo) :
    Agree cmp (fun kept kept' => same kept kept' ∧ same' kept kept') A B demo := by
  intro t ht t' ht' hname
  obtain ⟨kept, kept', hkept, hkept', hsame⟩ := h t ht t' ht' hname
  obtain ⟨other, other', hother, hother', hsame'⟩ := h' t ht t' ht' hname
  obtain rfl := hkept.unique hother
  obtain rfl := hkept'.unique hother'
  exact ⟨kept, kept', hkept, hkept', hsame, hsame'⟩

/-- Nothing has changed when nothing has that can be told apart, and nothing that cannot. -/
theorem preserved_iff : Preserved cmp A B demo ↔
    SameToNul cmp A B demo ∧ HiddenSame cmp A B demo := by
  constructor
  · intro h
    exact ⟨h.imp fun _ _ hsame => (perm_iff_toNul.mp hsame.1).1,
      h.imp fun _ _ hsame => ⟨(perm_iff_toNul.mp hsame.1).2, hsame.2⟩⟩
  · rintro ⟨hseen, hhidden⟩
    exact (hseen.and hhidden).imp fun _ _ hsame => ⟨perm_iff_toNul.mpr ⟨hsame.1, hsame.2.1⟩, hsame.2.2⟩

/-! The comparison. -/

theorem tableDigest_eq_ok {entry : String × TableDigest} :
    tableDigest reals cmp sha256 db demo t = .ok entry ↔
      ∃ rows, nonDemoRows cmp db demo t = .ok rows ∧ entry = (t.name, digestOf reals sha256 rows) := by
  rw [tableDigest, Aligned.bind_eq_ok]
  apply exists_congr
  intro rows
  exact and_congr_right fun _ => ⟨fun h => (Except.ok.inj h).symm, fun h => congrArg Except.ok h.symm⟩

/-- The digests of a database are named as its tables are. -/
theorem names_of_nonDemoState {state : List (String × TableDigest)}
    (h : nonDemoState reals cmp sha256 db demo = .ok state) :
    state.map Prod.fst = db.comparedTables.map Table.name := by
  have hname : ∀ t entry, tableDigest reals cmp sha256 db demo t = .ok entry → t.name = entry.1 := by
    intro t entry hentry
    obtain ⟨rows, -, rfl⟩ := tableDigest_eq_ok.mp hentry
    rfl
  exact (Aligned.map_eq_iff.mpr ((Aligned.mapM_eq_ok.mp h).imp hname)).symm

/-- Nothing has changed between states of the same tables exactly when they are one. -/
theorem changedTables_eq_nil {active prepared : List (String × TableDigest)}
    (hnames : active.map Prod.fst = prepared.map Prod.fst) (hnodup : (active.map Prod.fst).Nodup) :
    changedTables active prepared = [] ↔ active = prepared := by
  rw [changedTables, List.filter_eq_nil_iff]
  constructor
  · intro h
    refine Aligned.eq_of_lookup_eq hnames hnodup fun table htable => ?_
    have hsame := h table (Text.mem_sortedSet.mpr (List.mem_append_left _ htable))
    simpa using hsame
  · rintro rfl table -
    simp

theorem compareStates_eq_ok {active prepared : List (String × TableDigest)} :
    compareStates active prepared = .ok () ↔ changedTables active prepared = [] := by
  show (if (changedTables active prepared).isEmpty = true then _ else _) = _ ↔ _
  split
  · next hempty => exact ⟨fun _ => List.isEmpty_iff.mp hempty, fun _ => rfl⟩
  · next hempty =>
    constructor
    · intro h
      cases h
    · exact fun h => absurd (List.isEmpty_iff.mpr h) hempty

/-- A reset is accepted exactly when the digests of the two databases are the same. -/
theorem verify_eq_ok_iff_states (htables : SameTables A B) (haccounts : A.hasAccountsTable = true) :
    verifyNonDemoStatePreserved reals cmp sha256 (some A) B demo = .ok () ↔
      ∃ state, nonDemoState reals cmp sha256 A demo = .ok state ∧
        nonDemoState reals cmp sha256 B demo = .ok state := by
  have hcompare : ∀ {active prepared : List (String × TableDigest)},
      nonDemoState reals cmp sha256 A demo = .ok active →
      nonDemoState reals cmp sha256 B demo = .ok prepared →
      (compareStates active prepared = .ok () ↔ active = prepared) := by
    intro active prepared hactive hprepared
    have hA := names_of_nonDemoState hactive
    have hB := names_of_nonDemoState hprepared
    rw [compareStates_eq_ok]
    refine changedTables_eq_nil ?_ ?_
    · rw [hA, hB, compared_names htables]
    · rw [hA]
      exact compared_nodup A
  rw [verifyNonDemoStatePreserved, haccounts]
  show (nonDemoState reals cmp sha256 A demo >>= fun active =>
    nonDemoState reals cmp sha256 B demo >>= fun prepared => compareStates active prepared) = _ ↔ _
  rw [Aligned.bind_eq_ok]
  apply exists_congr
  intro active
  apply and_congr_right
  intro hactive
  rw [Aligned.bind_eq_ok]
  constructor
  · rintro ⟨prepared, hprepared, h⟩
    rw [(hcompare hactive hprepared).mp h]
    exact hprepared
  · exact fun hprepared => ⟨active, hprepared, (hcompare hactive hprepared).mpr rfl⟩

/-- One table's digests are the same. -/
theorem tableDigest_agree (htables : SameTables A B) (hsha : NoCollision reals cmp sha256 A B demo)
    (ht : t ∈ A.comparedTables) (ht' : t' ∈ B.comparedTables) (hname : t.name = t'.name) :
    (∃ entry, tableDigest reals cmp sha256 A demo t = .ok entry ∧
        tableDigest reals cmp sha256 B demo t' = .ok entry) ↔
      (t.KeysNamed ∧ t'.KeysNamed) ∧ ∃ kept kept', Kept cmp A demo t kept ∧
        Kept cmp B demo t' kept' ∧ (cutRows kept.compared).Perm (cutRows kept'.compared) := by
  have hdigests : ∀ {kept kept'}, Kept cmp A demo t kept → Kept cmp B demo t' kept' →
      t.KeysNamed → t'.KeysNamed →
      (digestOf reals sha256 kept.compared = digestOf reals sha256 kept'.compared ↔
        (cutRows kept.compared).Perm (cutRows kept'.compared)) := by
    intro kept kept' hrows hrows' hnamed hnamed'
    refine digestOf_eq_iff (mt List.length_eq_zero_iff.mp t.columns_ne) ?_ ?_ ?_
    · exact fun row hrow => t.width row (hrows.subset row hrow)
    · intro row hrow
      rw [width_eq htables ht ht' hname]
      exact t'.width row (hrows'.subset row hrow)
    · exact hsha t ht t' ht' _ _ (nonDemoRows_eq_ok.mpr ⟨hnamed, _, hrows⟩)
        (nonDemoRows_eq_ok.mpr ⟨hnamed', _, hrows'⟩)
  constructor
  · rintro ⟨entry, hentry, hentry'⟩
    obtain ⟨rows, hrows, rfl⟩ := tableDigest_eq_ok.mp hentry
    obtain ⟨rows', hrows', heq⟩ := tableDigest_eq_ok.mp hentry'
    obtain ⟨hnamed, strays, hkept⟩ := nonDemoRows_eq_ok.mp hrows
    obtain ⟨hnamed', strays', hkept'⟩ := nonDemoRows_eq_ok.mp hrows'
    refine ⟨⟨hnamed, hnamed'⟩, ⟨rows, strays⟩, ⟨rows', strays'⟩, hkept, hkept', ?_⟩
    exact (hdigests hkept hkept' hnamed hnamed').mp (congrArg Prod.snd heq)
  · rintro ⟨⟨hnamed, hnamed'⟩, kept, kept', hkept, hkept', hperm⟩
    refine ⟨(t.name, digestOf reals sha256 kept.compared), tableDigest_eq_ok.mpr ⟨_, ?_, rfl⟩,
      tableDigest_eq_ok.mpr ⟨kept'.compared, ?_, ?_⟩⟩
    · exact nonDemoRows_eq_ok.mpr ⟨hnamed, kept.strays, hkept⟩
    · exact nonDemoRows_eq_ok.mpr ⟨hnamed', kept'.strays, hkept'⟩
    · rw [(hdigests hkept hkept' hnamed hnamed').mpr hperm, hname]

/-- The keys of both databases say which columns they mean. -/
def KeysNamed (A B : Database R) : Prop :=
  ∀ t ∈ A.comparedTables, ∀ t' ∈ B.comparedTables, t.name = t'.name → t.KeysNamed ∧ t'.KeysNamed

/-- **A reset is accepted exactly when the compared rows are the same up to the first NULs**, and
    the keys name their columns. -/
theorem verify_eq_ok_iff (htables : SameTables A B) (haccounts : A.hasAccountsTable = true)
    (hsha : NoCollision reals cmp sha256 A B demo) :
    verifyNonDemoStatePreserved reals cmp sha256 (some A) B demo = .ok () ↔
      KeysNamed A B ∧ SameToNul cmp A B demo := by
  have hstates : (∃ state, nonDemoState reals cmp sha256 A demo = .ok state ∧
      nonDemoState reals cmp sha256 B demo = .ok state) ↔
      List.Forall₂ (fun t t' => ∃ entry, tableDigest reals cmp sha256 A demo t = .ok entry ∧
        tableDigest reals cmp sha256 B demo t' = .ok entry) A.comparedTables B.comparedTables := by
    rw [← Aligned.exists_forall₂]
    apply exists_congr
    intro state
    exact and_congr Aligned.mapM_eq_ok Aligned.mapM_eq_ok
  rw [verify_eq_ok_iff_states htables haccounts, hstates,
    Aligned.forall₂_iff_of_keys (compared_names htables) (compared_nodup A)]
  constructor
  · intro h
    constructor
    · intro t ht t' ht' hname
      exact ((tableDigest_agree htables hsha ht ht' hname).mp (h t ht t' ht' hname)).1
    · intro t ht t' ht' hname
      exact ((tableDigest_agree htables hsha ht ht' hname).mp (h t ht t' ht' hname)).2
  · rintro ⟨hnamed, hkept⟩ t ht t' ht' hname
    exact (tableDigest_agree htables hsha ht ht' hname).mpr
      ⟨hnamed t ht t' ht' hname, hkept t ht t' ht' hname⟩

/-- No text of a compared table holds a NUL, and no row of a table whose rows belong to accounts
    belongs to none. -/
def Database.Plain (cmp : Comparing R) (db : Database R) (demo : Int) : Prop :=
  ∀ t ∈ db.comparedTables, (∀ row ∈ t.rows, row.any SqlQuote.Value.holdsNul = false) ∧
    ∀ kept, Kept cmp db demo t kept → kept.strays = []

theorem Database.Plain.withNul_compared {db : Database R} (hplain : db.Plain cmp demo)
    (ht : t ∈ db.comparedTables) (hkept : Kept cmp db demo t kept) : withNul kept.compared = [] := by
  refine List.filter_eq_nil_iff.mpr fun row hrow => ?_
  rw [(hplain t ht).1 row (hkept.subset row hrow)]
  exact Bool.false_ne_true

/-- Of plain databases a comparison sees every row. -/
theorem hiddenSame_of_plain (hA : A.Plain cmp demo) (hB : B.Plain cmp demo)
    (hseen : SameToNul cmp A B demo) : HiddenSame cmp A B demo := by
  intro t ht t' ht' hname
  obtain ⟨kept, kept', hkept, hkept', -⟩ := hseen t ht t' ht' hname
  refine ⟨kept, kept', hkept, hkept', ?_, ?_⟩
  · rw [hA.withNul_compared ht hkept, hB.withNul_compared ht' hkept']
  · rw [(hA t ht).2 kept hkept, (hB t' ht').2 kept' hkept']

/-- Of plain databases whose keys are named, a reset is accepted exactly when nothing outside the
    Demo Account has changed. -/
theorem verify_of_plain (htables : SameTables A B) (haccounts : A.hasAccountsTable = true)
    (hsha : NoCollision reals cmp sha256 A B demo) (hnamed : KeysNamed A B)
    (hA : A.Plain cmp demo) (hB : B.Plain cmp demo) :
    verifyNonDemoStatePreserved reals cmp sha256 (some A) B demo = .ok () ↔
      Preserved cmp A B demo := by
  rw [verify_eq_ok_iff htables haccounts hsha, preserved_iff]
  exact ⟨fun h => ⟨h.2, hiddenSame_of_plain hA hB h.2⟩, fun h => ⟨hnamed, h.1⟩⟩

/-- **A reset is judged right just where**, if the compared rows are the same up to the first NULs,
    the keys name their columns when and only when the rows that a comparison cannot tell apart are
    the same. -/
theorem verify_iff_preserved_iff (htables : SameTables A B) (haccounts : A.hasAccountsTable = true)
    (hsha : NoCollision reals cmp sha256 A B demo) :
    (verifyNonDemoStatePreserved reals cmp sha256 (some A) B demo = .ok () ↔
        Preserved cmp A B demo) ↔
      (SameToNul cmp A B demo → (KeysNamed A B ↔ HiddenSame cmp A B demo)) := by
  rw [verify_eq_ok_iff htables haccounts hsha, preserved_iff]
  constructor
  · intro h hseen
    exact ⟨fun hnamed => (h.mp ⟨hnamed, hseen⟩).2, fun hhidden => (h.mpr ⟨hseen, hhidden⟩).1⟩
  · intro h
    exact ⟨fun hok => ⟨hok.2, (h hok.2).mp hok.1⟩, fun hall => ⟨(h hall.1).mpr hall.2, hall.1⟩⟩

/-! A vault with another account than the Demo Account. -/

/-- Values compared as they are. -/
def exactly : Comparing Empty where
  isInteger _ v n := decide (v = .integer n)
  keysMatch _ _ v w := decide (v = w)

def noReals : RealText Empty where
  write := Empty.elim
  write_injective r := r.elim
  plain r := r.elim
  point r := r.elim

/-- A hash without collisions. -/
def spelled (bytes : List UInt8) : String := String.ofList (bytes.map fun b => Char.ofNat b.toNat)

theorem spelled_injective : Function.Injective spelled := by
  have hchar : ∀ b c : UInt8, Char.ofNat b.toNat = Char.ofNat c.toNat → b = c := by
    intro b c h
    have hb := b.toNat_lt
    have hc := c.toNat_lt
    have hnat := congrArg Char.toNat h
    rw [Char.toNat_ofNat, Char.toNat_ofNat, if_pos (.inl (by omega)), if_pos (.inl (by omega))] at hnat
    exact UInt8.toNat_inj.mp hnat
  intro bs cs h
  exact List.map_injective_iff.mpr (fun b c => hchar b c) (String.ofList_injective h)

def column (name : String) : Column := ⟨name, "", true⟩

def savedSearches (query : List Char) : Table Empty where
  name := "saved_searches"
  sql := none
  columns := [column "account_id", column "query"]
  primaryKey := []
  foreignKeys := [⟨"accounts", 0, "account_id", some "id"⟩]
  rows := [[.integer 9, .text query]]
  columns_ne := by decide
  width := by simp

/-- The first refused login has no account. -/
def refusedLogin : List (Cell Empty) := [.text "login_refused".toList, .null]

def auditEntries (entries : List (List (Cell Empty))) (h : ∀ row ∈ entries, row.length = 2) :
    Table Empty where
  name := "audit_entries"
  sql := none
  columns := [column "action", ⟨"account_id", "", false⟩]
  primaryKey := []
  foreignKeys := [⟨"accounts", 0, "account_id", some "id"⟩]
  rows := entries
  columns_ne := by decide
  width := h

/-- Account 9 has a contact in a group and a saved search; account 1 is the Demo Account. -/
def vault (query : List Char) (entries : List (List (Cell Empty)))
    (h : ∀ row ∈ entries, row.length = 2) : Database Empty where
  tables := [
    { name := "accounts", sql := none, columns := [column "id"], primaryKey := ["id"]
      foreignKeys := [], rows := [[.integer 1], [.integer 9]]
      columns_ne := by decide, width := by decide },
    auditEntries entries h,
    { name := "contact_group_members", sql := none
      columns := [column "contact_id", column "group_id"], primaryKey := []
      foreignKeys := [⟨"contacts", 0, "contact_id", some "id"⟩]
      rows := [[.integer 4, .integer 2]], columns_ne := by decide, width := by decide },
    { name := "contacts", sql := none, columns := [column "id", column "account_id"]
      primaryKey := ["id"], foreignKeys := [⟨"accounts", 0, "account_id", some "id"⟩]
      rows := [[.integer 4, .integer 9], [.integer 5, .integer 1]]
      columns_ne := by decide, width := by decide },
    savedSearches query,
    { name := "server_settings", sql := none, columns := [column "public_registration"]
      primaryKey := [], foreignKeys := [], rows := [[.integer 0]]
      columns_ne := by decide, width := by decide }]
  sorted := by
    apply List.pairwise_map.mp
    show ["accounts", "audit_entries", "contact_group_members", "contacts", "saved_searches",
      "server_settings"].Pairwise (· < ·)
    decide

/-- The vault with a refused login on its trail, and without. -/
def logged (query : List Char) : Database Empty := vault query [refusedLogin] (by decide)
def unlogged (query : List Char) : Database Empty := vault query [] (by decide)

theorem verify_iff_preserved_iff_vault :
    (verifyNonDemoStatePreserved noReals exactly spelled (some (logged ['a'])) (unlogged ['b']) 1 =
        .ok () ↔ Preserved exactly (logged ['a']) (unlogged ['b']) 1) ↔
      (SameToNul exactly (logged ['a']) (unlogged ['b']) 1 →
        (KeysNamed (logged ['a']) (unlogged ['b']) ↔
          HiddenSame exactly (logged ['a']) (unlogged ['b']) 1)) :=
  verify_iff_preserved_iff rfl (by decide) fun _ _ _ _ _ _ _ _ h => spelled_injective h

theorem mem_comparedTables (ht : t ∈ db.tables)
    (hlisted : Like.likeMatches '\\' "sqlite\\_%".toList t.name.toList = false)
    (hcompared : isIndex db.virtualTables t.name = false ∧ uncomparedTables.contains t.name = false) :
    t ∈ db.comparedTables := by
  refine List.mem_filter.mpr ⟨List.mem_filter.mpr ⟨ht, ?_⟩, ?_⟩
  · rw [hlisted]
    rfl
  · rw [hcompared.1, hcompared.2]
    rfl

/-- **A saved search that is changed past a NUL, and a refused login that is gone**: either reset is
    accepted. -/
theorem changed_past_a_nul :
    (verifyNonDemoStatePreserved noReals exactly spelled (some (logged ['a', SqlQuote.nul, 'b']))
        (logged ['a', SqlQuote.nul, 'c']) 1 = .ok () ∧
      ¬ Preserved exactly (logged ['a', SqlQuote.nul, 'b']) (logged ['a', SqlQuote.nul, 'c']) 1) ∧
    (verifyNonDemoStatePreserved noReals exactly spelled (some (logged ['a'])) (unlogged ['a']) 1 =
        .ok () ∧
      ¬ Preserved exactly (logged ['a']) (unlogged ['a']) 1) := by
  refine ⟨⟨by decide +kernel, fun h => ?_⟩, by decide +kernel, fun h => ?_⟩
  · have hsearches : ∀ query, savedSearches query ∈ (logged query).tables := fun query =>
      List.mem_of_getElem? (show (logged query).tables[4]? = some (savedSearches query) from rfl)
    have hkept : ∀ query, Kept exactly (logged query) 1 (savedSearches query)
        ⟨[[.integer 9, .text query]], []⟩ := by
      intro query
      have hname : (savedSearches query).name ≠ "accounts" :=
        show "saved_searches" ≠ "accounts" by decide
      have hcolumn : "account_id" ∈ (savedSearches query).columnNames :=
        show "account_id" ∈ ["account_id", "query"] by decide
      exact .accountId hname hcolumn rfl
    obtain ⟨kept, kept', hrows, hrows', hsame, -⟩ := h _
      (mem_comparedTables (hsearches _) (by decide +kernel) (by decide +kernel)) _
      (mem_comparedTables (hsearches _) (by decide +kernel) (by decide +kernel)) rfl
    rw [hrows.unique (hkept _), hrows'.unique (hkept _)] at hsame
    exact absurd hsame (by decide)
  · have hentries : ∀ entries hlength, auditEntries entries hlength ∈
        (vault ['a'] entries hlength).tables := fun entries hlength => List.mem_of_getElem?
      (show (vault ['a'] entries hlength).tables[1]? = some (auditEntries entries hlength) from rfl)
    have hkept : ∀ entries hlength, Kept exactly (vault ['a'] entries hlength) 1
        (auditEntries entries hlength) ⟨ofOthers exactly (auditEntries entries hlength) 1 1,
          ofNone (auditEntries entries hlength) 1⟩ := by
      intro entries hlength
      have hname : (auditEntries entries hlength).name ≠ "accounts" :=
        show "audit_entries" ≠ "accounts" by decide
      have hcolumn : "account_id" ∈ (auditEntries entries hlength).columnNames :=
        show "account_id" ∈ ["action", "account_id"] by decide
      exact .accountId hname hcolumn rfl
    obtain ⟨kept, kept', hrows, hrows', -, hstrays⟩ := h _
      (mem_comparedTables (hentries [refusedLogin] (by decide)) (by decide +kernel)
        (by decide +kernel)) _
      (mem_comparedTables (hentries [] (by decide)) (by decide +kernel) (by decide +kernel)) rfl
    rw [hrows.unique (hkept _ _), hrows'.unique (hkept _ _)] at hstrays
    exact absurd hstrays.length_eq (by decide)

end MessageCrate.ResetDemo
