import Mathlib

/- SQL literals, as SQLite's `quote` writes the values of a row.

   A text is written up to its first NUL, with its quotes doubled. Every other value is written
   whole. The literals of a row stand between commas, and a newline ends the row.

   1. `quote_ends`: a literal says where it ends, so it tells its value, but for what a text holds
      past a NUL (`Value.cut`).
   2. `rowText_ends`, `dump_inj`: so do the rows of one width, one after another. -/
namespace SqlQuote

/-- The value of a column; `R` is the type of its floating-point numbers. -/
inductive Value (R : Type)
  | null
  | integer (n : Int)
  | real (r : R)
  | text (t : List Char)
  | blob (bytes : List UInt8)
  deriving DecidableEq

/-- How floating-point numbers are written: with a point, and nothing that ends a literal. -/
structure RealText (R : Type) where
  write : R → List Char
  write_injective : Function.Injective write
  plain : ∀ r, ∀ c ∈ write r, c ≠ ',' ∧ c ≠ '\n' ∧ c ≠ '\''
  point : ∀ r, '.' ∈ write r

def nul : Char := Char.ofNat 0

variable {R : Type} (reals : RealText R)

/-- A text up to its first NUL. -/
def cutText (t : List Char) : List Char := t.takeWhile (· != nul)

/-- A value as far as its literal says it. -/
def Value.cut : Value R → Value R
  | .text t => .text (cutText t)
  | v => v

/-- A text whose literal leaves something out. -/
def Value.holdsNul : Value R → Bool
  | .text t => t.contains nul
  | _ => false

/-- The quotes of a text, doubled. -/
def doubled (t : List Char) : List Char := t.flatMap fun c => if c = '\'' then ['\'', '\''] else [c]

def hexDigit (n : Nat) : Char := "0123456789ABCDEF".toList.getD n '0'

def hexByte (b : UInt8) : List Char := [hexDigit (b.toNat / 16), hexDigit (b.toNat % 16)]

/-- The literal of a value. -/
def quote : Value R → List Char
  | .null => "NULL".toList
  | .integer n => n.repr.toList
  | .real r => reals.write r
  | .text t => '\'' :: (doubled (cutText t) ++ ['\''])
  | .blob bytes => 'X' :: '\'' :: (bytes.flatMap hexByte ++ ['\''])

/-- What stands after a literal. -/
def Separator (c : Char) : Prop := c = ',' ∨ c = '\n'

variable {reals} {v w : Value R} {s s' : Char} {rest rest' : List Char}

theorem cutText_cutText (t : List Char) : cutText (cutText t) = cutText t :=
  List.takeWhile_idem

@[simp]
theorem cut_cut (v : Value R) : v.cut.cut = v.cut := by
  cases v with
  | text t => exact congrArg Value.text (cutText_cutText t)
  | _ => rfl

@[simp]
theorem quote_cut (v : Value R) : quote reals v.cut = quote reals v := by
  cases v with
  | text t => exact congrArg (fun t => '\'' :: (doubled t ++ ['\''])) (cutText_cutText t)
  | _ => rfl

theorem cut_eq_self {t : List Char} (h : nul ∉ t) : cutText t = t :=
  List.takeWhile_eq_self_iff.mpr fun c hc => by
    have hne : c ≠ nul := fun heq => h (heq ▸ hc)
    simpa using hne

theorem cut_of_holdsNul {v : Value R} (h : v.holdsNul = false) : v.cut = v := by
  cases v with
  | text t =>
    have hnul : nul ∉ t := by simpa [Value.holdsNul] using h
    exact congrArg Value.text (cut_eq_self hnul)
  | _ => rfl

/-! Literals without quotes. -/

/-- No character of a literal without quotes ends it or opens a quote. -/
def Bare (cs : List Char) : Prop := ∀ c ∈ cs, c ≠ ',' ∧ c ≠ '\n' ∧ c ≠ '\''

/-- The characters of an integer are digits, and a minus. -/
theorem mem_repr {n : Int} {c : Char} (h : c ∈ n.repr.toList) : c.isDigit = true ∨ c = '-' := by
  have hnat : ∀ n : Nat, ∀ c ∈ n.repr.toList, c.isDigit = true := by
    intro n c hc
    rw [Nat.toList_repr] at hc
    exact Nat.isDigit_of_mem_toDigits (by decide) (by decide) hc
  rw [Int.repr_eq_if] at h
  split at h
  · exact .inl (hnat _ c h)
  · rw [String.toList_append, List.mem_append] at h
    obtain hminus | hdigits := h
    · exact .inr (List.mem_singleton.mp hminus)
    · exact .inl (hnat _ c hdigits)

theorem notMem_repr {n : Int} {c : Char} (hdigit : c.isDigit = false) (hminus : c ≠ '-') :
    c ∉ n.repr.toList := by
  intro h
  obtain hd | hm := mem_repr h
  · rw [hdigit] at hd
    cases hd
  · exact hminus hm

theorem bare_repr (n : Int) : Bare n.repr.toList := by
  intro c hc
  refine ⟨fun h => ?_, fun h => ?_, fun h => ?_⟩
  · exact notMem_repr (by decide) (by decide) (h ▸ hc)
  · exact notMem_repr (by decide) (by decide) (h ▸ hc)
  · exact notMem_repr (by decide) (by decide) (h ▸ hc)

/-- Two bare literals that are followed by separators are one. -/
theorem bare_ends {cs ds : List Char} (hcs : Bare cs) (hds : Bare ds) (hs : Separator s)
    (hs' : Separator s') (h : cs ++ s :: rest = ds ++ s' :: rest') :
    cs = ds ∧ s = s' ∧ rest = rest' := by
  have hstop : ∀ {c : Char} {l : List Char}, Bare l → Separator c → c ∉ l := by
    intro c l hl hc hmem
    obtain rfl | rfl := hc
    · exact (hl _ hmem).1 rfl
    · exact (hl _ hmem).2.1 rfl
  induction cs generalizing ds with
  | nil =>
    cases ds with
    | nil =>
      obtain ⟨rfl, rfl⟩ := List.cons.inj h
      exact ⟨rfl, rfl, rfl⟩
    | cons d ds =>
      obtain ⟨rfl, -⟩ := List.cons.inj h
      exact absurd List.mem_cons_self (hstop hds hs)
  | cons c cs ih =>
    cases ds with
    | nil =>
      obtain ⟨rfl, -⟩ := List.cons.inj h
      exact absurd List.mem_cons_self (hstop hcs hs')
    | cons d ds =>
      obtain ⟨rfl, htail⟩ := List.cons.inj h
      have hrest := ih (fun c hc => hcs c (List.mem_cons_of_mem _ hc))
        (fun c hc => hds c (List.mem_cons_of_mem _ hc)) htail
      exact ⟨congrArg _ hrest.1, hrest.2⟩

/-! Literals in quotes. -/

theorem doubled_cons (c : Char) (t : List Char) :
    doubled (c :: t) = (if c = '\'' then ['\'', '\''] else [c]) ++ doubled t := List.flatMap_cons

/-- Between its quotes a text says where it ends, when no quote follows. -/
theorem doubled_ends {t u : List Char} (hs : s ≠ '\'') (hs' : s' ≠ '\'')
    (h : doubled t ++ '\'' :: s :: rest = doubled u ++ '\'' :: s' :: rest') :
    t = u ∧ s = s' ∧ rest = rest' := by
  induction t generalizing u with
  | nil =>
    cases u with
    | nil =>
      obtain ⟨hs, hrest⟩ := List.cons.inj (List.cons.inj h).2
      exact ⟨rfl, hs, hrest⟩
    | cons d u =>
      rw [doubled_cons, show doubled [] = [] from rfl, List.nil_append] at h
      split at h
      · exact absurd (List.cons.inj (List.cons.inj h).2).1 hs
      · next hd => exact absurd (List.cons.inj h).1.symm hd
  | cons c t ih =>
    rw [doubled_cons] at h
    cases u with
    | nil =>
      rw [show doubled [] = [] from rfl, List.nil_append] at h
      split at h
      · exact absurd (List.cons.inj (List.cons.inj h).2).1.symm hs'
      · next hc => exact absurd (List.cons.inj h).1 hc
    | cons d u =>
      rw [doubled_cons] at h
      split at h
      · next hc =>
        split at h
        · next hd =>
          obtain ⟨rfl, hrest⟩ := ih (List.cons.inj (List.cons.inj h).2).2
          exact ⟨by rw [hc, hd], hrest⟩
        · next hd => exact absurd (List.cons.inj h).1.symm hd
      · next hc =>
        split at h
        · next hd => exact absurd ((List.cons.inj h).1.trans rfl) hc
        · obtain ⟨hhead, htail⟩ := List.cons.inj h
          obtain ⟨rfl, hrest⟩ := ih htail
          exact ⟨by rw [hhead], hrest⟩

theorem hexByte_inj {a b : UInt8} (h : hexByte a = hexByte b) : a = b := by
  have hdigit : ∀ m < 16, ∀ n < 16, hexDigit m = hexDigit n → m = n := by decide
  obtain ⟨hhigh, htail⟩ := List.cons.inj h
  have hlow := (List.cons.inj htail).1
  have ha := a.toNat_lt
  have hb := b.toNat_lt
  have hdiv := hdigit (a.toNat / 16) (by omega) (b.toNat / 16) (by omega) hhigh
  have hmod := hdigit (a.toNat % 16) (by omega) (b.toNat % 16) (by omega) hlow
  apply UInt8.toNat_inj.mp
  omega

theorem hexDigit_ne (b : UInt8) : ∀ c ∈ hexByte b, c ≠ '\'' := by
  have hdigit : ∀ n < 16, hexDigit n ≠ '\'' := by decide
  have hb := b.toNat_lt
  intro c hc
  obtain rfl | hc := List.mem_cons.mp hc
  · exact hdigit _ (by omega)
  · obtain rfl := List.mem_singleton.mp hc
    exact hdigit _ (by omega)

theorem hex_ends {bs cs : List UInt8}
    (h : bs.flatMap hexByte ++ '\'' :: rest = cs.flatMap hexByte ++ '\'' :: rest') :
    bs = cs ∧ rest = rest' := by
  induction bs generalizing cs with
  | nil =>
    cases cs with
    | nil => exact ⟨rfl, (List.cons.inj h).2⟩
    | cons c cs =>
      have hhead := (List.cons.inj h).1
      exact absurd hhead.symm (hexDigit_ne c _ List.mem_cons_self)
  | cons b bs ih =>
    cases cs with
    | nil =>
      have hhead := (List.cons.inj h).1
      exact absurd hhead (hexDigit_ne b _ List.mem_cons_self)
    | cons c cs =>
      rw [List.flatMap_cons, List.flatMap_cons, List.append_assoc, List.append_assoc] at h
      obtain ⟨hbyte, hrest⟩ := List.append_inj h rfl
      obtain rfl := hexByte_inj hbyte
      obtain ⟨rfl, hend⟩ := ih hrest
      exact ⟨rfl, hend⟩

/-! A literal says where it ends. -/

/-- The literal of a value without quotes; `none` for a text or a blob. -/
def bareText (reals : RealText R) : Value R → Option (List Char)
  | .null => some "NULL".toList
  | .integer n => some n.repr.toList
  | .real r => some (reals.write r)
  | _ => none

theorem bare_of_bareText {cs : List Char} (h : bareText reals v = some cs) :
    quote reals v = cs ∧ Bare cs := by
  cases v with
  | null =>
    obtain rfl := Option.some.inj h
    exact ⟨rfl, by unfold Bare; simp⟩
  | integer n =>
    obtain rfl := Option.some.inj h
    exact ⟨rfl, bare_repr n⟩
  | real r =>
    obtain rfl := Option.some.inj h
    exact ⟨rfl, reals.plain r⟩
  | text t => cases h
  | blob bytes => cases h

/-- Values without quotes are told apart by their literals. -/
theorem bareText_inj {cs : List Char} (hv : bareText reals v = some cs)
    (hw : bareText reals w = some cs) : v = w := by
  have hnull : ∀ n : Int, n.repr.toList ≠ "NULL".toList := by
    intro n h
    have hmem : 'N' ∈ n.repr.toList := h ▸ List.mem_cons_self
    exact notMem_repr (by decide) (by decide) hmem
  have hpoint : ∀ r, '.' ∈ reals.write r := reals.point
  cases v with
  | null =>
    cases w with
    | null => rfl
    | integer n => exact absurd (Option.some.inj (hw.trans hv.symm)) (hnull n)
    | real r =>
      have hmem := hpoint r
      rw [Option.some.inj (hw.trans hv.symm)] at hmem
      exact absurd hmem (by decide)
    | text t => cases hw
    | blob bytes => cases hw
  | integer n =>
    cases w with
    | null => exact absurd (Option.some.inj (hv.trans hw.symm)) (hnull n)
    | integer m =>
      have heq := Option.some.inj (hv.trans hw.symm)
      rw [Int.repr_inj.mp (String.toList_injective heq)]
    | real r =>
      have hmem := hpoint r
      rw [Option.some.inj (hw.trans hv.symm)] at hmem
      exact absurd hmem (notMem_repr (by decide) (by decide))
    | text t => cases hw
    | blob bytes => cases hw
  | real r =>
    have hmem := hpoint r
    cases w with
    | null =>
      rw [Option.some.inj (hv.trans hw.symm)] at hmem
      exact absurd hmem (by decide)
    | integer n =>
      rw [Option.some.inj (hv.trans hw.symm)] at hmem
      exact absurd hmem (notMem_repr (by decide) (by decide))
    | real q => rw [reals.write_injective (Option.some.inj (hv.trans hw.symm))]
    | text t => cases hw
    | blob bytes => cases hw
  | text t => cases hv
  | blob bytes => cases hv

theorem Separator.ne_quote (hs : Separator s) : s ≠ '\'' := by
  obtain rfl | rfl := hs
  · decide
  · decide

/-- A literal without quotes is not taken for one in quotes. -/
theorem bare_ne_quoted {cs tail : List Char} (hcs : Bare cs) (hs : Separator s) :
    cs ++ s :: rest ≠ '\'' :: tail ∧ cs ++ s :: rest ≠ 'X' :: '\'' :: tail := by
  constructor
  · intro h
    cases cs with
    | nil => exact hs.ne_quote (List.cons.inj h).1
    | cons c cs => exact (hcs c List.mem_cons_self).2.2 (List.cons.inj h).1
  · intro h
    cases cs with
    | nil =>
      have hx : s = 'X' := (List.cons.inj h).1
      obtain rfl | rfl := hs
      · exact absurd hx (by decide)
      · exact absurd hx (by decide)
    | cons c cs =>
      have htail := (List.cons.inj h).2
      cases cs with
      | nil => exact hs.ne_quote (List.cons.inj htail).1
      | cons d cs =>
        exact (hcs d (List.mem_cons_of_mem _ List.mem_cons_self)).2.2 (List.cons.inj htail).1

/-- **A literal says where it ends**, and so what its value is but for what follows a NUL. -/
theorem quote_ends (hs : Separator s) (hs' : Separator s')
    (h : quote reals v ++ s :: rest = quote reals w ++ s' :: rest') :
    v.cut = w.cut ∧ s = s' ∧ rest = rest' := by
  have htext : ∀ (t : List Char) (s : Char) (rest : List Char),
      quote reals (.text t) ++ s :: rest = '\'' :: (doubled (cutText t) ++ '\'' :: s :: rest) := by
    intro t s rest
    rw [quote, List.cons_append, List.append_assoc, List.singleton_append]
  have hblob : ∀ (bytes : List UInt8) (s : Char) (rest : List Char),
      quote reals (.blob bytes) ++ s :: rest =
        'X' :: '\'' :: (bytes.flatMap hexByte ++ '\'' :: s :: rest) := by
    intro bytes s rest
    rw [quote, List.cons_append, List.cons_append, List.append_assoc, List.singleton_append]
  -- A value without quotes against any other.
  have hbare : ∀ {v w : Value R} {cs : List Char} {s s' : Char} {rest rest' : List Char},
      Separator s → Separator s' → bareText reals v = some cs →
      quote reals v ++ s :: rest = quote reals w ++ s' :: rest' →
      v.cut = w.cut ∧ s = s' ∧ rest = rest' := by
    intro v w cs s s' rest rest' hs hs' hv h
    obtain ⟨hquote, hplain⟩ := bare_of_bareText hv
    rw [hquote] at h
    cases hw : bareText reals w with
    | some ds =>
      obtain ⟨hquote', hplain'⟩ := bare_of_bareText hw
      rw [hquote'] at h
      obtain ⟨rfl, hrest⟩ := bare_ends hplain hplain' hs hs' h
      exact ⟨congrArg Value.cut (bareText_inj hv hw), hrest⟩
    | none =>
      cases w with
      | text t =>
        rw [htext] at h
        exact absurd h (bare_ne_quoted hplain hs).1
      | blob bytes =>
        rw [hblob] at h
        exact absurd h (bare_ne_quoted hplain hs).2
      | null => cases hw
      | integer n => cases hw
      | real r => cases hw
  cases hv : bareText reals v with
  | some cs => exact hbare hs hs' hv h
  | none =>
    cases hw : bareText reals w with
    | some ds =>
      obtain ⟨hcut, hsep, hrest⟩ := hbare hs' hs hw h.symm
      exact ⟨hcut.symm, hsep.symm, hrest.symm⟩
    | none =>
      cases v with
      | null => cases hv
      | integer n => cases hv
      | real r => cases hv
      | text t =>
        cases w with
        | null => cases hw
        | integer n => cases hw
        | real r => cases hw
        | text u =>
          rw [htext, htext] at h
          obtain ⟨htu, hrest⟩ := doubled_ends hs.ne_quote hs'.ne_quote (List.cons.inj h).2
          exact ⟨congrArg Value.text htu, hrest⟩
        | blob bytes =>
          rw [htext, hblob] at h
          exact absurd (List.cons.inj h).1 (by decide)
      | blob bytes =>
        cases w with
        | null => cases hw
        | integer n => cases hw
        | real r => cases hw
        | text u =>
          rw [htext, hblob] at h
          exact absurd (List.cons.inj h).1 (by decide)
        | blob bytes' =>
          rw [hblob, hblob] at h
          obtain ⟨rfl, hrest⟩ := hex_ends (List.cons.inj (List.cons.inj h).2).2
          exact ⟨rfl, (List.cons.inj hrest).1, (List.cons.inj hrest).2⟩

/-! Rows. -/

/-- The literals of a row between commas. -/
def rowText (reals : RealText R) : List (Value R) → List Char
  | [] => []
  | [v] => quote reals v
  | v :: w :: row => quote reals v ++ ',' :: rowText reals (w :: row)

/-- Rows, one a line. -/
def dump (rows : List (List Char)) : List Char :=
  rows.flatMap (· ++ ['\n'])

theorem rowText_cut (reals : RealText R) (row : List (Value R)) :
    rowText reals (row.map Value.cut) = rowText reals row := by
  induction row using rowText.induct with
  | case1 => rfl
  | case2 v => exact quote_cut v
  | case3 v w row ih =>
    show quote reals v.cut ++ ',' :: rowText reals ((w :: row).map Value.cut) = _
    rw [quote_cut, ih]
    rfl

/-- **A row says where it ends**, among the rows of its width. -/
theorem rowText_ends {row row' : List (Value R)} (hlength : row.length = row'.length)
    (hne : row ≠ []) (h : rowText reals row ++ '\n' :: rest = rowText reals row' ++ '\n' :: rest') :
    row.map Value.cut = row'.map Value.cut ∧ rest = rest' := by
  induction row using rowText.induct generalizing row' with
  | case1 => exact absurd rfl hne
  | case2 v =>
    obtain ⟨w, rfl⟩ := List.length_eq_one_iff.mp hlength.symm
    obtain ⟨hcut, -, hrest⟩ := quote_ends (.inr rfl) (.inr rfl) h
    exact ⟨congrArg (fun v => [v]) hcut, hrest⟩
  | case3 v w row ih =>
    cases row' with
    | nil => cases hlength
    | cons v' tail =>
      cases tail with
      | nil => exact absurd (Nat.succ.inj hlength) (Nat.succ_ne_zero _)
      | cons w' row' =>
        rw [rowText, rowText, List.append_assoc, List.append_assoc, List.cons_append,
          List.cons_append] at h
        obtain ⟨hcut, -, htail⟩ := quote_ends (.inl rfl) (.inl rfl) h
        obtain ⟨hrow, hrest⟩ := ih (Nat.succ.inj hlength) (List.cons_ne_nil w row) htail
        refine ⟨?_, hrest⟩
        rw [List.map_cons, hcut, hrow]
        rfl

/-- The text of some row of a width. -/
def IsRowText (reals : RealText R) (width : Nat) (text : List Char) : Prop :=
  ∃ row : List (Value R), row.length = width ∧ rowText reals row = text

/-- **Rows of one width, one after another, are told apart**, by their texts. -/
theorem dump_inj {width : Nat} {texts texts' : List (List Char)} (hwidth : width ≠ 0)
    (htexts : ∀ text ∈ texts, IsRowText reals width text)
    (htexts' : ∀ text ∈ texts', IsRowText reals width text) (h : dump texts = dump texts') :
    texts = texts' := by
  induction texts generalizing texts' with
  | nil =>
    cases texts' with
    | nil => rfl
    | cons text texts' =>
      rw [dump, dump, List.flatMap_cons, List.append_assoc, List.singleton_append] at h
      exact absurd h.symm (List.append_ne_nil_of_right_ne_nil text (List.cons_ne_nil _ _))
  | cons text texts ih =>
    cases texts' with
    | nil =>
      rw [dump, dump, List.flatMap_cons, List.append_assoc, List.singleton_append] at h
      exact absurd h (List.append_ne_nil_of_right_ne_nil text (List.cons_ne_nil _ _))
    | cons text' texts' =>
      obtain ⟨row, hrow, rfl⟩ := htexts text List.mem_cons_self
      obtain ⟨row', hrow', rfl⟩ := htexts' text' List.mem_cons_self
      rw [dump, dump, List.flatMap_cons, List.flatMap_cons, List.append_assoc, List.append_assoc,
        List.singleton_append, List.singleton_append] at h
      have hne : row ≠ [] := fun hnil => hwidth (by rw [← hrow, hnil, List.length_nil])
      obtain ⟨hcut, hrest⟩ := rowText_ends (hrow.trans hrow'.symm) hne h
      have htext : rowText reals row = rowText reals row' := by
        rw [← rowText_cut reals row, hcut, rowText_cut]
      rw [htext, ih (fun t ht => htexts t (List.mem_cons_of_mem _ ht))
        (fun t ht => htexts' t (List.mem_cons_of_mem _ ht)) hrest]

/-- **Rows of one width have the same texts, in any order, exactly when they are the same rows**
    but for what follows a NUL. -/
theorem perm_rowText_iff {width : Nat} {rows rows' : List (List (Value R))} (hwidth : width ≠ 0)
    (hrows : ∀ row ∈ rows, row.length = width) (hrows' : ∀ row ∈ rows', row.length = width) :
    (rows.map (rowText reals)).Perm (rows'.map (rowText reals)) ↔
      (rows.map (List.map Value.cut)).Perm (rows'.map (List.map Value.cut)) := by
  have htexts : ∀ rows : List (List (Value R)), rows.map (rowText reals) =
      (rows.map (List.map Value.cut)).map (rowText reals) := by
    intro rows
    rw [List.map_map]
    exact List.map_congr_left fun row _ => (rowText_cut reals row).symm
  -- The rows of the width that are cut are told by their texts.
  let cutRows : Set (List (Value R)) := {row | row.length = width ∧ row.map Value.cut = row}
  have hinj : Set.InjOn (rowText reals) cutRows := by
    intro row hrow row' hrow' heq
    have hne : row ≠ [] := fun hnil => hwidth (by rw [← hrow.1, hnil, List.length_nil])
    have hline : rowText reals row ++ '\n' :: [] = rowText reals row' ++ '\n' :: [] := by rw [heq]
    have hends := rowText_ends (hrow.1.trans hrow'.1.symm) hne hline
    rw [← hrow.2, ← hrow'.2]
    exact hends.1
  have hmem : ∀ rows : List (List (Value R)), (∀ row ∈ rows, row.length = width) →
      ∀ row ∈ rows.map (List.map Value.cut), row ∈ cutRows := by
    intro rows hrows row hrow
    obtain ⟨r, hr, rfl⟩ := List.mem_map.mp hrow
    refine ⟨by rw [List.length_map, hrows r hr], ?_⟩
    rw [List.map_map]
    exact List.map_congr_left fun v _ => cut_cut v
  rw [htexts rows, htexts rows']
  constructor
  · intro h
    let back := Function.invFunOn (rowText reals) cutRows
    have hback : ∀ rows : List (List (Value R)), (∀ row ∈ rows, row ∈ cutRows) →
        (rows.map (rowText reals)).map back = rows := by
      intro rows hrows
      rw [List.map_map]
      conv_rhs => rw [← List.map_id rows]
      exact List.map_congr_left fun row hrow => hinj.leftInvOn_invFunOn (hrows row hrow)
    have := h.map back
    rwa [hback _ (hmem rows hrows), hback _ (hmem rows' hrows')] at this
  · exact fun h => h.map _

end SqlQuote
