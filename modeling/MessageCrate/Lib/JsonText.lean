import Mathlib.Data.List.Basic
import Mathlib.Data.List.Infix

/- Compact JSON text, written.

   A text that says where it ends (`Delimits`) can be followed by anything and still be told
   apart from every other. Strings, arrays of such texts and objects with such texts for fields
   say where they end (`delimits_quoted`, `delimits_array`, `delimits_object`); so no two of
   them share a text, and none breaks off into another (`Delimits.injective`,
   `Delimits.ne_of_cut`). -/
namespace JsonText

variable {α β : Type} {write : α → List Char}

/-- Whatever follows, the text says what was written and where it ends. -/
def Delimits (write : α → List Char) : Prop :=
  ∀ a b rest rest', write a ++ rest = write b ++ rest' → a = b ∧ rest = rest'

theorem Delimits.injective (h : Delimits write) : Function.Injective write := fun a b hab =>
  (h a b [] [] (by rw [hab])).1

/-- A text that breaks off is the text of nothing. -/
theorem Delimits.ne_of_cut (h : Delimits write) {a b : α} {cut : List Char} (hcut : cut <+: write a)
    (hne : cut ≠ write a) : write b ≠ cut := by
  intro hb
  obtain ⟨rest, hrest⟩ := hcut
  rw [← hb] at hrest
  obtain ⟨rfl, -⟩ := h b a rest [] (by rw [hrest, List.append_nil])
  exact hne hb.symm

theorem Delimits.comp (h : Delimits write) {f : β → α} (hf : Function.Injective f) :
    Delimits (fun b => write (f b)) := by
  intro a b rest rest' heq
  obtain ⟨hab, hrest⟩ := h _ _ _ _ heq
  exact ⟨hf hab, hrest⟩

/-! Strings. -/

def hexDigit (n : Nat) : Char := "0123456789abcdef".toList.getD n '0'

/-- A character as it stands in a string. -/
def escape (c : Char) : List Char :=
  if c = '"' then ['\\', '"']
  else if c = '\\' then ['\\', '\\']
  else if c = Char.ofNat 8 then ['\\', 'b']
  else if c = '\t' then ['\\', 't']
  else if c = '\n' then ['\\', 'n']
  else if c = Char.ofNat 12 then ['\\', 'f']
  else if c = '\r' then ['\\', 'r']
  else if c.toNat < 32 then
    ['\\', 'u', '0', '0', hexDigit (c.toNat / 16), hexDigit (c.toNat % 16)]
  else [c]

def hexValue (c : Char) : Nat := "0123456789abcdef".toList.idxOf c

/-- The character at the front of a string's text, and the text after it. -/
def unescape : List Char → Option (Char × List Char)
  | [] => none
  | c :: rest =>
    if c = '"' then none
    else if c ≠ '\\' then some (c, rest)
    else match rest with
      | [] => none
      | d :: rest =>
        if d = 'b' then some (Char.ofNat 8, rest)
        else if d = 't' then some ('\t', rest)
        else if d = 'n' then some ('\n', rest)
        else if d = 'f' then some (Char.ofNat 12, rest)
        else if d = 'r' then some ('\r', rest)
        else if d = 'u' then
          some (Char.ofNat (16 * hexValue ((rest.drop 2).headD '0') + hexValue ((rest.drop 3).headD '0')),
            rest.drop 4)
        else some (d, rest)

theorem hexValue_hexDigit : ∀ n < 16, hexValue (hexDigit n) = n := by decide

theorem unescape_escape (c : Char) (rest : List Char) : unescape (escape c ++ rest) = some (c, rest) := by
  unfold escape
  split
  · next h => rw [h]; rfl
  split
  · next h => rw [h]; rfl
  split
  · next h => rw [h]; rfl
  split
  · next h => rw [h]; rfl
  split
  · next h => rw [h]; rfl
  split
  · next h => rw [h]; rfl
  split
  · next h => rw [h]; rfl
  split
  · next hlow =>
    have hhigh : c.toNat / 16 < 16 := by omega
    have hdigit : c.toNat % 16 < 16 := Nat.mod_lt _ (by decide)
    show some (Char.ofNat (16 * hexValue (hexDigit (c.toNat / 16)) +
      hexValue (hexDigit (c.toNat % 16))), rest) = _
    rw [hexValue_hexDigit _ hhigh, hexValue_hexDigit _ hdigit, Nat.div_add_mod, Char.ofNat_toNat]
  · next hquote hslash _ _ _ _ _ _ =>
    show (if c = '"' then none else if c ≠ '\\' then some (c, rest) else _) = _
    rw [if_neg hquote, if_pos hslash]

def quoted (s : String) : List Char := '"' :: (s.toList.flatMap escape ++ ['"'])

theorem delimits_body : ∀ (cs ds rest rest' : List Char),
    cs.flatMap escape ++ '"' :: rest = ds.flatMap escape ++ '"' :: rest' → cs = ds ∧ rest = rest'
  | [], [], rest, rest', h => ⟨rfl, List.cons.inj h |>.2⟩
  | [], d :: ds, rest, rest', h => by
    rw [List.flatMap_nil, List.nil_append, List.flatMap_cons, List.append_assoc] at h
    have hfront := congrArg unescape h
    rw [unescape_escape] at hfront
    cases hfront
  | c :: cs, [], rest, rest', h => by
    rw [List.flatMap_nil, List.nil_append, List.flatMap_cons, List.append_assoc] at h
    have hfront := congrArg unescape h
    rw [unescape_escape] at hfront
    cases hfront
  | c :: cs, d :: ds, rest, rest', h => by
    rw [List.flatMap_cons, List.flatMap_cons, List.append_assoc, List.append_assoc] at h
    have hfront := congrArg unescape h
    rw [unescape_escape, unescape_escape] at hfront
    obtain ⟨rfl, htail⟩ := Prod.mk.inj (Option.some.inj hfront)
    obtain ⟨rfl, hrest⟩ := delimits_body cs ds rest rest' htail
    exact ⟨rfl, hrest⟩

theorem delimits_quoted : Delimits quoted := by
  intro a b rest rest' h
  rw [quoted, quoted, List.cons_append, List.cons_append, List.append_assoc, List.append_assoc] at h
  have htail := (List.cons.inj h).2
  obtain ⟨hchars, hrest⟩ := delimits_body _ _ _ _ htail
  exact ⟨String.toList_injective hchars, hrest⟩

/-- A string's text is one line. -/
theorem mem_quoted {s : String} {c : Char} (h : c ∈ quoted s) : c ≠ '\n' ∧ c ≠ '\r' := by
  have hescape : ∀ d, ∀ c ∈ escape d, c ≠ '\n' ∧ c ≠ '\r' := by
    intro d c hc
    have hhex : ∀ n < 16, hexDigit n ≠ '\n' ∧ hexDigit n ≠ '\r' := by decide
    have hpair : ∀ x, x ≠ '\n' → x ≠ '\r' → c ∈ ['\\', x] → c ≠ '\n' ∧ c ≠ '\r' := by
      intro x hnewline hreturn hc
      obtain rfl | hc := List.mem_cons.mp hc
      · decide
      · rw [List.mem_singleton.mp hc]
        exact ⟨hnewline, hreturn⟩
    unfold escape at hc
    split at hc
    · exact hpair _ (by decide) (by decide) hc
    split at hc
    · exact hpair _ (by decide) (by decide) hc
    split at hc
    · exact hpair _ (by decide) (by decide) hc
    split at hc
    · exact hpair _ (by decide) (by decide) hc
    split at hc
    · exact hpair _ (by decide) (by decide) hc
    split at hc
    · exact hpair _ (by decide) (by decide) hc
    split at hc
    · exact hpair _ (by decide) (by decide) hc
    split at hc
    · next hlow =>
      have hhigh : d.toNat / 16 < 16 := by omega
      have hdigit : d.toNat % 16 < 16 := Nat.mod_lt _ (by decide)
      simp only [List.mem_cons, List.not_mem_nil, or_false] at hc
      rcases hc with rfl | rfl | rfl | rfl | rfl | rfl
      · decide
      · decide
      · decide
      · decide
      · exact hhex _ hhigh
      · exact hhex _ hdigit
    · next hnewline _ hreturn _ =>
      rw [List.mem_singleton.mp hc]
      exact ⟨hnewline, hreturn⟩
  rcases List.mem_cons.mp h with rfl | h
  · decide
  · rcases List.mem_append.mp h with h | h
    · obtain ⟨d, -, hc⟩ := List.mem_flatMap.mp h
      exact hescape d c hc
    · rw [List.mem_singleton.mp h]
      decide

/-! Arrays and objects. -/

/-- Texts one after another, with commas between them. -/
def commas (write : α → List Char) : List α → List Char
  | [] => []
  | [a] => write a
  | a :: b :: l => write a ++ ',' :: commas write (b :: l)

/-- With commas between them and a bracket after them, such texts say where they end. -/
theorem commas_inj (h : Delimits write) {close : Char} (hcomma : close ≠ ',')
    (hclose : ∀ a rest rest', write a ++ rest ≠ close :: rest') : ∀ (l m : List α) (rest rest' : List Char),
    commas write l ++ close :: rest = commas write m ++ close :: rest' → l = m ∧ rest = rest'
  | [], [], rest, rest', heq => ⟨rfl, (List.cons.inj heq).2⟩
  | [], [b], rest, rest', heq => absurd heq.symm (hclose b _ _)
  | [], b :: b' :: m, rest, rest', heq => by
    rw [commas, commas, List.append_assoc] at heq
    exact absurd heq.symm (hclose b _ _)
  | [a], [], rest, rest', heq => absurd heq (hclose a _ _)
  | a :: a' :: l, [], rest, rest', heq => by
    rw [commas, commas, List.append_assoc] at heq
    exact absurd heq (hclose a _ _)
  | [a], [b], rest, rest', heq => by
    obtain ⟨rfl, htail⟩ := h a b _ _ heq
    exact ⟨rfl, (List.cons.inj htail).2⟩
  | [a], b :: b' :: m, rest, rest', heq => by
    rw [commas, commas, List.append_assoc] at heq
    obtain ⟨-, htail⟩ := h a b _ _ heq
    exact absurd (List.cons.inj htail).1 hcomma
  | a :: a' :: l, [b], rest, rest', heq => by
    rw [commas, commas, List.append_assoc] at heq
    obtain ⟨-, htail⟩ := h a b _ _ heq
    exact absurd (List.cons.inj htail).1.symm hcomma
  | a :: a' :: l, b :: b' :: m, rest, rest', heq => by
    rw [commas, commas, List.append_assoc, List.append_assoc] at heq
    obtain ⟨rfl, htail⟩ := h a b _ _ heq
    obtain ⟨hlists, hrest⟩ := commas_inj h hcomma hclose (a' :: l) (b' :: m) rest rest'
      (List.cons.inj htail).2
    exact ⟨by rw [hlists], hrest⟩

theorem mem_commas {c : Char} : ∀ {l : List α}, c ∈ commas write l → c = ',' ∨ ∃ a ∈ l, c ∈ write a
  | [], h => absurd h List.not_mem_nil
  | [a], h => .inr ⟨a, List.mem_singleton_self a, h⟩
  | a :: b :: l, h => by
    rw [commas, List.mem_append, List.mem_cons] at h
    rcases h with h | h | h
    · exact .inr ⟨a, List.mem_cons_self, h⟩
    · exact .inl h
    · rcases mem_commas h with h | ⟨d, hd, h⟩
      · exact .inl h
      · exact .inr ⟨d, List.mem_cons_of_mem a hd, h⟩

def array (write : α → List Char) (l : List α) : List Char := '[' :: (commas write l ++ [']'])

def field (write : α → List Char) (f : String × α) : List Char := quoted f.1 ++ ':' :: write f.2

def object (write : α → List Char) (fields : List (String × α)) : List Char :=
  '{' :: (commas (field write) fields ++ ['}'])

theorem delimits_array (h : Delimits write) (hclose : ∀ a rest rest', write a ++ rest ≠ ']' :: rest') :
    Delimits (array write) := by
  intro l m rest rest' heq
  rw [array, array, List.cons_append, List.cons_append, List.append_assoc, List.append_assoc] at heq
  have htail := (List.cons.inj heq).2
  exact commas_inj h (by decide) hclose l m rest rest' htail

theorem delimits_field (h : Delimits write) : Delimits (field write) := by
  intro ⟨key, value⟩ ⟨key', value'⟩ rest rest' heq
  rw [field, field, List.append_assoc, List.append_assoc] at heq
  obtain ⟨hkey, htail⟩ := delimits_quoted _ _ _ _ heq
  obtain ⟨hvalue, hrest⟩ := h _ _ _ _ (List.cons.inj htail).2
  exact ⟨Prod.ext hkey hvalue, hrest⟩

theorem delimits_object (h : Delimits write) : Delimits (object write) := by
  intro l m rest rest' heq
  rw [object, object, List.cons_append, List.cons_append, List.append_assoc, List.append_assoc] at heq
  have htail := (List.cons.inj heq).2
  refine commas_inj (delimits_field h) (by decide) ?_ l m rest rest' htail
  intro f rest rest' hquote
  exact absurd (List.cons.inj hquote).1 (by decide)

end JsonText
