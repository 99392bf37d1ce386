import MessageCrate.Lib.ByteLines
import MessageCrate.Lib.Runs
import MessageCrate.Lib.Text
import MessageCrate.Lib.Utf8Text

/- A state journal byte by byte (`crates/libs/journal/src/lib.rs`).

   An append writes one row and a newline, and a crash may cut it after any of its bytes; a
   compaction leaves the old file or the whole new one. `RowCodec` is the serde type of the
   events, with what its writer and reader are to each other.

   Correspondence (Rust ↔ Lean):
     `ends_in_a_torn_row`                  ↔ `endsInATornRow`
     the bytes `append` writes             ↔ `appended`
     `BufRead::lines`                      ↔ `bodyLines`, `lineText`
     `load_events`                         ↔ `loadEvents`, `loadLines`
     `compact_with`, `write_unlocked`      ↔ `compactWith`, `writeRows`

   1. `Shaped`: the file is lines of text and a last line without its newline, and its events
      are the lines that are rows.
   2. `loadEvents_shaped`: such a file loads as its events.
   3. `Shaped.append`: an append keeps the shape unless it is cut inside a character, and then
      the file does not load at all (`loadEvents_cut`).
   4. `journal_safe_iff`: in every run, every state loads as it should exactly when no append
      was cut so. -/
namespace MessageCrate.JournalBytes
open ByteLines Utf8 Text Runs

/-- How events are written as rows and read back. -/
structure RowCodec (E : Type) where
  write : E → List Char
  read : List Char → Option E
  object : ∀ e, ∃ rest, write e = '{' :: rest
  oneLine : ∀ e, ∀ c ∈ write e, c ≠ '\n' ∧ c ≠ '\r'
  read_write : ∀ e, read (write e) = some e
  /-- A row that breaks off is no row. -/
  read_cut : ∀ e cut, cut <+: write e → cut ≠ write e → read cut = none

variable {E : Type}

/-! Writing. -/

/-- Whether the journal is not empty and its last byte is not a newline. -/
def endsInATornRow (file : List UInt8) : Bool :=
  !file.isEmpty && decide (file.getLast? ≠ some 10)

/-- The newline that keeps the new row off a torn one. -/
def repair (file : List UInt8) : List UInt8 := if endsInATornRow file then [10] else []

def row (codec : RowCodec E) (e : E) : List UInt8 := encode (codec.write e)

/-- What `append` writes behind the file. -/
def appended (codec : RowCodec E) (file : List UInt8) (e : E) : List UInt8 :=
  repair file ++ row codec e ++ [10]

def writeRows (codec : RowCodec E) (events : List E) : List UInt8 :=
  events.flatMap (fun e => row codec e ++ [10])

/-! Reading. -/

/-- A line without its newline, and without a carriage return before that. -/
def lineText (line : List UInt8) : List UInt8 :=
  if line.getLast? = some 10 then
    if line.dropLast.getLast? = some 13 then line.dropLast.dropLast else line.dropLast
  else line

/-- The numbers of the lines that are corrupt, and the events. -/
def loadLines (codec : RowCodec E) (label : String) :
    Nat → List (List UInt8) → Except String (List Nat × List E)
  | _, [] => .ok ([], [])
  | i, line :: lines =>
    match decode (lineText line) with
    | none => .error ("read " ++ label ++ " line " ++ toString (i + 1))
    | some text =>
      match loadLines codec label (i + 1) lines with
      | .error error => .error error
      | .ok (corrupt, events) =>
        if trimChars text = [] then .ok (corrupt, events)
        else match codec.read text with
          | some e => .ok (corrupt, e :: events)
          | none => .ok ((i + 1) :: corrupt, events)

def loadEvents (codec : RowCodec E) (label : String) (file : List UInt8) :
    Except String (List Nat × List E) :=
  loadLines codec label 0 (bodyLines file)

/-- The file a compaction puts in the place of the old one. -/
def compactWith (codec : RowCodec E) (label : String) (rebuild : List E → List E)
    (file : List UInt8) : Except String (List UInt8) :=
  (loadEvents codec label file).map (fun loaded => writeRows codec (rebuild loaded.2))

/-! The shape of a journal. -/

section
variable {codec : RowCodec E} {label : String} {file : List UInt8} {events : List E} {e : E}
  {text last : List Char} {rows : List (List Char)} {i : Nat}

def OneLine (text : List Char) : Prop := ∀ c ∈ text, c ≠ '\n' ∧ c ≠ '\r'

def lineOf (text : List Char) : List UInt8 := encode text ++ [10]

/-- What a line of the file stands for. -/
def readRow (codec : RowCodec E) (text : List Char) : Option E :=
  if trimChars text = [] then none else codec.read text

theorem trimChars_write_ne : trimChars (codec.write e) ≠ [] := by
  obtain ⟨rest, hrest⟩ := codec.object e
  intro hnil
  obtain ⟨a, b, hparts, ha, hb⟩ := trimChars_parts (codec.write e)
  rw [hnil, List.nil_append] at hparts
  have hin : '{' ∈ codec.write e := by
    rw [hrest]
    exact List.mem_cons_self
  rw [hparts] at hin
  have hspace : isWhitespace '{' = true := by
    rcases List.mem_append.mp hin with hin | hin
    · exact ha _ hin
    · exact hb _ hin
  exact absurd hspace (by decide)

theorem readRow_write : readRow codec (codec.write e) = some e := by
  rw [readRow, if_neg trimChars_write_ne, codec.read_write]

theorem readRow_cut {before after : List Char} (h : codec.write e = before ++ after)
    (hafter : after ≠ []) : readRow codec before = none := by
  rw [readRow]
  split
  · rfl
  · refine codec.read_cut e before ⟨after, h.symm⟩ fun heq => hafter ?_
    rw [h] at heq
    exact List.append_right_eq_self.mp heq.symm

theorem readRow_nil : readRow codec [] = none := if_pos rfl

theorem notMem_newline (h : OneLine text) : (10 : UInt8) ∉ encode text :=
  notMem_encode (d := '\n') (by decide) fun hin => (h _ hin).1 rfl

theorem notMem_return (h : OneLine text) : (13 : UInt8) ∉ encode text :=
  notMem_encode (d := '\r') (by decide) fun hin => (h _ hin).2 rfl

theorem isBodyLine_lineOf (h : OneLine text) : IsBodyLine (lineOf text) :=
  ⟨encode text, notMem_newline h, rfl⟩

theorem lineText_lineOf (h : OneLine text) : lineText (lineOf text) = encode text := by
  rw [lineText, lineOf, if_pos List.getLast?_concat, List.dropLast_concat, if_neg]
  intro hlast
  exact notMem_return h (List.mem_of_getLast? hlast)

theorem lineText_encode (h : OneLine text) : lineText (encode text) = encode text := by
  rw [lineText, if_neg]
  intro hlast
  exact notMem_newline h (List.mem_of_getLast? hlast)

/-- Lines of text load as what they stand for. -/
theorem loadLines_ok : ∀ {rows : List (List Char)} {lines : List (List UInt8)} {i : Nat},
    List.Forall₂ (fun text line => lineText line = encode text) rows lines →
    ∃ corrupt, loadLines codec label i lines = .ok (corrupt, rows.filterMap (readRow codec))
  | _, _, i, .nil => ⟨[], rfl⟩
  | text :: rows, line :: lines, i, .cons hline hlines => by
    obtain ⟨corrupt, hrest⟩ := loadLines_ok (i := i + 1) hlines
    rw [loadLines, hline, decode_encode]
    simp only [hrest]
    by_cases hblank : trimChars text = []
    · rw [if_pos hblank, List.filterMap_cons_none (by rw [readRow, if_pos hblank])]
      exact ⟨corrupt, rfl⟩
    · rw [if_neg hblank]
      cases hread : codec.read text with
      | none =>
        rw [List.filterMap_cons_none (by rw [readRow, if_neg hblank, hread])]
        exact ⟨(i + 1) :: corrupt, rfl⟩
      | some e =>
        rw [List.filterMap_cons_some (by rw [readRow, if_neg hblank, hread])]
        exact ⟨corrupt, rfl⟩

/-- A line that is no text ends the load. -/
theorem loadLines_error : ∀ {lines : List (List UInt8)} {i : Nat},
    (∃ line ∈ lines, decode (lineText line) = none) →
    ∃ error, loadLines codec label i lines = .error error
  | line :: lines, i, h => by
    rw [loadLines]
    cases hdecode : decode (lineText line) with
    | none => exact ⟨_, rfl⟩
    | some text =>
      obtain ⟨bad, hbad, hnone⟩ := h
      have hrest : ∃ line ∈ lines, decode (lineText line) = none := by
        rcases List.mem_cons.mp hbad with rfl | hbad
        · rw [hdecode] at hnone
          cases hnone
        · exact ⟨bad, hbad, hnone⟩
      obtain ⟨error, herror⟩ := loadLines_error (i := i + 1) hrest
      simp only [herror]
      exact ⟨error, rfl⟩

/-- The file is lines of text and a last one without its newline, and the events are the lines
    that are rows. -/
structure Shaped (codec : RowCodec E) (file : List UInt8) (events : List E) (rows : List (List Char))
    (last : List Char) : Prop where
  bytes : file = (rows.map lineOf).flatten ++ encode last
  rows_oneLine : ∀ text ∈ rows, OneLine text
  last_oneLine : OneLine last
  events : events = (rows ++ [last]).filterMap (readRow codec)

theorem bodyLines_rows (h : ∀ text ∈ rows, OneLine text) (rest : List UInt8) :
    bodyLines ((rows.map lineOf).flatten ++ rest) = rows.map lineOf ++ bodyLines rest := by
  apply bodyLines_flatten_append
  intro line hline
  obtain ⟨text, htext, rfl⟩ := List.mem_map.mp hline
  exact isBodyLine_lineOf (h text htext)

theorem encode_eq_nil : encode text = [] ↔ text = [] := by
  constructor
  · intro h
    by_contra hne
    have hpos := size_pos hne
    rw [← length_encode, h, List.length_nil] at hpos
    exact lt_irrefl 0 hpos
  · rintro rfl
    rfl

theorem forall₂_lineOf (h : ∀ text ∈ rows, OneLine text) :
    List.Forall₂ (fun text line => lineText line = encode text) rows (rows.map lineOf) := by
  induction rows with
  | nil => exact .nil
  | cons text rows ih =>
    exact .cons (lineText_lineOf (h text List.mem_cons_self))
      (ih fun t ht => h t (List.mem_cons_of_mem text ht))

/-- A journal of that shape loads as its events. -/
theorem loadEvents_shaped (label : String) (h : Shaped codec file events rows last) :
    ∃ corrupt, loadEvents codec label file = .ok (corrupt, events) := by
  have hrows := forall₂_lineOf h.rows_oneLine
  rw [loadEvents, h.bytes, bodyLines_rows h.rows_oneLine, h.events]
  by_cases hlast : last = []
  · subst hlast
    rw [List.filterMap_append, List.filterMap_cons_none readRow_nil, List.filterMap_nil,
      List.append_nil]
    show ∃ corrupt, loadLines codec label 0 (rows.map lineOf ++ []) = _
    rw [List.append_nil]
    exact loadLines_ok hrows
  · rw [bodyLines_rest (notMem_newline h.last_oneLine) (mt encode_eq_nil.mp hlast)]
    exact loadLines_ok (List.rel_append hrows (.cons (lineText_encode h.last_oneLine) .nil))

/-- What follows the rows is no text: the file does not load. -/
theorem loadEvents_cut {cut : List UInt8} (hrows : ∀ text ∈ rows, OneLine text)
    (hnew : (10 : UInt8) ∉ cut) (hcut : decode cut = none) :
    ∃ error, loadEvents codec label ((rows.map lineOf).flatten ++ cut) = .error error := by
  have hne : cut ≠ [] := by
    rintro rfl
    rw [← encode_nil, decode_encode] at hcut
    cases hcut
  rw [loadEvents, bodyLines_rows hrows, bodyLines_rest hnew hne]
  refine loadLines_error ⟨cut, List.mem_append_right _ (List.mem_singleton_self cut), ?_⟩
  rw [lineText, if_neg fun hlast => hnew (List.mem_of_getLast? hlast)]
  exact hcut

/-! The repair. -/

/-- The last row once the repair has given it its newline. -/
def ended (rows : List (List Char)) (last : List Char) : List (List Char) :=
  if last = [] then rows else rows ++ [last]

theorem endsInATornRow_eq (h : Shaped codec file events rows last) :
    endsInATornRow file = decide (last ≠ []) := by
  rw [endsInATornRow, h.bytes]
  by_cases hlast : last = []
  · subst hlast
    rw [encode_nil, List.append_nil]
    cases rows.eq_nil_or_concat with
    | inl hnil =>
      rw [hnil]
      rfl
    | inr hconcat =>
      obtain ⟨before, text, rfl⟩ := hconcat
      rw [List.concat_eq_append, List.map_append, List.flatten_append, List.map_singleton,
        List.flatten_singleton, lineOf, ← List.append_assoc, List.getLast?_concat]
      simp
  · have hne : encode last ≠ [] := mt encode_eq_nil.mp hlast
    have hbyte : ((rows.map lineOf).flatten ++ encode last).getLast? ≠ some 10 := by
      rw [List.getLast?_append_of_ne_nil _ hne]
      intro hget
      exact notMem_newline h.last_oneLine (List.mem_of_getLast? hget)
    rw [decide_eq_true hbyte, decide_eq_true hlast, Bool.and_true, Bool.not_eq_true',
      List.isEmpty_eq_false_iff]
    exact List.append_ne_nil_of_right_ne_nil _ hne

theorem file_repair (h : Shaped codec file events rows last) :
    file ++ repair file = ((ended rows last).map lineOf).flatten := by
  rw [repair, endsInATornRow_eq h, ended]
  by_cases hlast : last = []
  · subst hlast
    rw [if_neg (by simp), if_pos rfl, h.bytes, encode_nil, List.append_nil, List.append_nil]
  · rw [if_pos (by simp [hlast]), if_neg hlast, h.bytes, List.map_append, List.flatten_append,
      List.map_singleton, List.flatten_singleton, lineOf, List.append_assoc]

theorem ended_oneLine (h : Shaped codec file events rows last) :
    ∀ text ∈ ended rows last, OneLine text := by
  intro text htext
  rw [ended] at htext
  split at htext
  · exact h.rows_oneLine text htext
  · rcases List.mem_append.mp htext with hin | hin
    · exact h.rows_oneLine text hin
    · rw [List.mem_singleton.mp hin]
      exact h.last_oneLine

theorem filterMap_ended (h : Shaped codec file events rows last) :
    (ended rows last).filterMap (readRow codec) = events := by
  rw [h.events, ended]
  split
  · next hlast =>
    rw [hlast, List.filterMap_append, List.filterMap_cons_none readRow_nil, List.filterMap_nil,
      List.append_nil]
  · rfl

/-! One append. -/

theorem row_length : (row codec e).length = size (codec.write e) := length_encode _

theorem row_ne_nil : codec.write e ≠ [] := by
  obtain ⟨rest, hrest⟩ := codec.object e
  rw [hrest]
  exact List.cons_ne_nil _ _

/-- How many bytes of the row itself a cut append has written. -/
def rowBytes (codec : RowCodec E) (file : List UInt8) (e : E) (reached : Nat) : Nat :=
  min (reached - (repair file).length) (size (codec.write e))

theorem appended_length :
    (appended codec file e).length = (repair file).length + size (codec.write e) + 1 := by
  rw [appended, List.length_append, List.length_append, row_length, List.length_singleton]

/-- A cut before the row itself. -/
theorem take_repair {reached : Nat} (h : reached < (repair file).length) :
    (appended codec file e).take reached = [] := by
  have hone : (repair file).length ≤ 1 := by
    rw [repair]
    split
    · exact le_refl 1
    · exact Nat.zero_le 1
  have hzero : reached = 0 := by omega
  rw [hzero, List.take_zero]

theorem take_appended {reached : Nat} (h : (repair file).length ≤ reached) :
    (appended codec file e).take reached =
      repair file ++ (row codec e ++ [10]).take (reached - (repair file).length) := by
  rw [appended, List.append_assoc, List.take_append, List.take_of_length_le h]

/-- What the event of a first part of a row is. -/
theorem filterMap_before {before after : List Char} (h : Shaped codec file events rows last)
    (hwrite : codec.write e = before ++ after) :
    (ended rows last ++ [before]).filterMap (readRow codec) =
      if after = [] then events ++ [e] else events := by
  rw [List.filterMap_append, filterMap_ended h]
  split
  · next hafter =>
    rw [hafter, List.append_nil] at hwrite
    rw [← hwrite, List.filterMap_cons_some readRow_write, List.filterMap_nil]
  · next hafter =>
    rw [List.filterMap_cons_none (readRow_cut hwrite hafter), List.filterMap_nil, List.append_nil]

/-- **An append** that is not cut inside a character keeps the shape, and adds its event once all
    of its row is there. -/
theorem Shaped.append {reached : Nat} (h : Shaped codec file events rows last)
    (hcut : IsBoundary (codec.write e) (rowBytes codec file e reached)) :
    ∃ rows' last', Shaped codec (file ++ (appended codec file e).take reached)
      (if (appended codec file e).length ≤ reached + 1 then events ++ [e] else events)
      rows' last' := by
  have hpos : 0 < size (codec.write e) := size_pos row_ne_nil
  rw [appended_length]
  by_cases hrepair : reached < (repair file).length
  · rw [take_repair hrepair, List.append_nil, if_neg (by omega)]
    exact ⟨rows, last, h⟩
  · rw [take_appended (not_lt.mp hrepair), ← List.append_assoc, file_repair h]
    by_cases hwhole : size (codec.write e) < reached - (repair file).length
    · rw [List.take_of_length_le (by rw [List.length_append, row_length, List.length_singleton]; omega),
        if_pos (by omega)]
      refine ⟨ended rows last ++ [codec.write e], [], ?_, ?_, ?_, ?_⟩
      · rw [encode_nil, List.append_nil, List.map_append, List.flatten_append, List.map_singleton,
          List.flatten_singleton]
        rfl
      · intro text htext
        rcases List.mem_append.mp htext with hin | hin
        · exact ended_oneLine h text hin
        · rw [List.mem_singleton.mp hin]
          exact codec.oneLine e
      · exact fun c hc => absurd hc List.not_mem_nil
      · rw [List.filterMap_append, List.filterMap_append, filterMap_ended h,
          List.filterMap_cons_some readRow_write, List.filterMap_nil,
          List.filterMap_cons_none readRow_nil, List.filterMap_nil, List.append_nil]
    · obtain ⟨before, after, hwrite, hsize⟩ := hcut
      rw [rowBytes, Nat.min_eq_left (not_lt.mp hwhole)] at hsize
      have htake : (row codec e ++ [10]).take (reached - (repair file).length) = encode before := by
        rw [List.take_append_of_le_length (by rw [row_length]; omega), hsize, row, hwrite, take_encode]
      rw [htake]
      refine ⟨ended rows last, before, rfl, ended_oneLine h, ?_, ?_⟩
      · intro c hc
        refine codec.oneLine e c ?_
        rw [hwrite]
        exact List.mem_append_left _ hc
      · rw [filterMap_before h hwrite]
        have hsum : size (codec.write e) = size before + size after := by
          rw [hwrite, size_append]
        by_cases hafter : after = []
        · subst hafter
          rw [size_nil] at hsum
          rw [if_pos rfl, if_pos (by omega)]
        · have hrest := size_pos hafter
          rw [if_neg hafter, if_neg (by omega)]

/-- **An append** that is cut inside a character leaves a file that does not load. -/
theorem loadEvents_append_cut (label : String) {reached : Nat}
    (h : Shaped codec file events rows last)
    (hcut : ¬ IsBoundary (codec.write e) (rowBytes codec file e reached)) :
    ∃ error, loadEvents codec label (file ++ (appended codec file e).take reached) =
      .error error := by
  have hstart : IsBoundary (codec.write e) 0 := ⟨[], codec.write e, rfl, rfl⟩
  have hend : IsBoundary (codec.write e) (size (codec.write e)) :=
    ⟨codec.write e, [], (List.append_nil _).symm, rfl⟩
  have hrepair : (repair file).length ≤ reached := by
    by_contra hlt
    rw [rowBytes, Nat.sub_eq_zero_of_le (by omega), Nat.zero_min] at hcut
    exact hcut hstart
  have hinside : reached - (repair file).length < size (codec.write e) := by
    by_contra hle
    rw [rowBytes, Nat.min_eq_right (not_lt.mp hle)] at hcut
    exact hcut hend
  rw [rowBytes, Nat.min_eq_left hinside.le] at hcut
  rw [take_appended hrepair, ← List.append_assoc, file_repair h,
    List.take_append_of_le_length (by rw [row_length]; exact hinside.le)]
  refine loadEvents_cut (ended_oneLine h) ?_ (decode_take_none hinside.le hcut)
  exact fun hin => notMem_newline (codec.oneLine e) (List.mem_of_mem_take hin)

theorem shaped_writeRows (codec : RowCodec E) (events : List E) :
    Shaped codec (writeRows codec events) events (events.map codec.write) [] where
  bytes := by
    rw [encode_nil, List.append_nil, writeRows, List.map_map, List.flatMap_def]
    rfl
  rows_oneLine := by
    intro text htext
    obtain ⟨e, -, rfl⟩ := List.mem_map.mp htext
    exact codec.oneLine e
  last_oneLine := fun c hc => absurd hc List.not_mem_nil
  events := by
    rw [List.filterMap_append, List.filterMap_cons_none readRow_nil, List.filterMap_nil,
      List.append_nil, List.filterMap_map]
    have hread : readRow codec ∘ codec.write = some := by
      funext e
      exact readRow_write
    rw [hread, List.filterMap_some]

end

/-! Runs. -/

/-- The file, and the events that a reader of it is to find. -/
structure Journal (E : Type) where
  file : List UInt8
  events : List E

/-- One append, of which so many bytes reach the file, or one compaction, renamed into place or
    not. -/
inductive Step (E : Type) where
  | append (e : E) (reached : Nat)
  | compact (rebuild : List E → List E) (renamed : Bool)

section
variable (codec : RowCodec E) (label : String) (newline : Bool)

/-- The append is written whole. Whether its newline belongs to it is `newline`. -/
def whole (file : List UInt8) (e : E) (reached : Nat) : Bool :=
  decide ((appended codec file e).length ≤ reached + if newline then 0 else 1)

def next (s : Journal E) : Step E → Journal E
  | .append e reached =>
    { file := s.file ++ (appended codec s.file e).take reached
      events := if whole codec newline s.file e reached then s.events ++ [e] else s.events }
  | .compact rebuild renamed =>
    match renamed, compactWith codec label rebuild s.file with
    | true, .ok file => ⟨file, rebuild s.events⟩
    | _, _ => s

/-- The journal loads, and as the events that were written whole. -/
def Loads (s : Journal E) : Prop :=
  ∃ corrupt, loadEvents codec label s.file = .ok (corrupt, s.events)

/-- The append is not cut inside a character, nor between the row and its newline when that
    belongs to it. -/
def CleanCut (s : Journal E) : Step E → Prop
  | .append e reached => IsBoundary (codec.write e) (rowBytes codec s.file e reached) ∧
      (newline = true → reached + 1 ≠ (appended codec s.file e).length)
  | .compact _ _ => True

end

section
variable {codec : RowCodec E} {label : String} {newline : Bool} {s : Journal E} {step : Step E}

theorem next_keeps (hs : ∃ rows last, Shaped codec s.file s.events rows last)
    (hcut : CleanCut codec newline s step) :
    ∃ rows last, Shaped codec (next codec label newline s step).file
      (next codec label newline s step).events rows last := by
  obtain ⟨rows, last, h⟩ := hs
  cases step with
  | append e reached =>
    obtain ⟨hboundary, hnewline⟩ := hcut
    have hwhole : whole codec newline s.file e reached =
        decide ((appended codec s.file e).length ≤ reached + 1) := by
      rw [whole]
      cases newline with
      | false => rfl
      | true =>
        have hne := hnewline rfl
        apply decide_eq_decide.mpr
        simp only [if_true, Nat.add_zero]
        omega
    obtain ⟨rows', last', h'⟩ := h.append hboundary
    refine ⟨rows', last', ?_⟩
    rw [next, hwhole]
    simpa only [decide_eq_true_eq] using h'
  | compact rebuild renamed =>
    obtain ⟨corrupt, hload⟩ := loadEvents_shaped label h
    have hfile : compactWith codec label rebuild s.file =
        .ok (writeRows codec (rebuild s.events)) := by
      rw [compactWith, hload]
      rfl
    simp only [next, hfile]
    cases renamed with
    | false => exact ⟨rows, last, h⟩
    | true => exact ⟨_, _, shaped_writeRows codec (rebuild s.events)⟩

/-- Between a row and its newline the event is there before it is to be. -/
theorem next_breaks (hs : ∃ rows last, Shaped codec s.file s.events rows last)
    (hcut : ¬ CleanCut codec newline s step) : ¬ Loads codec label (next codec label newline s step) := by
  obtain ⟨rows, last, h⟩ := hs
  cases step with
  | append e reached =>
    rintro ⟨corrupt, hload⟩
    by_cases hboundary : IsBoundary (codec.write e) (rowBytes codec s.file e reached)
    · have hnewline : newline = true ∧ reached + 1 = (appended codec s.file e).length := by
        by_contra hno
        exact hcut ⟨hboundary, fun hn heq => hno ⟨hn, heq⟩⟩
      obtain ⟨hn, heq⟩ := hnewline
      obtain ⟨rows', last', h'⟩ := h.append hboundary
      obtain ⟨corrupt', hload'⟩ := loadEvents_shaped label h'
      have hwhole : whole codec newline s.file e reached = false := by
        rw [whole, hn, ← heq]
        simp
      rw [next, hwhole, hload', if_pos (by omega)] at hload
      simp at hload
    · obtain ⟨error, herror⟩ := loadEvents_append_cut label h hboundary
      rw [next, herror] at hload
      cases hload
  | compact rebuild renamed => exact absurd trivial hcut

/-- **A journal of any run** loads in every state as the events that were written whole, exactly
    when every append is cut cleanly. -/
theorem journal_safe_iff (steps : List (Step E)) :
    (∀ pre post, steps = pre ++ post →
      Loads codec label (pre.foldl (next codec label newline) ⟨[], []⟩)) ↔
    ∀ pre step post, steps = pre ++ step :: post →
      CleanCut codec newline (pre.foldl (next codec label newline) ⟨[], []⟩) step := by
  have hempty : Shaped codec [] ([] : List E) [] [] := shaped_writeRows codec []
  exact safe_iff_meets (I := fun s : Journal E => ∃ rows last, Shaped codec s.file s.events rows last)
    ⟨[], [], hempty⟩ (fun s ⟨rows, last, h⟩ => loadEvents_shaped label h)
    (fun s step hs hcut => next_keeps hs hcut) (fun s step hs hcut => next_breaks hs hcut) steps

end

end MessageCrate.JournalBytes
