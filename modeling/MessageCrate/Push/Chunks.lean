import MessageCrate.Lib.ByteLines
import MessageCrate.Lib.Packing
import MessageCrate.Push.Settle

/- What the chunks of a conversation hold (`crates/libs/push/src/prepare.rs`,
   `build_import_chunks` and `ChunkBuilder`).

   1. `Building`: the builder holds the lines so far, cut into groups that keep to both limits
      as long as no line overflows a chunk of its own.
   2. `build_cut`: what `build_import_chunks` returns is the lines that are to be sent, cut. A
      line that overflows a chunk of its own goes into one all the same, since the check for it
      leaves the header out (`cut_iff_fits`). -/
namespace MessageCrate
open ByteLines Packing

/-! A conversation. -/

/-- What `build_import_chunks` is given: a conversation file as a worker has read it, its header
    and messages encoded as lines, and what each look into the journal finds. -/
structure EncodedFile where
  name : String
  force : Bool
  held : StagedLine → Bool
  file : StagedFile
  headerLine_isLine : IsBodyLine file.headerLine
  lines_areLines : ∀ l ∈ file.lines, IsBodyLine l.line

namespace EncodedFile

/-- The lines the journal does not hold; with `force` every line. -/
def toSend (c : EncodedFile) : List StagedLine :=
  c.file.lines.filter (fun l => !(!c.force && c.held l))

def build (c : EncodedFile) (batchSize : Nat) : Except String (List ImportChunk) :=
  buildImportChunks c.force batchSize c.held c.name c.file

/-- The chunk that lines make. -/
def chunkOf (c : EncodedFile) (lines : List StagedLine) : ImportChunk where
  body := c.file.headerLine ++ (lines.map StagedLine.line).flatten
  messages := lines.map (fun l => ⟨c.name, l.guid⟩)
  fileLines := 1 :: lines.map StagedLine.fileLine

/-- A chunk is right when it is the header and some lines, each with its message and its place in
    the staged file, and keeps to both limits. -/
structure RightChunk (c : EncodedFile) (batchSize : Nat) (lines : List StagedLine)
    (chunk : ImportChunk) : Prop where
  body : chunk.body = c.file.headerLine ++ (lines.map StagedLine.line).flatten
  bodyLines : bodyLines chunk.body = c.file.headerLine :: lines.map StagedLine.line
  messages : chunk.messages = lines.map (fun l => ⟨c.name, l.guid⟩)
  fileLines : chunk.fileLines = 1 :: lines.map StagedLine.fileLine
  atLeastOne : 1 ≤ chunk.messages.length
  atMost : chunk.messages.length ≤ batchSize
  fits : chunk.body.length ≤ maxImportBodyBytes

/-- The chunks hold the lines to be sent, in order, each once. -/
def Cut (c : EncodedFile) (batchSize : Nat) (chunks : List ImportChunk) : Prop :=
  ∃ groups : List (List StagedLine), groups.flatten = c.toSend ∧
    List.Forall₂ (c.RightChunk batchSize) groups chunks

/-- No line to be sent overflows a chunk together with the header, unless one overflows it
    alone: then nothing is built. -/
def Fits (c : EncodedFile) : Prop :=
  (∃ l ∈ c.toSend, maxImportBodyBytes < l.line.length) ∨
    ∀ l ∈ c.toSend, c.file.headerLine.length + l.line.length ≤ maxImportBodyBytes

end EncodedFile

/-! The builder. -/

section
variable {c : EncodedFile} {batchSize : Nat} {b : ChunkBuilder} {items current : List StagedLine}
  {closed : List (List StagedLine)} {l : StagedLine}

/-- A group of lines keeps to the count, and to the byte limit when each of its lines does with
    the header. -/
def EncodedFile.GroupFits (c : EncodedFile) (batchSize : Nat) (lines : List StagedLine) : Prop :=
  lines.length ≤ batchSize ∧
    ((∀ l ∈ lines, c.file.headerLine.length + l.line.length ≤ maxImportBodyBytes) →
      (c.chunkOf lines).body.length ≤ maxImportBodyBytes)

/-- What the builder holds once it has been given `items`. -/
structure Building (c : EncodedFile) (batchSize : Nat) (items : List StagedLine)
    (closed : List (List StagedLine)) (current : List StagedLine) (b : ChunkBuilder) : Prop where
  packed : Packed (c.GroupFits batchSize) items closed current
  headerLine : b.headerLine = c.file.headerLine
  maxMessages : b.maxMessages = batchSize
  maxBodyBytes : b.maxBodyBytes = maxImportBodyBytes
  chunks : b.chunks = closed.map c.chunkOf
  body : b.body = (c.chunkOf current).body
  messages : b.messages = (c.chunkOf current).messages
  fileLines : b.fileLines = (c.chunkOf current).fileLines

theorem building_new : Building c batchSize [] [] []
    (.new c.file.headerLine batchSize maxImportBodyBytes) where
  packed := .start
  headerLine := rfl
  maxMessages := rfl
  maxBodyBytes := rfl
  chunks := rfl
  body := by simp [EncodedFile.chunkOf, ChunkBuilder.new]
  messages := rfl
  fileLines := rfl

theorem Building.messages_nil (h : Building c batchSize items closed current b) :
    b.messages = [] ↔ current = [] := by
  rw [h.messages, EncodedFile.chunkOf, List.map_eq_nil_iff]

theorem Building.sealed (h : Building c batchSize items closed current b) (hcurrent : current ≠ []) :
    Building c batchSize items (closed ++ [current]) [] b.sealChunk where
  packed := h.packed.close hcurrent
  headerLine := h.headerLine
  maxMessages := h.maxMessages
  maxBodyBytes := h.maxBodyBytes
  chunks := by
    show b.chunks ++ [⟨b.body, b.messages, b.fileLines⟩] = _
    rw [h.chunks, h.body, h.messages, h.fileLines, List.map_append]
    rfl
  body := by
    show b.headerLine = _
    simp [EncodedFile.chunkOf, h.headerLine]
  messages := rfl
  fileLines := rfl

theorem chunkOf_body_snoc :
    (c.chunkOf (current ++ [l])).body = (c.chunkOf current).body ++ l.line := by
  simp [EncodedFile.chunkOf]

/-- A line joins the current chunk. -/
theorem Building.add (h : Building c batchSize items closed current b)
    (hfits : c.GroupFits batchSize (current ++ [l])) :
    Building c batchSize (items ++ [l]) closed (current ++ [l])
      { b with
        body := b.body ++ l.line
        messages := b.messages ++ [⟨c.name, l.guid⟩]
        fileLines := b.fileLines ++ [l.fileLine] } where
  packed := h.packed.add hfits
  headerLine := h.headerLine
  maxMessages := h.maxMessages
  maxBodyBytes := h.maxBodyBytes
  chunks := h.chunks
  body := by
    show b.body ++ l.line = _
    rw [chunkOf_body_snoc, h.body]
  messages := by
    show b.messages ++ [⟨c.name, l.guid⟩] = _
    rw [h.messages]
    simp [EncodedFile.chunkOf]
  fileLines := by
    show b.fileLines ++ [l.fileLine] = _
    rw [h.fileLines]
    simp [EncodedFile.chunkOf]

/-- A line alone in its chunk. -/
theorem groupFits_singleton (hsize : 1 ≤ batchSize) : c.GroupFits batchSize [l] := by
  refine ⟨hsize, ?_⟩
  intro hline
  have hl := hline l (List.mem_singleton_self l)
  simpa [EncodedFile.chunkOf] using hl

/-- A line that the chunk has room for. -/
theorem groupFits_snoc (hcount : current.length < batchSize)
    (hbytes : (c.chunkOf current).body.length + l.line.length ≤ maxImportBodyBytes) :
    c.GroupFits batchSize (current ++ [l]) := by
  refine ⟨?_, ?_⟩
  · rw [List.length_append, List.length_singleton]
    omega
  · intro _
    rw [chunkOf_body_snoc, List.length_append]
    exact hbytes

/-- **One line**: `push` keeps what the builder holds, and adds the line. -/
theorem Building.push (h : Building c batchSize items closed current b) (hsize : 1 ≤ batchSize) :
    ∃ closed' current', Building c batchSize (items ++ [l]) closed' current'
      (b.push l.line ⟨c.name, l.guid⟩ l.fileLine) := by
  have halone : c.GroupFits batchSize ([] ++ [l]) := groupFits_singleton hsize
  rw [ChunkBuilder.push]
  by_cases hfull : b.full l.line = true
  · rw [if_pos hfull]
    have hcurrent : current ≠ [] := by
      intro hnil
      rw [ChunkBuilder.full, h.messages_nil.mpr hnil] at hfull
      cases hfull
    exact ⟨_, _, (h.sealed hcurrent).add halone⟩
  · rw [if_neg hfull]
    by_cases hcurrent : current = []
    · subst hcurrent
      exact ⟨_, _, h.add halone⟩
    · have hsome : b.messages.isEmpty = false := by
        rw [List.isEmpty_eq_false_iff]
        exact fun hnil => hcurrent (h.messages_nil.mp hnil)
      have hcount : b.messages.length = current.length := by
        rw [h.messages, EncodedFile.chunkOf, List.length_map]
      simp only [ChunkBuilder.full, hsome, Bool.not_false, Bool.true_and, Bool.or_eq_true,
        decide_eq_true_eq, not_or, not_le, not_lt, h.maxMessages, h.maxBodyBytes, hcount, h.body]
        at hfull
      exact ⟨_, _, h.add (groupFits_snoc hfull.1 hfull.2)⟩

/-- The lines that are to be sent reach the builder one after another, and a line that is too long
    alone fails the file. -/
theorem pushLines_building (hsize : 1 ≤ batchSize) :
    ∀ {lines items current : List StagedLine} {closed b b'},
    Building c batchSize items closed current b →
    pushLines c.force c.held c.name lines b = .ok b' →
    (∀ l ∈ lines.filter (fun l => !(!c.force && c.held l)), l.line.length ≤ maxImportBodyBytes) ∧
      ∃ closed' current', Building c batchSize
        (items ++ lines.filter (fun l => !(!c.force && c.held l))) closed' current' b'
  | [], items, current, closed, b, b', h, hpush => by
    cases hpush
    rw [List.filter_nil, List.append_nil]
    exact ⟨fun l hl => absurd hl List.not_mem_nil, closed, current, h⟩
  | l :: lines, items, current, closed, b, b', h, hpush => by
    rw [pushLines] at hpush
    by_cases hheld : (!c.force && c.held l) = true
    · rw [if_pos hheld] at hpush
      rw [List.filter_cons_of_neg (by rw [hheld]; simp)]
      exact pushLines_building hsize h hpush
    · rw [if_neg hheld] at hpush
      by_cases hlong : maxImportBodyBytes < l.line.length
      · rw [if_pos hlong] at hpush
        cases hpush
      · rw [if_neg hlong] at hpush
        obtain ⟨closed₁, current₁, hone⟩ := h.push (l := l) hsize
        obtain ⟨hrest, closed', current', hall⟩ := pushLines_building hsize hone hpush
        rw [List.filter_cons_of_pos (by simp [hheld])]
        refine ⟨?_, closed', current', ?_⟩
        · intro m hm
          rcases List.mem_cons.mp hm with rfl | hm
          · exact not_lt.mp hlong
          · exact hrest m hm
        · rwa [List.append_assoc, List.singleton_append] at hall

/-- With no line too long alone the build goes through. -/
theorem pushLines_ok (lines : List StagedLine)
    (h : ∀ l ∈ lines.filter (fun l => !(!c.force && c.held l)),
      l.line.length ≤ maxImportBodyBytes) :
    ∀ b, ∃ b', pushLines c.force c.held c.name lines b = .ok b' := by
  induction lines with
  | nil => exact fun b => ⟨b, rfl⟩
  | cons l lines ih =>
    intro b
    rw [pushLines]
    by_cases hheld : (!c.force && c.held l) = true
    · rw [if_pos hheld]
      rw [List.filter_cons_of_neg (by rw [hheld]; simp)] at h
      exact ih h b
    · rw [if_neg hheld]
      rw [List.filter_cons_of_pos (by simp [hheld])] at h
      rw [if_neg (not_lt.mpr (h l List.mem_cons_self))]
      exact ih (fun m hm => h m (List.mem_cons_of_mem l hm)) _

/-! What is built. -/

/-- A group of lines to be sent makes a right chunk, its bytes aside. -/
theorem rightChunk_of_group {lines : List StagedLine} (hin : ∀ l ∈ lines, l ∈ c.toSend)
    (hsome : lines ≠ []) (hcount : lines.length ≤ batchSize)
    (hfits : (c.chunkOf lines).body.length ≤ maxImportBodyBytes) :
    c.RightChunk batchSize lines (c.chunkOf lines) where
  body := rfl
  bodyLines := by
    have hlines : ∀ line ∈ c.file.headerLine :: lines.map StagedLine.line, IsBodyLine line := by
      intro line hline
      rcases List.mem_cons.mp hline with rfl | hline
      · exact c.headerLine_isLine
      · obtain ⟨l, hl, rfl⟩ := List.mem_map.mp hline
        exact c.lines_areLines l (List.mem_of_mem_filter (hin l hl))
    rw [← bodyLines_flatten hlines]
    rfl
  messages := rfl
  fileLines := rfl
  atLeastOne := by
    show 1 ≤ (lines.map _).length
    rw [List.length_map]
    exact List.length_pos_iff.mpr hsome
  atMost := by
    show (lines.map _).length ≤ batchSize
    rw [List.length_map]
    exact hcount
  fits := hfits

/-- What `build_import_chunks` returns: the lines to be sent, cut into groups. -/
theorem build_cut {chunks : List ImportChunk} (hsize : 1 ≤ batchSize)
    (hbuild : c.build batchSize = .ok chunks) :
    (∀ l ∈ c.toSend, l.line.length ≤ maxImportBodyBytes) ∧
    ∃ groups : List (List StagedLine), groups.flatten = c.toSend ∧ chunks = groups.map c.chunkOf ∧
      ∀ lines ∈ groups, lines ≠ [] ∧ c.GroupFits batchSize lines := by
  rw [EncodedFile.build, buildImportChunks] at hbuild
  cases hpush : pushLines c.force c.held c.name c.file.lines
      (.new c.file.headerLine batchSize maxImportBodyBytes) with
  | error error =>
    rw [hpush] at hbuild
    cases hbuild
  | ok b =>
    rw [hpush] at hbuild
    obtain ⟨hlong, closed, current, h⟩ := pushLines_building hsize building_new hpush
    have hchunks : b.finish = chunks := Except.ok.inj hbuild
    refine ⟨hlong, ?_⟩
    rw [← hchunks, ChunkBuilder.finish]
    by_cases hcurrent : current = []
    · subst hcurrent
      have hempty : b.messages.isEmpty = true := List.isEmpty_iff.mpr (h.messages_nil.mpr rfl)
      rw [if_pos hempty]
      refine ⟨closed, h.packed.flatten, h.chunks, ?_⟩
      intro lines hlines
      exact ⟨h.packed.closed_some lines hlines, h.packed.closed_fits lines hlines⟩
    · have hsome : b.messages.isEmpty ≠ true := fun hnil =>
        hcurrent (h.messages_nil.mp (List.isEmpty_iff.mp hnil))
      rw [if_neg hsome]
      have hsealed := h.sealed hcurrent
      refine ⟨closed ++ [current], hsealed.packed.flatten, hsealed.chunks, ?_⟩
      intro lines hlines
      exact ⟨hsealed.packed.closed_some lines hlines, hsealed.packed.closed_fits lines hlines⟩

theorem chunkOf_body_length_le {lines : List StagedLine} (hl : l ∈ lines) :
    c.file.headerLine.length + l.line.length ≤ (c.chunkOf lines).body.length := by
  have hsub : l.line.Sublist (lines.map StagedLine.line).flatten :=
    List.sublist_flatten_of_mem (List.mem_map_of_mem hl)
  show _ ≤ (c.file.headerLine ++ (lines.map StagedLine.line).flatten).length
  rw [List.length_append]
  exact Nat.add_le_add_left hsub.length_le _

theorem exists_of_forall₂ {α β : Type} {R : α → β → Prop} {l : List α} {m : List β} {a : α}
    (h : List.Forall₂ R l m) (ha : a ∈ l) : ∃ b ∈ m, R a b := by
  induction h with
  | nil => cases ha
  | @cons x y l m hxy _ ih =>
    rcases List.mem_cons.mp ha with rfl | ha
    · exact ⟨y, List.mem_cons_self, hxy⟩
    · obtain ⟨b, hb, hab⟩ := ih ha
      exact ⟨b, List.mem_cons_of_mem y hb, hab⟩

theorem forall₂_map_right {α β : Type} {R : α → β → Prop} {f : α → β} {l : List α}
    (h : ∀ a ∈ l, R a (f a)) : List.Forall₂ R l (l.map f) := by
  induction l with
  | nil => exact .nil
  | cons a l ih =>
    exact .cons (h a List.mem_cons_self) (ih fun x hx => h x (List.mem_cons_of_mem a hx))

/-- **The chunks of one conversation** are right exactly when no line to be sent overflows a
    chunk together with the header, or one overflows it alone. -/
theorem cut_iff_fits (hsize : 1 ≤ batchSize) :
    (∀ chunks, c.build batchSize = .ok chunks → c.Cut batchSize chunks) ↔ c.Fits := by
  constructor
  · intro h
    by_cases hlong : ∃ l ∈ c.toSend, maxImportBodyBytes < l.line.length
    · exact .inl hlong
    · right
      intro l hl
      have hshort : ∀ l ∈ c.toSend, l.line.length ≤ maxImportBodyBytes := fun l hl =>
        not_lt.mp fun hlt => hlong ⟨l, hl, hlt⟩
      obtain ⟨b, hb⟩ := pushLines_ok c.file.lines hshort
        (.new c.file.headerLine batchSize maxImportBodyBytes)
      have hbuild : c.build batchSize = .ok b.finish := by
        rw [EncodedFile.build, buildImportChunks, hb]
        rfl
      obtain ⟨groups, hflat, hright⟩ := h _ hbuild
      -- The line is in some group, and its chunk holds the header and the line.
      rw [← hflat] at hl
      obtain ⟨lines, hlines, hl⟩ := List.mem_flatten.mp hl
      obtain ⟨chunk, -, hchunk⟩ := exists_of_forall₂ hright hlines
      have hbody := hchunk.fits
      rw [hchunk.body] at hbody
      exact (chunkOf_body_length_le hl).trans hbody
  · intro h chunks hbuild
    obtain ⟨hshort, groups, hflat, rfl, hgroups⟩ := build_cut hsize hbuild
    have hfits : ∀ l ∈ c.toSend, c.file.headerLine.length + l.line.length ≤ maxImportBodyBytes := by
      rcases h with ⟨l, hl, hlt⟩ | hfits
      · exact absurd hlt (not_lt.mpr (hshort l hl))
      · exact hfits
    refine ⟨groups, hflat, ?_⟩
    apply forall₂_map_right
    intro lines hlines
    have hin : ∀ l ∈ lines, l ∈ c.toSend := by
      intro l hl
      rw [← hflat]
      exact List.mem_flatten_of_mem hlines hl
    obtain ⟨hsome, hcount, hbytes⟩ := hgroups lines hlines
    exact rightChunk_of_group hin hsome hcount (hbytes fun l hl => hfits l (hin l hl))

end

end MessageCrate
