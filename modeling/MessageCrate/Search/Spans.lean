import MessageCrate.Search.Lexer

/- The tokens of a query cover its text.

   From where the lexer stands the rest of the text is white space and tokens by turns
   (`Laid`), each token on the characters its span names. So the spans are in order and apart,
   and a byte in none of them is white space, or the NUL that was read as a space.

   1. `readTokens_laid`: what the loop reads is laid so, and a refusal points into the rest.
   2. `Laid.covers`: what that says of the spans.
   3. `lexer_loses_nothing`: for the lexer over bytes, which neither panics nor stands still. -/
namespace MessageCrate

/-- From the cursor on, white space and tokens by turns. -/
inductive Laid : Cursor → List Token → Prop
  | blank {cur : Cursor} : (∀ c ∈ cur.rest, isAsciiWhitespace c = true) → Laid cur []
  | token {cur word next : Cursor} {spaces used : List Char} {tok : Token} {tokens : List Token} :
      cur.Reads spaces word → (∀ c ∈ spaces, isAsciiWhitespace c = true) →
      word.Reads used next → tok.span = (word.pos, next.pos) → word.pos < next.pos →
      Laid next tokens → Laid cur (tok :: tokens)

/-- What the loop owes from the cursor on. -/
def ReadsOut (cur : Cursor) : Except QueryError (List Token) → Prop
  | .ok tokens => Laid cur tokens
  | .error err =>
    cur.pos ≤ err.span.1 ∧ err.span.1 ≤ err.span.2 ∧ err.span.2 = cur.pos + byteLength cur.rest

theorem readTokens_laid : ∀ {fuel : Nat} {cur : Cursor}, cur.rest.length < fuel →
    ReadsOut cur (readTokens fuel cur)
  | 0, _, hfuel => by omega
  | fuel + 1, cur, hfuel => by
    have hscan := cur.reads_scan isAsciiWhitespace
    have hspace := cur.head_scan isAsciiWhitespace
    have hspaces : ∀ c ∈ (cur.scan isAsciiWhitespace).1, isAsciiWhitespace c = true :=
      fun c hc => List.mem_takeWhile_imp hc
    have hbytes := hscan.bytes
    have hpos := hscan.2
    rw [readTokens]
    simp only
    generalize (cur.scan isAsciiWhitespace).1 = spaces at *
    generalize (cur.scan isAsciiWhitespace).2 = word at *
    cases hrest : word.rest with
    | nil =>
      have hblank : cur.rest = spaces := by rw [hscan.1, hrest, List.append_nil]
      exact .blank (hblank ▸ hspaces)
    | cons c cs =>
      have hwithin := within_nextToken (by simp [hrest]) hspace
      simp only [List.isEmpty_cons, Bool.false_eq_true, if_false]
      cases hread : nextToken word with
      | error err =>
        rw [hread] at hwithin
        obtain ⟨hstart, hle, hend⟩ := hwithin
        exact ⟨by omega, hle, by omega⟩
      | ok r =>
        obtain ⟨tok, next⟩ := r
        rw [hread] at hwithin
        obtain ⟨⟨used, hused⟩, hspan, hlt⟩ := hwithin
        have hshorter := hused.shorter hlt
        have hsub : word.rest.length ≤ cur.rest.length := by
          rw [hscan.1, List.length_append]
          omega
        have htail : ReadsOut next (readTokens fuel next) := readTokens_laid (by omega)
        have hbytes' := hused.bytes
        simp only [bind, Except.bind]
        cases hlater : readTokens fuel next with
        | error err =>
          rw [hlater] at htail
          obtain ⟨hstart, hle, hend⟩ := htail
          exact ⟨by omega, hle, by omega⟩
        | ok tokens =>
          rw [hlater] at htail
          exact .token hscan hspaces hused hspan hlt htail

/-- Spans that take all of a text but white space. -/
structure Covers (input : List Char) (tokens : List Token) : Prop where
  nonempty : ∀ t ∈ tokens, t.span.1 < t.span.2
  inside : ∀ t ∈ tokens, t.span.2 ≤ (Utf8.encode input).length
  boundary : ∀ t ∈ tokens, Utf8.IsBoundary input t.span.1 ∧ Utf8.IsBoundary input t.span.2
  ordered : tokens.Pairwise (fun a b => a.span.2 ≤ b.span.1)
  blank : ∀ i b, (Utf8.encode input)[i]? = some b →
    (∀ t ∈ tokens, ¬ (t.span.1 ≤ i ∧ i < t.span.2)) → isAsciiWhitespaceByte b = true ∨ b = 0

section laid
variable {cur next : Cursor} {used input : List Char} {tokens : List Token}

theorem Laid.from (h : Laid cur tokens) : ∀ t ∈ tokens, cur.pos ≤ t.span.1 := by
  induction h with
  | blank _ => exact fun t ht => absurd ht List.not_mem_nil
  | token hspaces _ hused hspan _ _ ih =>
    have hword := hspaces.2
    have hnext := hused.2
    intro t ht
    rcases List.mem_cons.mp ht with rfl | ht
    · rw [hspan]
      omega
    · have := ih t ht
      omega

theorem Laid.within (h : Laid cur tokens) (hin : cur.In input) :
    ∀ t ∈ tokens, t.span.1 < t.span.2 ∧ t.span.2 ≤ Utf8.size input ∧
      Utf8.IsBoundary input t.span.1 ∧ Utf8.IsBoundary input t.span.2 := by
  induction h with
  | blank _ => exact fun t ht => absurd ht List.not_mem_nil
  | token hspaces _ hused hspan hlt _ ih =>
    have hword := hin.reads hspaces
    have hnext := hword.reads hused
    have hend := hnext.end
    intro t ht
    rcases List.mem_cons.mp ht with rfl | ht
    · rw [hspan]
      exact ⟨hlt, by simp only; omega, hword.boundary, hnext.boundary⟩
    · exact ih hnext t ht

theorem Laid.ordered (h : Laid cur tokens) :
    tokens.Pairwise (fun a b => a.span.2 ≤ b.span.1) := by
  induction h with
  | blank _ => exact .nil
  | token _ _ _ hspan _ hlaid ih =>
    refine List.pairwise_cons.mpr ⟨fun t ht => ?_, ih⟩
    rw [hspan]
    exact hlaid.from t ht

/-- A byte between two cursors is one of what was read. -/
theorem Cursor.In.byte_of_reads (hin : cur.In input) (hreads : cur.Reads used next) {i : Nat}
    (hfrom : cur.pos ≤ i) (hto : i < next.pos) {b : UInt8}
    (hb : (Utf8.encode input)[i]? = some b) : b ∈ Utf8.encode used := by
  obtain ⟨before, hinput, hpos⟩ := hin
  have hlength : (Utf8.encode used).length = byteLength used := Utf8.length_encode _
  have hnext := hreads.2
  rw [hinput, hreads.1, show i = Utf8.size before + (i - cur.pos) by omega, Utf8.getElem?_encode,
    Utf8.encode_append, List.getElem?_append_left (by omega)] at hb
  exact List.mem_of_getElem? hb

theorem isAsciiWhitespaceByte_of_mem (h : ∀ c ∈ used, isAsciiWhitespace c = true) {b : UInt8}
    (hb : b ∈ Utf8.encode used) : isAsciiWhitespaceByte b = true := by
  obtain ⟨c, hc, hbc⟩ := List.mem_flatMap.mp hb
  exact (agrees_isAsciiWhitespace c b hbc).trans (h c hc)

theorem Laid.blank_bytes (h : Laid cur tokens) (hin : cur.In input) {i : Nat}
    (hfrom : cur.pos ≤ i) {b : UInt8} (hb : (Utf8.encode input)[i]? = some b)
    (hout : ∀ t ∈ tokens, ¬ (t.span.1 ≤ i ∧ i < t.span.2)) : isAsciiWhitespaceByte b = true := by
  induction h with
  | @blank cur hspaces =>
    have hreads : cur.Reads cur.rest ⟨cur.pos + byteLength cur.rest, []⟩ :=
      ⟨(List.append_nil _).symm, rfl⟩
    have hend := hin.end
    have hi : i < Utf8.size input := by
      rw [← Utf8.length_encode]
      exact (List.getElem?_eq_some_iff.mp hb).1
    have hmem := hin.byte_of_reads hreads hfrom (show i < cur.pos + byteLength cur.rest by omega) hb
    exact isAsciiWhitespaceByte_of_mem hspaces hmem
  | @token cur word next _ _ tok _ hspaces hblank hused hspan _ _ ih =>
    have hword := hin.reads hspaces
    rcases Nat.lt_or_ge i word.pos with hi | hi
    · exact isAsciiWhitespaceByte_of_mem hblank (hin.byte_of_reads hspaces hfrom hi hb)
    rcases Nat.lt_or_ge i next.pos with hi' | hi'
    · refine absurd ?_ (hout tok List.mem_cons_self)
      rw [hspan]
      exact ⟨hi, hi'⟩
    · exact ih (hword.reads hused) hi' (fun t ht => hout t (List.mem_cons_of_mem _ ht))

end laid

/-! A NUL is one byte, and so is the space it is read as. -/

section nul
variable {input : List Char} {tokens : List Token}

theorem size_withoutNul (cs : List Char) : Utf8.size (withoutNul cs) = Utf8.size cs := by
  induction cs with
  | nil => rfl
  | cons c cs ih =>
    have hone : Char.utf8Size (if c = '\x00' then ' ' else c) = c.utf8Size := by
      split
      · next hc =>
        rw [hc]
        rfl
      · rfl
    simp only [withoutNul, List.map_cons, Utf8.size_cons, hone] at ih ⊢
    rw [ih]

theorem boundary_withoutNul {i : Nat} (h : Utf8.IsBoundary (withoutNul input) i) :
    Utf8.IsBoundary input i := by
  obtain ⟨before, after, hinput, rfl⟩ := h
  obtain ⟨before', after', rfl, rfl, rfl⟩ := List.map_eq_append_iff.mp hinput
  exact ⟨before', after', rfl, size_withoutNul before'⟩

/-- The bytes of the text read are those of the text, each NUL a space. -/
theorem encode_withoutNul (cs : List Char) : Utf8.encode (withoutNul cs) =
    (Utf8.encode cs).map (fun b => if b = 0 then ' '.toUInt8 else b) := by
  induction cs with
  | nil => rfl
  | cons c cs ih =>
    have hone : String.utf8EncodeChar (if c = '\x00' then ' ' else c) =
        (String.utf8EncodeChar c).map (fun b => if b = 0 then ' '.toUInt8 else b) := by
      split
      · next hc =>
        rw [hc]
        rfl
      · next hc =>
        refine ((List.map_congr_left (fun b hb => ?_)).trans (List.map_id _)).symm
        have hb0 : (b == 0) = (c == '\x00') := Utf8.agrees_beq (d := '\x00') (by decide) c b hb
        have hne : b ≠ 0 := by simpa [hc] using hb0
        rw [if_neg hne, id]
    have hcons : withoutNul (c :: cs) = (if c = '\x00' then ' ' else c) :: withoutNul cs := rfl
    rw [hcons, Utf8.encode_cons, Utf8.encode_cons, List.map_append, ih, hone]

/-- **The spans of what is laid over the text read cover the text.** -/
theorem Laid.covers (h : Laid ⟨0, withoutNul input⟩ tokens) : Covers input tokens := by
  have hin : Cursor.In ⟨0, withoutNul input⟩ (withoutNul input) := ⟨[], rfl, rfl⟩
  have hwithin := h.within hin
  have hsize := size_withoutNul input
  refine ⟨fun t ht => (hwithin t ht).1, fun t ht => ?_, fun t ht => ?_, h.ordered, ?_⟩
  · have hle := (hwithin t ht).2.1
    rw [Utf8.length_encode]
    omega
  · obtain ⟨-, -, hstart, hstop⟩ := hwithin t ht
    exact ⟨boundary_withoutNul hstart, boundary_withoutNul hstop⟩
  · intro i b hb hout
    have hb' : (Utf8.encode (withoutNul input))[i]? =
        some (if b = 0 then ' '.toUInt8 else b) := by
      rw [encode_withoutNul, List.getElem?_map, hb, Option.map_some]
    have hspace := h.blank_bytes hin (Nat.zero_le i) hb' hout
    by_cases hzero : b = 0
    · exact .inr hzero
    · rw [if_neg hzero] at hspace
      exact .inl hspace

end nul

/-! The lexer over bytes. -/

/-- The lexer as `tokenize`'s loop finds it, turn after turn. -/
inductive Reached (lossy : List UInt8 → List Char) (input : List Char) : Lexer → Prop
  | start : Reached lossy input ⟨withoutNul input, 0, []⟩
  | turn {lx next : Lexer} : Reached lossy input lx → lx.skipWhitespace.1 = true →
      lx.skipWhitespace.2.nextToken lossy = .ok next → Reached lossy input next

/-- A call of `next_token` that moves the cursor on, inside the text, or refuses the query. -/
def Advances (input : List Char) (here : Lexer) : Except Stop Lexer → Prop
  | .ok next => here.pos < next.pos ∧ next.pos ≤ (Utf8.encode input).length
  | .error (.refused _) => True
  | .error _ => False

/-- Tokens that cover the text, or a refusal that points into it. -/
def Accounts (input : List Char) : Except Stop (List Token) → Prop
  | .ok tokens => (Utf8.encode input).length ≤ maxQueryBytes ∧ Covers input tokens
  | .error (.refused error) =>
    error.span.1 ≤ error.span.2 ∧ error.span.2 ≤ (Utf8.encode input).length
  | .error _ => False

section lexer
variable {lossy : List UInt8 → List Char} {input : List Char} {lx : Lexer}

theorem nextToken_advances {cur : Cursor} (hin : cur.In (withoutNul input))
    (hinput : lx.input = withoutNul input) (hpos : lx.pos = cur.pos)
    (hmore : lx.skipWhitespace.1 = true) :
    Advances input lx.skipWhitespace.2 (lx.skipWhitespace.2.nextToken lossy) ∧
    ∀ next, lx.skipWhitespace.2.nextToken lossy = .ok next →
      next.input = withoutNul input ∧ ∃ cur' : Cursor, cur'.In (withoutNul input) ∧
        next.pos = cur'.pos := by
  have hin' : cur.In lx.input := hinput ▸ hin
  have hskip := Lexer.skipWhitespace_eq hin' hpos
  have hword := hin'.reads (cur.reads_scan isAsciiWhitespace)
  have hspace := cur.head_scan isAsciiWhitespace
  rw [hskip] at hmore ⊢
  simp only at hmore ⊢
  generalize (cur.scan isAsciiWhitespace).2 = word at hmore hword hspace ⊢
  have hne : word.rest ≠ [] := by simpa using hmore
  have hwithin := within_nextToken hne hspace
  have heq : Lexer.nextToken lossy ⟨lx.input, word.pos, lx.tokens⟩ =
      Lexer.after ⟨lx.input, word.pos, lx.tokens⟩ (nextToken word) := Lexer.nextToken_eq hword rfl
  rw [heq]
  cases hread : nextToken word with
  | error error => exact ⟨trivial, fun _ h => absurd h (by simp [Lexer.after])⟩
  | ok r =>
    obtain ⟨tok, next⟩ := r
    rw [hread] at hwithin
    obtain ⟨⟨used, hused⟩, -, hlt⟩ := hwithin
    have hnext := hword.reads hused
    have hend := hnext.end
    refine ⟨⟨hlt, ?_⟩, ?_⟩
    · rw [Utf8.length_encode, ← size_withoutNul, ← hinput]
      show next.pos ≤ _
      omega
    · rintro lx' h
      cases h
      exact ⟨hinput, next, hinput ▸ hnext, rfl⟩

theorem Reached.stands (h : Reached lossy input lx) :
    lx.input = withoutNul input ∧ ∃ cur : Cursor, cur.In (withoutNul input) ∧ lx.pos = cur.pos := by
  induction h with
  | start => exact ⟨rfl, ⟨0, withoutNul input⟩, ⟨[], rfl, rfl⟩, rfl⟩
  | turn _ hmore hnext ih =>
    obtain ⟨hinput, cur, hin, hpos⟩ := ih
    exact (nextToken_advances hin hinput hpos hmore).2 _ hnext

/-- The tokens cover the text, or the refusal points into it. -/
theorem accounts_tokenize (input : String) :
    Accounts input.toList (Lexer.collected [] (tokenize input)) := by
  have hsize := size_withoutNul input.toList
  have hbytes : (Utf8.encode input.toList).length = byteLength input.toList :=
    Utf8.length_encode _
  have hlaid : ReadsOut ⟨0, withoutNul input.toList⟩
      (readTokens ((withoutNul input.toList).length + 1) ⟨0, withoutNul input.toList⟩) :=
    readTokens_laid (Nat.lt_succ_self _)
  rw [tokenize]
  split
  · exact ⟨Nat.zero_le _, hbytes.ge⟩
  · next hshort =>
    show Accounts input.toList (Lexer.collected []
      (readTokens ((withoutNul input.toList).length + 1) ⟨0, withoutNul input.toList⟩))
    cases hread : readTokens ((withoutNul input.toList).length + 1)
        ⟨0, withoutNul input.toList⟩ with
    | error error =>
      rw [hread] at hlaid
      obtain ⟨-, hle, hend⟩ := hlaid
      refine ⟨hle, ?_⟩
      rw [Utf8.length_encode, ← hsize, hend]
      exact (Nat.zero_add _).le
    | ok tokens =>
      rw [hread] at hlaid
      rw [Lexer.collected, List.nil_append]
      exact ⟨by omega, Laid.covers hlaid⟩

/-- **The lexer loses nothing.** -/
theorem lexer_loses_nothing (lossy : List UInt8 → List Char) (input : String) :
    (∀ fuel, (Utf8.encode input.toList).length < fuel →
      Accounts input.toList (tokenizeBytes lossy fuel input)) ∧
    ∀ lx, Reached lossy input.toList lx → lx.skipWhitespace.1 = true →
      Advances input.toList lx.skipWhitespace.2 (lx.skipWhitespace.2.nextToken lossy) := by
  refine ⟨fun fuel hfuel => ?_, fun lx hlx hmore => ?_⟩
  · rw [tokenizeBytes_eq lossy hfuel]
    exact accounts_tokenize input
  · obtain ⟨hinput, cur, hin, hpos⟩ := hlx.stands
    exact (nextToken_advances hin hinput hpos hmore).1

end lexer

end MessageCrate
