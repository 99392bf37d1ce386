import MessageCrate.Formats.SbrRecords
import MessageCrate.Formats.Decoding

/- The streaming reader of SMS Backup & Restore files (`parse_reader_with` of sbr/src/read.rs).

   The reader goes through XML events and keeps the attributes of the message that is open, its
   parts and its addresses. It hands a record over when the message closes, and what is handed a
   record may stop it.

     1. `parse_eq`: what a message comes to depends on its own attributes, parts and addresses, and
        it is one record or one skip (`Element.one_outcome`).
     2. `silent_run`: elements inside a message hand nothing over.
     3. `read_document`: of the events of a document up to any of them, the reader takes the messages
        that close there, in order.

   `quick_xml`'s events are the input: an element with its raw attributes, its end, or anything
   else. What is handed the records is any answer to the records so far. -/
namespace MessageCrate.Sbr
open MmsParts Utf8 Text

/-! Counters. -/

/-- Why a message gives no record. -/
inductive Skip
  | invalidDate
  | unknownAddress
  | unknownType
  | draftOrOutbox
  | emptyParticipants
  deriving DecidableEq

namespace ParseStats

def zero : ParseStats := ⟨0, 0, 0, 0, 0, 0, 0, 0, 0⟩

/-- Counted on. -/
def add (stats more : ParseStats) : ParseStats where
  smsSeen := stats.smsSeen + more.smsSeen
  mmsSeen := stats.mmsSeen + more.mmsSeen
  skippedInvalidDate := stats.skippedInvalidDate + more.skippedInvalidDate
  skippedUnknownAddress := stats.skippedUnknownAddress + more.skippedUnknownAddress
  skippedUnknownType := stats.skippedUnknownType + more.skippedUnknownType
  skippedDraftOrOutbox := stats.skippedDraftOrOutbox + more.skippedDraftOrOutbox
  skippedEmptyParticipants := stats.skippedEmptyParticipants + more.skippedEmptyParticipants
  skippedUnreadablePart := stats.skippedUnreadablePart + more.skippedUnreadablePart
  droppedCharacterReferences := stats.droppedCharacterReferences + more.droppedCharacterReferences

/-- One more skip. -/
def skip (stats : ParseStats) : Skip → ParseStats
  | .invalidDate => { stats with skippedInvalidDate := stats.skippedInvalidDate + 1 }
  | .unknownAddress => { stats with skippedUnknownAddress := stats.skippedUnknownAddress + 1 }
  | .unknownType => { stats with skippedUnknownType := stats.skippedUnknownType + 1 }
  | .draftOrOutbox => { stats with skippedDraftOrOutbox := stats.skippedDraftOrOutbox + 1 }
  | .emptyParticipants =>
    { stats with skippedEmptyParticipants := stats.skippedEmptyParticipants + 1 }

end ParseStats

/-! Messages. -/

/-- A message element that has closed, with the parts and addresses inside it. -/
inductive Element
  | sms (attrs : Attrs)
  | mms (attrs : Attrs) (parts : List MmsPart) (addrs : List MmsAddr)

/-- The counters of a message that is seen. -/
def Element.seen : Element → ParseStats
  | .sms _ => { ParseStats.zero with smsSeen := 1 }
  | .mms _ _ _ => { ParseStats.zero with mmsSeen := 1 }

section reading
variable (x : Crates) (toLowercase : String → String) (owners : Option (Handle → Bool))

def Element.parse (m : Element) (stats : ParseStats) : Option Record × ParseStats :=
  match m with
  | .sms attrs => parseSms x toLowercase attrs stats
  | .mms attrs parts addrs => parseMms x toLowercase owners attrs parts addrs stats

/-- The record of a message, where it gives one. -/
def Element.record (m : Element) : Option Record := (m.parse x toLowercase owners .zero).1

/-- What a message adds to the counters. -/
def Element.counts (m : Element) : ParseStats := (m.parse x toLowercase owners .zero).2

/-- A message counts itself, and its unreadable parts where it gives a record or one skip where
it gives none. -/
inductive Outcome (m : Element) : Option Record → ParseStats → Prop
  | record (r : Record) (unreadable : Nat) :
      Outcome m (some r) { m.seen with skippedUnreadablePart := unreadable }
  | skip (k : Skip) : Outcome m none (m.seen.skip k)

theorem timestampFromDate_cases (attrs : Attrs) :
    (∃ dated, ∀ stats, timestampFromDate attrs stats = (some dated, stats)) ∨
      ∀ stats, timestampFromDate attrs stats = (none, stats.skip .invalidDate) := by
  cases h : (parseI64 (get attrs "date")).filter (fun ms => 0 ≤ ms ∧ ms ≤ maxDateMs) with
  | some millis =>
    left
    refine ⟨(get attrs "date", millis), ?_⟩
    intro stats
    simp only [timestampFromDate, h]
  | none =>
    right
    intro stats
    simp only [timestampFromDate, h]
    rfl

theorem parseSms_outcome (attrs : Attrs) :
    ∃ r more, Outcome (.sms attrs) r more ∧
      ∀ stats, parseSms x toLowercase attrs stats = (r, stats.add more) := by
  rcases timestampFromDate_cases attrs with ⟨⟨dateMs, millis⟩, hdate⟩ | hdate
  · cases haddress : addressHandle toLowercase (get attrs "address") with
    | none =>
      refine ⟨none, _, .skip .unknownAddress, ?_⟩
      intro stats
      simp only [parseSms, hdate, haddress]
      rfl
    | some address =>
      by_cases hkept : trim (get attrs "type") = "1" ∨ trim (get attrs "type") = "2"
      · refine ⟨some (smsRecord x attrs address (trim (get attrs "type")) dateMs millis), _,
          .record _ 0, ?_⟩
        intro stats
        simp only [parseSms, hdate, haddress, if_pos hkept]
        rfl
      by_cases hdraft : trim (get attrs "type") = "3" ∨ trim (get attrs "type") = "4"
      · refine ⟨none, _, .skip .draftOrOutbox, ?_⟩
        intro stats
        simp only [parseSms, hdate, haddress, if_neg hkept, if_pos hdraft]
        rfl
      · refine ⟨none, _, .skip .unknownType, ?_⟩
        intro stats
        simp only [parseSms, hdate, haddress, if_neg hkept, if_neg hdraft]
        rfl
  · refine ⟨none, _, .skip .invalidDate, ?_⟩
    intro stats
    simp only [parseSms, hdate]
    rfl

theorem parseMms_outcome (attrs : Attrs) (parts : List MmsPart) (addrs : List MmsAddr) :
    ∃ r more, Outcome (.mms attrs parts addrs) r more ∧
      ∀ stats, parseMms x toLowercase owners attrs parts addrs stats = (r, stats.add more) := by
  rcases timestampFromDate_cases attrs with ⟨⟨dateMs, millis⟩, hdate⟩ | hdate
  · by_cases hdraft : ["3", "4", "5", "6"].contains (trim (get attrs "msg_box")) = true
    · refine ⟨none, _, .skip .draftOrOutbox, ?_⟩
      intro stats
      simp only [parseMms, hdate, if_pos hdraft]
      rfl
    by_cases hempty : (mmsParticipants toLowercase attrs addrs).isEmpty = true
    · refine ⟨none, _, .skip .emptyParticipants, ?_⟩
      intro stats
      simp only [parseMms, hdate, if_neg hdraft, if_pos hempty]
      rfl
    by_cases hpeers : (mmsPeers owners (mmsParticipants toLowercase attrs addrs)).isEmpty = true
    · refine ⟨none, _, .skip .unknownAddress, ?_⟩
      intro stats
      simp only [parseMms, hdate, if_neg hdraft, if_neg hempty, if_pos hpeers]
      rfl
    · refine ⟨some (mmsRecord x toLowercase owners attrs parts addrs
        (mmsPeers owners (mmsParticipants toLowercase attrs addrs)) (trim (get attrs "msg_box"))
        dateMs millis), _, .record _ (mmsBody x parts).2.2, ?_⟩
      intro stats
      simp only [parseMms, hdate, if_neg hdraft, if_neg hempty, if_neg hpeers]
      rfl
  · refine ⟨none, _, .skip .invalidDate, ?_⟩
    intro stats
    simp only [parseMms, hdate]
    rfl

/-- **A message comes to one record or to one skip**, whatever was counted before it. -/
theorem parse_eq (m : Element) (stats : ParseStats) :
    m.parse x toLowercase owners stats =
      (m.record x toLowercase owners, stats.add (m.counts x toLowercase owners)) ∧
    Outcome m (m.record x toLowercase owners) (m.counts x toLowercase owners) := by
  have hparse : ∃ r more, Outcome m r more ∧
      ∀ stats, m.parse x toLowercase owners stats = (r, stats.add more) := by
    cases m with
    | sms attrs => exact parseSms_outcome x toLowercase attrs
    | mms attrs parts addrs => exact parseMms_outcome x toLowercase owners attrs parts addrs
  obtain ⟨r, more, houtcome, hall⟩ := hparse
  have hrecord : m.record x toLowercase owners = r := by rw [Element.record, hall]
  have hcounts : m.counts x toLowercase owners = more := by
    rw [Element.counts, hall]
    simp [ParseStats.add, ParseStats.zero]
  rw [hrecord, hcounts]
  exact ⟨hall stats, houtcome⟩

/-! The loop. -/

/-- What `quick_xml` reads next. -/
inductive Event
  | start (name : String) (raw : List (String × String))
  | empty (name : String) (raw : List (String × String))
  | stop (name : String)
  | other

/-- The loop's variables, and the records handed over so far. -/
structure Reading where
  sms : Attrs
  mms : Attrs
  parts : List MmsPart
  addrs : List MmsAddr
  stats : ParseStats
  records : List Record

def Reading.begin (stats : ParseStats) : Reading := ⟨fun _ => none, fun _ => none, [], [], stats, []⟩

/-- The reading with the dropped references of an element counted. -/
def Reading.drops (s : Reading) (raw : List (String × String)) : Reading :=
  { s with stats := { s.stats with
      droppedCharacterReferences := (attrs x.html raw s.stats.droppedCharacterReferences).2 } }

/-- An element's attributes as the loop reads them. -/
def Reading.attrs (s : Reading) (raw : List (String × String)) : Attrs :=
  (Sbr.attrs x.html raw s.stats.droppedCharacterReferences).1

variable {E : Type} (onRecord : List Record → Option E)

/-- A message that closed is counted, and its record handed over. -/
def Reading.take (s : Reading) (m : Element) : Reading × Option E :=
  let (record, stats) := m.parse x toLowercase owners s.stats
  match record with
  | none => ({ s with stats }, none)
  | some r => ({ s with stats, records := s.records ++ [r] }, onRecord (s.records ++ [r]))

def step (s : Reading) : Event → Reading × Option E
  | .start name raw =>
    let name := toAsciiLower name
    if name = "sms" then ({ s.drops x raw with sms := s.attrs x raw }, none)
    else if name = "mms" then
      ({ s.drops x raw with mms := s.attrs x raw, parts := [], addrs := [] }, none)
    else if name = "part" then
      ({ s.drops x raw with parts := s.parts ++ [part (s.attrs x raw)] }, none)
    else if name = "addr" then
      ({ s.drops x raw with addrs := s.addrs ++ [addr (s.attrs x raw)] }, none)
    else (s, none)
  | .empty name raw =>
    let name := toAsciiLower name
    if name = "sms" then (s.drops x raw).take x toLowercase owners onRecord (.sms (s.attrs x raw))
    else if name = "part" then
      ({ s.drops x raw with parts := s.parts ++ [part (s.attrs x raw)] }, none)
    else if name = "addr" then
      ({ s.drops x raw with addrs := s.addrs ++ [addr (s.attrs x raw)] }, none)
    else if name = "mms" then
      (s.drops x raw).take x toLowercase owners onRecord (.mms (s.attrs x raw) [] [])
    else (s, none)
  | .stop name =>
    let name := toAsciiLower name
    if name = "sms" then s.take x toLowercase owners onRecord (.sms s.sms)
    else if name = "mms" then
      { s with parts := [], addrs := [] }.take x toLowercase owners onRecord
        (.mms s.mms s.parts s.addrs)
    else (s, none)
  | .other => (s, none)

/-- The events one after another, up to an error of what is handed the records. -/
def readEvents : List Event → Reading → Reading × Option E
  | [], s => (s, none)
  | e :: es, s =>
    match step x toLowercase owners onRecord s e with
    | (s, none) => readEvents es s
    | (s, some error) => (s, some error)

end reading

/-! Attributes do not depend on what was counted before them. -/

theorem decodeReferences_from (html : List Char → List Char) (raw : List Char) :
    ∃ text dropped, ∀ before, decodeReferences html raw before = some (text, before + dropped) := by
  have hspec : ∀ before, ∃ p, Cut raw p ∧
      decodeReferences html raw before = some (p.text html, before + p.dropped) := by
    intro before
    obtain ⟨p, hp, hresult⟩ := decodeLoop_spec html (size raw + 1) [] [] raw
      (s := ⟨[], before, 0, 0⟩) rfl rfl (plainBefore_nil _) (by omega)
    exact ⟨p, hp, hresult⟩
  obtain ⟨p, hp, -⟩ := hspec 0
  refine ⟨p.text html, p.dropped, ?_⟩
  intro before
  obtain ⟨q, hq, hresult⟩ := hspec before
  rw [hresult, hq.unique hp]

theorem attrs_from (html : String → Str) (raw : List (String × String)) :
    ∃ own dropped, ∀ before, attrs html raw before = (own, before + dropped) := by
  have hfold : ∀ (raw : List (String × String)) (m : Attrs), ∃ own dropped, ∀ before,
      raw.foldl (readAttr html) (m, before) = (own, before + dropped) := by
    intro raw
    induction raw with
    | nil => exact fun m => ⟨m, 0, fun _ => rfl⟩
    | cons a raw ih =>
      intro m
      obtain ⟨text, k, hvalue⟩ :=
        decodeReferences_from (fun cs => (html (String.ofList cs)).chars) a.2.toList
      obtain ⟨own, k', hrest⟩ := ih (m.insert (toAsciiLower a.1) (String.ofList text))
      refine ⟨own, k + k', ?_⟩
      intro before
      have hread : readAttr html (m, before) a =
          (m.insert (toAsciiLower a.1) (String.ofList text), before + k) := by
        simp only [readAttr, hvalue, Option.getD_some]
      rw [List.foldl_cons, hread, hrest, Nat.add_assoc]
  exact hfold raw fun _ => none

/-! Documents. -/

/-- The name of a message's element. -/
def IsMessage (name : String) : Prop := toAsciiLower name = "sms" ∨ toAsciiLower name = "mms"

/-- An event that opens and closes no message. -/
def Event.Quiet : Event → Prop
  | .start name _ => ¬ IsMessage name
  | .empty name _ => ¬ IsMessage name
  | .stop name => ¬ IsMessage name
  | .other => True

/-- What a document is made of: a message closed as it opens, a message with elements inside that
are no messages, or an event outside of messages. -/
inductive Item
  | outside (e : Event) (quiet : e.Quiet)
  | closed (name : String) (raw : List (String × String)) (message : IsMessage name)
  | opened (name : String) (raw : List (String × String)) (inside : List Event)
      (message : IsMessage name) (quiet : ∀ e ∈ inside, e.Quiet)

def Item.events : Item → List Event
  | .outside e _ => [e]
  | .closed name raw _ => [.empty name raw]
  | .opened name raw inside _ _ => .start name raw :: (inside ++ [.stop name])

section documents
variable (x : Crates)

/-- An element's own attributes. -/
def ownAttrs (raw : List (String × String)) : Attrs := (attrs x.html raw 0).1

/-- The part that an event inside a message opens. -/
def Event.parts : Event → List MmsPart
  | .start name raw => if toAsciiLower name = "part" then [part (ownAttrs x raw)] else []
  | .empty name raw => if toAsciiLower name = "part" then [part (ownAttrs x raw)] else []
  | _ => []

def Event.addrs : Event → List MmsAddr
  | .start name raw => if toAsciiLower name = "addr" then [addr (ownAttrs x raw)] else []
  | .empty name raw => if toAsciiLower name = "addr" then [addr (ownAttrs x raw)] else []
  | _ => []

/-- The message of an item, with what is inside it and nothing else. -/
def Item.element : Item → Option Element
  | .outside _ _ => none
  | .closed name raw _ =>
    some (if toAsciiLower name = "sms" then .sms (ownAttrs x raw) else .mms (ownAttrs x raw) [] [])
  | .opened name raw inside _ _ =>
    some (if toAsciiLower name = "sms" then .sms (ownAttrs x raw)
      else .mms (ownAttrs x raw) (inside.flatMap (Event.parts x)) (inside.flatMap (Event.addrs x)))

end documents

section runs
variable {x : Crates} {toLowercase : String → String} {owners : Option (Handle → Bool)} {E : Type}
variable {onRecord : List Record → Option E} {s s' : Reading} {es fs : List Event}

theorem attrs_eq (s : Reading) (raw : List (String × String)) : s.attrs x raw = ownAttrs x raw := by
  obtain ⟨own, dropped, hall⟩ := attrs_from x.html raw
  rw [Reading.attrs, ownAttrs, hall, hall]

theorem readEvents_append (h : readEvents x toLowercase owners onRecord es s = (s', none)) :
    readEvents x toLowercase owners onRecord (es ++ fs) s =
      readEvents x toLowercase owners onRecord fs s' := by
  induction es generalizing s with
  | nil =>
    obtain rfl : s = s' := congrArg Prod.fst h
    rfl
  | cons e es ih =>
    rw [List.cons_append, readEvents]
    rw [readEvents] at h
    split at h
    · exact ih h
    · cases h

theorem readEvents_stopped {error : E}
    (h : readEvents x toLowercase owners onRecord es s = (s', some error)) :
    readEvents x toLowercase owners onRecord (es ++ fs) s = (s', some error) := by
  induction es generalizing s with
  | nil => cases h
  | cons e es ih =>
    rw [List.cons_append, readEvents]
    rw [readEvents] at h
    split at h
    · exact ih h
    · exact h

theorem readEvents_one (e : Event) (s : Reading) :
    readEvents x toLowercase owners onRecord [e] s = step x toLowercase owners onRecord s e := by
  rw [readEvents]
  split
  · next hstep => rw [hstep, readEvents]
  · next hstep => rw [hstep]

/-! Events inside a message. -/

/-- The reading with what `es` opens inside a message. -/
def Reading.within (x : Crates) (s : Reading) (es : List Event) (dropped : Nat) : Reading :=
  { s with
    parts := s.parts ++ es.flatMap (Event.parts x)
    addrs := s.addrs ++ es.flatMap (Event.addrs x)
    stats := { s.stats with droppedCharacterReferences := dropped } }

theorem step_quiet {e : Event} (h : e.Quiet) (s : Reading) :
    ∃ dropped, step x toLowercase owners onRecord s e = (s.within x [e] dropped, none) := by
  have hpart : "part" ≠ "addr" := by decide
  cases e with
  | start name raw =>
    obtain ⟨hsms, hmms⟩ := not_or.mp h
    by_cases hname : toAsciiLower name = "part"
    · refine ⟨(s.drops x raw).stats.droppedCharacterReferences, ?_⟩
      simp [step, hname, Reading.within, Event.parts, Event.addrs, attrs_eq, Reading.drops]
    by_cases hname' : toAsciiLower name = "addr"
    · refine ⟨(s.drops x raw).stats.droppedCharacterReferences, ?_⟩
      simp [step, hname', Reading.within, Event.parts, Event.addrs, attrs_eq, Reading.drops]
    · refine ⟨s.stats.droppedCharacterReferences, ?_⟩
      simp [step, hsms, hmms, hname, hname', Reading.within, Event.parts, Event.addrs]
  | empty name raw =>
    obtain ⟨hsms, hmms⟩ := not_or.mp h
    by_cases hname : toAsciiLower name = "part"
    · refine ⟨(s.drops x raw).stats.droppedCharacterReferences, ?_⟩
      simp [step, hname, Reading.within, Event.parts, Event.addrs, attrs_eq, Reading.drops]
    by_cases hname' : toAsciiLower name = "addr"
    · refine ⟨(s.drops x raw).stats.droppedCharacterReferences, ?_⟩
      simp [step, hname', Reading.within, Event.parts, Event.addrs, attrs_eq, Reading.drops]
    · refine ⟨s.stats.droppedCharacterReferences, ?_⟩
      simp [step, hsms, hmms, hname, hname', Reading.within, Event.parts, Event.addrs]
  | stop name =>
    obtain ⟨hsms, hmms⟩ := not_or.mp h
    refine ⟨s.stats.droppedCharacterReferences, ?_⟩
    simp [step, hsms, hmms, Reading.within, Event.parts, Event.addrs]
  | other =>
    refine ⟨s.stats.droppedCharacterReferences, ?_⟩
    simp [step, Reading.within, Event.parts, Event.addrs]

/-- **Elements inside a message hand nothing over**, and only parts and addresses are kept of
them. -/
theorem silent_run (h : ∀ e ∈ es, e.Quiet) (s : Reading) :
    ∃ dropped, readEvents x toLowercase owners onRecord es s = (s.within x es dropped, none) := by
  induction es generalizing s with
  | nil =>
    refine ⟨s.stats.droppedCharacterReferences, ?_⟩
    simp [readEvents, Reading.within]
  | cons e es ih =>
    obtain ⟨d, hstep⟩ : ∃ d, step x toLowercase owners onRecord s e = (s.within x [e] d, none) :=
      step_quiet (h e List.mem_cons_self) s
    obtain ⟨dropped, hrest⟩ := ih (fun e' he' => h e' (List.mem_cons_of_mem e he')) (s.within x [e] d)
    refine ⟨dropped, ?_⟩
    rw [readEvents, hstep]
    show readEvents x toLowercase owners onRecord es (s.within x [e] d) = _
    rw [hrest]
    simp [Reading.within]

end runs

/-! Messages that were handled. -/

/-- The counters of messages and skips, without the references dropped. -/
def ParseStats.own (stats : ParseStats) : ParseStats := { stats with droppedCharacterReferences := 0 }

section handled
variable (x : Crates) (toLowercase : String → String) (owners : Option (Handle → Bool)) {E : Type}
variable (onRecord : List Record → Option E)

/-- The counters of messages added up. -/
def tally (stats : ParseStats) (messages : List Element) : ParseStats :=
  messages.foldl (fun stats m => stats.add (m.counts x toLowercase owners)) stats

/-- What a run from `s` handled: the records of the messages `handled` were handed over in order,
their counts added up, and a record that stopped it was the last one's. -/
structure Handled (s : Reading) (handled : List Element) (r : Reading × Option E) : Prop where
  records : r.1.records = s.records ++ handled.filterMap (Element.record x toLowercase owners)
  stats : r.1.stats.own = (tally x toLowercase owners s.stats handled).own
  stopped : ∀ error, r.2 = some error → ∃ before m record, handled = before ++ [m] ∧
    m.record x toLowercase owners = some record ∧ onRecord r.1.records = some error

end handled

section documents
variable {x : Crates} {toLowercase : String → String} {owners : Option (Handle → Bool)} {E : Type}
variable {onRecord : List Record → Option E} {s s' : Reading} {es : List Event}

theorem own_tally {stats stats' : ParseStats} (h : stats.own = stats'.own) (messages : List Element) :
    (tally x toLowercase owners stats messages).own =
      (tally x toLowercase owners stats' messages).own := by
  induction messages generalizing stats stats' with
  | nil => exact h
  | cons m messages ih =>
    apply ih
    calc (stats.add (m.counts x toLowercase owners)).own
        = (stats.own.add (m.counts x toLowercase owners)).own := rfl
      _ = (stats'.own.add (m.counts x toLowercase owners)).own := by rw [h]
      _ = (stats'.add (m.counts x toLowercase owners)).own := rfl

theorem Handled.none (hrecords : s'.records = s.records) (hstats : s'.stats.own = s.stats.own) :
    Handled x toLowercase owners onRecord s [] (s', none) where
  records := by simpa using hrecords
  stats := hstats
  stopped := by
    intro error h
    cases h

theorem Handled.append {first rest : List Element} {r : Reading × Option E}
    (h : Handled x toLowercase owners onRecord s first (s', Option.none))
    (h' : Handled x toLowercase owners onRecord s' rest r) :
    Handled x toLowercase owners onRecord s (first ++ rest) r where
  records := by
    rw [h'.records, h.records, List.filterMap_append, List.append_assoc]
  stats := by
    rw [h'.stats, own_tally h.stats, tally, tally, tally, List.foldl_append]
  stopped := by
    intro error hr
    obtain ⟨before, m, record, rfl, hm, herror⟩ := h'.stopped error hr
    exact ⟨first ++ before, m, record, by rw [List.append_assoc], hm, herror⟩

/-- A reading that differs in what is kept of open elements. -/
theorem Handled.of_same {handled : List Element} {r : Reading × Option E}
    (h : Handled x toLowercase owners onRecord s' handled r) (hrecords : s'.records = s.records)
    (hstats : s'.stats.own = s.stats.own) :
    Handled x toLowercase owners onRecord s handled r :=
  (Handled.none hrecords hstats).append h

theorem handled_take (s : Reading) (m : Element) :
    Handled x toLowercase owners onRecord s [m] (s.take x toLowercase owners onRecord m) := by
  have hparse := (parse_eq x toLowercase owners m s.stats).1
  cases hrecord : m.record x toLowercase owners with
  | none =>
    rw [hrecord] at hparse
    have htake : s.take x toLowercase owners onRecord m =
        ({ s with stats := s.stats.add (m.counts x toLowercase owners) }, none) := by
      simp only [Reading.take, hparse]
    rw [htake]
    exact {
      records := by simp [hrecord]
      stats := rfl
      stopped := by
        intro error h
        cases h }
  | some record =>
    rw [hrecord] at hparse
    have htake : s.take x toLowercase owners onRecord m =
        ({ s with
          stats := s.stats.add (m.counts x toLowercase owners)
          records := s.records ++ [record] }, onRecord (s.records ++ [record])) := by
      simp only [Reading.take, hparse]
    rw [htake]
    exact {
      records := by simp [hrecord]
      stats := rfl
      stopped := fun error h => ⟨[], m, record, rfl, hrecord, h⟩ }

/-! Items. -/

theorem toAsciiLower_mms {name : String} (h : IsMessage name) (hsms : toAsciiLower name ≠ "sms") :
    toAsciiLower name = "mms" := h.resolve_left hsms

/-- A message that opens keeps its attributes, and forgets what was kept before it. -/
theorem step_start {name : String} (h : IsMessage name) (raw : List (String × String)) (s : Reading) :
    ∃ opened : Reading, step x toLowercase owners onRecord s (.start name raw) = (opened, none) ∧
      opened.records = s.records ∧ opened.stats.own = s.stats.own ∧
      (toAsciiLower name = "sms" → opened.sms = ownAttrs x raw) ∧
      (toAsciiLower name = "mms" → opened.mms = ownAttrs x raw ∧ opened.parts = [] ∧
        opened.addrs = []) := by
  by_cases hsms : toAsciiLower name = "sms"
  · refine ⟨{ s.drops x raw with sms := s.attrs x raw }, by simp [step, hsms], rfl, rfl,
      fun _ => attrs_eq s raw, ?_⟩
    intro hmms
    rw [hsms] at hmms
    exact absurd hmms (by decide)
  · have hmms := toAsciiLower_mms h hsms
    refine ⟨{ s.drops x raw with mms := s.attrs x raw, parts := [], addrs := [] }, ?_, rfl, rfl,
      fun hname => absurd hname hsms, fun _ => ⟨attrs_eq s raw, rfl, rfl⟩⟩
    have hne : ¬ "mms" = "sms" := by decide
    simp only [step, hmms, if_neg hne, if_true]

/-- **An item is its message**, and nothing where it has none. -/
theorem handled_item (i : Item) (s : Reading) :
    Handled x toLowercase owners onRecord s (i.element x).toList
      (readEvents x toLowercase owners onRecord i.events s) := by
  have hne : ¬ "mms" = "sms" := by decide
  have hpart : ¬ "mms" = "part" := by decide
  have haddr : ¬ "mms" = "addr" := by decide
  cases i with
  | outside e quiet =>
    obtain ⟨dropped, hstep⟩ : ∃ d, step x toLowercase owners onRecord s e = (s.within x [e] d, none) :=
      step_quiet quiet s
    rw [Item.events, readEvents_one, hstep]
    exact .none rfl rfl
  | closed name raw message =>
    rw [Item.events, readEvents_one]
    by_cases hsms : toAsciiLower name = "sms"
    · have hstep : step x toLowercase owners onRecord s (.empty name raw) =
          (s.drops x raw).take x toLowercase owners onRecord (.sms (ownAttrs x raw)) := by
        simp only [step, hsms, if_true, attrs_eq]
      rw [hstep, Item.element, if_pos hsms, Option.toList_some]
      exact (handled_take (s.drops x raw) _).of_same rfl rfl
    · have hmms := toAsciiLower_mms message hsms
      have hstep : step x toLowercase owners onRecord s (.empty name raw) =
          (s.drops x raw).take x toLowercase owners onRecord (.mms (ownAttrs x raw) [] []) := by
        simp only [step, hmms, if_neg hne, if_neg hpart, if_neg haddr, if_true, attrs_eq]
      rw [hstep, Item.element, if_neg hsms, Option.toList_some]
      exact (handled_take (s.drops x raw) _).of_same rfl rfl
  | opened name raw inside message quiet =>
    obtain ⟨opened, hstart, hrecords, hstats, hopenSms, hopenMms⟩ : ∃ opened : Reading,
        step x toLowercase owners onRecord s (.start name raw) = (opened, none) ∧ _ :=
      step_start message raw s
    obtain ⟨dropped, hinside⟩ : ∃ d, readEvents x toLowercase owners onRecord inside opened =
        (opened.within x inside d, none) := silent_run quiet opened
    have hrun : readEvents x toLowercase owners onRecord (.start name raw :: (inside ++ [.stop name])) s =
        step x toLowercase owners onRecord (opened.within x inside dropped) (.stop name) := by
      rw [readEvents, hstart]
      show readEvents x toLowercase owners onRecord (inside ++ [.stop name]) opened = _
      rw [readEvents_append hinside, readEvents_one]
    rw [Item.events, hrun]
    by_cases hsms : toAsciiLower name = "sms"
    · have hstop : step x toLowercase owners onRecord (opened.within x inside dropped) (.stop name) =
          (opened.within x inside dropped).take x toLowercase owners onRecord
            (.sms (ownAttrs x raw)) := by
        rw [← hopenSms hsms]
        simp only [step, hsms, if_true, Reading.within]
      rw [hstop, Item.element, if_pos hsms, Option.toList_some]
      exact (handled_take (opened.within x inside dropped) _).of_same hrecords hstats
    · have hmms := toAsciiLower_mms message hsms
      obtain ⟨hattrs, hparts, haddrs⟩ := hopenMms hmms
      have hstop : step x toLowercase owners onRecord (opened.within x inside dropped) (.stop name) =
          { opened.within x inside dropped with parts := [], addrs := [] }.take x toLowercase owners
            onRecord (.mms (ownAttrs x raw) (inside.flatMap (Event.parts x))
              (inside.flatMap (Event.addrs x))) := by
        rw [← hattrs]
        simp only [step, hmms, if_neg hne, if_true, Reading.within, hparts, haddrs, List.nil_append]
      rw [hstop, Item.element, if_neg hsms, Option.toList_some]
      exact (handled_take _ _).of_same hrecords hstats

/-- Up to an event before its last, an item hands nothing over. -/
theorem handled_part {i : Item} (hpre : es <+: i.events) (hne : es ≠ i.events) (s : Reading) :
    ∃ s', readEvents x toLowercase owners onRecord es s = (s', none) ∧
      Handled x toLowercase owners onRecord s [] (s', none) := by
  have hnone : ∃ s', readEvents x toLowercase owners onRecord [] s = (s', none) ∧
      Handled x toLowercase owners onRecord s [] (s', none) := ⟨s, rfl, .none rfl rfl⟩
  cases i with
  | outside e quiet =>
    rcases List.prefix_cons_iff.mp hpre with rfl | ⟨t, rfl, ht⟩
    · exact hnone
    · rw [List.prefix_nil.mp ht] at hne
      exact absurd rfl hne
  | closed name raw message =>
    rcases List.prefix_cons_iff.mp hpre with rfl | ⟨t, rfl, ht⟩
    · exact hnone
    · rw [List.prefix_nil.mp ht] at hne
      exact absurd rfl hne
  | opened name raw inside message quiet =>
    rcases List.prefix_cons_iff.mp hpre with rfl | ⟨t, rfl, ht⟩
    · exact hnone
    -- the start, and some of the events inside
    · obtain ⟨opened, hstart, hrecords, hstats, -⟩ : ∃ opened : Reading,
          step x toLowercase owners onRecord s (.start name raw) = (opened, none) ∧ _ :=
        step_start message raw s
      have hinside : t <+: inside := by
        rcases List.prefix_concat_iff.mp ht with h | h
        · rw [h] at hne
          exact absurd rfl hne
        · exact h
      obtain ⟨dropped, hrun⟩ : ∃ d, readEvents x toLowercase owners onRecord t opened =
          (opened.within x t d, none) := silent_run (fun e he => quiet e (hinside.subset he)) opened
      refine ⟨opened.within x t dropped, ?_, .none hrecords hstats⟩
      rw [readEvents, hstart]
      exact hrun

/-- The events of a document up to one of them end inside its first item, or go on behind it. -/
theorem prefix_items {i : Item} {items : List Item} (h : es <+: (i :: items).flatMap Item.events) :
    (es <+: i.events ∧ es ≠ i.events) ∨
      ∃ rest, es = i.events ++ rest ∧ rest <+: items.flatMap Item.events := by
  obtain ⟨tail, htail⟩ := h
  rw [List.flatMap_cons] at htail
  rcases List.append_eq_append_iff.mp htail with ⟨rest, hes, hrest⟩ | ⟨rest, hes, hrest⟩
  · rcases Decidable.eq_or_ne rest [] with rfl | hne
    · rw [List.append_nil] at hes
      exact .inr ⟨[], by rw [hes, List.append_nil], List.nil_prefix⟩
    · refine .inl ⟨⟨rest, hes.symm⟩, ?_⟩
      intro heq
      rw [heq] at hes
      exact hne (List.self_eq_append_right.mp hes)
  · exact .inr ⟨rest, hes, ⟨tail, hrest.symm⟩⟩

theorem exists_handled (items : List Item) (hpre : es <+: items.flatMap Item.events) (s : Reading) :
    ∃ handled, handled <+: items.filterMap (Item.element x) ∧
      Handled x toLowercase owners onRecord s handled
        (readEvents x toLowercase owners onRecord es s) ∧
      (es = items.flatMap Item.events → (readEvents x toLowercase owners onRecord es s).2 = none →
        handled = items.filterMap (Item.element x)) := by
  induction items generalizing es s with
  | nil =>
    obtain rfl := List.prefix_nil.mp hpre
    exact ⟨[], List.nil_prefix, .none rfl rfl, fun _ _ => rfl⟩
  | cons i items ih =>
    have hmessages : (i :: items).filterMap (Item.element x) =
        (i.element x).toList ++ items.filterMap (Item.element x) := by
      cases h : i.element x <;> simp [h]
    rw [hmessages]
    rcases prefix_items hpre with ⟨hinside, hne⟩ | ⟨rest, rfl, hrest⟩
    · obtain ⟨s', hrun, hhandled⟩ : ∃ s', readEvents x toLowercase owners onRecord es s = (s', none) ∧
          Handled x toLowercase owners onRecord s [] (s', none) := handled_part hinside hne s
      refine ⟨[], List.nil_prefix, by rw [hrun]; exact hhandled, ?_⟩
      intro hall
      -- the whole document is longer than its first item
      rw [List.flatMap_cons] at hall
      obtain ⟨tail, htail⟩ := hinside
      have hlen := congrArg List.length hall
      have hlen' := congrArg List.length htail
      rw [List.length_append] at hlen hlen'
      have hzero : tail = [] := List.length_eq_zero_iff.mp (by omega)
      rw [hzero, List.append_nil] at htail
      exact absurd htail hne
    · have hitem : Handled x toLowercase owners onRecord s (i.element x).toList _ := handled_item i s
      cases hrun : readEvents x toLowercase owners onRecord i.events s with
      | mk s' error =>
        rw [hrun] at hitem
        cases error with
        | some error =>
          rw [readEvents_stopped hrun]
          refine ⟨(i.element x).toList, List.prefix_append .., hitem, ?_⟩
          intro _ hnone
          cases hnone
        | none =>
          rw [readEvents_append hrun]
          obtain ⟨handled, hpre', hhandled, hall⟩ := ih hrest s'
          refine ⟨(i.element x).toList ++ handled, (List.prefix_append_right_inj _).mpr hpre',
            hitem.append hhandled, ?_⟩
          intro heq hnone
          rw [List.flatMap_cons] at heq
          rw [hall (List.append_cancel_left heq) hnone]

/-- **The streaming reader takes the messages of a document one by one.** Of the events up to any of
them it has handled the messages that closed there, in order: each has given its record, of its own
attributes, parts and addresses, or one skip. A whole document that nothing stops gives them all. -/
theorem read_document (items : List Item) (n : Nat) (s : Reading) :
    (∃ handled, handled <+: items.filterMap (Item.element x) ∧
      Handled x toLowercase owners onRecord s handled
        (readEvents x toLowercase owners onRecord ((items.flatMap Item.events).take n) s) ∧
      ((items.flatMap Item.events).length ≤ n →
        (readEvents x toLowercase owners onRecord ((items.flatMap Item.events).take n) s).2 = none →
        handled = items.filterMap (Item.element x))) ∧
    ∀ m, Outcome m (m.record x toLowercase owners) (m.counts x toLowercase owners) := by
  obtain ⟨handled, hpre, hhandled, hall⟩ : ∃ handled, _ ∧
      Handled x toLowercase owners onRecord s handled _ ∧ _ :=
    exists_handled items (List.take_prefix n _) s
  refine ⟨⟨handled, hpre, hhandled, ?_⟩, fun m => (parse_eq x toLowercase owners m .zero).2⟩
  intro hlen hnone
  exact hall (List.take_of_length_le hlen) hnone

end documents

end MessageCrate.Sbr
