import MessageCrate.Formats.Mms
import MessageCrate.Formats.WspValues

/- The MMS decoder inside its lengths.

   1. `Contained`: a value behind a length ends where the length says and is read from the bytes
      before that end. Every length-prefixed shape but the content type is contained.
   2. `contentType_only_from_inside_iff`: a content type with a length is read from the bytes
      before its declared end exactly when its media and parameters stay inside it. It sets the
      cursor to that end without a look at where they ended.
   3. `decode_ends`: decoding a PDU ends with a message or an error and indexes nothing outside
      the bytes, since each turn of a loop moves the cursor. -/
namespace MessageCrate.Wsp

open Wire

variable {α : Type} {lossy : Lossy} {data data' : List UInt8} {pos q : Nat}

/-- Read from the bytes between the cursor and the declared end, with the cursor left there. -/
def Contained (d : Decoder α) : Prop :=
  ∀ data pos v q, pos ≤ data.length → d data pos = .ok (v, q) →
    (∀ len p, valueLength data pos = .ok (len, p) → q = p + len) ∧
      ∀ data', SameBytes data data' pos q → d data' pos = .ok (v, q)

theorem contained_lengthPrefixed {past : Option String} {mismatch : String} {body : Decoder α}
    (hbody : Good body) : Contained (lengthPrefixed past mismatch body) := by
  intro data pos v q hpos h
  refine ⟨?_, fun data' => (eats_lengthPrefixed hbody).loc data data' pos v q hpos h⟩
  intro len p hlen
  obtain ⟨len', p', hlen', -, -, rfl⟩ := lengthPrefixed_ok.mp h
  rw [hlen] at hlen'
  cases hlen'
  rfl

theorem valueLength_of_high {first : UInt8} (hfirst : data[pos]? = some first)
    (hhigh : 31 < first.toNat) {len p : Nat} : valueLength data pos ≠ .ok (len, p) := by
  intro h
  obtain ⟨byte, r, hbyte, h⟩ := bind_eq_ok.mp h
  rw [Wire.nextByte, hfirst] at hbyte
  cases hbyte
  rw [if_neg (by omega), if_neg] at h
  · cases h
  · rintro rfl
    exact absurd hhigh (by decide)

theorem contained_encodedString : Contained encodedString := by
  intro data pos v q hpos h
  refine ⟨?_, fun data' => eats_encodedString.loc data data' pos v q hpos h⟩
  intro len p hlen
  have hrun : (if (data[pos]?).any (fun b => b.toNat ≤ 31) then
      lengthPrefixed (some "encoded-string length past the end")
        "encoded-string length does not match its text" charsetText
      else (do return ⟨none, ← textString⟩ : Decoder EncodedString)) data pos = .ok (v, q) := h
  split at hrun
  · exact (contained_lengthPrefixed good_charsetText data pos v q hpos hrun).1 len p hlen
  · next hhigh =>
    cases hfirst : data[pos]? with
    | none =>
      obtain ⟨byte, r, hbyte, -⟩ := bind_eq_ok.mp hlen
      rw [Wire.nextByte, hfirst] at hbyte
      cases hbyte
    | some first =>
      rw [hfirst] at hhigh
      exact absurd hlen (valueLength_of_high hfirst (by simpa using hhigh))

/-! Content types. -/

theorem eats_param (params : List (String × String)) : Eats (param lossy params) := by
  apply eats_shortInteger?_bind
  · intro code
    cases hvalue : paramValue lossy code.toNat with
    | none =>
      simp only [hvalue]
      exact Good.pure' _
    | some found =>
      simp only [hvalue]
      exact ((eats_paramValue hvalue).bind fun _ => Good.pure' _).toGood
  · exact eats_lossyString.bind fun _ => eats_untypedValue.toGood.bind fun _ => Good.pure' _

theorem good_paramTurn (stop : Nat) (params : List (String × String)) :
    Good (paramTurn lossy stop params) := by
  apply Good.position.bind
  intro p
  split
  · exact Good.pure' _
  · exact (eats_param params).toGood

theorem moves_paramTurn (stop : Nat) : Moves (paramTurn lossy stop) := by
  intro params data pos params' q hpos h
  obtain ⟨_, _, hp, h⟩ := bind_eq_ok.mp h
  cases hp
  split at h
  · cases h
  · exact (eats_param params).moves data pos _ q hpos h

theorem good_prefixedBody (stop : Nat) : Good (prefixedBody lossy stop) :=
  eats_prefixedMedia.toGood.bind fun _ =>
    (good_whileLoop (good_paramTurn stop) (moves_paramTurn stop) []).bind fun _ => Good.pure' _

/-- A media type without a length. -/
theorem contentType_of_high {first : UInt8} (hfirst : data[pos]? = some first)
    (hhigh : 31 < first.toNat) :
    contentType lossy data pos =
      (constrainedMedia lossy >>= fun media => pure ⟨media, []⟩ : Decoder ContentType) data pos := by
  rw [contentType, bind_of_ok (show peek data pos = .ok (some first, pos) by rw [peek, hfirst])]
  simp only [if_pos hhigh]

/-- A content type with a length sets the cursor to the declared end, wherever its media and
parameters ended. -/
theorem contentType_prefixed_ok {first : UInt8} {ct : ContentType} (hfirst : data[pos]? = some first)
    (hlow : first.toNat ≤ 31) :
    contentType lossy data pos = .ok (ct, q) ↔
      ∃ len p r, valueLength data pos = .ok (len, p) ∧ p + len ≤ data.length ∧
        prefixedBody lossy (p + len) data p = .ok (ct, r) ∧ q = p + len := by
  rw [contentType, bind_of_ok (show peek data pos = .ok (some first, pos) by rw [peek, hfirst])]
  simp only [if_neg (Nat.not_lt.mpr hlow)]
  constructor
  · intro h
    obtain ⟨_, _, hstart, h⟩ := bind_eq_ok.mp h
    cases hstart
    obtain ⟨len, p, hlen, h⟩ := bind_eq_ok.mp h
    obtain ⟨_, _, hp, h⟩ := bind_eq_ok.mp h
    cases hp
    obtain ⟨_, _, hcheck, h⟩ := bind_eq_ok.mp h
    obtain ⟨hwithin, rfl⟩ := checkEnd_ok.mp hcheck
    obtain ⟨ct', r, hbody, h⟩ := bind_eq_ok.mp h
    obtain ⟨_, _, hseek, h⟩ := bind_eq_ok.mp h
    cases hseek
    cases h
    exact ⟨len, _, r, hlen, hwithin rfl, hbody, rfl⟩
  · rintro ⟨len, p, r, hlen, hwithin, hbody, rfl⟩
    refine bind_eq_ok.mpr ⟨pos, pos, rfl, bind_eq_ok.mpr ⟨len, p, hlen, bind_eq_ok.mpr ⟨p, p, rfl,
      bind_eq_ok.mpr ⟨(), p, checkEnd_ok.mpr ⟨fun _ => hwithin, rfl⟩, bind_eq_ok.mpr ⟨ct, r, hbody,
        bind_eq_ok.mpr ⟨(), p + len, rfl, rfl⟩⟩⟩⟩⟩⟩

theorem safe_contentType : Safe (contentType lossy) := by
  intro data pos hpos
  cases hfirst : data[pos]? with
  | none =>
    rw [contentType, bind_of_ok (show peek data pos = .ok (none, pos) by rw [peek, hfirst])]
    trivial
  | some first =>
    by_cases hhigh : 31 < first.toNat
    · rw [contentType_of_high hfirst hhigh]
      exact (eats_constrainedMedia.bind fun _ => Good.pure' _).safe data pos hpos
    · rw [contentType, bind_of_ok (show peek data pos = .ok (some first, pos) by rw [peek, hfirst])]
      simp only [if_neg hhigh]
      -- the declared end is inside the bytes and behind the length
      refine ends_bind (Good.position.safe data pos hpos) ?_
      intro start _ hstart _
      cases hstart
      refine ends_bind (eats_valueLength.safe data pos hpos) ?_
      intro len p _ hp
      refine ends_bind (Good.position.safe data p hp.2) ?_
      intro _ _ hposition _
      cases hposition
      refine ends_bind (safe_checkEnd _ _ _ data p hp.2) ?_
      intro _ _ hcheck _
      obtain ⟨hwithin, rfl⟩ := checkEnd_ok.mp hcheck
      refine ends_bind ((good_prefixedBody _).safe data _ hp.2) ?_
      intro ct r _ _
      have hstop := hwithin rfl
      exact ⟨by have := hp.1; omega, hstop⟩

/-- The media or a parameter of the content type at `pos` is read past the declared end. -/
def Overruns (lossy : Lossy) (data : List UInt8) (pos : Nat) : Prop :=
  ∃ first len p ct r, data[pos]? = some first ∧ first.toNat ≤ 31 ∧
    valueLength data pos = .ok (len, p) ∧ prefixedBody lossy (p + len) data p = .ok (ct, r) ∧
      p + len < r

theorem contentType_stop {ct : ContentType} (h : contentType lossy data pos = .ok (ct, q)) {len p : Nat}
    (hlen : valueLength data pos = .ok (len, p)) : q = p + len := by
  cases hfirst : data[pos]? with
  | none =>
    rw [contentType, bind_of_ok (show peek data pos = .ok (none, pos) by rw [peek, hfirst])] at h
    cases h
  | some first =>
    by_cases hhigh : 31 < first.toNat
    · exact absurd hlen (valueLength_of_high hfirst hhigh)
    · obtain ⟨len', p', r, hlen', -, -, rfl⟩ := (contentType_prefixed_ok hfirst (by omega)).mp h
      rw [hlen] at hlen'
      cases hlen'
      rfl

/-- **A content type is read from the bytes before its end exactly when nothing in it overruns
its length.** -/
theorem contentType_only_from_inside_iff {ct : ContentType} (hpos : pos ≤ data.length)
    (h : contentType lossy data pos = .ok (ct, q)) :
    (∀ data', SameBytes data data' pos q → contentType lossy data' pos = .ok (ct, q)) ↔
      ¬ Overruns lossy data pos := by
  constructor
  · rintro hlocal ⟨first, len, p, ct', r, hfirst, hlow, hlen, hbody, hover⟩
    have hq := contentType_stop h hlen
    have hp := eats_valueLength.safe.ok hpos hlen
    have hmoves := eats_valueLength.moves data pos len p hpos hlen
    have hin := safe_contentType.ok hpos h
    -- on the bytes up to the declared end the body stays inside, and it would do the same here
    have hcut := sameBytes_take data hin.1 hin.2
    have hfirst' : (data.take q)[pos]? = some first := by
      rw [hcut.2 pos (Nat.le_refl _) (by omega), hfirst]
    obtain ⟨len', p', r', hlen', hwithin, hbody', hstop⟩ :=
      (contentType_prefixed_ok hfirst' hlow).mp (hlocal _ hcut)
    rw [eats_valueLength.loc data _ pos len p hpos hlen (hcut.mono (by omega))] at hlen'
    cases hlen'
    have hlength : (data.take q).length = q := by
      rw [List.length_take, Nat.min_eq_left hin.2]
    have hr' := (good_prefixedBody _).safe.ok (by omega) hbody'
    have hback := (good_prefixedBody _).loc _ data p ct r' (by omega) hbody'
      (((hcut.from hp.1 (by omega) hin.2).symm hp.2).mono (by omega))
    rw [hbody] at hback
    cases hback
    omega
  · intro hinside data' hsame
    cases hfirst : data[pos]? with
    | none =>
      rw [contentType, bind_of_ok (show peek data pos = .ok (none, pos) by rw [peek, hfirst])] at h
      cases h
    | some first =>
      by_cases hhigh : 31 < first.toNat
      · have heats : Eats (constrainedMedia lossy >>= fun media => pure ⟨media, []⟩ :
            Decoder ContentType) := eats_constrainedMedia.bind fun _ => Good.pure' _
        rw [contentType_of_high hfirst hhigh] at h
        have hmove := heats.moves data pos ct q hpos h
        rw [contentType_of_high (by rw [hsame.2 pos (Nat.le_refl _) hmove, hfirst]) hhigh]
        exact heats.loc data data' pos ct q hpos h hsame
      · obtain ⟨len, p, r, hlen, hwithin, hbody, rfl⟩ :=
          (contentType_prefixed_ok hfirst (by omega)).mp h
        have hp := eats_valueLength.safe.ok hpos hlen
        have hmoves := eats_valueLength.moves data pos len p hpos hlen
        have hr := (good_prefixedBody _).safe.ok hp.2 hbody
        have hrstop : r ≤ p + len := by
          by_contra hover
          exact hinside ⟨first, len, p, ct, r, hfirst, by omega, hlen, hbody, by omega⟩
        have hfirst' : data'[pos]? = some first := by
          rw [hsame.2 pos (Nat.le_refl _) (by omega), hfirst]
        exact (contentType_prefixed_ok hfirst' (by omega)).mpr ⟨len, p, r,
          eats_valueLength.loc data data' pos len p hpos hlen (hsame.mono (by omega)),
          hsame.reaches (by omega) hwithin,
          (good_prefixedBody _).loc data data' p ct r hp.2 hbody
            ((hsame.from hp.1 (by omega) hwithin).mono hrstop), rfl⟩

/-! Parts. -/

theorem eats_partHeader (part : Part) : Eats (partHeader lossy part) := by
  apply eats_shortInteger?_bind
  · intro code
    simp only
    split
    · exact (eats_paramText.bind fun _ => Good.pure' _).toGood
    split
    · exact (eats_lossyString.bind fun _ => Good.pure' _).toGood
    split
    · exact (eats_valueLength.bind fun _ => (Good.take _ _).bind fun _ => Good.pure' _).toGood
    · exact Good.pure' _
  · refine eats_lossyString.bind fun name => eats_lossyString.toGood.bind fun value => ?_
    simp only
    split
    · exact Good.pure' _
    split
    · exact Good.pure' _
    · exact Good.pure' _

theorem safe_size : Safe size := fun _ _ hpos => ⟨Nat.le_refl _, hpos⟩

theorem safe_partTurn (part : Part) : Safe (partTurn lossy part) := by
  refine safe_size.bind fun n => Good.position.safe.bind fun p => ?_
  split
  · exact (Good.pure' _).safe
  · exact (eats_partHeader part).safe

theorem moves_partTurn : Moves (partTurn lossy) := by
  intro part data pos part' q hpos h
  obtain ⟨_, _, hsize, h⟩ := bind_eq_ok.mp h
  cases hsize
  obtain ⟨_, _, hp, h⟩ := bind_eq_ok.mp h
  cases hp
  split at h
  · cases h
  · exact (eats_partHeader part).moves data pos _ q hpos h

theorem safe_partHeaders (bytes : List UInt8) : Safe (partHeaders lossy bytes) :=
  safe_contentType.bind fun _ => safe_whileLoop safe_partTurn moves_partTurn _

theorem ends_map {β : Type} {P : β → Prop} {Q : α → Prop} {f : β → α} {x : Except Fail β}
    (hx : Ends P x) (hf : ∀ b, P b → Q (f b)) : Ends Q (x.map f) := by
  cases x with
  | ok b => exact hf b hx
  | error e =>
    cases e with
    | shape e => trivial
    | panic => exact hx

theorem partFromHeaders_ends (headers bytes : List UInt8) :
    Ends (fun _ => True) (partFromHeaders lossy headers bytes) :=
  ends_map (safe_partHeaders bytes headers 0 (Nat.zero_le _)) fun _ _ => trivial

theorem good_lift {r : Except Fail α} (hr : Ends (fun _ => True) r) : Good (lift r) where
  safe := by
    intro data pos hpos
    exact ends_map hr fun _ _ => ⟨Nat.le_refl _, hpos⟩
  loc := by
    intro data data' pos v q _ h _
    exact h

theorem eats_part : Eats (part lossy) :=
  eats_uintvar.bind fun _ => eats_uintvar.toGood.bind fun _ => (Good.take _ _).bind fun _ =>
    (Good.take _ _).bind fun _ => good_lift (partFromHeaders_ends _ _)

theorem take_ok {n : Nat} {what : String} {v : List UInt8} (hpos : pos ≤ data.length) :
    Wire.take n what data pos = .ok (v, q) ↔
      pos + n ≤ data.length ∧ v = (data.drop pos).take n ∧ q = pos + n := by
  rw [Wire.take]
  split
  · next hshort =>
    constructor
    · intro h
      cases h
    · rintro ⟨hle, -⟩
      omega
  · next hlong =>
    simp only [slice, if_pos (show pos ≤ pos + n ∧ pos + n ≤ data.length by omega),
      Nat.add_sub_cancel_left, Except.ok.injEq, Prod.mk.injEq]
    constructor
    · rintro ⟨rfl, rfl⟩
      exact ⟨by omega, rfl, rfl⟩
    · rintro ⟨-, rfl, rfl⟩
      exact ⟨rfl, rfl⟩

/-- **A part is read from its headers and its data, each as long as is declared and no longer,
and the next part starts behind them.** -/
theorem part_ok {v : Part} (hpos : pos ≤ data.length) :
    part lossy data pos = .ok (v, q) ↔
      ∃ headersLen dataLen p r, uintvar data pos = .ok (headersLen, p) ∧
        uintvar data p = .ok (dataLen, r) ∧ r + headersLen + dataLen ≤ data.length ∧
        partFromHeaders lossy ((data.drop r).take headersLen)
          ((data.drop (r + headersLen)).take dataLen) = .ok v ∧
        q = r + headersLen + dataLen := by
  constructor
  · intro h
    obtain ⟨headersLen, p, hheaders, h⟩ := bind_eq_ok.mp h
    have hp := eats_uintvar.safe.ok hpos hheaders
    obtain ⟨dataLen, r, hdata, h⟩ := bind_eq_ok.mp h
    have hr := eats_uintvar.safe.ok hp.2 hdata
    obtain ⟨headers, _, htake, h⟩ := bind_eq_ok.mp h
    obtain ⟨hin, rfl, rfl⟩ := (take_ok hr.2).mp htake
    obtain ⟨bytes, _, htake', h⟩ := bind_eq_ok.mp h
    obtain ⟨hin', rfl, rfl⟩ := (take_ok hin).mp htake'
    rw [lift] at h
    cases hpart : partFromHeaders lossy ((data.drop r).take headersLen)
        ((data.drop (r + headersLen)).take dataLen) with
    | error e =>
      rw [hpart] at h
      cases h
    | ok v' =>
      rw [hpart] at h
      cases h
      exact ⟨headersLen, dataLen, p, r, hheaders, hdata, hin', hpart, rfl⟩
  · rintro ⟨headersLen, dataLen, p, r, hheaders, hdata, hin, hpart, rfl⟩
    have hp := eats_uintvar.safe.ok hpos hheaders
    have hr := eats_uintvar.safe.ok hp.2 hdata
    refine bind_eq_ok.mpr ⟨headersLen, p, hheaders, bind_eq_ok.mpr ⟨dataLen, r, hdata,
      bind_eq_ok.mpr ⟨_, r + headersLen, (take_ok hr.2).mpr ⟨by omega, rfl, rfl⟩,
        bind_eq_ok.mpr ⟨_, r + headersLen + dataLen, (take_ok (by omega)).mpr ⟨hin, rfl, rfl⟩, ?_⟩⟩⟩⟩
    rw [lift, hpart]
    rfl

theorem good_parts : ∀ n, Good (parts lossy n)
  | 0 => Good.pure' _
  | n + 1 => eats_part.toGood.bind fun _ => (good_parts n).bind fun _ => Good.pure' _

theorem good_multipart : Good (multipart lossy) := by
  refine Good.position.bind fun start => eats_uintvar.toGood.bind fun n => ?_
  split
  · exact Good.failAt _ _
  · exact good_parts n

end MessageCrate.Wsp

namespace MessageCrate.Mms

open Wire Wsp

variable {lossy : Lossy} {data data' : List UInt8} {pos q : Nat}

/-! The values of the headers. -/

theorem eats_token (names : List String) : Eats (token names) :=
  eats_shortInteger.bind fun _ => Good.pure' _

theorem eats_string : Eats (string lossy) := eats_encodedString.bind fun _ => Good.pure' _

theorem good_fromBody : Good (fromBody lossy) := by
  refine (Eats.nextByte _).toGood.bind fun t => ?_
  split
  · exact Good.pure' _
  split
  · exact eats_string.toGood.bind fun _ => Good.pure' _
  · exact Good.position.bind fun _ => Good.failAt _ _

theorem good_timeBody : Good timeBody :=
  (Eats.nextByte _).toGood.bind fun _ => eats_integerValue.toGood.bind fun _ => Good.pure' _

theorem good_previouslySentBody (isDate : Bool) : Good (previouslySentBody lossy isDate) := by
  refine eats_integerValue.toGood.bind fun count => ?_
  cases isDate with
  | false => exact eats_string.toGood.bind fun _ => Good.pure' _
  | true => exact (eats_longInteger.toGood.bind fun _ => Good.pure' _).bind fun _ => Good.pure' _

theorem good_mmFlagsBody : Good (mmFlagsBody lossy) :=
  (eats_token _).toGood.bind fun _ => eats_string.toGood.bind fun _ => Good.pure' _

theorem good_mboxCountBody : Good mboxCountBody :=
  (eats_token _).toGood.bind fun _ => eats_integerValue.toGood.bind fun _ => Good.pure' _

theorem eats_absoluteOrRelative : Eats absoluteOrRelative := by
  refine Eats.of_bind Good.position fun start => (eats_lengthPrefixed good_timeBody).bind fun r => ?_
  simp only
  split
  · exact Good.pure' _
  split
  · exact Good.pure' _
  · exact Good.failAt _ _

theorem eats_messageClass : Eats (messageClass lossy) := by
  apply Eats.peek_bind
  intro next
  split
  · exact eats_token _
  · exact eats_lossyString

/-- An element descriptor's reference ends at or before the declared end, or there is an error. -/
theorem elementDescriptor_ok {v : String} :
    elementDescriptor lossy data pos = .ok (v, q) ↔
      ∃ len p r, valueLength data pos = .ok (len, p) ∧ p + len ≤ data.length ∧
        lossyString lossy data p = .ok (v, r) ∧ r ≤ p + len ∧ q = p + len := by
  constructor
  · intro h
    obtain ⟨_, _, hstart, h⟩ := bind_eq_ok.mp h
    cases hstart
    obtain ⟨len, p, hlen, h⟩ := bind_eq_ok.mp h
    obtain ⟨_, _, hp, h⟩ := bind_eq_ok.mp h
    cases hp
    obtain ⟨_, _, hcheck, h⟩ := bind_eq_ok.mp h
    obtain ⟨hwithin, rfl⟩ := checkEnd_ok.mp hcheck
    obtain ⟨v', r, hbody, h⟩ := bind_eq_ok.mp h
    obtain ⟨_, _, hr, h⟩ := bind_eq_ok.mp h
    cases hr
    split at h
    · cases h
    · next hstop =>
      obtain ⟨_, _, hseek, h⟩ := bind_eq_ok.mp h
      cases hseek
      cases h
      exact ⟨len, _, r, hlen, hwithin rfl, hbody, by omega, rfl⟩
  · rintro ⟨len, p, r, hlen, hwithin, hbody, hstop, rfl⟩
    refine bind_eq_ok.mpr ⟨pos, pos, rfl, bind_eq_ok.mpr ⟨len, p, hlen, bind_eq_ok.mpr ⟨p, p, rfl,
      bind_eq_ok.mpr ⟨(), p, checkEnd_ok.mpr ⟨fun _ => hwithin, rfl⟩, bind_eq_ok.mpr ⟨v, r, hbody,
        bind_eq_ok.mpr ⟨r, r, rfl, ?_⟩⟩⟩⟩⟩⟩
    rw [if_neg (by omega)]
    rfl

theorem eats_elementDescriptor : Eats (elementDescriptor lossy) where
  safe := by
    intro data pos hpos
    refine ends_bind (Good.position.safe data pos hpos) ?_
    intro start _ hstart _
    cases hstart
    refine ends_bind (eats_valueLength.safe data pos hpos) ?_
    intro len p _ hp
    refine ends_bind (Good.position.safe data p hp.2) ?_
    intro _ _ hposition _
    cases hposition
    refine ends_bind (safe_checkEnd _ _ _ data p hp.2) ?_
    intro _ _ hcheck _
    obtain ⟨hwithin, rfl⟩ := checkEnd_ok.mp hcheck
    refine ends_bind (eats_lossyString.safe data _ hp.2) ?_
    intro v r _ hr
    refine ends_bind (Good.position.safe data r hr.2) ?_
    intro _ _ hposition _
    cases hposition
    split
    · trivial
    · have hstop := hwithin rfl
      exact ⟨by have := hp.1; omega, hstop⟩
  loc := by
    intro data data' pos v q hpos h hsame
    obtain ⟨len, p, r, hlen, hwithin, hbody, hstop, rfl⟩ := elementDescriptor_ok.mp h
    have hp := eats_valueLength.safe.ok hpos hlen
    exact elementDescriptor_ok.mpr ⟨len, p, r,
      eats_valueLength.loc data data' pos len p hpos hlen (hsame.mono (by omega)),
      hsame.reaches (by omega) hwithin,
      eats_lossyString.loc data data' p v r hp.2 hbody
        ((hsame.from hp.1 (by omega) hwithin).mono hstop), hstop, rfl⟩
  moves := by
    intro data pos v q hpos h
    obtain ⟨len, p, r, hlen, -, -, -, rfl⟩ := elementDescriptor_ok.mp h
    have := eats_valueLength.moves data pos len p hpos hlen
    omega

theorem eats_read (shape : Shape) : Eats (shape.read lossy) := by
  cases shape with
  | string => exact eats_string
  | version => exact eats_shortInteger.bind fun _ => Good.pure' _
  | long => exact eats_longInteger.bind fun _ => Good.pure' _
  | previouslySent isDate => exact eats_lengthPrefixed (good_previouslySentBody isDate)
  | time => exact eats_absoluteOrRelative
  | messageClass => exact eats_messageClass
  | token names => exact eats_token names
  | short => exact eats_shortInteger.bind fun _ => Good.pure' _
  | attributes => exact eats_shortInteger.bind fun _ => Good.pure' _
  | integer => exact eats_integerValue.bind fun _ => Good.pure' _
  | mmFlags => exact eats_lengthPrefixed good_mmFlagsBody
  | mboxCount => exact eats_lengthPrefixed good_mboxCountBody
  | elementDescriptor => exact eats_elementDescriptor

/-! A PDU. -/

theorem eats_messageTypeToken : Eats messageTypeToken := by
  apply eats_shortInteger?_bind
  · exact fun _ => Good.pure' _
  · exact Eats.fail _

theorem eats_fieldCode : Eats fieldCode := by
  apply eats_shortInteger?_bind
  · exact fun _ => Good.pure' _
  · exact Eats.fail _

/-- Every header but the last is read from the bytes the cursor moves over. -/
theorem good_header (code : Nat) (msg : Message) : Good (header lossy code msg) := by
  rw [header]
  split
  · exact eats_messageTypeToken.toGood.bind fun _ => Good.pure' _
  split
  · exact (eats_lengthPrefixed good_fromBody).toGood.bind fun _ => Good.pure' _
  split
  · exact eats_string.toGood.bind fun _ => Good.pure' _
  split
  · exact eats_string.toGood.bind fun _ => Good.pure' _
  split
  · exact eats_string.toGood.bind fun _ => Good.pure' _
  split
  · exact eats_longInteger.toGood.bind fun _ => Good.pure' _
  split
  · exact eats_string.toGood.bind fun _ => Good.pure' _
  split
  · exact Good.position.bind fun _ => Good.failAt _ _
  · exact (eats_read _).toGood.bind fun _ => Good.pure' _

theorem safe_singlePart (ct : ContentType) : Safe (singlePart ct) := by
  refine Safe.bind ?_ fun _ => (Good.pure' _).safe
  intro data pos hpos
  rw [restOf, sliceFrom, if_pos hpos]
  exact ⟨Nat.le_refl _, hpos⟩

theorem safe_headerTurn (msg : Message) : Safe (headerTurn lossy msg) := by
  refine eats_fieldCode.safe.bind fun code => ?_
  split
  · refine safe_contentType.bind fun ct => ?_
    split
    · exact good_multipart.safe.bind fun _ => (Good.pure' _).safe
    · exact (safe_singlePart ct).bind fun _ => (Good.pure' _).safe
  · exact ((good_header _ msg).bind fun _ => Good.pure' _).safe

theorem moves_headerTurn : Moves (headerTurn lossy) := by
  intro msg data pos msg' q hpos h
  obtain ⟨code, p, hcode, h⟩ := bind_eq_ok.mp h
  have hp := eats_fieldCode.safe.ok hpos hcode
  have hmove := eats_fieldCode.moves data pos code p hpos hcode
  split at h
  · obtain ⟨ct, r, -, h⟩ := bind_eq_ok.mp h
    split at h
    · obtain ⟨parts, s, -, h⟩ := bind_eq_ok.mp h
      cases h
    · obtain ⟨parts, s, -, h⟩ := bind_eq_ok.mp h
      cases h
  · obtain ⟨msg'', r, hheader, h⟩ := bind_eq_ok.mp h
    have hr := (good_header code.toNat msg).safe.ok hp.2 hheader
    cases h
    omega

/-- **Decoding ends with a message or an error, and indexes nothing outside the bytes.** -/
theorem decode_ends (lossy : Lossy) (data : List UInt8) :
    Ends (fun _ => True) (decode lossy data) := by
  rw [decode]
  split
  · trivial
  · exact ends_map (safe_whileLoop safe_headerTurn moves_headerTurn _ data 0 (Nat.zero_le _))
      fun _ _ => trivial

/-! Every value behind a length. -/

theorem contained_fromValue : Contained (fromValue lossy) := contained_lengthPrefixed good_fromBody

theorem contained_absoluteOrRelative : Contained absoluteOrRelative := by
  intro data pos v q hpos h
  refine ⟨?_, fun data' => eats_absoluteOrRelative.loc data data' pos v q hpos h⟩
  intro len p hlen
  obtain ⟨_, _, hstart, h⟩ := bind_eq_ok.mp h
  cases hstart
  obtain ⟨value, r, hvalue, h⟩ := bind_eq_ok.mp h
  have hstop := (contained_lengthPrefixed good_timeBody data pos value r hpos hvalue).1 len p hlen
  simp only at h
  split at h
  · cases h
    exact hstop
  split at h
  · cases h
    exact hstop
  · cases h

theorem contained_elementDescriptor : Contained (elementDescriptor lossy) := by
  intro data pos v q hpos h
  refine ⟨?_, fun data' => eats_elementDescriptor.loc data data' pos v q hpos h⟩
  intro len p hlen
  obtain ⟨len', p', r, hlen', -, -, -, rfl⟩ := elementDescriptor_ok.mp h
  rw [hlen] at hlen'
  cases hlen'
  rfl

/-- The values behind a length that are read from inside it in every PDU. -/
structure AllContained (lossy : Lossy) : Prop where
  encodedString : Contained encodedString
  fromValue : Contained (fromValue lossy)
  absoluteOrRelative : Contained absoluteOrRelative
  previouslySent : ∀ isDate, Contained (previouslySent lossy isDate)
  mmFlags : Contained (mmFlags lossy)
  mboxCount : Contained mboxCount
  elementDescriptor : Contained (elementDescriptor lossy)

theorem allContained (lossy : Lossy) : AllContained lossy where
  encodedString := contained_encodedString
  fromValue := contained_fromValue
  absoluteOrRelative := contained_absoluteOrRelative
  previouslySent := fun isDate => contained_lengthPrefixed (good_previouslySentBody isDate)
  mmFlags := contained_lengthPrefixed good_mmFlagsBody
  mboxCount := contained_lengthPrefixed good_mboxCountBody
  elementDescriptor := contained_elementDescriptor

/-- **The decoder stays inside the bytes, and every value behind a length inside that length but
a content type that overruns it.** -/
theorem decode_inside_lengths (lossy : Lossy) :
    (∀ data, Ends (fun _ => True) (decode lossy data)) ∧ AllContained lossy ∧
    (∀ data pos v q, pos ≤ data.length → part lossy data pos = .ok (v, q) →
      ∃ headersLen dataLen p r, uintvar data pos = .ok (headersLen, p) ∧
        uintvar data p = .ok (dataLen, r) ∧ q = r + headersLen + dataLen ∧ q ≤ data.length ∧
        partFromHeaders lossy ((data.drop r).take headersLen)
          ((data.drop (r + headersLen)).take dataLen) = .ok v ∧
        ∀ data', SameBytes data data' pos q → part lossy data' pos = .ok (v, q)) ∧
    ∀ data pos ct q, pos ≤ data.length → contentType lossy data pos = .ok (ct, q) →
      (∀ len p, valueLength data pos = .ok (len, p) → q = p + len) ∧
      ((∀ data', SameBytes data data' pos q → contentType lossy data' pos = .ok (ct, q)) ↔
        ¬ Overruns lossy data pos) := by
  refine ⟨decode_ends lossy, allContained lossy, ?_, ?_⟩
  · intro data pos v q hpos h
    have hlocal := fun data' => eats_part.loc data data' pos v q hpos h
    obtain ⟨headersLen, dataLen, p, r, hheaders, hdata, hin, hpart, rfl⟩ := (part_ok hpos).mp h
    exact ⟨headersLen, dataLen, p, r, hheaders, hdata, rfl, hin, hpart, hlocal⟩
  · intro data pos ct q hpos h
    exact ⟨fun len p hlen => contentType_stop h hlen, contentType_only_from_inside_iff hpos h⟩

/-! A content type as a text. On ASCII the two decoders are the character of each number. -/

def ascii : Lossy where
  utf8 := fun bytes => String.ofList (bytes.map fun b => Char.ofNat b.toNat)
  utf16 := fun units => String.ofList (units.map Char.ofNat)

/-- `ab` and a charset, with a length of five. -/
def mediaInside : List UInt8 := [0x8c, 0x84, 0x84, 0x05, 97, 98, 0, 0x81, 0xea, 0]

/-- `ab` with a length of one: the declared end is before the `b`. -/
def mediaPast : List UInt8 := [0x8c, 0x84, 0x84, 0x01, 97, 98, 0]

/-- The same bytes up to the declared end, and another behind it. -/
def mediaPastOther : List UInt8 := [0x8c, 0x84, 0x84, 0x01, 97, 99, 0]

theorem decode_inside_lengths_media :
    ∀ data', SameBytes mediaInside data' 3 9 →
      contentType ascii data' 3 = .ok (⟨"ab", [("Charset", "106")]⟩, 9) := by
  have hread := (decode_inside_lengths ascii).2.2.2 mediaInside 3 ⟨"ab", [("Charset", "106")]⟩ 9
    (by decide) (by decide +kernel)
  apply hread.2.mpr
  rintro ⟨first, len, p, ct, r, -, -, hlen, hbody, hover⟩
  have hlen' : valueLength mediaInside 3 = .ok (5, 4) := by decide +kernel
  rw [hlen'] at hlen
  cases hlen
  have hbody' : prefixedBody ascii 9 mediaInside 4 = .ok (⟨"ab", [("Charset", "106")]⟩, 9) := by
    decide +kernel
  rw [hbody'] at hbody
  cases hbody
  omega

/-- A byte behind the declared end is part of the media, and again of the body. -/
theorem media_read_past_its_length :
    SameBytes mediaPast mediaPastOther 3 5 ∧
      contentType ascii mediaPast 3 = .ok (⟨"ab", []⟩, 5) ∧
      contentType ascii mediaPastOther 3 = .ok (⟨"ac", []⟩, 5) ∧
      (decode ascii mediaPast).map (fun m => (m.contentType, m.parts)) =
        .ok (some ⟨"ab", []⟩, [⟨⟨"ab", []⟩, none, none, [98, 0]⟩]) ∧
      ¬ Contained (contentType ascii) := by
  have hsame : SameBytes mediaPast mediaPastOther 3 5 := by
    refine ⟨by decide, ?_⟩
    intro i hi hlt
    obtain rfl | rfl : i = 3 ∨ i = 4 := by omega
    · rfl
    · rfl
  have hread : contentType ascii mediaPast 3 = .ok (⟨"ab", []⟩, 5) := by decide +kernel
  have hother : contentType ascii mediaPastOther 3 = .ok (⟨"ac", []⟩, 5) := by decide +kernel
  refine ⟨hsame, hread, hother, by decide +kernel, ?_⟩
  intro hcontained
  have hagain := (hcontained mediaPast 3 _ 5 (by decide) hread).2 mediaPastOther hsame
  rw [hother] at hagain
  exact absurd hagain (by decide +kernel)

end MessageCrate.Mms
