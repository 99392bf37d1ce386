import MessageCrate.Formats.Wsp

/- The WSP values that are read from the bytes their cursor moves over and no others.

   `Good` and `Eats` of each value shape, of the smallest first. A value behind its length ends
   where the length says (`lengthPrefixed_ok`), which a declared end past the bytes does not
   change. Content types are in `Formats.Inside`. -/
namespace MessageCrate.Wsp

open Wire

variable {α : Type} {lossy : Lossy} {data data' : List UInt8} {pos q : Nat}

/-! Numbers. -/

theorem eats_uintvarLoop (start : Nat) : ∀ (turns value : Nat), Eats (uintvarLoop start turns value)
  | 0, _ => Eats.failAt _ _
  | turns + 1, value => by
    rw [uintvarLoop]
    apply (Eats.nextByte _).bind
    intro byte
    simp only
    split
    · exact Good.pure' _
    · exact (eats_uintvarLoop start turns _).toGood

theorem eats_uintvar : Eats uintvar := Eats.of_bind Good.position fun start => eats_uintvarLoop start 5 0

theorem eats_valueLength : Eats valueLength := by
  apply (Eats.nextByte _).bind
  intro byte
  split
  · exact Good.pure' _
  split
  · exact eats_uintvar.toGood
  · exact Good.position.bind fun _ => Good.failAt _ _

theorem eats_shortInteger : Eats shortInteger where
  safe := by
    intro data pos hpos
    rw [shortInteger]
    split
    · next b hb =>
      have := (List.getElem?_eq_some_iff.mp hb).1
      split
      · exact ⟨Nat.le_succ _, this⟩
      · trivial
    · trivial
  loc := by
    intro data data' pos v q hpos h hsame
    rw [shortInteger] at h ⊢
    split at h
    · next b hb =>
      split at h
      · next hhigh =>
        cases h
        rw [hsame.2 pos (Nat.le_refl _) (Nat.lt_succ_self _), hb]
        simp [hhigh]
      · cases h
    · cases h
  moves := by
    intro data pos v q _ h
    rw [shortInteger] at h
    split at h
    · split at h
      · cases h
        exact Nat.lt_succ_self pos
      · cases h
    · cases h

theorem eats_longInteger : Eats longInteger := by
  apply (Eats.nextByte _).bind
  intro len
  split
  · exact Good.position.bind fun _ => Good.failAt _ _
  · exact (Good.take _ _).bind fun _ => Good.pure' _

theorem eats_integerValue : Eats integerValue := by
  apply Eats.peek_bind
  intro next
  split
  · exact eats_shortInteger.bind fun _ => Good.pure' _
  · exact eats_longInteger

/-! Text. -/

theorem textStart_cases (data : List UInt8) (pos : Nat) :
    textStart data pos = pos ∨ textStart data pos = pos + 1 ∧ pos < data.length := by
  rw [textStart]
  split
  · next hquote =>
    refine .inr ⟨rfl, ?_⟩
    rcases hquote with h | h
    · exact (List.getElem?_eq_some_iff.mp h).1
    · exact (List.getElem?_eq_some_iff.mp h).1
  · exact .inl rfl

theorem findIdx?_nul_iff (xs : List UInt8) (len : Nat) :
    xs.findIdx? (· == 0) = some len ↔ xs[len]? = some 0 ∧ ∀ j, j < len → xs[j]? ≠ some 0 := by
  rw [List.findIdx?_eq_some_iff_getElem]
  constructor
  · rintro ⟨hlen, hnul, hbefore⟩
    refine ⟨by rw [List.getElem?_eq_getElem hlen, eq_of_beq hnul], ?_⟩
    intro j hj
    rw [List.getElem?_eq_getElem (by omega)]
    simpa using hbefore j hj
  · rintro ⟨hnul, hbefore⟩
    obtain ⟨hlen, hvalue⟩ := List.getElem?_eq_some_iff.mp hnul
    refine ⟨hlen, by simp [hvalue], ?_⟩
    intro j hj
    have := hbefore j hj
    rw [List.getElem?_eq_getElem (by omega)] at this
    simpa using this

/-- A text is the bytes up to its NUL. -/
theorem textString_eq (hpos : pos ≤ data.length) :
    textString data pos =
      match (data.drop (textStart data pos)).findIdx? (· == 0) with
      | none => .error (.shape ⟨textStart data pos, "text-string without a NUL"⟩)
      | some len =>
        .ok ((data.drop (textStart data pos)).take len, textStart data pos + len + 1) := by
  have hstart : textStart data pos ≤ data.length := by
    rcases textStart_cases data pos with h | h
    · omega
    · omega
  rw [textString]
  simp only [sliceFrom, if_pos hstart]
  cases hfind : (data.drop (textStart data pos)).findIdx? (· == 0) with
  | none => rfl
  | some len =>
    have hlen := (List.findIdx?_eq_some_iff_getElem.mp hfind).1
    rw [List.length_drop] at hlen
    simp only [slice, if_pos (show textStart data pos ≤ textStart data pos + len ∧
      textStart data pos + len ≤ data.length by omega), Nat.add_sub_cancel_left]

theorem textString_ok {v : List UInt8} (hpos : pos ≤ data.length) :
    textString data pos = .ok (v, q) ↔
      ∃ len, data[textStart data pos + len]? = some 0 ∧
        (∀ j, j < len → data[textStart data pos + j]? ≠ some 0) ∧
        v = (data.drop (textStart data pos)).take len ∧ q = textStart data pos + len + 1 := by
  rw [textString_eq hpos]
  have hiff := findIdx?_nul_iff (data.drop (textStart data pos))
  simp only [List.getElem?_drop] at hiff
  cases hfind : (data.drop (textStart data pos)).findIdx? (· == 0) with
  | none =>
    constructor
    · intro h
      cases h
    · rintro ⟨len, hnul, hbefore, -⟩
      rw [(hiff len).mpr ⟨hnul, hbefore⟩] at hfind
      cases hfind
  | some len =>
    constructor
    · intro h
      cases h
      exact ⟨len, ((hiff len).mp hfind).1, ((hiff len).mp hfind).2, rfl, rfl⟩
    · rintro ⟨len', hnul, hbefore, rfl, rfl⟩
      rw [(hiff len').mpr ⟨hnul, hbefore⟩] at hfind
      cases hfind
      rfl

theorem eats_textString : Eats textString where
  safe := by
    intro data pos hpos
    rw [textString_eq hpos]
    split
    · trivial
    · next len hfind =>
      have hlen := (List.findIdx?_eq_some_iff_getElem.mp hfind).1
      rw [List.length_drop] at hlen
      have hstart := textStart_cases data pos
      exact ⟨by show pos ≤ textStart data pos + len + 1; omega,
        by show textStart data pos + len + 1 ≤ data.length; omega⟩
  loc := by
    intro data data' pos v q hpos h hsame
    obtain ⟨len, hnul, hbefore, rfl, rfl⟩ := (textString_ok hpos).mp h
    have hcases := textStart_cases data pos
    have hstart : textStart data' pos = textStart data pos := by
      rw [textStart, textStart, hsame.2 pos (Nat.le_refl _) (by omega)]
    have hlen := (List.getElem?_eq_some_iff.mp hnul).1
    have hslice := (hsame.from (c := textStart data pos) (by omega) (by omega) (by omega)).slice
    rw [textString_ok hsame.1, hstart]
    refine ⟨len, ?_, ?_, ?_, rfl⟩
    · rw [hsame.2 _ (by omega) (by omega), hnul]
    · intro j hj
      rw [hsame.2 _ (by omega) (by omega)]
      exact hbefore j hj
    · have htake := congrArg (List.take len) hslice
      rw [List.take_take, List.take_take, Nat.min_eq_left (by omega)] at htake
      exact htake.symm
  moves := by
    intro data pos v q hpos h
    obtain ⟨len, -, -, -, rfl⟩ := (textString_ok hpos).mp h
    rcases textStart_cases data pos with hstart | hstart
    · omega
    · omega

/-! Values behind their length. -/

theorem checkEnd_ok {past : Option String} {start stop : Nat} {u : Unit} :
    checkEnd past start stop data pos = .ok (u, q) ↔
      (past.isSome = true → stop ≤ data.length) ∧ q = pos := by
  cases past with
  | none =>
    show Except.ok (PUnit.unit, pos) = Except.ok (u, q) ↔ _
    simp [eq_comm]
  | some what =>
    show (if data.length < stop then failAt start what else pure ()) data pos = _ ↔ _
    split
    · next hlt =>
      constructor
      · intro h
        cases h
      · rintro ⟨hle, -⟩
        have := hle rfl
        omega
    · next hge =>
      rw [pure_apply]
      simp only [Option.isSome_some, true_implies, Except.ok.injEq, Prod.mk.injEq, true_and]
      constructor
      · rintro rfl
        exact ⟨by omega, rfl⟩
      · rintro ⟨-, rfl⟩
        rfl

/-- **A value behind its length ends where the length says.** -/
theorem lengthPrefixed_ok {past : Option String} {mismatch : String} {body : Decoder α} {v : α} :
    lengthPrefixed past mismatch body data pos = .ok (v, q) ↔
      ∃ len p, valueLength data pos = .ok (len, p) ∧ (past.isSome = true → p + len ≤ data.length) ∧
        body data p = .ok (v, q) ∧ q = p + len := by
  constructor
  · intro h
    obtain ⟨start, _, hstart, h⟩ := bind_eq_ok.mp h
    cases hstart
    obtain ⟨len, p, hlen, h⟩ := bind_eq_ok.mp h
    obtain ⟨_, _, hp, h⟩ := bind_eq_ok.mp h
    cases hp
    obtain ⟨u, _, hcheck, h⟩ := bind_eq_ok.mp h
    obtain ⟨hwithin, rfl⟩ := checkEnd_ok.mp hcheck
    obtain ⟨v', r, hbody, h⟩ := bind_eq_ok.mp h
    obtain ⟨_, _, hr, h⟩ := bind_eq_ok.mp h
    cases hr
    split at h
    · cases h
    · next heq =>
      cases h
      exact ⟨len, _, hlen, hwithin, hbody, not_not.mp heq⟩
  · rintro ⟨len, p, hlen, hwithin, hbody, rfl⟩
    refine bind_eq_ok.mpr ⟨pos, pos, rfl, bind_eq_ok.mpr ⟨len, p, hlen, bind_eq_ok.mpr ⟨p, p, rfl,
      bind_eq_ok.mpr ⟨(), p, checkEnd_ok.mpr ⟨hwithin, rfl⟩, bind_eq_ok.mpr ⟨v, p + len, hbody,
        bind_eq_ok.mpr ⟨p + len, p + len, rfl, ?_⟩⟩⟩⟩⟩⟩
    rw [if_neg (not_not.mpr rfl), pure_apply]

theorem safe_checkEnd (past : Option String) (start stop : Nat) : Safe (checkEnd past start stop) := by
  cases past with
  | none => exact (Good.pure' ()).safe
  | some what =>
    intro data pos hpos
    show Ends _ ((if data.length < stop then failAt start what else pure ()) data pos)
    split
    · trivial
    · exact ⟨Nat.le_refl _, hpos⟩

theorem eats_lengthPrefixed {past : Option String} {mismatch : String} {body : Decoder α}
    (hbody : Good body) : Eats (lengthPrefixed past mismatch body) where
  safe := by
    refine Good.position.safe.bind fun start => eats_valueLength.safe.bind fun len =>
      Good.position.safe.bind fun p => (safe_checkEnd _ _ _).bind fun _ => hbody.safe.bind fun v =>
        Good.position.safe.bind fun r => ?_
    split
    · exact (Good.failAt _ _).safe
    · exact (Good.pure' _).safe
  loc := by
    intro data data' pos v q hpos h hsame
    obtain ⟨len, p, hlen, hwithin, hrun, rfl⟩ := lengthPrefixed_ok.mp h
    have hp := eats_valueLength.safe.ok hpos hlen
    have hstop := hbody.safe.ok hp.2 hrun
    have hreach := hsame.reaches (by omega) hstop.2
    exact lengthPrefixed_ok.mpr ⟨len, p,
      eats_valueLength.loc data data' pos len p hpos hlen (hsame.mono hstop.1), fun _ => hreach,
      hbody.loc data data' p v (p + len) hp.2 hrun (hsame.from hp.1 hstop.1 hstop.2), rfl⟩
  moves := by
    intro data pos v q hpos h
    obtain ⟨len, p, hlen, -, -, rfl⟩ := lengthPrefixed_ok.mp h
    have := eats_valueLength.moves data pos len p hpos hlen
    omega

theorem good_charsetText : Good charsetText :=
  eats_integerValue.toGood.bind fun _ => eats_textString.toGood.bind fun _ =>
    Good.pure' _

theorem eats_encodedString : Eats encodedString := by
  apply Eats.peek_bind
  intro next
  split
  · exact eats_lengthPrefixed good_charsetText
  · exact eats_textString.bind fun _ => Good.pure' _

theorem eats_lossyString : Eats (lossyString lossy) := eats_textString.bind fun _ => Good.pure' _

theorem eats_paramText : Eats (paramText lossy) := eats_encodedString.bind fun _ => Good.pure' _

/-! Content types. -/

theorem good_wellKnown (offset id : Nat) : Good (wellKnown offset id) := by
  rw [wellKnown]
  split
  · exact Good.pure' _
  · exact Good.failAt _ _

theorem eats_constrainedMedia : Eats (constrainedMedia lossy) := by
  apply Eats.peek_bind
  intro next
  split
  · exact Eats.of_bind Good.position fun _ => eats_shortInteger.bind fun _ => good_wellKnown _ _
  · exact eats_lossyString.bind fun _ => Good.pure' _

theorem eats_prefixedMedia : Eats (prefixedMedia lossy) := by
  apply Eats.peek_bind
  intro next
  split
  · exact Eats.of_bind Good.position fun _ => eats_longInteger.bind fun _ => good_wellKnown _ _
  · exact eats_constrainedMedia

theorem eats_untypedValue : Eats (untypedValue lossy) := by
  apply Eats.peek_bind
  intro next
  split
  · exact eats_integerValue.bind fun _ => Good.pure' _
  · exact eats_lossyString

/-- Every code that is known is read by one decoder of a few. -/
theorem eats_paramValue {code : Nat} {name : String} {value : Decoder String}
    (h : paramValue lossy code = some (name, value)) : Eats value := by
  have hnumber : Eats (do return toString (← integerValue) : Decoder String) :=
    eats_integerValue.bind fun _ => Good.pure' _
  have hmedia : Eats (constrainedMedia lossy) := eats_constrainedMedia
  have htext : Eats (paramText lossy) := eats_paramText
  rw [paramValue] at h
  split at h
  · cases h
    exact hnumber
  split at h
  · cases h
    exact hnumber
  split at h
  · cases h
    exact hmedia
  split at h
  · cases h
    exact htext
  split at h
  · cases h
    exact htext
  split at h
  · cases h
    exact htext
  split at h
  · cases h
    exact htext
  · cases h

/-- A byte that is looked at as a short integer: either it is moved over, or what follows
moves over it. -/
theorem eats_shortInteger?_bind {f : Option UInt8 → Decoder α} (hsome : ∀ b, Good (f (some b)))
    (hnone : Eats (f none)) : Eats (shortInteger? >>= f) := by
  have heq : (shortInteger? >>= f) =
      peek >>= fun o => if o.any isHigh then shortInteger >>= (fun b => f (some b)) else f none := by
    funext data pos
    rw [bind_apply, shortInteger?, bind_apply]
    show _ = (if (data[pos]?).any isHigh then _ else _ : Decoder α) data pos
    cases hbyte : data[pos]? with
    | none => simp [shortInteger, hbyte, Wire.fail]
    | some b =>
      by_cases hhigh : isHigh b = true
      · simp [shortInteger, hbyte, hhigh, bind_apply]
      · simp [shortInteger, hbyte, hhigh, Wire.fail]
  rw [heq]
  apply Eats.peek_bind
  intro o
  split
  · exact eats_shortInteger.bind hsome
  · exact hnone

end MessageCrate.Wsp
