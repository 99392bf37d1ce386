import MessageCrate.Dedupe.Run

/- Where a `duplicate_of` leads.

   What is proved:
     1. `exact_flags_spec` and `near_flags_spec`: the pairs of each pass hide no message
        twice and no winner of their own, and join messages the pass may join
        (`ExactLink`, `NearLink`).
     2. `dedupe_chains_end`: over a whole run, every hidden message leads to a shown one in
        one link or in two, and no message is flagged twice.
     3. `dedupe_leaves_a_chain` (anti-vacuity): a run with two links in a row. -/
namespace MessageCrate
open Text Grouping

/-- An exact link: the two messages share a content key. -/
def ExactLink (m m' : Message) : Prop :=
  ∃ key, key ≠ "" ∧ m.contentKey = some key ∧ m'.contentKey = some key

/-- A near-time link: the two messages are of one conversation, and each is, or is a
near-time twin of, one of its messages, at most the window earlier. -/
def NearLink (rfc3339Secs : String → Option Int) (windowSecs : Int) (a : Account)
    (m m' : Message) : Prop :=
  m.conversationId = m'.conversationId ∧
    ∃ first ∈ a.messages, first.conversationId = m.conversationId ∧
      ∃ firstRow row row', nearRow rfc3339Secs first = some firstRow ∧
        nearRow rfc3339Secs m = some row ∧ nearRow rfc3339Secs m' = some row' ∧
        InCluster windowSecs firstRow row ∧ InCluster windowSecs firstRow row'

/-! The pairs of the exact pass. -/

section
variable (w : Walk) (prio : String → Option Nat) {a : Account}

theorem Account.eq_of_id_eq {m m' : Message} (h : m ∈ a.messages) (h' : m' ∈ a.messages)
    (hid : m.id = m'.id) : m = m' :=
  List.inj_on_of_nodup_map a.ids_nodup h h' hid

theorem keyed_spec {m : Message} {e : String × Cand} (h : m.keyed = some e) :
    m.contentKey = some e.1 ∧ e.1 ≠ "" ∧ e.2.id = m.id := by
  unfold Message.keyed at h
  split at h
  · next key hkey =>
    split at h
    · next hne =>
      cases h
      exact ⟨hkey, by simpa using hne, rfl⟩
    · cases h
  · cases h

theorem mem_byContentKey {key : String} {g : List (String × Cand)}
    (h : (key, g) ∈ byContentKey w a) {e : String × Cand} (he : e ∈ g) :
    ∃ m ∈ a.messages, m.contentKey = some key ∧ key ≠ "" ∧ m.id = e.2.id := by
  obtain ⟨hmem, rfl⟩ := mem_of_mem_group h he
  obtain ⟨m, hm, hkeyed⟩ := List.mem_filterMap.mp ((w.perm _).mem_iff.mp hmem)
  obtain ⟨hkey, hne, hid⟩ := keyed_spec hkeyed
  exact ⟨m, hm, hkey, hne, hid.symm⟩

theorem byContentKey_ids_nodup {key : String} {g : List (String × Cand)}
    (h : (key, g) ∈ byContentKey w a) : (g.map (fun e => e.2.id)).Nodup := by
  have hall : ((w.order (a.messages.filterMap Message.keyed)).map
      (fun e : String × Cand => e.2.id)).Nodup := by
    rw [((w.perm _).map _).nodup_iff]
    exact a.ids_nodup.sublist (map_filterMap_sublist
      (fun m e he => (keyed_spec he).2.2) a.messages)
  rw [(mem_group.mp h).1]
  exact hall.sublist (List.filter_sublist.map _)

theorem copyGroup_cands {p : String × List (String × Cand)} {g : CopyGroup}
    (h : copyGroup p = some g) : g.cands = p.2.map Prod.snd := by
  unfold copyGroup at h
  split at h
  · cases h; rfl
  · cases h

theorem copyGroup_ids {p : String × List (String × Cand)} {g : CopyGroup}
    (h : copyGroup p = some g) : g.cands.map Cand.id = p.2.map (fun e => e.2.id) := by
  rw [copyGroup_cands h, List.map_map]
  rfl

/-- A pair of the exact pass is a pair of one content key's group. -/
theorem exact_flag_origin {f : Int × Int} (h : f ∈ exactFlags w prio a) :
    ∃ p ∈ byContentKey w a, ∃ g, copyGroup p = some g ∧ f ∈ exactGroupFlags w prio g := by
  obtain ⟨p, hp, hf⟩ := List.mem_flatMap.mp h
  cases hg : copyGroup p with
  | none => rw [hg] at hf; cases hf
  | some g =>
    rw [hg] at hf
    exact ⟨p, (w.perm _).mem_iff.mp hp, g, hg, hf⟩

/-- The messages of a group's pair, with their content key. -/
theorem exact_flag_messages {p : String × List (String × Cand)} (hp : p ∈ byContentKey w a)
    {g : CopyGroup} (hg : copyGroup p = some g) {i : Int} (hi : i ∈ g.cands.map Cand.id) :
    ∃ m ∈ a.messages, m.id = i ∧ m.contentKey = some p.1 ∧ p.1 ≠ "" := by
  rw [copyGroup_ids hg] at hi
  obtain ⟨e, he, rfl⟩ := List.mem_map.mp hi
  obtain ⟨m, hm, hkey, hne, hid⟩ := mem_byContentKey w hp he
  exact ⟨m, hm, hid, hkey, hne⟩

/-- Two groups that both hold a message are one. -/
theorem byContentKey_eq {p p' : String × List (String × Cand)} (hp : p ∈ byContentKey w a)
    (hp' : p' ∈ byContentKey w a) {g g' : CopyGroup} (hg : copyGroup p = some g)
    (hg' : copyGroup p' = some g') {i : Int} (hi : i ∈ g.cands.map Cand.id)
    (hi' : i ∈ g'.cands.map Cand.id) : p = p' := by
  obtain ⟨m, hm, hid, hkey, -⟩ := exact_flag_messages w hp hg hi
  obtain ⟨m', hm', hid', hkey', -⟩ := exact_flag_messages w hp' hg' hi'
  rw [Account.eq_of_id_eq hm hm' (hid.trans hid'.symm), hkey'] at hkey
  obtain ⟨key, rows⟩ := p
  obtain ⟨key', rows'⟩ := p'
  obtain rfl : key' = key := Option.some.inj hkey
  rw [(mem_group.mp hp).1, (mem_group.mp hp').1]

/-- **The pairs of the exact pass.** -/
theorem exact_flags_spec :
    (∀ f ∈ exactFlags w prio a, ∃ m ∈ a.messages, ∃ m' ∈ a.messages,
      m.id = f.1 ∧ m'.id = f.2 ∧ ExactLink m m') ∧
    ((exactFlags w prio a).map Prod.fst).Nodup ∧
    ∀ f ∈ exactFlags w prio a, ∀ f' ∈ exactFlags w prio a, f.2 ≠ f'.1 := by
  refine ⟨?_, ?_, ?_⟩
  · intro f hf
    obtain ⟨p, hp, g, hg, hfg⟩ := exact_flag_origin w prio hf
    obtain ⟨hloser, hwinner⟩ := loser_mem w prio hfg
    obtain ⟨m, hm, hid, hkey, hne⟩ := exact_flag_messages w hp hg hloser
    obtain ⟨m', hm', hid', hkey', -⟩ := exact_flag_messages w hp hg (winner_mem prio)
    exact ⟨m, hm, m', hm', hid, hid'.trans hwinner.symm, p.1, hne, hkey, hkey'⟩
  · rw [exactFlags, List.map_flatMap, List.nodup_flatMap]
    constructor
    · intro p hp
      have hp := (w.perm _).mem_iff.mp hp
      cases hg : copyGroup p with
      | none => exact List.nodup_nil
      | some g =>
        refine losers_nodup w prio ?_
        rw [copyGroup_ids hg]
        exact byContentKey_ids_nodup w hp
    · have hnd : (w.order (byContentKey w a)).Nodup :=
        (w.perm _).nodup_iff.mpr (group_nodup _ _)
      refine List.Pairwise.imp_of_mem ?_ hnd
      intro p p' hp hp' hne i hi hi'
      obtain ⟨f, hf, rfl⟩ := List.mem_map.mp hi
      obtain ⟨f', hf', hff'⟩ := List.mem_map.mp hi'
      cases hg : copyGroup p with
      | none => rw [hg] at hf; cases hf
      | some g =>
        cases hg' : copyGroup p' with
        | none => rw [hg'] at hf'; cases hf'
        | some g' =>
          rw [hg] at hf
          rw [hg'] at hf'
          exact hne (byContentKey_eq w ((w.perm _).mem_iff.mp hp) ((w.perm _).mem_iff.mp hp')
            hg hg' (loser_mem w prio hf).1 (hff' ▸ (loser_mem w prio hf').1))
  · intro f hf f' hf' hff'
    obtain ⟨p, hp, g, hg, hfg⟩ := exact_flag_origin w prio hf
    obtain ⟨p', hp', g', hg', hfg'⟩ := exact_flag_origin w prio hf'
    have hwinner := (loser_mem w prio hfg).2
    obtain rfl : p = p' := byContentKey_eq w hp hp' hg hg' (winner_mem prio)
      (by rw [← hwinner, hff']; exact (loser_mem w prio hfg').1)
    obtain rfl : g = g' := Option.some.inj (hg.symm.trans hg')
    have hids : (g.cands.map Cand.id).Nodup := by
      rw [copyGroup_ids hg]
      exact byContentKey_ids_nodup w hp
    apply winner_not_loser w prio hids
    rw [← hwinner, hff']
    exact List.mem_map_of_mem hfg'

end

/-! The pairs of the near-time pass. -/

section
variable (rfc3339Secs : String → Option Int) (w : Walk) (prio : String → Option Nat)
  (windowSecs : Int) {a : Account}

theorem mem_loadNearRows {e : Int × List NearRow}
    (he : e ∈ (loadNearRows rfc3339Secs w a).entries) {row : NearRow} (hrow : row ∈ e.2) :
    ∃ m ∈ a.messages, m.duplicateOf = none ∧ m.conversationId = e.1 ∧ m.id = row.id ∧
      nearRow rfc3339Secs m = some row := by
  obtain ⟨⟨conversation, g⟩, hg, rfl⟩ := List.mem_map.mp he
  obtain ⟨⟨conversation', row'⟩, hin, rfl⟩ := List.mem_map.mp hrow
  obtain ⟨hmem, rfl⟩ := mem_of_mem_group hg hin
  obtain ⟨m, hm, hshown⟩ := List.mem_filterMap.mp ((w.perm _).mem_iff.mp hmem)
  obtain ⟨hnone, hconversation, hrow⟩ := shownNearRow_spec rfc3339Secs hshown
  exact ⟨m, hm, hnone, hconversation.symm, (nearRow_id rfc3339Secs hrow).symm, hrow⟩

/-- **The pairs of the near-time pass.** -/
theorem near_flags_spec :
    (∀ f ∈ nearFlags rfc3339Secs w prio windowSecs a, ∃ m ∈ a.messages, ∃ m' ∈ a.messages,
      m.id = f.1 ∧ m'.id = f.2 ∧ m.duplicateOf = none ∧ m'.duplicateOf = none ∧
        NearLink rfc3339Secs windowSecs a m m') ∧
    ((nearFlags rfc3339Secs w prio windowSecs a).map Prod.fst).Nodup ∧
    ∀ f ∈ nearFlags rfc3339Secs w prio windowSecs a,
      ∀ f' ∈ nearFlags rfc3339Secs w prio windowSecs a, f.2 ≠ f'.1 := by
  refine ⟨fun f hf => ?_, near_losers_nodup w prio windowSecs _,
    fun f hf f' hf' => near_winner_not_loser w prio hf hf'⟩
  obtain ⟨e, he, firstRow, hfirst, row, hrow, row', hrow', hid, hid', hin, hin'⟩ :=
    nearLinked_of_flag w prio hf
  obtain ⟨first, hfmem, -, hfconv, -, hfrow⟩ := mem_loadNearRows rfc3339Secs w he hfirst
  obtain ⟨m, hm, hshown, hconv, hmid, hmrow⟩ := mem_loadNearRows rfc3339Secs w he hrow
  obtain ⟨m', hm', hshown', hconv', hmid', hmrow'⟩ := mem_loadNearRows rfc3339Secs w he hrow'
  exact ⟨m, hm, m', hm', hmid.trans hid, hmid'.trans hid', hshown, hshown',
    hconv.trans hconv'.symm, first, hfmem, hfconv.trans hconv.symm, firstRow, row, row', hfrow,
    hmrow, hmrow', hin, hin'⟩

end

/-! Writing the flags. -/

theorem flagged_duplicateOf (flags : List (Int × Int)) (m : Message) :
    (m.flagged flags).duplicateOf = (flags.lookup m.id).or m.duplicateOf := by
  unfold Message.flagged
  cases flags.lookup m.id <;> rfl

@[simp] theorem flagged_contentKey (flags : List (Int × Int)) (m : Message) :
    (m.flagged flags).contentKey = m.contentKey := by
  unfold Message.flagged; split <;> rfl

@[simp] theorem flagged_conversationId (flags : List (Int × Int)) (m : Message) :
    (m.flagged flags).conversationId = m.conversationId := by
  unfold Message.flagged; split <;> rfl

@[simp] theorem nearRow_flagged (rfc3339Secs : String → Option Int) (flags : List (Int × Int))
    (m : Message) : nearRow rfc3339Secs (m.flagged flags) = nearRow rfc3339Secs m := by
  unfold Message.flagged; split <;> rfl

theorem exactLink_flagged (flags : List (Int × Int)) {m m' : Message} :
    ExactLink (m.flagged flags) (m'.flagged flags) ↔ ExactLink m m' := by
  simp [ExactLink]

/-- The account with the flags of a pass written. -/
def Account.flag (flags : List (Int × Int)) (a : Account) : Account :=
  a.update (Message.flagged flags) (Message.flagged_id flags)

@[simp] theorem Account.flag_messages (flags : List (Int × Int)) (a : Account) :
    (a.flag flags).messages = a.messages.map (Message.flagged flags) := rfl

theorem nearLink_flag {rfc3339Secs : String → Option Int} {windowSecs : Int} {a : Account}
    (flags : List (Int × Int)) {m m' : Message} (h : NearLink rfc3339Secs windowSecs a m m') :
    NearLink rfc3339Secs windowSecs (a.flag flags) (m.flagged flags) (m'.flagged flags) := by
  obtain ⟨hconv, first, hfirst, hfconv, h⟩ := h
  refine ⟨by simpa using hconv, first.flagged flags, List.mem_map_of_mem hfirst, by simpa using
    hfconv, ?_⟩
  simpa using h

theorem applyDuplicateFlags_eq {flags : List (Int × Int)} {a : Account}
    (hnd : (flags.map Prod.fst).Nodup) (hwin : ∀ f ∈ flags, f.2 ∈ a.messages.map Message.id) :
    applyDuplicateFlags flags a = some (a.flag flags) := by
  rw [applyDuplicateFlags, if_pos ⟨hnd, hwin⟩]
  rfl

theorem Account.flag_nil (a : Account) : a.flag [] = a := by
  have hid : Message.flagged [] = id := rfl
  obtain ⟨conversation, messages, ids_nodup⟩ := a
  simp only [Account.flag, Account.update, hid, List.map_id]

theorem flagExact_eq (w : Walk) (prio : String → Option Nat) (a : Account) :
    ∃ groups, flagExactContentKeyDupes w prio a =
      some (groups, (exactFlags w prio a).length, a.flag (exactFlags w prio a)) := by
  obtain ⟨hlink, hnd, -⟩ := exact_flags_spec w prio (a := a)
  have hwin : ∀ f ∈ exactFlags w prio a, f.2 ∈ a.messages.map Message.id := by
    intro f hf
    obtain ⟨m, -, m', hm', -, hid, -⟩ := hlink f hf
    exact List.mem_map.mpr ⟨m', hm', hid⟩
  unfold flagExactContentKeyDupes
  by_cases hempty : (exactFlags w prio a).isEmpty = true
  · have hnil := List.isEmpty_iff.mp hempty
    exact ⟨(w.order (byContentKey w a)).countP (fun p => (copyGroup p).isSome),
      by simp [hnil, Account.flag_nil]⟩
  · exact ⟨(w.order (byContentKey w a)).countP (fun p => (copyGroup p).isSome),
      by simp [hempty, applyDuplicateFlags_eq hnd hwin]⟩

theorem flagNear_eq (rfc3339Secs : String → Option Int) (w : Walk) (prio : String → Option Nat)
    (windowSecs : Int) (a : Account) :
    flagNearTimeDupes rfc3339Secs w prio windowSecs a =
      some ((nearFlags rfc3339Secs w prio windowSecs a).length,
        a.flag (nearFlags rfc3339Secs w prio windowSecs a)) := by
  obtain ⟨hlink, hnd, -⟩ := near_flags_spec rfc3339Secs w prio windowSecs (a := a)
  have hwin : ∀ f ∈ nearFlags rfc3339Secs w prio windowSecs a,
      f.2 ∈ a.messages.map Message.id := by
    intro f hf
    obtain ⟨m, -, m', hm', -, hid, -⟩ := hlink f hf
    exact List.mem_map.mpr ⟨m', hm', hid⟩
  unfold flagNearTimeDupes
  by_cases hempty : (nearFlags rfc3339Secs w prio windowSecs a).isEmpty = true
  · have hnil := List.isEmpty_iff.mp hempty
    simp [hnil, Account.flag_nil]
  · simp [hempty, applyDuplicateFlags_eq hnd hwin]

theorem contentKeyForRow_id {sha256Hex : ByteArray → String}
    {rfc3339Secs : String → Option Int} {row : ContentKeyRow}
    {groupHandles shasByMsg : Int → Option (List String)} {p : Int × String}
    (h : contentKeyForRow sha256Hex rfc3339Secs row groupHandles shasByMsg = some p) :
    p.1 = row.id := by
  simp only [contentKeyForRow, Option.bind_eq_bind, Option.pure_def,
    Option.bind_eq_some_iff] at h
  obtain ⟨key, -, hp⟩ := h
  rw [← Option.some.inj hp]

/-- The keys are always written, and change no id. -/
theorem refreshContentKeys_eq (sha256Hex : ByteArray → String)
    (rfc3339Secs : String → Option Int) (a : Account) :
    ∃ n a', refreshContentKeys sha256Hex rfc3339Secs a = some (n, a') ∧
      a'.messages.map Message.id = a.messages.map Message.id := by
  unfold refreshContentKeys
  simp only
  rw [if_pos]
  · refine ⟨_, _, rfl, ?_⟩
    simp [Account.update, Function.comp_def]
  · refine a.ids_nodup.sublist ((List.filter_sublist.map _).trans ?_)
    exact map_filterMap_sublist (fun m p hp => contentKeyForRow_id hp) a.messages

/-! Two passes over an account with no flags. -/

section
variable (rfc3339Secs : String → Option Int) (w : Walk) (prio : String → Option Nat)
  (windowSecs : Int) (a : Account)

/-- The account once the exact pass is written. -/
def afterExact : Account := a.flag (exactFlags w prio a)

/-- The account once the near-time pass is written too. -/
def afterNear : Account :=
  (afterExact w prio a).flag (nearFlags rfc3339Secs w prio windowSecs (afterExact w prio a))

variable {a}

/-- A pair of the near-time pass, seen from its hidden message. -/
theorem near_target {m : Message} (hm : m ∈ a.messages) {t : Int}
    (h : (m.id, t) ∈ nearFlags rfc3339Secs w prio windowSecs a) :
    m.duplicateOf = none ∧ ∃ m' ∈ a.messages, m'.id = t ∧
      (m'.flagged (nearFlags rfc3339Secs w prio windowSecs a)).duplicateOf = none ∧
      NearLink rfc3339Secs windowSecs (a.flag (nearFlags rfc3339Secs w prio windowSecs a))
        (m.flagged (nearFlags rfc3339Secs w prio windowSecs a))
        (m'.flagged (nearFlags rfc3339Secs w prio windowSecs a)) := by
  obtain ⟨hlink, -, hshown⟩ := near_flags_spec rfc3339Secs w prio windowSecs (a := a)
  obtain ⟨n, hn, m', hm', hid, hid', hnone, hnone', hnear⟩ := hlink _ h
  obtain rfl : n = m := Account.eq_of_id_eq hn hm hid
  refine ⟨hnone, m', hm', hid', ?_, nearLink_flag _ hnear⟩
  have hkept : (nearFlags rfc3339Secs w prio windowSecs a).lookup m'.id = none := by
    rw [lookup_eq_none_iff]
    intro hmem
    obtain ⟨f, hf, hfid⟩ := List.mem_map.mp hmem
    exact hshown _ h f hf (hid'.symm.trans hfid.symm)
  rw [flagged_duplicateOf, hkept, hnone']
  rfl

section
variable (hclear : ∀ m ∈ a.messages, m.duplicateOf = none)
include hclear

/-- The near-time pass hides no message that the exact pass hid. -/
theorem near_loser_not_exact_loser {i : Int}
    (h : i ∈ (nearFlags rfc3339Secs w prio windowSecs (afterExact w prio a)).map Prod.fst) :
    i ∉ (exactFlags w prio a).map Prod.fst := by
  obtain ⟨f, hf, rfl⟩ := List.mem_map.mp h
  obtain ⟨m, hm, -, -, hid, -, hnone, -⟩ :=
    (near_flags_spec rfc3339Secs w prio windowSecs).1 f hf
  obtain ⟨m₀, hm₀, rfl⟩ := List.mem_map.mp hm
  rw [flagged_duplicateOf, hclear m₀ hm₀, Option.or_none, lookup_eq_none_iff] at hnone
  rw [← hid, Message.flagged_id]
  exact hnone

/-- Where the flags of the two passes lead. -/
theorem afterNear_links : ∀ m ∈ (afterNear rfc3339Secs w prio windowSecs a).messages, ∀ t,
    m.duplicateOf = some t →
    ∃ m' ∈ (afterNear rfc3339Secs w prio windowSecs a).messages, m'.id = t ∧
      (m'.duplicateOf = none ∧ (ExactLink m m' ∨
          NearLink rfc3339Secs windowSecs (afterNear rfc3339Secs w prio windowSecs a) m m') ∨
        ExactLink m m' ∧ ∃ m'' ∈ (afterNear rfc3339Secs w prio windowSecs a).messages,
          m'.duplicateOf = some m''.id ∧
          NearLink rfc3339Secs windowSecs (afterNear rfc3339Secs w prio windowSecs a) m' m'' ∧
          m''.duplicateOf = none) := by
  intro m hm t ht
  obtain ⟨m₁, hm₁, rfl⟩ := List.mem_map.mp hm
  obtain ⟨m₀, hm₀, rfl⟩ := List.mem_map.mp hm₁
  have hnear_nd := (near_flags_spec rfc3339Secs w prio windowSecs (a := afterExact w prio a)).2.1
  obtain ⟨hexact, hexact_nd, hexact_shown⟩ := exact_flags_spec w prio (a := a)
  rw [flagged_duplicateOf] at ht
  cases hlookup : (nearFlags rfc3339Secs w prio windowSecs (afterExact w prio a)).lookup
      (m₀.flagged (exactFlags w prio a)).id with
  | some u =>
    -- The near-time pass hid it: its winner stays shown.
    rw [hlookup] at ht
    obtain rfl : u = t := by simpa using ht
    obtain ⟨-, m', hm', hid, hshown, hlink⟩ := near_target rfc3339Secs w prio windowSecs hm₁
      ((lookup_eq_some_of_nodup hnear_nd).mp hlookup)
    exact ⟨_, List.mem_map_of_mem hm', by simpa using hid, .inl ⟨hshown, .inr hlink⟩⟩
  | none =>
    -- The exact pass hid it: its winner is shown, or hidden by the near-time pass.
    rw [hlookup, Option.none_or, flagged_duplicateOf, hclear m₀ hm₀, Option.or_none,
      lookup_eq_some_of_nodup hexact_nd] at ht
    obtain ⟨n, hn, m', hm', hid, hid', hlink⟩ := hexact _ ht
    obtain rfl : n = m₀ := Account.eq_of_id_eq hn hm₀ hid
    have hkept : (exactFlags w prio a).lookup m'.id = none := by
      rw [lookup_eq_none_iff]
      intro hmem
      obtain ⟨f, hf, hfid⟩ := List.mem_map.mp hmem
      exact hexact_shown _ ht f hf (hid'.symm.trans hfid.symm)
    have hm₁' : m'.flagged (exactFlags w prio a) ∈ (afterExact w prio a).messages :=
      List.mem_map_of_mem hm'
    refine ⟨_, List.mem_map_of_mem hm₁', by simpa using hid', ?_⟩
    have hexact' := (exactLink_flagged (nearFlags rfc3339Secs w prio windowSecs
      (afterExact w prio a))).mpr ((exactLink_flagged (exactFlags w prio a)).mpr hlink)
    cases hlookup' : (nearFlags rfc3339Secs w prio windowSecs (afterExact w prio a)).lookup
        (m'.flagged (exactFlags w prio a)).id with
    | none =>
      refine .inl ⟨?_, .inl hexact'⟩
      rw [flagged_duplicateOf, hlookup', flagged_duplicateOf, hkept, hclear m' hm']
      rfl
    | some u =>
      obtain ⟨-, m'', hm'', hid'', hshown, hnear⟩ := near_target rfc3339Secs w prio windowSecs
        hm₁' ((lookup_eq_some_of_nodup hnear_nd).mp hlookup')
      refine .inr ⟨hexact', _, List.mem_map_of_mem hm'', ?_, hnear, hshown⟩
      rw [flagged_duplicateOf, hlookup', Message.flagged_id, hid'']
      rfl

/-- As many messages are hidden as flags were written. -/
theorem afterNear_hidden_count :
    (exactFlags w prio a).length +
        (nearFlags rfc3339Secs w prio windowSecs (afterExact w prio a)).length =
      ((afterNear rfc3339Secs w prio windowSecs a).messages.filter
        (fun m => m.duplicateOf.isSome)).length := by
  obtain ⟨hnear, hnear_nd, -⟩ :=
    near_flags_spec rfc3339Secs w prio windowSecs (a := afterExact w prio a)
  obtain ⟨hexact, hexact_nd, -⟩ := exact_flags_spec w prio (a := a)
  have hperm : ((exactFlags w prio a).map Prod.fst ++
      (nearFlags rfc3339Secs w prio windowSecs (afterExact w prio a)).map Prod.fst).Perm
      (((afterNear rfc3339Secs w prio windowSecs a).messages.filter
        (fun m => m.duplicateOf.isSome)).map Message.id) := by
    rw [List.perm_ext_iff_of_nodup]
    · intro i
      rw [List.mem_append, List.mem_map (l := List.filter _ _)]
      constructor
      · intro hi
        have hmsg : ∃ m ∈ a.messages, m.id = i := by
          rcases hi with hi | hi
          · obtain ⟨f, hf, rfl⟩ := List.mem_map.mp hi
            obtain ⟨m, hm, -, -, hid, -⟩ := hexact f hf
            exact ⟨m, hm, hid⟩
          · obtain ⟨f, hf, rfl⟩ := List.mem_map.mp hi
            obtain ⟨m, hm, -, -, hid, -⟩ := hnear f hf
            obtain ⟨m₀, hm₀, rfl⟩ := List.mem_map.mp hm
            exact ⟨m₀, hm₀, by simpa using hid⟩
        obtain ⟨m, hm, rfl⟩ := hmsg
        refine ⟨_, List.mem_filter.mpr ⟨List.mem_map_of_mem (List.mem_map_of_mem hm), ?_⟩,
          by simp⟩
        rw [flagged_duplicateOf, flagged_duplicateOf, Message.flagged_id]
        by_contra hnone
        simp only [Option.not_isSome_iff_eq_none, Option.or_eq_none_iff,
          lookup_eq_none_iff] at hnone
        exact hi.elim hnone.2.1 hnone.1
      · rintro ⟨m, hm, rfl⟩
        rw [List.mem_filter] at hm
        obtain ⟨hmem, hhidden⟩ := hm
        obtain ⟨m₁, hm₁, rfl⟩ := List.mem_map.mp hmem
        obtain ⟨m₀, hm₀, rfl⟩ := List.mem_map.mp hm₁
        by_contra hnone
        rw [not_or] at hnone
        rw [flagged_duplicateOf, flagged_duplicateOf, hclear m₀ hm₀,
          lookup_eq_none_iff.mpr (by simpa using hnone.2),
          lookup_eq_none_iff.mpr (by simpa using hnone.1)] at hhidden
        cases hhidden
    · rw [List.nodup_append]
      refine ⟨hexact_nd, hnear_nd, ?_⟩
      rintro i hi j hj rfl
      exact near_loser_not_exact_loser rfc3339Secs w prio windowSecs hclear hj hi
    · exact (afterNear rfc3339Secs w prio windowSecs a).ids_nodup.sublist
        (List.filter_sublist.map _)
  have hlength := hperm.length_eq
  simpa using hlength

end
end

/-! The whole run. -/

/-- A run is its two passes, over the account with its keys refreshed and its flags cleared. -/
theorem dedupeCrossSource_eq (sha256Hex : ByteArray → String) (rfc3339Secs : String → Option Int)
    (w : Walk) (sourcePriority : Option (List String)) (windowSecs : Int) (a : Account) :
    ∃ stats prio keyed, keyed.messages.map Message.id = a.messages.map Message.id ∧
      dedupeCrossSource sha256Hex rfc3339Secs w sourcePriority windowSecs a =
        some (stats, afterNear rfc3339Secs w prio windowSecs (clearFlags keyed)) ∧
      stats.exactFlagged = (exactFlags w prio (clearFlags keyed)).length ∧
      stats.nearFlagged = (nearFlags rfc3339Secs w prio windowSecs
        (afterExact w prio (clearFlags keyed))).length := by
  obtain ⟨n, keyed, hrefresh, hids⟩ := refreshContentKeys_eq sha256Hex rfc3339Secs a
  obtain ⟨prio, hprio⟩ : ∃ prio, prio = prioOf (sourcePriority.getD (sourcePriorityFromDb a)) :=
    ⟨_, rfl⟩
  obtain ⟨groups, hexact⟩ := flagExact_eq w prio (clearFlags keyed)
  rw [← afterExact] at hexact
  have hnear := flagNear_eq rfc3339Secs w prio windowSecs (afterExact w prio (clearFlags keyed))
  refine ⟨⟨n, groups, (exactFlags w prio (clearFlags keyed)).length,
    (nearFlags rfc3339Secs w prio windowSecs
      (afterExact w prio (clearFlags keyed))).length⟩, prio, keyed, hids, ?_, rfl, rfl⟩
  simp only [dedupeCrossSource, ← hprio, hrefresh, hexact, hnear, Option.bind_eq_bind,
    Option.bind_some]
  rfl

theorem afterNear_ids (rfc3339Secs : String → Option Int) (w : Walk)
    (prio : String → Option Nat) (windowSecs : Int) (a : Account) :
    (afterNear rfc3339Secs w prio windowSecs (clearFlags a)).messages.map Message.id =
      a.messages.map Message.id := by
  simp [afterNear, afterExact, clearFlags, Account.update, Function.comp_def]

/-- A run writes keys and flags of the account's own messages, and no other. -/
theorem dedupeCrossSource_ids {sha256Hex : ByteArray → String}
    {rfc3339Secs : String → Option Int} {w : Walk} {sourcePriority : Option (List String)}
    {windowSecs : Int} {a a' : Account} {stats : DedupeStats}
    (h : dedupeCrossSource sha256Hex rfc3339Secs w sourcePriority windowSecs a =
      some (stats, a')) :
    a'.messages.map Message.id = a.messages.map Message.id := by
  obtain ⟨_, prio, keyed, hids, hrun, -, -⟩ :=
    dedupeCrossSource_eq sha256Hex rfc3339Secs w sourcePriority windowSecs a
  obtain ⟨-, rfl⟩ := Prod.mk.inj (Option.some.inj (h.symm.trans hrun))
  rw [afterNear_ids, hids]

/-- **No chain is longer than two links, and every chain ends.** For every account, source
priority, window and order of the hash maps the run succeeds. Every message it leaves
hidden points at a shown message, its exact or near-time twin; or it points at the winner
of its exact group, which the near-time pass then hid behind a shown one. As many messages
are hidden as flags were written, so none is flagged twice. -/
theorem dedupe_chains_end (sha256Hex : ByteArray → String) (rfc3339Secs : String → Option Int)
    (w : Walk) (sourcePriority : Option (List String)) (windowSecs : Int) (a : Account) :
    ∃ stats a', dedupeCrossSource sha256Hex rfc3339Secs w sourcePriority windowSecs a =
        some (stats, a') ∧
      a'.messages.map Message.id = a.messages.map Message.id ∧
      (∀ m ∈ a'.messages, ∀ t, m.duplicateOf = some t → ∃ m' ∈ a'.messages, m'.id = t ∧
        (m'.duplicateOf = none ∧
            (ExactLink m m' ∨ NearLink rfc3339Secs windowSecs a' m m') ∨
          ExactLink m m' ∧ ∃ m'' ∈ a'.messages, m'.duplicateOf = some m''.id ∧
            NearLink rfc3339Secs windowSecs a' m' m'' ∧ m''.duplicateOf = none)) ∧
      stats.exactFlagged + stats.nearFlagged =
        (a'.messages.filter (fun m => m.duplicateOf.isSome)).length := by
  obtain ⟨stats, prio, keyed, hids, hrun, hexact, hnear⟩ :=
    dedupeCrossSource_eq sha256Hex rfc3339Secs w sourcePriority windowSecs a
  have hclear : ∀ m ∈ (clearFlags keyed).messages, m.duplicateOf = none := by
    intro m hm
    obtain ⟨m₀, -, rfl⟩ := List.mem_map.mp hm
    rfl
  refine ⟨stats, _, hrun, (afterNear_ids rfc3339Secs w prio windowSecs keyed).trans hids,
    afterNear_links rfc3339Secs w prio windowSecs hclear, ?_⟩
  rw [hexact, hnear]
  exact afterNear_hidden_count rfc3339Secs w prio windowSecs hclear

/-- **A chain of two links.** A text imported three times: a second apart from the first
two sources, and at one second from the last two. The exact pass hides the last copy behind
the second, and the near-time pass hides that one behind the first. -/
theorem dedupe_leaves_a_chain :
    (dedupeCrossSource
      (fun bytes =>
        if bytes = "+15555550101|0|+15555550101|100|hi".toUTF8 then
          "d57a36622728b3fbd5854776db57f12cabd2c62deab4aac018df416625035d44"
        else if bytes = "+15555550101|0|+15555550101|101|hi".toUTF8 then
          "2643052e27a46bf2db44344e03b05b3e6eb2bd04d5796db07764e49356559db8"
        else "")
      (fun ts =>
        if ts = "1970-01-01T00:01:40Z" then some 100
        else if ts = "1970-01-01T00:01:41Z" then some 101
        else none)
      Walk.inserted none 2
      { conversation := fun _ => ⟨"+15555550101", "individual", []⟩
        messages :=
          [⟨1, 7, "imazing", 0, "1970-01-01T00:01:41Z", some "hi", some "+15555550101", [],
              none, none⟩,
            ⟨2, 7, "go-sms-pro", 0, "1970-01-01T00:01:40Z", some "hi", some "+15555550101", [],
              none, none⟩,
            ⟨3, 7, "openextract", 0, "1970-01-01T00:01:40Z", some "hi", some "+15555550101", [],
              none, none⟩]
        ids_nodup := by decide }).map
      (fun r => r.2.messages.map (fun m => (m.id, m.duplicateOf))) =
      some [(1, none), (2, some 1), (3, some 2)] := by
  decide

end MessageCrate
