import MessageCrate.Formats.SbrStream
import MessageCrate.Formats.SbrWriteBack

/- Where an SMS Backup & Restore MMS lands (`mms_peers`, `MmsConversation::for_peers` and
   `group_chat_key` of sbr/src/read.rs).

   The format has no thread of its own, so a conversation is its peers: the addresses of the message
   less the owner's, however they are ordered and repeated.

     1. `keys_mmsPeers`: the peers' keys are the set of the addresses' keys, sorted.
     2. `chatKey_of_same_peers`: two messages with the same peers have the same conversation.
     3. `chatKey_iff`: and no others, where no key has the `_` that keys are joined with or begins
        like a group's. -/
namespace MessageCrate.Sbr
open MmsParts Utf8 Text

/-! Peers. -/

theorem mem_dedupByKey {k : String} (hs : List Handle) :
    k ∈ (dedupByKey hs).map Handle.key ↔ k ∈ hs.map Handle.key := by
  induction hs with
  | nil => exact Iff.rfl
  | cons h hs ih =>
    rw [List.map_cons, List.mem_cons, ← ih, dedupByKey]
    cases dedupByKey hs with
    | nil => simp
    | cons next rest =>
      simp only
      split
      · next hsame => simp [hsame]
      · simp

theorem sorted_dedupByKey {hs : List Handle} (h : (hs.map Handle.key).Pairwise (· ≤ ·)) :
    ((dedupByKey hs).map Handle.key).Pairwise (· < ·) := by
  induction hs with
  | nil => exact List.Pairwise.nil
  | cons a hs ih =>
    rw [List.map_cons, List.pairwise_cons] at h
    have hrest := ih h.2
    have hle : ∀ k ∈ (dedupByKey hs).map Handle.key, a.key ≤ k := by
      intro k hk
      exact h.1 k ((mem_dedupByKey hs).mp hk)
    rw [dedupByKey]
    cases hdedup : dedupByKey hs with
    | nil => simp
    | cons next rest =>
      rw [hdedup, List.map_cons] at hrest hle
      rw [List.pairwise_cons] at hrest
      simp only
      split
      · next hsame =>
        rw [List.map_cons, List.pairwise_cons, hsame]
        exact hrest
      · next hne =>
        have hlt : a.key < next.key := lt_of_le_of_ne (hle _ List.mem_cons_self) hne
        rw [List.map_cons, List.map_cons, List.pairwise_cons, List.pairwise_cons]
        refine ⟨?_, hrest⟩
        intro k hk
        rcases List.mem_cons.mp hk with rfl | hk
        · exact hlt
        · exact hlt.trans (hrest.1 k hk)

section peers
variable (x : Crates) (toLowercase : String → String) (owners : Option (Handle → Bool))

/-- The keys of the addresses of an MMS that are not the owner's, as the addresses come. -/
def peerKeys (attrs : Attrs) (addrs : List MmsAddr) : List String :=
  ((mmsParticipants toLowercase attrs addrs).filter fun p => !isOwner owners p).map Handle.key

/-- The peers are sorted by key, each key once. -/
theorem keys_mmsPeers (participants : List Handle) :
    (mmsPeers owners participants).map Handle.key =
      sortedSet ((participants.filter fun p => !isOwner owners p).map Handle.key) := by
  have hsorted : (((participants.filter fun p => !isOwner owners p).insertionSort
      fun a b => a.key ≤ b.key).map Handle.key).Pairwise (· ≤ ·) := by
    rw [List.pairwise_map]
    exact List.pairwise_insertionSort _ _
  have hlt : ((mmsPeers owners participants).map Handle.key).SortedLT :=
    List.sortedLT_iff_pairwise.mpr (sorted_dedupByKey hsorted)
  apply hlt.eq_of_mem_iff (sortedSet_sortedLT _)
  intro k
  rw [mmsPeers, mem_dedupByKey, mem_sortedSet]
  simp [List.mem_map, List.mem_insertionSort]

/-- The key of the conversation with these peers. -/
def chatKeyOf : List String → String
  | [key] => key
  | keys => groupChatKey x keys

theorem chatKey_forPeers (peers : List Handle) (rawName : String) :
    (MmsConversation.forPeers x peers rawName).chatKey = chatKeyOf x (peers.map Handle.key) := by
  cases peers with
  | nil => rfl
  | cons peer rest =>
    cases rest with
    | nil => rfl
    | cons next rest => rfl

/-- A record's conversation is that of its message's peers, and there is one. -/
theorem chatKey_record {attrs : Attrs} {parts : List MmsPart} {addrs : List MmsAddr} {r : Record}
    (h : (Element.mms attrs parts addrs).record x toLowercase owners = some r) :
    r.chatKey = chatKeyOf x (sortedSet (peerKeys toLowercase owners attrs addrs)) ∧
      sortedSet (peerKeys toLowercase owners attrs addrs) ≠ [] := by
  have hkeys := keys_mmsPeers owners (mmsParticipants toLowercase attrs addrs)
  rcases timestampFromDate_cases attrs with ⟨⟨dateMs, millis⟩, hdate⟩ | hdate
  · by_cases hdraft : ["3", "4", "5", "6"].contains (trim (get attrs "msg_box")) = true
    · simp only [Element.record, Element.parse, parseMms, hdate, if_pos hdraft] at h
      cases h
    by_cases hempty : (mmsParticipants toLowercase attrs addrs).isEmpty = true
    · simp only [Element.record, Element.parse, parseMms, hdate, if_neg hdraft, if_pos hempty] at h
      cases h
    by_cases hpeers : (mmsPeers owners (mmsParticipants toLowercase attrs addrs)).isEmpty = true
    · simp only [Element.record, Element.parse, parseMms, hdate, if_neg hdraft, if_neg hempty,
        if_pos hpeers] at h
      cases h
    · simp only [Element.record, Element.parse, parseMms, hdate, if_neg hdraft, if_neg hempty,
        if_neg hpeers, Option.some.injEq] at h
      rw [peerKeys, ← hkeys, ← chatKey_forPeers x _ (rawName attrs), ← h]
      refine ⟨rfl, ?_⟩
      intro hnil
      rw [List.map_eq_nil_iff] at hnil
      rw [hnil] at hpeers
      exact hpeers rfl
  · simp only [Element.record, Element.parse, parseMms, hdate] at h
    cases h

end peers

section groups
variable {x : Crates} {toLowercase : String → String} {owners : Option (Handle → Bool)}
variable {attrs attrs' : Attrs} {parts parts' : List MmsPart} {addrs addrs' : List MmsAddr}
variable {r r' : Record}

/-- **The same peers are the same conversation**, however their addresses are ordered, written twice
or mixed with the owner's. -/
theorem chatKey_of_same_peers
    (h : (Element.mms attrs parts addrs).record x toLowercase owners = some r)
    (h' : (Element.mms attrs' parts' addrs').record x toLowercase owners = some r')
    (hpeers : ∀ k, k ∈ peerKeys toLowercase owners attrs addrs ↔
      k ∈ peerKeys toLowercase owners attrs' addrs') : r.chatKey = r'.chatKey := by
  rw [(chatKey_record x toLowercase owners h).1, (chatKey_record x toLowercase owners h').1,
    sortedSet_eq_iff.mpr hpeers]

/-- A key that can be told from the others of a group, and from a group's. -/
def TellsApart (key : String) : Prop := '_' ∉ key.toList ∧ ¬ "group-".toList <+: key.toList

instance (key : String) : Decidable (TellsApart key) :=
  inferInstanceAs (Decidable ('_' ∉ key.toList ∧ ¬ "group-".toList <+: key.toList))

/-- The key of a group before it is shortened. -/
def rawGroupKey (keys : List String) : String := "group-" ++ "_".intercalate keys

theorem toList_rawGroupKey (keys : List String) :
    (rawGroupKey keys).toList = "group-".toList ++ ['_'].intercalate (keys.map String.toList) := by
  rw [rawGroupKey, String.toList_append, String.toList_intercalate]
  rfl

theorem rawGroupKey_inj {keys keys' : List String} (h : ∀ k ∈ keys, TellsApart k)
    (h' : ∀ k ∈ keys', TellsApart k) (hne : keys ≠ []) (hne' : keys' ≠ [])
    (heq : rawGroupKey keys = rawGroupKey keys') : keys = keys' := by
  have hlists := congrArg String.toList heq
  rw [toList_rawGroupKey, toList_rawGroupKey] at hlists
  have hpieces : keys.map String.toList = keys'.map String.toList := by
    apply intercalate_inj _ _ (by simpa using hne) (by simpa using hne')
      (List.append_cancel_left hlists)
    · intro p hp
      obtain ⟨k, hk, rfl⟩ := List.mem_map.mp hp
      exact (h k hk).1
    · intro p hp
      obtain ⟨k, hk, rfl⟩ := List.mem_map.mp hp
      exact (h' k hk).1
  exact List.map_injective_iff.mpr (fun _ _ hk => String.toList_inj.mp hk) hpieces

/-- The first sixteen digits of a key's digest. -/
def digestPrefix (x : Crates) (rawKey : String) : List Char :=
  (x.sha256Hex (encode rawKey.toList)).toList.take 16

theorem groupChatKey_eq (keys : List String) :
    (groupChatKey x keys).toList = "group-".toList ++
      if 180 < size (rawGroupKey keys).toList then digestPrefix x (rawGroupKey keys)
      else ['_'].intercalate (keys.map String.toList) := by
  have hraw : groupChatKey x keys = if 180 < size (rawGroupKey keys).toList then
      "group-" ++ String.ofList (digestPrefix x (rawGroupKey keys)) else rawGroupKey keys := rfl
  rw [hraw]
  split
  · simp only [String.toList_append, String.toList_ofList]
  · exact toList_rawGroupKey keys

theorem chatKeyOf_cases {keys : List String} (hne : keys ≠ []) :
    (∃ k, keys = [k] ∧ chatKeyOf x keys = k) ∨
      ((∃ a b rest, keys = a :: b :: rest) ∧ chatKeyOf x keys = groupChatKey x keys) := by
  cases keys with
  | nil => exact absurd rfl hne
  | cons a rest =>
    cases rest with
    | nil => exact .inl ⟨a, rfl, rfl⟩
    | cons b rest => exact .inr ⟨⟨a, b, rest, rfl⟩, rfl⟩

/-- Two keys or more are joined by a `_`. -/
theorem underscore_mem {a b : String} {rest : List String} :
    '_' ∈ ['_'].intercalate ((a :: b :: rest).map String.toList) := by
  simp [List.intercalate]

/-- Sixteen digits and no `_`: two digest prefixes are one only for one key. -/
structure Digests (x : Crates) (keys keys' : List String) : Prop where
  hex : ∀ bytes, '_' ∉ (x.sha256Hex bytes).toList
  apart : digestPrefix x (rawGroupKey keys) = digestPrefix x (rawGroupKey keys') →
    rawGroupKey keys = rawGroupKey keys'

theorem Digests.notMem {keys keys' : List String} (h : Digests x keys keys') (rawKey : String) :
    '_' ∉ digestPrefix x rawKey := by
  intro hmem
  exact h.hex _ (List.mem_of_mem_take hmem)

theorem groupChatKey_inj {keys keys' : List String} (h : ∀ k ∈ keys, TellsApart k)
    (h' : ∀ k ∈ keys', TellsApart k) (htwo : ∃ a b rest, keys = a :: b :: rest)
    (htwo' : ∃ a b rest, keys' = a :: b :: rest) (hdigests : Digests x keys keys')
    (heq : groupChatKey x keys = groupChatKey x keys') : keys = keys' := by
  obtain ⟨a, b, rest, rfl⟩ := htwo
  obtain ⟨a', b', rest', rfl⟩ := htwo'
  apply rawGroupKey_inj h h' (List.cons_ne_nil _ _) (List.cons_ne_nil _ _)
  have hlists := congrArg String.toList heq
  rw [groupChatKey_eq, groupChatKey_eq] at hlists
  have htails := List.append_cancel_left hlists
  split at htails
  · split at htails
    · exact hdigests.apart htails
    · have hmem : '_' ∈ ['_'].intercalate ((a' :: b' :: rest').map String.toList) := underscore_mem
      rw [← htails] at hmem
      exact absurd hmem (hdigests.notMem _)
  · split at htails
    · have hmem : '_' ∈ ['_'].intercalate ((a :: b :: rest).map String.toList) := underscore_mem
      rw [htails] at hmem
      exact absurd hmem (hdigests.notMem _)
    · apply String.toList_inj.mp
      rw [toList_rawGroupKey, toList_rawGroupKey, htails]

theorem group_prefix (keys : List String) : "group-".toList <+: (groupChatKey x keys).toList := by
  rw [groupChatKey_eq]
  exact List.prefix_append ..

theorem chatKeyOf_inj {keys keys' : List String} (h : ∀ k ∈ keys, TellsApart k)
    (h' : ∀ k ∈ keys', TellsApart k) (hne : keys ≠ []) (hne' : keys' ≠ [])
    (hdigests : Digests x keys keys') (heq : chatKeyOf x keys = chatKeyOf x keys') : keys = keys' := by
  rcases chatKeyOf_cases (x := x) hne with ⟨k, rfl, hkey⟩ | ⟨htwo, hkey⟩
  · rcases chatKeyOf_cases (x := x) hne' with ⟨k', rfl, hkey'⟩ | ⟨htwo', hkey'⟩
    · rw [hkey, hkey'] at heq
      rw [heq]
    · rw [hkey, hkey'] at heq
      have hpre := group_prefix (x := x) keys'
      rw [← heq] at hpre
      exact absurd hpre (h k List.mem_cons_self).2
  · rcases chatKeyOf_cases (x := x) hne' with ⟨k', rfl, hkey'⟩ | ⟨htwo', hkey'⟩
    · rw [hkey, hkey'] at heq
      have hpre := group_prefix (x := x) keys
      rw [heq] at hpre
      exact absurd hpre (h' k' List.mem_cons_self).2
    · rw [hkey, hkey'] at heq
      exact groupChatKey_inj h h' htwo htwo' hdigests heq

/-- **A conversation is its peers.** Two MMS with records are in one conversation exactly when their
addresses less the owner's have the same keys, where the keys can be told apart. -/
theorem chatKey_iff (h : (Element.mms attrs parts addrs).record x toLowercase owners = some r)
    (h' : (Element.mms attrs' parts' addrs').record x toLowercase owners = some r')
    (hkeys : ∀ k ∈ peerKeys toLowercase owners attrs addrs, TellsApart k)
    (hkeys' : ∀ k ∈ peerKeys toLowercase owners attrs' addrs', TellsApart k)
    (hdigests : Digests x (sortedSet (peerKeys toLowercase owners attrs addrs))
      (sortedSet (peerKeys toLowercase owners attrs' addrs'))) :
    r.chatKey = r'.chatKey ↔ ∀ k, k ∈ peerKeys toLowercase owners attrs addrs ↔
      k ∈ peerKeys toLowercase owners attrs' addrs' := by
  obtain ⟨hkey, hne⟩ := chatKey_record x toLowercase owners h
  obtain ⟨hkey', hne'⟩ := chatKey_record x toLowercase owners h'
  rw [hkey, hkey', ← sortedSet_eq_iff]
  constructor
  · intro heq
    exact chatKeyOf_inj (fun k hk => hkeys k (mem_sortedSet.mp hk))
      (fun k hk => hkeys' k (mem_sortedSet.mp hk)) hne hne' hdigests heq
  · intro heq
    rw [heq]

end groups

/-- Two peers, and the same two in another order and written twice. -/
def toTwo : Attrs :=
  attrsOf [("date", "1609459200000"), ("msg_box", "1"), ("address", "+16505550101~ann@example.com")]

def toTwoAgain : Attrs :=
  attrsOf [("date", "1609459260000"), ("msg_box", "2"), ("address", "ann@example.com~(650) 555-0101")]

def fromOne : List MmsAddr := [⟨"+1 650-555-0101", "137", fun _ => none⟩]

theorem hex_sampleSha256 (bytes : List UInt8) : '_' ∉ (sampleSha256 bytes).toList := by
  rw [sampleSha256]
  split
  · decide +kernel
  split
  · decide +kernel
  split
  · decide +kernel
  · decide +kernel

theorem chatKey_iff_two :
    ∃ r r', (Element.mms toTwo [] []).record sample id none = some r ∧
      (Element.mms toTwoAgain [] fromOne).record sample id none = some r' ∧
      (r.chatKey = r'.chatKey ↔ ∀ k, k ∈ peerKeys id none toTwo [] ↔
        k ∈ peerKeys id none toTwoAgain fromOne) := by
  obtain ⟨r, hr⟩ := Option.isSome_iff_exists.mp (show
    ((Element.mms toTwo [] []).record sample id none).isSome = true by decide +kernel)
  obtain ⟨r', hr'⟩ := Option.isSome_iff_exists.mp (show
    ((Element.mms toTwoAgain [] fromOne).record sample id none).isSome = true by decide +kernel)
  have hraw : rawGroupKey (sortedSet (peerKeys id none toTwo [])) =
      rawGroupKey (sortedSet (peerKeys id none toTwoAgain fromOne)) := by decide +kernel
  exact ⟨r, r', hr, hr', chatKey_iff hr hr' (by decide +kernel) (by decide +kernel)
    ⟨hex_sampleSha256, fun _ => hraw⟩⟩

/-- Where a sender's name has a `_`, two groups can share a key. -/
example : groupChatKey sample ["a", "b_c"] = groupChatKey sample ["a_b", "c"] := by decide +kernel

end MessageCrate.Sbr
