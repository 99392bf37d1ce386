import MessageCrate.Push.Uploads

/- What an append run may leave out because of the journal (`crates/libs/push/src/run.rs`,
   `journal.rs`).

   `NothingMissed` is that what an append run leaves out is on the server. It holds in every
   state of every sequence of runs in which no `replace` run stops short of rewriting the
   journal while a row there names a message it took away and did not store again
   (`resumed_push_misses_nothing`). A run that does stop so leaves a journal that names what is
   gone (`stopped_replace_loses_message`): the skip sets of a `replace` run start out empty in
   memory, but its file keeps the rows of the runs before. -/
namespace MessageCrate
open Runs

/-- With these skip sets an append run leaves out a line that the server keeps under `g`. -/
def ExportFolder.Skips (folder : ExportFolder) (state : JournalState) (g : String) : Prop :=
  ∃ m, folder.Names state m ∧ folder.stored m = some g

def Uploads.Holds (u : Uploads) (g : String) : Prop := g ∈ u.server.map StoredMessage.guid

section
variable (folder : ExportFolder) (url username : String)

/-- What an append run leaves out, or would leave out were it started now, is on the server;
    and an append run that reports success has brought every message of the folder there,
    once. -/
structure NothingMissed (u : Uploads) : Prop where
  left : u.running = none → ∀ g, folder.Skips (load url username u.file) g → u.Holds g
  skipped : ∀ r, u.running = some r → r.input.cfg.fresh = false →
    ∀ g, folder.Skips r.journal.state g → u.Holds g
  delivered : ∀ r report, u.running = some r → r.pushed = (pushRun r.input).2.effects →
    (pushRun r.input).1 = .ok report → report.ok = true → r.input.cfg.mode = .append →
    ∀ m, folder.Has m → ∀ g, folder.stored m = some g →
    (u.server.map StoredMessage.guid).count g = 1

/-- A run that stops without rewriting the journal has stored again whatever it took away that
    a row of the journal names. -/
def StopsClear (u : Uploads) (event : UploadEvent) : Prop :=
  event = .stop → ∀ r, u.running = some r → ∀ g ∈ r.taken,
    folder.Skips (load url username r.journal.file) g →
    ∃ batch ∈ r.committed, g ∈ folder.guids batch

end

section
variable {folder : ExportFolder} {url username : String} {u u' : Uploads} {event : UploadEvent}

/-- A message is kept when the server holds its guid. -/
def OnServer (u : Uploads) (_ : JournalMessage) (g : String) : Prop := u.Holds g

structure UploadsSound (folder : ExportFolder) (url username : String) (u : Uploads) : Prop where
  nodup : (u.server.map StoredMessage.guid).Nodup
  told : UploadsTold folder url username OnServer u

theorem holds_storeItems {source : String} {items : StagedItems} {server : List StoredMessage}
    {g : String} (h : g ∈ server.map StoredMessage.guid) :
    g ∈ (storeItems source items server).map StoredMessage.guid :=
  mem_storeItems.mpr (.inl h)

/-- What a step takes from the server is what a wipe takes. -/
theorem stepKeeps_onServer (h : UploadsTold folder url username OnServer u)
    (hstep : UploadStep folder url username u event u')
    (hclear : StopsClear folder url username u event) :
    StepKeeps folder url username OnServer u event u' := by
  have hstop : event = .stop → ∀ r, u.running = some r → ∀ m,
      folder.Names (load url username r.journal.file) m → ∀ g ∈ r.taken,
      folder.stored m = some g → OnServer u m g := by
    intro he r hr m hm g hg hs
    obtain ⟨batch, hbatch, hin⟩ := hclear he r hr g hg ⟨m, hm, hs⟩
    obtain ⟨m', hm', hs'⟩ := List.mem_filterMap.mp hin
    exact (h.run r hr).sent batch hbatch m' hm' g hs'
  cases hstep with
  | @commit r batch hrunning hposted =>
    refine ⟨fun m g hg => ?_, fun batch' he m hm g hg => ?_, hstop⟩
    · by_cases hw : r.wipes (folder.guids batch) = true
      · obtain ⟨row, hrow, rfl⟩ := List.mem_map.mp hg
        by_cases hsource : row.source = r.source
        · exact .inr ⟨r, batch, rfl, hrunning, hw,
            List.mem_map.mpr ⟨row, List.mem_filter.mpr ⟨hrow, by simpa using hsource⟩, rfl⟩⟩
        · refine .inl (holds_storeItems ?_)
          rw [if_pos hw]
          exact List.mem_map.mpr ⟨row, List.mem_filter.mpr ⟨hrow, by simpa using hsource⟩, rfl⟩
      · refine .inl (holds_storeItems ?_)
        rw [if_neg hw]
        exact hg
    · cases he
      refine mem_storeItems.mpr (.inr ?_)
      rw [items_guids]
      exact List.mem_filterMap.mpr ⟨m, hm, hg⟩
  | others => exact ⟨fun m g hg => .inl (holds_storeItems hg), nofun, nofun⟩
  | stop => exact ⟨fun _ _ hg => .inl hg, nofun, hstop⟩
  | start | effect | claim | onServer | uploaded | gaveUp | rewrite | put | sweep =>
    exact ⟨fun _ _ hg => .inl hg, nofun, nofun⟩

/-- One step keeps what holds, when no run stops with a stale row. -/
theorem UploadsSound.step (h : UploadsSound folder url username u) (hnodup : folder.names.Nodup)
    (hstep : UploadStep folder url username u event u')
    (hclear : StopsClear folder url username u event) : UploadsSound folder url username u' := by
  refine ⟨?_, h.told.step hnodup hstep (stepKeeps_onServer h.told hstep hclear)⟩
  cases hstep with
  | commit =>
    refine nodup_storeItems ?_
    split
    · exact h.nodup.sublist (List.filter_sublist.map _)
    · exact h.nodup
  | others => exact nodup_storeItems h.nodup
  | start | effect | claim | onServer | uploaded | gaveUp | stop | rewrite | put | sweep =>
    exact h.nodup

/-- What holds in every state is enough for nothing to be missed. -/
theorem UploadsSound.nothingMissed (h : UploadsSound folder url username u) :
    NothingMissed folder url username u := by
  refine ⟨fun hidle g ⟨m, hm, hg⟩ => h.told.left hidle m hm g hg,
    fun r hr _ g ⟨m, hm, hg⟩ => (h.told.run r hr).skips m hm g hg,
    fun r report hr hdone hreport hok hmode m hm g hg => ?_⟩
  refine List.count_eq_one_of_mem h.nodup ?_
  have hsettled := pushRun_settled hreport
  obtain ⟨idx, hname, hguid⟩ := hm
  obtain ⟨row, hrow, hfile⟩ : ∃ row, report.results[idx]? = some row ∧ row.file = m.file := by
    have hfiles : (report.results.map FileResult.file)[idx]? = some m.file := by
      rw [hsettled.files, (h.told.run r hr).names]
      exact hname
    simpa using hfiles
  have hm : (⟨row.file, m.guid⟩ : JournalMessage) = m := by rw [hfile]
  rw [← hm] at hg
  exact h.told.delivered hr hdone hreport hrow
    (hsettled.clean hok row (List.mem_of_getElem? hrow)) hguid hg

/-- A resumed push misses no message, as long as no run stops with a row on disk that names a
    message which it took away and did not store again. -/
theorem resumed_push_misses_nothing {server : List StoredMessage} {store : List String}
    {events : List UploadEvent}
    (hnodup : folder.names.Nodup) (hserver : (server.map StoredMessage.guid).Nodup)
    (hrun : Run (fun u event u' => UploadStep folder url username u event u' ∧
      StopsClear folder url username u event) (.new server store) events u) :
    NothingMissed folder url username u := by
  have hnew : UploadsSound folder url username (.new server store) := by
    refine ⟨hserver, fun _ m hm g hg => ?_, nofun⟩
    rcases hm.2 with hin | hin <;> cases hin
  have hsound := hrun.keeps (fun _ _ _ hstep h => h.step hnodup hstep.1 hstep.2) hnew
  exact hsound.nothingMissed

end

/-! A folder of one conversation, pushed three times. -/

/-- A conversation of two messages. -/
def oneChat : ExportFolder where
  names := ["a.jsonl"]
  noNul := by decide +kernel
  lines := fun _ => ["g", "h"]
  stored := fun m => some m.guid
  attachments := fun _ => []
  disk := fun _ => none

/-- No file is too large, and every fingerprint is taken from the file. -/
def hashEveryFile : AssetConfig := ⟨1000000, false, false⟩

/-- A push of it, so many messages a request. -/
def chatPush (mode : ImportMode) (batchSize : Nat) (file : JournalFile) : PushInput where
  names := oneChat.names
  cfg := ⟨mode, false, batchSize, 1⟩
  file
  url := "https://vault.test"
  username := "alice"
  out :=
    { cancelledAt := fun _ => false
      cancelled_stays := fun _ _ _ h => h
      staged := fun _ => .ok ⟨"imessage", [1], [⟨[2], "g", 2⟩, ⟨[3], "h", 3⟩], 0⟩
      looksLate := fun _ _ => true
      arrival := fun _ => some 0
      answer := fun _ => .ok ⟨1, 1, 0⟩
      appended := fun _ => .synced
      compacted := true }

theorem oneChat_resolves : oneChat.Resolves hashEveryFile id := nofun

theorem oneChat_prepared {r : PushProgress} {e : PushEffect} : ∀ batch, e = .posted batch →
    ∀ m ∈ batch.messages, r.Prepared oneChat m.fileIndex :=
  fun _ _ _ _ _ _ _ _ _ hatt => absurd hatt List.not_mem_nil

theorem chatPush_reads {mode : ImportMode} {batchSize : Nat} {file : JournalFile} :
    oneChat.Reads (chatPush mode batchSize file).out := by
  intro idx file h
  cases h
  rfl

def wholeChat : ImportBatch :=
  ⟨"imessage", [1, 2, 3], [⟨0, ⟨"a.jsonl", "g"⟩⟩, ⟨0, ⟨"a.jsonl", "h"⟩⟩],
    [⟨0, 1⟩, ⟨0, 2⟩, ⟨0, 3⟩], 1⟩

def halfChat : ImportBatch :=
  ⟨"imessage", [1, 2], [⟨0, ⟨"a.jsonl", "g"⟩⟩], [⟨0, 1⟩, ⟨0, 2⟩], 1⟩

/-- The report of an append run that skips the file. -/
def chatReport : PushReport :=
  { ok := true, cancelled := false, mode := .append, conversationsTotal := 1
    conversationsOk := 0, conversationsFailed := 0, conversationsSkipped := 1
    conversationsCancelled := 0, messagesAttempted := 0, messagesInserted := 0
    messagesDeduped := 0, messagesFailed := 0
    results := [.skipped "a.jsonl"] }

/-- The journal after the first push. -/
def chatJournal : JournalFile :=
  [some (.messageBatchOk "https://vault.test" "alice" "imessage"
      [⟨"a.jsonl", "g"⟩, ⟨"a.jsonl", "h"⟩]),
    some (.fileOk "https://vault.test" "alice" "imessage" "a.jsonl")]

def firstPush : List UploadEvent :=
  [.start (chatPush .append 2 []) hashEveryFile id "imessage", .effect (.posted wholeChat),
    .commit wholeChat, .effect (.acknowledged wholeChat),
    .effect (.journalledMessages "imessage" [⟨"a.jsonl", "g"⟩, ⟨"a.jsonl", "h"⟩] .synced),
    .effect (.journalledFile 0 "imessage" "a.jsonl" .synced), .stop]

/-- A `replace` run takes both away, stores one and stops. -/
def stoppedReplace : List UploadEvent :=
  [.start (chatPush .replace 1 chatJournal) hashEveryFile id "imessage", .effect (.posted halfChat),
    .commit halfChat, .stop]

/-- The first push stores both messages, and takes nothing away. -/
theorem firstPush_runs : Run (fun u event u' =>
      UploadStep oneChat "https://vault.test" "alice" u event u' ∧
        StopsClear oneChat "https://vault.test" "alice" u event) (.new [] []) firstPush
    ⟨chatJournal, [⟨"g", "imessage", []⟩, ⟨"h", "imessage", []⟩], [], none⟩ := by
  have hacked : ∀ batch, PushEffect.acknowledged wholeChat = .acknowledged batch →
      batch ∈ [wholeChat] := by
    intro batch h
    cases h
    exact List.mem_cons_self
  refine .cons ⟨.start rfl rfl rfl rfl rfl chatPush_reads oneChat_resolves, nofun⟩ ?_
  refine .cons ⟨.effect rfl (by decide +kernel) oneChat_prepared nofun, nofun⟩ ?_
  refine .cons ⟨.commit rfl (by decide +kernel), nofun⟩ ?_
  refine .cons ⟨.effect rfl (by decide +kernel) oneChat_prepared hacked, nofun⟩ ?_
  refine .cons ⟨.effect rfl (by decide +kernel) oneChat_prepared nofun, nofun⟩ ?_
  refine .cons ⟨.effect rfl (by decide +kernel) oneChat_prepared nofun, nofun⟩ ?_
  refine .cons ⟨.stop rfl, fun _ r hr g hg => ?_⟩ (.nil _)
  cases hr
  cases hg

theorem stoppedReplace_runs : Run (UploadStep oneChat "https://vault.test" "alice")
    ⟨chatJournal, [⟨"g", "imessage", []⟩, ⟨"h", "imessage", []⟩], [], none⟩ stoppedReplace
    ⟨chatJournal, [⟨"g", "imessage", []⟩], [], none⟩ := by
  refine .cons (.start rfl rfl rfl rfl rfl chatPush_reads oneChat_resolves) ?_
  refine .cons (.effect rfl (by decide +kernel) oneChat_prepared nofun) ?_
  refine .cons (.commit rfl (by decide +kernel)) ?_
  exact .cons (.stop rfl) (.nil _)

/-- A `replace` run takes both away, stores both again and stops before it rewrites the journal. -/
def clearReplace : List UploadEvent :=
  [.start (chatPush .replace 2 chatJournal) hashEveryFile id "imessage", .effect (.posted wholeChat),
    .commit wholeChat, .stop]

theorem clearReplace_runs : Run (fun u event u' =>
      UploadStep oneChat "https://vault.test" "alice" u event u' ∧
        StopsClear oneChat "https://vault.test" "alice" u event)
    ⟨chatJournal, [⟨"g", "imessage", []⟩, ⟨"h", "imessage", []⟩], [], none⟩ clearReplace
    ⟨chatJournal, [⟨"g", "imessage", []⟩, ⟨"h", "imessage", []⟩], [], none⟩ := by
  refine .cons ⟨.start rfl rfl rfl rfl rfl chatPush_reads oneChat_resolves, nofun⟩ ?_
  refine .cons ⟨.effect rfl (by decide +kernel) oneChat_prepared nofun, nofun⟩ ?_
  refine .cons ⟨.commit rfl (by decide +kernel), nofun⟩ ?_
  refine .cons ⟨.stop rfl, fun _ r hr g hg _ => ⟨wholeChat, ?_, ?_⟩⟩ (.nil _)
  · cases hr
    exact List.mem_cons_self
  · cases hr
    exact hg

/-- The third push brings nothing and reports success, after a push and a `replace` run that both
    stopped short of rewriting the journal: what it skips is there. -/
theorem resumed_push_misses_nothing_chat :
    Run (UploadStep oneChat "https://vault.test" "alice") (.new [] [])
        (firstPush ++ clearReplace ++
          [.start (chatPush .append 2 chatJournal) hashEveryFile id "imessage"])
        ⟨chatJournal, [⟨"g", "imessage", []⟩, ⟨"h", "imessage", []⟩], [],
          some (.new (chatPush .append 2 chatJournal) hashEveryFile id "imessage")⟩ ∧
      NothingMissed oneChat "https://vault.test" "alice"
        ⟨chatJournal, [⟨"g", "imessage", []⟩, ⟨"h", "imessage", []⟩], [],
          some (.new (chatPush .append 2 chatJournal) hashEveryFile id "imessage")⟩ := by
  have hnew : (([] : List StoredMessage).map StoredMessage.guid).Nodup := List.nodup_nil
  have hstart : UploadStep oneChat "https://vault.test" "alice"
      ⟨chatJournal, [⟨"g", "imessage", []⟩, ⟨"h", "imessage", []⟩], [], none⟩
      (.start (chatPush .append 2 chatJournal) hashEveryFile id "imessage") _ :=
    .start rfl rfl rfl rfl rfl chatPush_reads oneChat_resolves
  have hrun := (firstPush_runs.append clearReplace_runs).snoc ⟨hstart, nofun⟩
  exact ⟨hrun.mono fun _ _ _ h => h.1, resumed_push_misses_nothing (by decide +kernel) hnew hrun⟩

/-- After the stopped `replace` run the third push skips the file and reports success, and one
    of its messages is gone. -/
theorem stopped_replace_loses_message :
    ∃ events u, Run (UploadStep oneChat "https://vault.test" "alice") (.new [] []) events u ∧
      ¬ NothingMissed oneChat "https://vault.test" "alice" u := by
  have hfirst := firstPush_runs.mono fun _ _ _ h => h.1
  have hthird : UploadStep oneChat "https://vault.test" "alice"
      ⟨chatJournal, [⟨"g", "imessage", []⟩], [], none⟩
      (.start (chatPush .append 2 chatJournal) hashEveryFile id "imessage")
      ⟨chatJournal, [⟨"g", "imessage", []⟩], [],
        some (.new (chatPush .append 2 chatJournal) hashEveryFile id "imessage")⟩ :=
    .start rfl rfl rfl rfl rfl chatPush_reads oneChat_resolves
  refine ⟨_, _, (hfirst.append stoppedReplace_runs).snoc hthird, fun h => ?_⟩
  have hreport : (pushRun (chatPush .append 2 chatJournal)).1 = .ok chatReport := by
    decide +kernel
  have hcount := h.delivered _ chatReport rfl (by decide +kernel) hreport rfl rfl
    ⟨"a.jsonl", "h"⟩ ⟨0, rfl, by decide +kernel⟩ "h" rfl
  revert hcount
  decide +kernel

end MessageCrate
