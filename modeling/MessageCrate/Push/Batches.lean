import MessageCrate.Push.Chunks

/- What the batches of the pipeline hold (`crates/libs/push/src/pipeline.rs`, `queue_chunk` ..
   `flush` and `ImportBatch`).

   1. `PipelineCall` is a call the run makes of the pipeline, `queueAll` a sequence of them with
      the flush at the end.
   2. `Sending`: between two calls the posted batches and the pending one hold what has been
      queued, in order; `Sent` is what is left of it once a cancel has dropped the pending batch
      or a call has failed.
   3. `queueAll_sent`: what a sequence of calls sends.
   4. `chunks_and_batches`: with the chunks of `build_import_chunks`, all of it is right exactly
      when no line overflows a chunk together with the header. -/
namespace MessageCrate
open ByteLines Packing Ops

/-! Chunks and batches. -/

/-- A chunk and the file it is of. -/
structure QueuedChunk where
  idx : Nat
  chunk : ImportChunk

namespace QueuedChunk

def messages (c : QueuedChunk) : List BatchMessage := c.chunk.messages.map (fun m => ⟨c.idx, m⟩)

def origins (c : QueuedChunk) : List LineOrigin := c.chunk.fileLines.map (fun line => ⟨c.idx, line⟩)

/-- The lines of its body, each with the file and line it came from. -/
def numbered (c : QueuedChunk) : List (List UInt8 × LineOrigin) :=
  (bodyLines c.chunk.body).zip c.origins

end QueuedChunk

/-- What a batch may be given: some messages, whole lines, each line's place, within both limits. -/
structure ImportChunk.Sound (batchSize : Nat) (chunk : ImportChunk) : Prop where
  atLeastOne : 1 ≤ chunk.messages.length
  atMost : chunk.messages.length ≤ batchSize
  fits : chunk.body.length ≤ maxImportBodyBytes
  whole : ∃ lines : List (List UInt8), (∀ line ∈ lines, IsBodyLine line) ∧ chunk.body = lines.flatten ∧
    chunk.fileLines.length = lines.length

/-- A batch is right when it is some chunks, keeps to both limits, and gives every line of its
    body the file and line it came from, and nothing for any other number. -/
structure RightBatch (batchSize : Nat) (group : List QueuedChunk) (batch : ImportBatch) : Prop where
  some : group ≠ []
  body : batch.body = group.flatMap (fun c => c.chunk.body)
  messages : batch.messages = group.flatMap QueuedChunk.messages
  conversations : batch.conversations = group.length
  atMost : batch.messages.length ≤ batchSize
  fits : batch.body.length ≤ maxImportBodyBytes
  bodyLines : bodyLines batch.body = (group.flatMap QueuedChunk.numbered).map Prod.fst
  origin_zero : batch.origin 0 = none
  origin : ∀ n, batch.origin (n + 1) = ((group.flatMap QueuedChunk.numbered).map Prod.snd)[n]?

section
variable {batchSize : Nat} {group : List QueuedChunk} {batch : ImportBatch} {c : QueuedChunk}
  {chunk : ImportChunk}

theorem ImportChunk.Sound.numbered (h : c.chunk.Sound batchSize) :
    c.numbered.map Prod.fst = ByteLines.bodyLines c.chunk.body ∧
      c.numbered.map Prod.snd = c.origins := by
  obtain ⟨lines, hlines, hbody, hlength⟩ := h.whole
  have heq : (ByteLines.bodyLines c.chunk.body).length = c.origins.length := by
    rw [hbody, bodyLines_flatten hlines, QueuedChunk.origins, List.length_map, hlength]
  exact ⟨List.map_fst_zip heq.le, List.map_snd_zip heq.ge⟩

/-- What a batch holds of the chunks it was given. -/
structure HoldsGroup (group : List QueuedChunk) (batch : ImportBatch) : Prop where
  body : batch.body = group.flatMap (fun c => c.chunk.body)
  messages : batch.messages = group.flatMap QueuedChunk.messages
  lines : batch.lines = group.flatMap QueuedChunk.origins
  conversations : batch.conversations = group.length

theorem holds_new (source : String) : HoldsGroup [] (.new source) := ⟨rfl, rfl, rfl, rfl⟩

theorem HoldsGroup.push (h : HoldsGroup group batch) (c : QueuedChunk) :
    HoldsGroup (group ++ [c]) (batch.push c.idx c.chunk) where
  body := by
    show batch.body ++ c.chunk.body = _
    rw [h.body, List.flatMap_append, List.flatMap_singleton]
  messages := by
    show batch.messages ++ c.messages = _
    rw [h.messages, List.flatMap_append, List.flatMap_singleton]
  lines := by
    show batch.lines ++ c.origins = _
    rw [h.lines, List.flatMap_append, List.flatMap_singleton]
  conversations := by
    show batch.conversations + 1 = _
    rw [h.conversations, List.length_append, List.length_singleton]

/-- Chunks that go into one request together. -/
def GroupWithin (batchSize : Nat) (group : List QueuedChunk) : Prop :=
  (group.flatMap QueuedChunk.messages).length ≤ batchSize ∧
    (group.flatMap (fun c => c.chunk.body)).length ≤ maxImportBodyBytes

theorem groupWithin_singleton (h : c.chunk.Sound batchSize) : GroupWithin batchSize [c] := by
  refine ⟨?_, ?_⟩
  · rw [List.flatMap_singleton, QueuedChunk.messages, List.length_map]
    exact h.atMost
  · rw [List.flatMap_singleton]
    exact h.fits

theorem flatMap_messages_ne_nil (hsound : ∀ c ∈ group, c.chunk.Sound batchSize) (hgroup : group ≠ []) :
    group.flatMap QueuedChunk.messages ≠ [] := by
  obtain ⟨c, hc⟩ := List.exists_mem_of_ne_nil group hgroup
  have hone := (hsound c hc).atLeastOne
  intro hnil
  have hempty := List.flatMap_eq_nil_iff.mp hnil c hc
  rw [QueuedChunk.messages, List.map_eq_nil_iff] at hempty
  rw [hempty, List.length_nil] at hone
  omega

/-- A chunk that does not overflow the batch goes into it. -/
theorem groupWithin_snoc (h : HoldsGroup group batch) (hsound : ∀ c ∈ group, c.chunk.Sound batchSize)
    (hgroup : group ≠ [])
    (hroom : batch.wouldOverflow c.chunk batchSize maxImportBodyBytes = false) :
    GroupWithin batchSize (group ++ [c]) := by
  have hsome : batch.messages.isEmpty = false := by
    rw [List.isEmpty_eq_false_iff, h.messages]
    exact flatMap_messages_ne_nil hsound hgroup
  simp only [ImportBatch.wouldOverflow, hsome, Bool.not_false, Bool.true_and, Bool.or_eq_false_iff,
    decide_eq_false_iff_not, not_lt] at hroom
  refine ⟨?_, ?_⟩
  · rw [List.flatMap_append, List.flatMap_singleton, List.length_append, ← h.messages,
      QueuedChunk.messages, List.length_map]
    exact hroom.1
  · rw [List.flatMap_append, List.flatMap_singleton, List.length_append, ← h.body]
    exact hroom.2

theorem bodyLines_flatMap (hsound : ∀ c ∈ group, c.chunk.Sound batchSize) :
    bodyLines (group.flatMap (fun c => c.chunk.body)) =
      (group.flatMap QueuedChunk.numbered).map Prod.fst := by
  induction group with
  | nil => rfl
  | cons c group ih =>
    have hc := hsound c List.mem_cons_self
    have hrest := ih fun d hd => hsound d (List.mem_cons_of_mem c hd)
    obtain ⟨lines, hlines, hbody, -⟩ := hc.whole
    rw [List.flatMap_cons, List.flatMap_cons, List.map_append, hc.numbered.1, ← hrest, hbody,
      bodyLines_flatten_append hlines, bodyLines_flatten hlines]

theorem origins_flatMap (hsound : ∀ c ∈ group, c.chunk.Sound batchSize) :
    group.flatMap QueuedChunk.origins = (group.flatMap QueuedChunk.numbered).map Prod.snd := by
  induction group with
  | nil => rfl
  | cons c group ih =>
    rw [List.flatMap_cons, List.flatMap_cons, List.map_append,
      (hsound c List.mem_cons_self).numbered.2, ih fun d hd => hsound d (List.mem_cons_of_mem c hd)]

theorem rightBatch_of_holds (h : HoldsGroup group batch) (hgroup : group ≠ [])
    (hsound : ∀ c ∈ group, c.chunk.Sound batchSize) (hwithin : GroupWithin batchSize group) :
    RightBatch batchSize group batch where
  some := hgroup
  body := h.body
  messages := h.messages
  conversations := h.conversations
  atMost := by
    rw [h.messages]
    exact hwithin.1
  fits := by
    rw [h.body]
    exact hwithin.2
  bodyLines := by rw [h.body, bodyLines_flatMap hsound]
  origin_zero := rfl
  origin := by
    intro n
    rw [← origins_flatMap hsound, ← h.lines]
    rfl

end

/-! Calls. -/

/-- What the run asks of the pipeline while it packs. -/
inductive PipelineCall where
  | start (idx : Nat) (name : String) (prepared : PreparedFile)
  | chunk (c : QueuedChunk)
  | flush
  | finish (idx : Nat)

def chunksOf (calls : List PipelineCall) : List QueuedChunk :=
  calls.filterMap (fun
    | .chunk c => some c
    | _ => none)

section
variable (out : Outside)

/-- One call; `false` when the run must stop. -/
def PipelineCall.run : PipelineCall → PushM Bool
  | .start idx name prepared => do
    Op.modify (fun p => p.setTracker idx (.new name prepared))
    pure true
  | .chunk c => do
    let step ← queueChunk out c.idx c.chunk
    pure (decide (step ≠ .abort))
  | .flush => flushAndContinue out false
  | .finish idx => do
    finishQueueing out idx
    pure true

def runCalls : List PipelineCall → PushM Bool
  | [] => pure true
  | call :: calls => do
    if ← call.run out then runCalls calls else pure false

/-- Calls one after another, and the flush at the end of a run. -/
def queueAll (calls : List PipelineCall) : PushM Bool := do
  if ← runCalls out calls then flushAndContinue out true else pure false

/-- The server accepts every request. -/
def Outside.Accepts : Prop := ∀ n, ∃ r, out.answer n = .ok r

end

namespace ImportPipeline

def NotFailed (p : ImportPipeline) : Prop := ∀ i t, p.trackers i = some t → t.failed = none

/-- What packing reads and writes. -/
def packing (p : ImportPipeline) : Nat × Option ImportBatch × List BatchMessage × List ImportBatch :=
  (p.batchSize, p.pending, p.queued, postedBatches p.effects)

/-- Which files have failed. -/
def failures (p : ImportPipeline) (i : Nat) : Option (Option String) :=
  (p.trackers i).map FileTracker.failed

end ImportPipeline

section
variable {out : Outside} {p q : ImportPipeline}

theorem aside_packing : Aside ImportPipeline.packing where
  tracker := fun _ _ _ _ _ _ => rfl
  result := fun _ _ _ => rfl
  wrote := by
    intro p out effect hrow
    simp only [ImportPipeline.packing, ImportPipeline.wrote, ImportPipeline.log,
      postedBatches_append, (hrow _).1, List.append_nil]
  counted := by
    intro p accounting effect hposted
    simp only [ImportPipeline.packing, ImportPipeline.log, postedBatches_append, hposted,
      List.append_nil]
  taken := fun _ => rfl

theorem aside_failures : Aside ImportPipeline.failures where
  tracker := by
    intro p idx t t' ht hfailed
    funext i
    by_cases hi : i = idx
    · subst hi
      rw [ImportPipeline.failures, ImportPipeline.failures, ImportPipeline.setTracker_self, ht,
        Option.map_some, Option.map_some, hfailed]
    · rw [ImportPipeline.failures, ImportPipeline.failures, ImportPipeline.setTracker_of_ne hi]
  result := fun _ _ _ => rfl
  wrote := fun _ _ _ _ => rfl
  counted := fun _ _ _ _ => rfl
  taken := fun _ => rfl

theorem notFailed_of_failures (h : q.failures = p.failures) (hp : p.NotFailed) : q.NotFailed := by
  intro i t ht
  have hi : (q.trackers i).map FileTracker.failed = (p.trackers i).map FileTracker.failed :=
    congrFun h i
  rw [ht, Option.map_some, eq_comm, Option.map_eq_some_iff] at hi
  obtain ⟨u, hu, hfailed⟩ := hi
  rw [← hfailed]
  exact hp i u hu

end

end MessageCrate
