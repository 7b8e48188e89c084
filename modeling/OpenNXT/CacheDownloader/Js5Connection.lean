import OpenNXT.CacheDownloader.Js5Agreement
import OpenNXT.Net.Js5Serving

/-! A session and a client at the two ends of a connection. -/
namespace OpenNXT.CacheDownloader
open Buffer Data Decoding Net Js5Session Js5ClientDecoder

/-- What a client has outstanding is what was requested of a session. -/
structure Requested (h : Heap) (requests : List Ref) (qs : List RequestFile) : Prop where
  targets : (requests.map fun r => (h.requests r).target).Perm (qs.map RequestFile.target)
  archive : ∀ q ∈ qs, q.archive.msb = false
  fresh : ∀ r ∈ requests, (h.requests r).buffer = none
  completions : h.completions = []

/-- Every request was completed once, and its buffer has the bytes of its file. -/
structure Delivered (h : Heap) (requests : List Ref) (file : Target → List Byte)
    (c : Config Connection Byte Js5Packet) : Prop where
  completed : c.state.heap.completions.Perm requests
  content : ∀ r ∈ requests, ∃ b, (c.state.heap.requests r).buffer = some b ∧
    b.written = file (h.requests r).target

section Whole
variable {env : Environment} {file : Target → List Byte} {qs : List RequestFile} {s : Session}
  {h : Heap} {requests : List Ref}

theorem Requested.outstanding (hreq : Requested h requests qs) (hserves : Serves env file qs)
    (hdistinct : (qs.map RequestFile.target).Nodup) : Outstanding h requests file := by
  have hq : ∀ r ∈ requests, ∃ q ∈ qs, q.target = (h.requests r).target := by
    intro r hr
    exact List.mem_map.mp (hreq.targets.mem_iff.mp (List.mem_map_of_mem hr))
  constructor
  · exact hreq.targets.nodup_iff.mpr hdistinct
  · intro r hr
    obtain ⟨q, hq, heq⟩ := hq r hr
    have harchive := hreq.archive q hq
    rwa [show q.archive = (h.requests r).archive from congrArg Target.archive heq] at harchive
  · intro r hr
    obtain ⟨q, hq, heq⟩ := hq r hr
    rw [← heq]
    exact (hserves q hq).2

/-- In every run of a session whose blocks are not cut by a budget, and however the stream is cut,
the client gets what the session served. -/
theorem delivered_of_serving (hserves : Serves env file qs)
    (hrun : Serving env WholeBlock qs (s, .idle)) (hdrained : Drained s) {client : Js5Client}
    (hfresh : client.Fresh) (hreq : Requested h requests qs) (chunks : List (List Byte))
    (hchunks : chunks.flatten = s.written) :
    Delivered h requests file
      (decoder.feed { state := ⟨client.addAllUnchecked h requests, h⟩, unread := [] } chunks) := by
  obtain ⟨hdistinct, hblocks⟩ := blocks_of_serving hserves hrun hdrained
  have H := hreq.outstanding hserves hdistinct
  have hsame : initial file qs = fun t =>
      if t ∈ requests.map (fun r => (h.requests r).target) then file t else [] := by
    funext t
    unfold initial
    simp only [hreq.targets.mem_iff]
  rw [hsame, ← hchunks] at hblocks
  obtain ⟨c, hfeed, -, -, hall⟩ := H.feed hfresh hreq.fresh hreq.completions chunks hblocks
  obtain ⟨hperm, hcontent⟩ := H.delivered hall
  rw [hfeed]
  exact ⟨hperm, hcontent⟩

end Whole

section Sample

def sampleFile (t : Target) : List Byte :=
  if t.index = 2 ∧ t.archive = 10 then [0, 0, 0, 0, 1, 77] else []

theorem serves_sampleFile : Serves sampleEnvironment sampleFile [sampleRequest] := by
  intro q hq
  rw [List.mem_singleton.mp hq]
  refine ⟨fun loggedIn => ?_, 6, by decide, by decide, by decide⟩
  cases loggedIn <;> decide

/-- The session after its only request was served. -/
def sampleServed : Session where
  written := [2, 0, 0, 0, 10, 0, 0, 0, 0, 1, 77]

private theorem serving_sampleServed :
    Serving sampleEnvironment WholeBlock [sampleRequest] (sampleServed, .idle) := by
  have henqueue : Serving sampleEnvironment WholeBlock [sampleRequest] (sampleSession, .idle) :=
    .enqueue .start sampleRequest (by simp)
  have hcall := henqueue.call 102400 (le_refl _)
  have hload := hcall.process trivial (d := _) rfl
  have hwrite := hload.process (Or.inl (by decide)) (d := _) rfl
  have hrecycle := hwrite.process trivial (d := _) rfl
  have hhigh := hrecycle.process trivial (d := _) rfl
  have hlow := hhigh.process trivial (d := (sampleServed, .idle)) (by rfl)
  exact hlow

def sampleHeap : Heap where
  requests _ := { index := 2, archive := 10, priority := true }

def activeClient : Js5Client := { state := .active }

theorem fresh_activeClient : activeClient.Fresh :=
  ⟨rfl, rfl, fun p k => by cases p <;> rfl, rfl⟩

/-- One small file is served, and arrives in two pieces. -/
theorem delivered_of_serving_sample : Delivered sampleHeap [0] sampleFile (decoder.feed
    { state := ⟨activeClient.addAllUnchecked sampleHeap [0], sampleHeap⟩, unread := [] }
    [[2, 0, 0], [0, 10, 0, 0, 0, 0, 1, 77]]) := by
  refine delivered_of_serving serves_sampleFile serving_sampleServed ?_ ?_ ?_ _ rfl
  · intro p
    cases p <;> exact ⟨rfl, rfl⟩
  · exact fresh_activeClient
  · exact ⟨List.Perm.refl _, by decide, fun _ _ => rfl, rfl⟩

end Sample

section Cut

/-- A container with 102490 bytes of payload. -/
def largeFile : List Byte := [0, 0, 1, 0x90, 0x5A] ++ List.replicate 102490 0

/-- The same, but with a block's header in it. -/
def mangledFile : List Byte :=
  [0, 0, 1, 0x90, 0x5A] ++ (List.replicate 102435 0 ++ ([255, 0, 0, 0, 3] ++ List.replicate 50 0))

def largeEnvironment : Environment :=
  { sampleEnvironment with readReferenceTable := fun _ => some (some largeFile) }

def largeRequest : RequestFile where
  priority := true
  index := 255
  archive := 3

def largeHeap : Heap where
  requests _ := { index := 255, archive := 3, priority := true }

private theorem served_of_header (payload : List Byte) (h : payload.length = 102490) :
    Served ([0, 0, 1, 0x90, 0x5A] ++ payload) := by
  refine ⟨102495, ?_, ?_, ?_⟩
  · change some _ = some _
    decide
  · rw [List.length_append, h]
    decide
  · rw [List.length_append, h]
    decide

theorem serves_largeFile : Serves largeEnvironment (fun _ => largeFile) [largeRequest] := by
  intro q hq
  rw [List.mem_singleton.mp hq]
  refine ⟨fun loggedIn => ?_, served_of_header _ List.length_replicate⟩
  cases loggedIn <;> rfl

/-- The stream that two calls with a budget of 102450 write: the second block ends early. -/
def cutStream : List Byte :=
  (largeRequest.target.header ++ largeFile.take 102395) ++
    (largeRequest.target.header ++ (largeFile.drop 102395).take 45) ++
    (largeRequest.target.header ++ (largeFile.drop 102440).take 55)

private theorem length_largeFile : largeFile.length = 102495 := by
  rw [largeFile, List.length_append, List.length_replicate]
  rfl

private def cutSession (requests : List RequestFile) (responses : List PendingResponse)
    (written : List Byte) : Session where
  high := ⟨requests, responses, {⟨255, 3⟩}⟩
  written := written

/-- The response after `k` bytes of it. -/
private def largeResponse (k : ℕ) : PendingResponse :=
  ⟨true, 255, 3, largeFile.drop k, 102495 - k, 102495⟩

/-- The lane's only response gets a block of `m` bytes. -/
private theorem serving_block {limit n : ℤ} {k m : ℕ} {written : List Byte}
    (h : Serving largeEnvironment (fun _ => True) [largeRequest]
      (cutSession [] [] written, .write true limit n (largeResponse k)))
    (hm : min (min (102395 : ℤ) (102495 - k)) (limit - n - 5) = m) (hpos : 0 < m) :
    Serving largeEnvironment (fun _ => True) [largeRequest]
      (cutSession [] [] (written ++ (largeRequest.target.header ++ (largeFile.drop k).take m)),
        .recycle true limit (n + (m + 5)) (largeResponse (k + m))) := by
  have hblock := writeResponseBlock_eq (r := largeResponse k) hm hpos (by
    simp only [largeResponse, List.length_drop, length_largeFile]
    omega)
  have hafter : ({ largeResponse k with
      data := (largeResponse k).data.drop m, remaining := (largeResponse k).remaining - m } :
        PendingResponse) = largeResponse (k + m) := by
    simp only [largeResponse, List.drop_drop, Nat.cast_add]
    congr 1
    omega
  rw [hafter] at hblock
  refine h.process trivial ?_
  have hxor : (cutSession [] [] written).xorKey = 0 := rfl
  rw [Js5Session.processStep, hxor, hblock]
  rfl

/-- It goes back to the lane, and is taken again. -/
private theorem serving_recycle {limit n : ℤ} {k : ℕ} {written : List Byte}
    (h : Serving largeEnvironment (fun _ => True) [largeRequest]
      (cutSession [] [] written, .recycle true limit n (largeResponse k)))
    (hk : k < 102495) :
    Serving largeEnvironment (fun _ => True) [largeRequest]
      (cutSession [] [largeResponse k] written, .loop true limit n) := by
  refine h.process trivial ?_
  rw [Js5Session.processStep, recyclePendingResponse, if_pos (by simp only [largeResponse]; omega)]
  rfl

private theorem serving_next {limit n : ℤ} {k : ℕ} {written : List Byte}
    (h : Serving largeEnvironment (fun _ => True) [largeRequest]
      (cutSession [] [largeResponse k] written, .loop true limit n)) (hn : n < limit) :
    Serving largeEnvironment (fun _ => True) [largeRequest]
      (cutSession [] [] written, .write true limit n (largeResponse k)) := by
  refine h.process trivial ?_
  rw [Js5Session.processStep, if_pos hn]
  rfl

private theorem serving_cutStream : ∃ s, Serving largeEnvironment (fun _ => True) [largeRequest]
    (s, .idle) ∧ Drained s ∧ s.written = cutStream := by
  have henqueue : Serving largeEnvironment (fun _ => True) [largeRequest]
      (cutSession [largeRequest] [] [], .idle) :=
    .enqueue .start largeRequest (by simp)
  -- The first call sends a whole block, and 45 bytes of the next.
  have hcall := henqueue.call 102450 (by decide)
  have hload : Serving largeEnvironment (fun _ => True) [largeRequest]
      (cutSession [] [] [], .write true 102450 0 (largeResponse 0)) := hcall.process trivial rfl
  have hfirst := serving_block (m := 102395) hload (by decide) (by decide)
  have hcut := serving_block (m := 45) (serving_next (serving_recycle hfirst (by decide)) (by decide))
    (by decide) (by decide)
  have hspent := serving_recycle hcut (by decide)
  have hlow := hspent.process trivial
    (d := (_, .loop false 102450 (0 + ((102395 : ℕ) + 5) + ((45 : ℕ) + 5)))) rfl
  have hreturn := hlow.process trivial (d := (_, .idle)) rfl
  -- The second call sends the rest.
  have hagain := hreturn.call 102450 (by decide)
  have hlast := serving_block (m := 55) (serving_next hagain (by decide)) (by decide) (by decide)
  have hdone := hlast.process trivial (d := (_, .loop true 102450 (0 + ((55 : ℕ) + 5)))) rfl
  have hhigh := hdone.process trivial (d := (_, .loop false 102450 (0 + ((55 : ℕ) + 5)))) rfl
  have hend := hhigh.process trivial (d := (_, .idle)) rfl
  refine ⟨_, hend, ?_, ?_⟩
  · intro p
    cases p <;> exact ⟨rfl, rfl⟩
  · rfl

private theorem header_largeRequest : largeRequest.target.header = [255, 0, 0, 0, 3] := by
  decide

/-- What the first block of both files carries. -/
private def firstPayload : List Byte := [0, 0, 1, 0x90, 0x5A] ++ List.replicate 102390 0

private theorem length_firstPayload : firstPayload.length = 102395 := by
  rw [firstPayload, List.length_append, List.length_replicate]
  rfl

private theorem largeFile_eq : largeFile =
    firstPayload ++ (List.replicate 45 0 ++ (List.replicate 50 0 ++ List.replicate 5 0)) := by
  rw [List.replicate_append_replicate, List.replicate_append_replicate, firstPayload,
    List.append_assoc, List.replicate_append_replicate]
  rfl

private theorem mangledFile_eq : mangledFile =
    firstPayload ++ (List.replicate 45 0 ++ ([255, 0, 0, 0, 3] ++ List.replicate 50 0)) := by
  rw [firstPayload, List.append_assoc, ← List.append_assoc (List.replicate 102390 0),
    List.replicate_append_replicate]
  rfl

/-- The client takes the header of the third block for data, and has five bytes left over. -/
private theorem cutStream_eq :
    cutStream = Js5Encoder.response largeRequest.target mangledFile ++ List.replicate 5 0 := by
  have hne : mangledFile ≠ [] := List.cons_ne_nil _ _
  have hfirst : mangledFile.take 102395 = largeFile.take 102395 := by
    rw [mangledFile_eq, largeFile_eq, List.take_left' length_firstPayload,
      List.take_left' length_firstPayload]
  have hrest : mangledFile.drop 102395 =
      List.replicate 45 0 ++ ([255, 0, 0, 0, 3] ++ List.replicate 50 0) := by
    rw [mangledFile_eq, List.drop_left' length_firstPayload]
  have hsecond : (largeFile.drop 102395).take 45 = List.replicate 45 0 := by
    rw [largeFile_eq, List.drop_left' length_firstPayload, List.take_left' List.length_replicate]
  have hthird : (largeFile.drop 102440).take 55 = List.replicate 50 0 ++ List.replicate 5 0 := by
    have hdrop : largeFile.drop 102440 = (largeFile.drop 102395).drop 45 := by rw [List.drop_drop]
    rw [hdrop, largeFile_eq, List.drop_left' length_firstPayload,
      List.drop_left' List.length_replicate]
    rfl
  have hresponse : Js5Encoder.response largeRequest.target mangledFile =
      largeRequest.target.header ++ largeFile.take 102395 ++ (largeRequest.target.header ++
        (List.replicate 45 0 ++ ([255, 0, 0, 0, 3] ++ List.replicate 50 0))) := by
    have hlast : (List.replicate 45 (0 : Byte) ++ ([255, 0, 0, 0, 3] ++ List.replicate 50 0)).length ≤
        maxResponseBlockPayloadBytes := by decide
    rw [Js5Encoder.response_of_ne _ hne]
    change _ ++ mangledFile.take 102395 ++ Js5Encoder.response _ (mangledFile.drop 102395) = _
    rw [hfirst, hrest, Js5Encoder.response_of_ne _ (List.append_ne_nil_of_right_ne_nil _ (by simp)),
      List.take_of_length_le hlast, List.drop_of_length_le hlast, Js5Encoder.response_nil,
      List.append_nil]
  rw [hresponse, cutStream, hsecond, hthird, header_largeRequest]
  simp only [List.append_assoc]

theorem mangledFile_ne : mangledFile ≠ largeFile := by
  intro heq
  rw [largeFile_eq, mangledFile_eq] at heq
  have hhead := List.append_cancel_left (List.append_cancel_left heq)
  cases hhead

/-- With a budget that ends in the middle of a block, the client's buffer is not the file. -/
theorem not_delivered_cut : ∃ s chunks,
    Serving largeEnvironment (fun _ => True) [largeRequest] (s, .idle) ∧ Drained s ∧
    Serves largeEnvironment (fun _ => largeFile) [largeRequest] ∧
    Requested largeHeap [0] [largeRequest] ∧ activeClient.Fresh ∧ chunks.flatten = s.written ∧
    ¬ Delivered largeHeap [0] (fun _ => largeFile) (decoder.feed
      { state := ⟨activeClient.addAllUnchecked largeHeap [0], largeHeap⟩, unread := [] } chunks) := by
  obtain ⟨s, hserving, hdrained, hwritten⟩ := serving_cutStream
  refine ⟨s, [Js5Encoder.response largeRequest.target mangledFile, List.replicate 5 0], hserving,
    hdrained, serves_largeFile, ⟨List.Perm.refl _, by decide, fun _ _ => rfl, rfl⟩,
    fresh_activeClient, ?_, ?_⟩
  · rw [hwritten, cutStream_eq]
    simp
  have H : Outstanding largeHeap [0] (fun _ => mangledFile) := by
    refine ⟨by decide, by decide, fun r hr => served_of_header _ ?_⟩
    simp only [List.length_append, List.length_replicate]
    rfl
  have hblocks := Js5Encoder.blocks_response largeRequest.target mangledFile
    (fun t => if t ∈ [largeRequest.target] then mangledFile else []) (if_pos (by simp))
  have hnone : Function.update (fun t => if t ∈ [largeRequest.target] then mangledFile else [])
      largeRequest.target [] = fun _ => [] := by
    funext t
    by_cases ht : t = largeRequest.target
    · rw [ht, Function.update_self]
    · rw [Function.update_of_ne ht, if_neg (by simpa using ht)]
  rw [hnone] at hblocks
  obtain ⟨c, hfeed, hcur, -, hall⟩ := H.feed fresh_activeClient (fun _ _ => rfl) rfl
    [Js5Encoder.response largeRequest.target mangledFile] (by
      rw [List.flatten_singleton]
      exact hblocks)
  obtain ⟨-, hcontent⟩ := H.delivered hall
  obtain ⟨b, hb, hbytes⟩ := hcontent 0 (by simp)
  have hclosed : (decoder.callDecode c (List.replicate 5 0)).state =
      Js5ClientHandler.exceptionCaught c :=
    callDecode_idle hall.live.active hall.live.isOpen (hall.idle hcur) (by decide) (by decide)
  have hfinal : (decoder.feed
      { state := ⟨activeClient.addAllUnchecked largeHeap [0], largeHeap⟩, unread := [] }
      [Js5Encoder.response largeRequest.target mangledFile, List.replicate 5 0]).state =
        Js5ClientHandler.exceptionCaught c := by
    have hopen : decoder.isOpen c = true := hall.live.isOpen
    have hsplit : ∀ x : Config Connection Byte Js5Packet, ∀ a b,
        decoder.feed x [a, b] = decoder.channelRead (decoder.feed x [a]) b := fun _ _ _ => rfl
    rw [hsplit, hfeed, Decoder.channelRead, if_pos hopen]
    exact hclosed
  intro hdelivered
  obtain ⟨b', hb', hbytes'⟩ := hdelivered.content 0 (by simp)
  rw [hfinal] at hb'
  change (c.heap.requests 0).buffer = some b' at hb'
  rw [hb] at hb'
  cases hb'
  exact mangledFile_ne (hbytes.symm.trans hbytes')

end Cut

end OpenNXT.CacheDownloader
