import OpenNXT.Net.Proxy.ProxyConnection

/-! The proxy relays each packet once, in order, over every interleaving of the two event loops
with the tick thread. -/
namespace OpenNXT.Net.Proxy
open Buffer Util Decoding
open GamePacketFraming (Reading decoder fresh)

variable {P : Type} {r : ProxyRuntime P}

namespace ProxyRuntime

theorem receiveAll_append (side : Side) (inited : Bool) (pairs more : List OpcodeWithBuffer) :
    r.receiveAll side inited (pairs ++ more) =
      ((r.receiveAll side inited pairs).1 ++
          (r.receiveAll side (r.receiveAll side inited pairs).2 more).1,
        (r.receiveAll side (r.receiveAll side inited pairs).2 more).2) := by
  induction pairs generalizing inited with
  | nil => rfl
  | cons pair pairs ih =>
    rw [List.cons_append, receiveAll, receiveAll, ih]
    simp only [List.append_assoc]

end ProxyRuntime

namespace ConnectedProxyClient
variable {c : ConnectedProxyClient P} {side : Side} {isaac : ISAACCipher}

/-- What has been read of a channel is in the queue but for the packets that were polled. -/
structure Receives (r : ProxyRuntime P) (side : Side) (isaac : ISAACCipher)
    (chunks : List (List Byte)) (polled : List (QueuedPacket P)) (c : ConnectedProxyClient P) :
    Prop where
  reading : { c.reading with out := ((decoder (r.endpoint side)).feed (fresh isaac) chunks).out } =
    (decoder (r.endpoint side)).feed (fresh isaac) chunks
  queue : r.receiveAll side false ((decoder (r.endpoint side)).feed (fresh isaac) chunks).out =
    (polled ++ c.incomingQueue, c.initedPlayerList)

/-- The messages that wait for the event loop. -/
def pendingWrites (tasks : List ChannelTask) : List ProxyWrite :=
  tasks.filterMap fun
    | .write w => some w
    | .flush => none

/-- What was written to a channel: the messages that are encoded, and those that wait or are lost
with the channel. -/
structure Sends (r : ProxyRuntime P) (side : Side) (isaac : ISAACCipher) (log sent : List ProxyWrite)
    (c : ConnectedProxyClient P) : Prop where
  sent_log : sent <+: log
  encoded : ∃ bytes isaac', GamePacketEncoder.encodeAll (r.endpoint side) isaac
      (sent.map ProxyWrite.message) = some (bytes, isaac') ∧
    c.wire <+: bytes ∧ (c.isOpen = true → bytes = c.wire ++ c.outbound ∧ c.isaac = isaac')
  pending : c.isOpen = true → log = sent ++ pendingWrites c.tasks

theorem encodeAll_append {e : Endpoint} {isaac isaac₁ isaac₂ : ISAACCipher}
    {msgs more : List OpcodeWithBuffer} {bytes bytes' : List Byte}
    (h : GamePacketEncoder.encodeAll e isaac msgs = some (bytes, isaac₁))
    (hmore : GamePacketEncoder.encodeAll e isaac₁ more = some (bytes', isaac₂)) :
    GamePacketEncoder.encodeAll e isaac (msgs ++ more) = some (bytes ++ bytes', isaac₂) := by
  induction msgs generalizing isaac bytes with
  | nil =>
    cases h
    exact hmore
  | cons msg msgs ih =>
    obtain ⟨⟨first, isaac₃⟩, hfirst, h⟩ := Option.bind_eq_some_iff.mp h
    obtain ⟨⟨rest, isaac₄⟩, hrest, h⟩ := Option.bind_eq_some_iff.mp h
    cases h
    simp [GamePacketEncoder.encodeAll, hfirst, ih hrest]

theorem encodeAll_singleton {e : Endpoint} {isaac isaac' : ISAACCipher} {msg : OpcodeWithBuffer}
    {bytes : List Byte} (h : GamePacketEncoder.encode e isaac msg = some (bytes, isaac')) :
    GamePacketEncoder.encodeAll e isaac [msg] = some (bytes, isaac') := by
  simp [GamePacketEncoder.encodeAll, h]

section Receives
variable {chunks : List (List Byte)} {polled : List (QueuedPacket P)}

/-- A change that the receiving half does not look at. -/
theorem Receives.frame (h : Receives r side isaac chunks polled c) {d : ConnectedProxyClient P}
    (hreading : d.reading = c.reading) (hqueue : d.incomingQueue = c.incomingQueue)
    (hinited : d.initedPlayerList = c.initedPlayerList) : Receives r side isaac chunks polled d where
  reading := hreading ▸ h.reading
  queue := by rw [hqueue, hinited]; exact h.queue

theorem Receives.poll (h : Receives r side isaac chunks polled c) {packet : QueuedPacket P}
    {rest : List (QueuedPacket P)} (hqueue : c.incomingQueue = packet :: rest) :
    Receives r side isaac chunks (polled ++ [packet]) { c with incomingQueue := rest } where
  reading := h.reading
  queue := by rw [h.queue, hqueue, List.append_cons]

theorem channelRead_emit {σ β ω : Type} (D : Decoder σ β ω) (d : Config σ β ω) (out : List ω)
    (chunk : List β) :
    D.channelRead { d with out := out } chunk =
      { D.channelRead { d with out := [] } chunk with
        out := out ++ (D.channelRead { d with out := [] } chunk).out } := by
  unfold Decoder.channelRead
  split_ifs
  · rfl
  · simp

theorem Receives.read (h : Receives r side isaac chunks polled c) (chunk : List Byte) :
    Receives r side isaac (chunks ++ [chunk]) polled (c.read r side chunk) := by
  have hfeed : (decoder (r.endpoint side)).feed (fresh isaac) (chunks ++ [chunk]) =
      (decoder (r.endpoint side)).channelRead
        ((decoder (r.endpoint side)).feed (fresh isaac) chunks) chunk := by
    rw [Decoder.feed, Decoder.feed, List.foldl_append]
    rfl
  rw [← h.reading, channelRead_emit] at hfeed
  have hread : Receives r side isaac (chunks ++ [chunk]) polled { c with
      reading := (decoder (r.endpoint side)).channelRead { c.reading with out := [] } chunk
      initedPlayerList := (r.receiveAll side c.initedPlayerList
        ((decoder (r.endpoint side)).channelRead { c.reading with out := [] } chunk).out).2
      incomingQueue := c.incomingQueue ++ (r.receiveAll side c.initedPlayerList
        ((decoder (r.endpoint side)).channelRead { c.reading with out := [] } chunk).out).1 } := by
    refine ⟨?_, ?_⟩
    · rw [hfeed]
    · rw [hfeed, ProxyRuntime.receiveAll_append, h.queue, List.append_assoc]
  rw [ConnectedProxyClient.read]
  split_ifs
  · exact hread.frame rfl rfl rfl
  · exact hread

end Receives

section Sends
variable {log sent : List ProxyWrite}

/-- A change that the sending half does not look at. -/
theorem Sends.frame (h : Sends r side isaac log sent c) {d : ConnectedProxyClient P}
    (hwire : d.wire = c.wire) (hopen : d.isOpen = c.isOpen) (houtbound : d.outbound = c.outbound)
    (hisaac : d.isaac = c.isaac) (htasks : d.tasks = c.tasks) : Sends r side isaac log sent d where
  sent_log := h.sent_log
  encoded := by rw [hwire, hopen, houtbound, hisaac]; exact h.encoded
  pending := by rw [hopen, htasks]; exact h.pending

theorem Sends.close (h : Sends r side isaac log sent c) : Sends r side isaac log sent c.close where
  sent_log := h.sent_log
  encoded := by
    obtain ⟨bytes, isaac', hencode, hwire, -⟩ := h.encoded
    exact ⟨bytes, isaac', hencode, hwire, fun hopen => nomatch hopen⟩
  pending hopen := nomatch hopen

theorem Sends.read (h : Sends r side isaac log sent c) (chunk : List Byte) :
    Sends r side isaac log sent (c.read r side chunk) := by
  rw [ConnectedProxyClient.read]
  split_ifs
  · exact Sends.close (h.frame rfl rfl rfl rfl rfl)
  · exact h.frame rfl rfl rfl rfl rfl

/-- A task at the end of the queue. -/
theorem Sends.push (h : Sends r side isaac log sent c) (task : ChannelTask) :
    Sends r side isaac (log ++ pendingWrites [task]) sent { c with tasks := c.tasks ++ [task] } where
  sent_log := h.sent_log.trans (List.prefix_append _ _)
  encoded := h.encoded
  pending hopen := by
    rw [h.pending hopen, List.append_assoc]
    simp only [pendingWrites, List.filterMap_append]

/-- What a write adds to what was written. -/
def written (r : ProxyRuntime P) (side : Side) (relayed : Bool) (packet : QueuedPacket P) :
    List ProxyWrite :=
  ((r.writtenAs side packet).map fun message => { message, relayed }).toList

theorem Sends.write (h : Sends r side isaac log sent c) (relayed : Bool) (packet : QueuedPacket P) :
    Sends r side isaac (log ++ written r side relayed packet) sent (c.write r side relayed packet) := by
  rw [ConnectedProxyClient.write, written]
  cases r.writtenAs side packet with
  | none => exact (List.append_nil log).symm ▸ h
  | some message => exact h.push (.write { message, relayed })

theorem Sends.flush (h : Sends r side isaac log sent c) : Sends r side isaac log sent c.flush := by
  rw [ConnectedProxyClient.flush]
  split_ifs
  · exact List.append_nil log ▸ h.push .flush
  · exact h

/-- The event loop encodes the next message, or loses it with the channel. -/
theorem Sends.runTask (h : Sends r side isaac log sent c) {task : ChannelTask}
    {rest : List ChannelTask} (htasks : c.tasks = task :: rest) :
    ∃ sent', Sends r side isaac log sent' ({ c with tasks := rest }.runTask r side task) := by
  obtain ⟨bytes, isaac', hencode, hwire, hbytes⟩ := h.encoded
  have hpending := h.pending
  rw [htasks] at hpending
  by_cases hopen : c.isOpen = true
  · obtain ⟨rfl, hisaac⟩ := hbytes hopen
    have hlog := hpending hopen
    cases task with
    | flush =>
      have heq : { c with tasks := rest }.runTask r side .flush =
          { c with tasks := rest, wire := c.wire ++ c.outbound, outbound := [] } := if_pos hopen
      rw [heq]
      refine ⟨sent, h.sent_log, ⟨_, isaac', hencode, List.prefix_rfl, fun _ => ⟨?_, hisaac⟩⟩,
        fun _ => hlog⟩
      exact (List.append_nil _).symm
    | write w =>
      rw [ConnectedProxyClient.runTask, if_pos hopen]
      simp only
      split
      · next more isaac'' hmessage =>
        refine ⟨sent ++ [w], ?_, ⟨c.wire ++ c.outbound ++ more, isaac'', ?_, ?_, fun _ => ?_⟩,
          fun _ => ?_⟩
        · rw [hlog]
          exact List.prefix_append_right_inj sent |>.mpr ⟨pendingWrites rest, rfl⟩
        · rw [List.map_append]
          exact encodeAll_append hencode (encodeAll_singleton (hisaac ▸ hmessage))
        · exact hwire.trans (List.prefix_append _ _)
        · exact ⟨List.append_assoc _ _ _, rfl⟩
        · rw [hlog, List.append_assoc]
          rfl
      · exact ⟨sent, h.sent_log, ⟨_, isaac', hencode, hwire, (fun hfalse => nomatch hfalse)⟩,
          (fun hfalse => nomatch hfalse)⟩
  · have hsame : { c with tasks := rest }.runTask r side task = { c with tasks := rest } := by
      cases task <;> exact if_neg hopen
    rw [hsame]
    exact ⟨sent, h.sent_log, h.encoded, fun htrue => absurd htrue hopen⟩

end Sends

theorem read_ready (chunk : List Byte) : (c.read r side chunk).ready = c.ready := by
  rw [ConnectedProxyClient.read]
  split_ifs <;> rfl

/-- What a write leaves as it is. -/
theorem write_frame (r : ProxyRuntime P) (side : Side) (c : ConnectedProxyClient P) (relayed : Bool)
    (packet : QueuedPacket P) :
    ∃ tasks, c.write r side relayed packet = { c with tasks := tasks } := by
  rw [ConnectedProxyClient.write]
  split
  · exact ⟨c.tasks, rfl⟩
  · exact ⟨_, rfl⟩

theorem runTask_frame (r : ProxyRuntime P) (side : Side) (c : ConnectedProxyClient P)
    (task : ChannelTask) :
    (c.runTask r side task).reading = c.reading ∧
      (c.runTask r side task).incomingQueue = c.incomingQueue ∧
      (c.runTask r side task).initedPlayerList = c.initedPlayerList ∧
      (c.runTask r side task).ready = c.ready := by
  cases task with
  | flush =>
    rw [ConnectedProxyClient.runTask]
    split_ifs <;> simp
  | write w =>
    rw [ConnectedProxyClient.runTask]
    split_ifs
    · split <;> simp [ConnectedProxyClient.close]
    · simp

/-- The answers of the handlers, one after the other. -/
def answer (r : ProxyRuntime P) (c : ConnectedProxyClient P) (answers : List P) :
    ConnectedProxyClient P :=
  answers.foldl (fun c answer => c.write r .client false (.decoded answer)) c

theorem answer_frame (r : ProxyRuntime P) (c : ConnectedProxyClient P) (answers : List P) :
    ∃ tasks, answer r c answers = { c with tasks := tasks } := by
  induction answers generalizing c with
  | nil => exact ⟨c.tasks, rfl⟩
  | cons first answers ih =>
    obtain ⟨tasks, heq⟩ := write_frame r .client c false (.decoded first)
    obtain ⟨tasks', hrest⟩ := ih (c.write r .client false (.decoded first))
    rw [heq] at hrest
    rw [answer, List.foldl_cons, heq]
    exact ⟨tasks', hrest⟩

def answersWritten (r : ProxyRuntime P) (answers : List P) : List ProxyWrite :=
  answers.flatMap fun answer => written r .client false (.decoded answer)

theorem Sends.answer {log sent : List ProxyWrite} (h : Sends r .client isaac log sent c)
    (answers : List P) :
    Sends r .client isaac (log ++ answersWritten r answers) sent (answer r c answers) := by
  induction answers generalizing c log with
  | nil =>
    rw [answersWritten, List.flatMap_nil, List.append_nil]
    exact h
  | cons first answers ih =>
    rw [answersWritten, List.flatMap_cons, ← List.append_assoc]
    exact ih (h.write false (.decoded first))

theorem mem_answersWritten {answers : List P} {w : ProxyWrite} (h : w ∈ answersWritten r answers) :
    ∃ answer ∈ answers, r.writtenAs .client (.decoded answer) = some w.message := by
  obtain ⟨answer, hanswer, hw⟩ := List.mem_flatMap.mp h
  obtain ⟨message, hmessage, rfl⟩ := Option.map_eq_some_iff.mp (Option.mem_toList.mp hw)
  exact ⟨answer, hanswer, hmessage⟩

end ConnectedProxyClient

/-- The messages that come from the other end of the pair. -/
def relayedPart (log : List ProxyWrite) : List OpcodeWithBuffer :=
  (log.filter ProxyWrite.relayed).map ProxyWrite.message

theorem relayedPart_append (log more : List ProxyWrite) :
    relayedPart (log ++ more) = relayedPart log ++ relayedPart more := by
  simp only [relayedPart, List.filter_append, List.map_append]

theorem prefix_relayedPart {log more : List ProxyWrite} (h : log <+: more) :
    relayedPart log <+: relayedPart more := by
  obtain ⟨rest, rfl⟩ := h
  rw [relayedPart_append]
  exact List.prefix_append _ _

theorem relayedPart_written (side : Side) (packet : QueuedPacket P) :
    relayedPart (ConnectedProxyClient.written r side true packet) =
      (r.writtenAs side packet).toList := by
  unfold relayedPart ConnectedProxyClient.written
  cases r.writtenAs side packet <;> rfl

theorem relayedPart_answersWritten (answers : List P) :
    relayedPart (ConnectedProxyClient.answersWritten r answers) = [] := by
  induction answers with
  | nil => rfl
  | cons first answers ih =>
    rw [ConnectedProxyClient.answersWritten, List.flatMap_cons, relayedPart_append]
    rw [ConnectedProxyClient.answersWritten] at ih
    rw [ih, List.append_nil]
    unfold relayedPart ConnectedProxyClient.written
    cases r.writtenAs .client (.decoded first) <;> rfl

namespace ProxyPair
open ConnectedProxyClient
variable {s t : ProxyPair P} {incoming outgoing : Side → ISAACCipher}
  {chunks chunks' : Side → List (List Byte)} {polled : Side → List (QueuedPacket P)}
  {log sent sent' : Side → List ProxyWrite}

/-- A message that a handler wrote to the client for one of the packets. -/
def IsAnswer (r : ProxyRuntime P) (packets : Side → List (QueuedPacket P)) (side : Side)
    (message : OpcodeWithBuffer) : Prop :=
  side = .client ∧ ∃ d packet answer, .decoded packet ∈ packets d ∧
    answer ∈ r.handlePacket packet ∧ r.writtenAs .client (.decoded answer) = some message

theorem IsAnswer.mono {packets more : Side → List (QueuedPacket P)} {side : Side}
    {message : OpcodeWithBuffer} (h : IsAnswer r packets side message)
    (hmore : ∀ d, packets d ⊆ more d) : IsAnswer r more side message := by
  obtain ⟨hside, d, packet, answer, hpacket, hanswer, hmessage⟩ := h
  exact ⟨hside, d, packet, answer, hmore d hpacket, hanswer, hmessage⟩

theorem IsAnswer.readerIndex {packets : Side → List (QueuedPacket P)} {side : Side}
    {message : OpcodeWithBuffer} (h : IsAnswer r packets side message) :
    message.buf.readerIndex = 0 := by
  obtain ⟨-, _, _, _, -, -, h⟩ := h
  obtain ⟨registration, -, h⟩ := Option.bind_eq_some_iff.mp h
  obtain ⟨payload, -, h⟩ := Option.bind_eq_some_iff.mp h
  cases h
  rfl

/-- Every packet of one end is in its queue or was written to the other end, once and in order. -/
structure Relaying (r : ProxyRuntime P) (incoming outgoing : Side → ISAACCipher)
    (chunks : Side → List (List Byte)) (polled : Side → List (QueuedPacket P))
    (log sent : Side → List ProxyWrite) (s : ProxyPair P) : Prop where
  receives : ∀ side, Receives r side (incoming side) (chunks side) (polled side) (s.ends side)
  sends : ∀ side, Sends r side (outgoing side) (log side) (sent side) (s.ends side)
  relayed : ∀ side,
    relayedPart (log (otherSide side)) = (polled side).filterMap (r.writtenAs (otherSide side))
  answers : ∀ side, ∀ w ∈ log side, w.relayed = false → IsAnswer r polled side w.message
  waiting : s.bothReady = false → (∀ side, polled side = []) ∧ ∀ side, log side = []
  phase : ∀ side, s.phase = .polling side → s.bothReady = true

/-- A step that writes nothing. -/
theorem Relaying.of_ends (h : Relaying r incoming outgoing chunks polled log sent s)
    (hreceives : ∀ side, Receives r side (incoming side) (chunks' side) (polled side) (t.ends side))
    (hsends : ∀ side, Sends r side (outgoing side) (log side) (sent' side) (t.ends side))
    (hready : t.bothReady = false → s.bothReady = false)
    (hphase : ∀ side, t.phase = .polling side → t.bothReady = true) :
    Relaying r incoming outgoing chunks' polled log sent' t where
  receives := hreceives
  sends := hsends
  relayed := h.relayed
  answers := h.answers
  waiting hfalse := h.waiting (hready hfalse)
  phase := hphase

theorem ends_update_self (side : Side) (f : ConnectedProxyClient P → ConnectedProxyClient P) :
    (s.update side f).ends side = f (s.ends side) := if_pos rfl

theorem ends_update_of_ne {side d : Side} (h : d ≠ side)
    (f : ConnectedProxyClient P → ConnectedProxyClient P) :
    (s.update side f).ends d = s.ends d := if_neg h

/-- What holds of all ends holds of them after an update. -/
theorem forall_update {Q : Side → ConnectedProxyClient P → Prop} (side : Side)
    {f : ConnectedProxyClient P → ConnectedProxyClient P} (h : ∀ d, d ≠ side → Q d (s.ends d))
    (hside : Q side (f (s.ends side))) (d : Side) : Q d ((s.update side f).ends d) := by
  by_cases hd : d = side
  · subst hd
    rw [ends_update_self]
    exact hside
  · rw [ends_update_of_ne hd]
    exact h d hd

theorem forall_update₂ {α : Type} {Q : Side → α → ConnectedProxyClient P → Prop} {v : Side → α}
    (side : Side) {w : α} {f : ConnectedProxyClient P → ConnectedProxyClient P}
    (h : ∀ d, d ≠ side → Q d (v d) (s.ends d)) (hside : Q side w (f (s.ends side))) (d : Side) :
    Q d (Function.update v side w d) ((s.update side f).ends d) := by
  by_cases hd : d = side
  · subst hd
    rw [ends_update_self, Function.update_self]
    exact hside
  · rw [ends_update_of_ne hd, Function.update_of_ne hd]
    exact h d hd

theorem bothReady_update (side : Side) {f : ConnectedProxyClient P → ConnectedProxyClient P}
    (h : (f (s.ends side)).ready = (s.ends side).ready) :
    (s.update side f).bothReady = s.bothReady := by
  have hready : ∀ d, ((s.update side f).ends d).ready = (s.ends d).ready :=
    forall_update (Q := fun d c => c.ready = (s.ends d).ready) side (fun _ _ => rfl) h
  rw [bothReady, bothReady, hready, hready]

theorem relaying_read (h : Relaying r incoming outgoing chunks polled log sent s) (side : Side)
    (chunk : List Byte) :
    Relaying r incoming outgoing (Function.update chunks side (chunks side ++ [chunk])) polled log
      sent (s.update side fun c => c.read r side chunk) := by
  have hready : (s.update side fun c => c.read r side chunk).bothReady = s.bothReady :=
    bothReady_update side (read_ready chunk)
  refine h.of_ends ?_ ?_ (fun hfalse => hready ▸ hfalse) fun d hd => ?_
  · exact forall_update₂ (Q := fun d chunks c => Receives r d (incoming d) chunks (polled d) c) side
      (fun d _ => h.receives d) ((h.receives side).read chunk)
  · exact forall_update (Q := fun d c => Sends r d (outgoing d) (log d) (sent d) c) side
      (fun d _ => h.sends d) ((h.sends side).read chunk)
  · rw [hready]
    exact h.phase d hd

theorem relaying_ready (h : Relaying r incoming outgoing chunks polled log sent s) (side : Side) :
    Relaying r incoming outgoing chunks polled log sent
      (s.update side fun c => { c with ready := true }) := by
  have hready : ∀ d, (s.ends d).ready = true →
      ((s.update side fun c => { c with ready := true }).ends d).ready = true :=
    forall_update (Q := fun d c => (s.ends d).ready = true → c.ready = true) side
      (fun _ _ => id) fun _ => rfl
  have hboth : s.bothReady = true →
      (s.update side fun c => { c with ready := true }).bothReady = true := by
    intro htrue
    rw [bothReady, Bool.and_eq_true] at htrue ⊢
    exact ⟨hready _ htrue.1, hready _ htrue.2⟩
  refine h.of_ends ?_ ?_ (fun hfalse => ?_) fun d hd => hboth (h.phase d hd)
  · exact forall_update
      (Q := fun d c => Receives r d (incoming d) (chunks d) (polled d) c) side
      (fun d _ => h.receives d) ((h.receives side).frame rfl rfl rfl)
  · exact forall_update (Q := fun d c => Sends r d (outgoing d) (log d) (sent d) c) side
      (fun d _ => h.sends d) ((h.sends side).frame rfl rfl rfl rfl rfl)
  · by_contra htrue
    rw [hboth (Bool.eq_true_of_not_eq_false htrue)] at hfalse
    cases hfalse

theorem relaying_close (h : Relaying r incoming outgoing chunks polled log sent s) (side : Side) :
    Relaying r incoming outgoing chunks polled log sent
      (s.update side ConnectedProxyClient.close) := by
  have hready : (s.update side ConnectedProxyClient.close).bothReady = s.bothReady :=
    bothReady_update side rfl
  refine h.of_ends ?_ ?_ (fun hfalse => hready ▸ hfalse) fun d hd => ?_
  · exact forall_update
      (Q := fun d c => Receives r d (incoming d) (chunks d) (polled d) c) side
      (fun d _ => h.receives d) ((h.receives side).frame rfl rfl rfl)
  · exact forall_update (Q := fun d c => Sends r d (outgoing d) (log d) (sent d) c) side
      (fun d _ => h.sends d) (h.sends side).close
  · rw [hready]
    exact h.phase d hd

theorem relaying_flush (h : Relaying r incoming outgoing chunks polled log sent s) (side : Side) :
    Relaying r incoming outgoing chunks polled log sent
      (s.update side ConnectedProxyClient.flush) := by
  have hflush : (s.ends side).flush = { s.ends side with tasks := (s.ends side).flush.tasks } := by
    rw [ConnectedProxyClient.flush]
    split_ifs <;> rfl
  have hready : (s.update side ConnectedProxyClient.flush).bothReady = s.bothReady :=
    bothReady_update side (by rw [hflush])
  refine h.of_ends ?_ ?_ (fun hfalse => hready ▸ hfalse) fun d hd => ?_
  · refine forall_update
      (Q := fun d c => Receives r d (incoming d) (chunks d) (polled d) c) side
      (fun d _ => h.receives d) ?_
    rw [hflush]
    exact (h.receives side).frame rfl rfl rfl
  · exact forall_update (Q := fun d c => Sends r d (outgoing d) (log d) (sent d) c) side
      (fun d _ => h.sends d) (h.sends side).flush
  · rw [hready]
    exact h.phase d hd

theorem relaying_task (h : Relaying r incoming outgoing chunks polled log sent s) {side : Side}
    {task : ChannelTask} {rest : List ChannelTask} (htasks : (s.ends side).tasks = task :: rest) :
    ∃ sent', Relaying r incoming outgoing chunks polled log sent'
      (s.update side fun c => { c with tasks := rest }.runTask r side task) := by
  obtain ⟨sent', hsends⟩ := (h.sends side).runTask htasks
  have hframe := runTask_frame r side { s.ends side with tasks := rest } task
  have hready : (s.update side fun c => { c with tasks := rest }.runTask r side task).bothReady =
      s.bothReady := bothReady_update side hframe.2.2.2
  refine ⟨Function.update sent side sent',
    h.of_ends ?_ ?_ (fun hfalse => hready ▸ hfalse) fun d hd => ?_⟩
  · exact forall_update
      (Q := fun d c => Receives r d (incoming d) (chunks d) (polled d) c) side
      (fun d _ => h.receives d) ((h.receives side).frame hframe.1 hframe.2.1 hframe.2.2.1)
  · exact forall_update₂ (Q := fun d sent c => Sends r d (outgoing d) (log d) sent c) side
      (fun d _ => h.sends d) hsends
  · rw [hready]
    exact h.phase d hd

/-- A change of the phase alone. -/
theorem Relaying.phased (h : Relaying r incoming outgoing chunks polled log sent s)
    {phase : TickPhase} {removed : Bool}
    (hphase : ∀ side, phase = .polling side → s.bothReady = true) :
    Relaying r incoming outgoing chunks polled log sent { s with phase, removed } :=
  h.of_ends h.receives h.sends id hphase

theorem relay_eq (side : Side) (packet : QueuedPacket P) :
    ∃ answers, (∀ answer ∈ answers, ∃ p, packet = .decoded p ∧ answer ∈ r.handlePacket p) ∧
      s.relay r side packet =
        (s.update .client fun c => answer r c answers).update (otherSide side) fun c =>
          c.write r (otherSide side) true packet := by
  cases packet with
  | unidentified raw => exact ⟨[], (fun _ hanswer => nomatch hanswer), rfl⟩
  | decoded p => exact ⟨r.handlePacket p, fun _ hanswer => ⟨p, rfl, hanswer⟩, rfl⟩

theorem otherSide_injective : Function.Injective otherSide := by
  intro side d h
  cases side <;> cases d <;> first | rfl | cases h

/-- The polled packet goes to the other end, behind the answers of the handlers. -/
theorem relaying_relay (h : Relaying r incoming outgoing chunks polled log sent s) {side : Side}
    {packet : QueuedPacket P} {rest : List (QueuedPacket P)} (hphase : s.phase = .polling side)
    (hqueue : (s.ends side).incomingQueue = packet :: rest) :
    ∃ polled' log', Relaying r incoming outgoing chunks polled' log' sent
      ((s.update side fun c => { c with incomingQueue := rest }).relay r side packet) := by
  obtain ⟨answers, hhandled, heq⟩ := relay_eq (r := r)
    (s := s.update side fun c => { c with incomingQueue := rest }) side packet
  rw [heq]
  have hmore : ∀ d, polled d ⊆ Function.update polled side (polled side ++ [packet]) d := by
    intro d
    by_cases hd : d = side
    · rw [hd, Function.update_self]
      exact List.subset_append_left _ _
    · rw [Function.update_of_ne hd]
      exact List.Subset.refl _
  have hreceives := forall_update₂ (s := s)
    (Q := fun d polled c => Receives r d (incoming d) (chunks d) polled c) side
    (f := fun c => { c with incomingQueue := rest })
    (fun d _ => h.receives d) ((h.receives side).poll hqueue)
  have hsends := forall_update (s := s)
    (Q := fun d c => Sends r d (outgoing d) (log d) (sent d) c) side
    (f := fun c => { c with incomingQueue := rest })
    (fun d _ => h.sends d) ((h.sends side).frame rfl rfl rfl rfl rfl)
  have hboth : (s.update side fun c => { c with incomingQueue := rest }).bothReady = true := by
    rw [bothReady_update side rfl]
    exact h.phase side hphase
  generalize s.update side (fun c => { c with incomingQueue := rest }) = s₁ at hreceives hsends hboth
  obtain ⟨_, hanswer⟩ := answer_frame r (s₁.ends .client) answers
  have hreceives' := forall_update (s := s₁) .client (f := fun c => answer r c answers)
    (fun d _ => hreceives d) (by rw [hanswer]; exact (hreceives .client).frame rfl rfl rfl)
  have hsends' := forall_update₂ (s := s₁)
    (Q := fun d log c => Sends r d (outgoing d) log (sent d) c) .client
    (f := fun c => answer r c answers) (fun d _ => hsends d) ((hsends .client).answer answers)
  have hboth' : (s₁.update .client fun c => answer r c answers).bothReady = true := by
    rw [bothReady_update .client (by rw [hanswer]), hboth]
  generalize s₁.update .client (fun c => answer r c answers) = s₂ at hreceives' hsends' hboth'
  generalize hlog : Function.update log .client (log .client ++ answersWritten r answers) = log'
    at hsends'
  have hrelayed : ∀ d, relayedPart (log' d) = relayedPart (log d) := by
    intro d
    by_cases hd : d = .client
    · rw [← hlog, hd, Function.update_self, relayedPart_append, relayedPart_answersWritten,
        List.append_nil]
    · rw [← hlog, Function.update_of_ne hd]
  have hanswers : ∀ d, ∀ w ∈ log' d, w.relayed = false →
      IsAnswer r (Function.update polled side (polled side ++ [packet])) d w.message := by
    intro d w hw hfalse
    by_cases hd : d = .client
    · rw [← hlog, hd, Function.update_self, List.mem_append] at hw
      rcases hw with hw | hw
      · exact hd ▸ (h.answers _ w hw hfalse).mono hmore
      · obtain ⟨answer, hanswer, hmessage⟩ := mem_answersWritten hw
        obtain ⟨p, rfl, hp⟩ := hhandled answer hanswer
        refine ⟨hd, side, p, answer, ?_, hp, hmessage⟩
        rw [Function.update_self]
        exact List.mem_append_right _ List.mem_cons_self
    · rw [← hlog, Function.update_of_ne hd] at hw
      exact (h.answers d w hw hfalse).mono hmore
  obtain ⟨_, hwrite⟩ := write_frame r (otherSide side) (s₂.ends (otherSide side)) true packet
  have hboth'' : (s₂.update (otherSide side) fun c => c.write r (otherSide side) true packet).bothReady =
      true := by
    rw [bothReady_update (otherSide side) (by rw [hwrite]), hboth']
  refine ⟨_, Function.update log' (otherSide side)
      (log' (otherSide side) ++ written r (otherSide side) true packet),
    forall_update (otherSide side) (fun d _ => hreceives' d)
      (by rw [hwrite]; exact (hreceives' (otherSide side)).frame rfl rfl rfl),
    forall_update₂ (Q := fun d log c => Sends r d (outgoing d) log (sent d) c) (otherSide side)
      (fun d _ => hsends' d) ((hsends' (otherSide side)).write true packet),
    fun d => ?_, fun d w hw hanswer => ?_, fun hfalse => ?_, fun _ _ => hboth''⟩
  · by_cases hd : d = side
    · subst hd
      rw [Function.update_self, Function.update_self, relayedPart_append, hrelayed, h.relayed,
        relayedPart_written, List.filterMap_append, List.filterMap_cons, List.filterMap_nil]
      cases r.writtenAs (otherSide d) packet <;> rfl
    · rw [Function.update_of_ne (otherSide_injective.ne hd), Function.update_of_ne hd, hrelayed,
        h.relayed]
  · by_cases hd : d = otherSide side
    · subst hd
      rw [Function.update_self, List.mem_append] at hw
      rcases hw with hw | hw
      · exact hanswers _ w hw hanswer
      · obtain ⟨message, -, rfl⟩ := Option.map_eq_some_iff.mp (Option.mem_toList.mp hw)
        cases hanswer
    · rw [Function.update_of_ne hd] at hw
      exact hanswers d w hw hanswer
  · rw [hboth''] at hfalse
    cases hfalse

/-- The chunk that an event brings to a side. -/
def chunkOf (side : Side) : ProxyEvent → Option (List Byte)
  | .read d chunk => if d = side then some chunk else none
  | _ => none

/-- The chunks of a run. -/
def chunksOf (es : List ProxyEvent) (side : Side) : List (List Byte) := es.filterMap (chunkOf side)

theorem relaying_tick (h : Relaying r incoming outgoing chunks polled log sent s)
    (hstep : s.tick r = some t) :
    ∃ polled' log', Relaying r incoming outgoing chunks polled' log' sent t := by
  rw [tick] at hstep
  split at hstep
  · split_ifs at hstep
    · cases hstep
      exact ⟨polled, log, h.phased fun d hd => nomatch hd⟩
    · cases hstep
      have hclosed := relaying_close (relaying_close h .client) .server
      exact ⟨polled, log, hclosed.phased fun d hd => nomatch hd⟩
  · next side _ =>
    cases hstep
    refine ⟨polled, log, h.phased fun d hd => ?_⟩
    by_contra hnot
    rw [if_neg hnot] at hd
    cases side <;> cases hd
  · next side hphase =>
    split at hstep
    · cases hstep
      refine ⟨polled, log, h.phased fun d hd => ?_⟩
      cases side <;> cases hd
    · next packet rest hqueue =>
      cases hstep
      exact relaying_relay h hphase hqueue
  · cases hstep
    have hflush := relaying_flush (relaying_flush h .client) .server
    exact ⟨polled, log, hflush.phased fun d hd => nomatch hd⟩

theorem relaying_step {e : ProxyEvent}
    (h : Relaying r incoming outgoing chunks polled log sent s) (hstep : s.step r e = some t) :
    ∃ polled' log' sent', Relaying r incoming outgoing
      (fun side => chunks side ++ (chunkOf side e).toList) polled' log' sent' t := by
  cases e with
  | read side chunk =>
    rw [step] at hstep
    split_ifs at hstep
    cases hstep
    have hchunks : (fun d => chunks d ++ (chunkOf d (.read side chunk)).toList) =
        Function.update chunks side (chunks side ++ [chunk]) := by
      funext d
      by_cases hd : d = side
      · rw [hd, Function.update_self, chunkOf, if_pos rfl]
        rfl
      · rw [Function.update_of_ne hd, chunkOf, if_neg (Ne.symm hd)]
        exact List.append_nil _
    rw [hchunks]
    exact ⟨polled, log, sent, relaying_read h side chunk⟩
  | ready side =>
    cases hstep
    simp only [chunkOf, Option.toList_none, List.append_nil]
    exact ⟨polled, log, sent, relaying_ready h side⟩
  | close side =>
    cases hstep
    simp only [chunkOf, Option.toList_none, List.append_nil]
    exact ⟨polled, log, sent, relaying_close h side⟩
  | task side =>
    simp only [chunkOf, Option.toList_none, List.append_nil]
    rw [step] at hstep
    split at hstep
    · cases hstep
    · next task rest htasks =>
      cases hstep
      obtain ⟨sent', hsent⟩ := relaying_task h htasks
      exact ⟨polled, log, sent', hsent⟩
  | tick =>
    simp only [chunkOf, Option.toList_none, List.append_nil]
    obtain ⟨polled', log', ht⟩ := relaying_tick h hstep
    exact ⟨polled', log', sent, ht⟩

theorem relaying_run (es : List ProxyEvent)
    (h : Relaying r incoming outgoing chunks polled log sent s) (hrun : s.run r es = some t) :
    ∃ polled' log' sent', Relaying r incoming outgoing
      (fun side => chunks side ++ chunksOf es side) polled' log' sent' t := by
  induction es generalizing s chunks polled log sent with
  | nil =>
    cases hrun
    simp only [chunksOf, List.filterMap_nil, List.append_nil]
    exact ⟨polled, log, sent, h⟩
  | cons e es ih =>
    obtain ⟨u, hstep, hrest⟩ := Option.bind_eq_some_iff.mp hrun
    obtain ⟨_, _, _, hu⟩ := relaying_step h hstep
    obtain ⟨polled', log', sent', ht⟩ := ih hu hrest
    have hchunks : (fun side => chunks side ++ chunksOf (e :: es) side) =
        fun side => chunks side ++ (chunkOf side e).toList ++ chunksOf es side := by
      funext side
      simp only [chunksOf, List.filterMap_cons, List.append_assoc]
      cases chunkOf side e <;> rfl
    rw [hchunks]
    exact ⟨polled', log', sent', ht⟩

/-- What the packets of a side are to the other one. -/
def relayedAs (r : ProxyRuntime P) (side : Side) (packets : List OpcodeWithBuffer) :
    List OpcodeWithBuffer :=
  (r.receiveAll side false packets).1.filterMap (r.writtenAs (otherSide side))

/-- The packets that a side has framed in a run. -/
def framed (r : ProxyRuntime P) (incoming : Side → ISAACCipher) (side : Side)
    (es : List ProxyEvent) : List OpcodeWithBuffer :=
  ((decoder (r.endpoint side)).feed (fresh (incoming side)) (chunksOf es side)).out

theorem relaying_start :
    Relaying r incoming outgoing (fun _ => []) (fun _ => []) (fun _ => []) (fun _ => [])
      (start incoming outgoing) where
  receives _ := ⟨rfl, rfl⟩
  sends side :=
    ⟨List.prefix_rfl, ⟨[], outgoing side, rfl, List.prefix_rfl, fun _ => ⟨rfl, rfl⟩⟩, fun _ => rfl⟩
  relayed _ := rfl
  answers _ _ hw := nomatch hw
  waiting _ := ⟨fun _ => rfl, fun _ => rfl⟩
  phase _ hphase := nomatch hphase

theorem relaying_of_run {es : List ProxyEvent} (hrun : (start incoming outgoing).run r es = some s) :
    ∃ polled log sent, Relaying r incoming outgoing (chunksOf es) polled log sent s := by
  obtain ⟨polled, log, sent, h⟩ := relaying_run es relaying_start hrun
  simp only [List.nil_append] at h
  exact ⟨polled, log, sent, h⟩

/-- Nothing that a side has read waits in the proxy, and the other channel is open. -/
def Drained (s : ProxyPair P) (side : Side) : Prop :=
  (s.ends side).incomingQueue = [] ∧ (s.ends (otherSide side)).isOpen = true ∧
    (s.ends (otherSide side)).tasks = [] ∧ (s.ends (otherSide side)).outbound = []

/-- What the other channel has encoded of the packets of a side. -/
theorem Relaying.prefix_relayedPart
    (h : Relaying r incoming outgoing chunks polled log sent s) (side : Side) :
    relayedPart (sent (otherSide side)) <+: relayedAs r side
      ((decoder (r.endpoint side)).feed (fresh (incoming side)) (chunks side)).out := by
  have hpre := Proxy.prefix_relayedPart (h.sends (otherSide side)).sent_log
  rw [h.relayed] at hpre
  refine hpre.trans ?_
  rw [relayedAs, (h.receives side).queue, List.filterMap_append]
  exact List.prefix_append _ _

theorem Relaying.isAnswer (h : Relaying r incoming outgoing chunks polled log sent s) {side : Side}
    (w : ProxyWrite) (hw : w ∈ sent side) (hfalse : w.relayed = false) :
    IsAnswer r (fun d => (r.receiveAll d false
      ((decoder (r.endpoint d)).feed (fresh (incoming d)) (chunks d)).out).1) side w.message := by
  refine (h.answers side w ((h.sends side).sent_log.subset hw) hfalse).mono fun d => ?_
  simp only [(h.receives d).queue]
  exact List.subset_append_left _ _

theorem Relaying.relayedPart_eq (h : Relaying r incoming outgoing chunks polled log sent s)
    {side : Side} (hdrained : s.Drained side) :
    relayedPart (sent (otherSide side)) = relayedAs r side
      ((decoder (r.endpoint side)).feed (fresh (incoming side)) (chunks side)).out := by
  obtain ⟨hempty, hopen, htasks, -⟩ := hdrained
  have hlog := (h.sends (otherSide side)).pending hopen
  rw [htasks] at hlog
  have hall : log (otherSide side) = sent (otherSide side) := hlog.trans (List.append_nil _)
  rw [← hall, h.relayed, relayedAs, (h.receives side).queue, hempty, List.append_nil]

/-- What is on a wire is the encoding of some messages. Those of them that come from the other end
are the packets framed there, in order and each once; there are none before both ends are ready,
and nothing is missing once the proxy has nothing left to do. -/
theorem relays_in_order (r : ProxyRuntime P) (incoming outgoing : Side → ISAACCipher)
    (es : List ProxyEvent) {s : ProxyPair P} (hrun : (start incoming outgoing).run r es = some s)
    (side : Side) :
    ∃ sent bytes isaac,
      GamePacketEncoder.encodeAll (r.endpoint (otherSide side)) (outgoing (otherSide side))
        (sent.map ProxyWrite.message) = some (bytes, isaac) ∧
      (s.ends (otherSide side)).wire <+: bytes ∧
      relayedPart sent <+: relayedAs r side (framed r incoming side es) ∧
      (∀ w ∈ sent, w.relayed = false → IsAnswer r
        (fun d => (r.receiveAll d false (framed r incoming d es)).1) (otherSide side) w.message) ∧
      (s.bothReady = false → sent = []) ∧
      (s.Drained side →
        relayedPart sent = relayedAs r side (framed r incoming side es) ∧
          (s.ends (otherSide side)).wire = bytes) := by
  obtain ⟨polled, log, sent, h⟩ := relaying_of_run hrun
  have hsends := h.sends (otherSide side)
  obtain ⟨bytes, isaac, hencode, hwire, hbytes⟩ := hsends.encoded
  refine ⟨sent (otherSide side), bytes, isaac, hencode, hwire, h.prefix_relayedPart side,
    fun w hw hfalse => h.isAnswer w hw hfalse, fun hfalse => ?_,
    fun hdrained => ⟨h.relayedPart_eq hdrained, ?_⟩⟩
  · have hnone := (h.waiting hfalse).2 (otherSide side)
    exact List.prefix_nil.mp (hnone ▸ hsends.sent_log)
  · obtain ⟨-, hopen, -, houtbound⟩ := hdrained
    rw [(hbytes hopen).1, houtbound, List.append_nil]

section EndToEnd

/-- The sizes that the protocol has for the packets of both sides. -/
def WellSizedProtocol (r : ProxyRuntime P) : Prop :=
  ∀ side, WellSized (GamePacketFraming.mapping (r.endpoint side))

/-- The peer of a side, which sees the proxy as the other side, and the proxy. -/
theorem connected_endpoint (h : WellSizedProtocol r) (side : Side) :
    Connected (r.endpoint (otherSide side)) (r.endpoint side) where
  protocol := rfl
  side := by
    change otherSide side ≠ side
    cases side <;> decide
  sizes := h side

theorem bootstrapStage_endpoint (side : Side) :
    bootstrapStage (r.endpoint side).channel = "none" := rfl

theorem noOverride_endpoint (side side' : Side) :
    NoOverride (r.endpoint side) (r.endpoint side') where
  server _ := if_pos (by rw [bootstrapStage_endpoint]; right; right; decide)
  lobby _ := if_pos (by rw [bootstrapStage_endpoint]; right; decide)
  lateWorld _ := if_pos (by rw [bootstrapStage_endpoint]; right; decide)
  fallback _ _ := if_pos (by rw [bootstrapStage_endpoint]; right; decide)

/-- A part of what a peer has encoded is framed as a part of its messages. -/
theorem feed_endpoint (h : WellSizedProtocol r) {side : Side} {isaac isaac' : ISAACCipher}
    {msgs : List OpcodeWithBuffer} {bytes : List Byte} (hr : ∀ msg ∈ msgs, msg.buf.readerIndex = 0)
    (hencode : GamePacketEncoder.encodeAll (r.endpoint (otherSide side)) isaac msgs =
      some (bytes, isaac')) {chunks : List (List Byte)} (hchunks : chunks.flatten <+: bytes) :
    ((decoder (r.endpoint side)).feed (fresh isaac) chunks).out <+: msgs ∧
      (chunks.flatten = bytes → ((decoder (r.endpoint side)).feed (fresh isaac) chunks).out = msgs) := by
  have hrun := run_encodeAll (connected_endpoint h side) (noOverride_endpoint _ _) msgs hr isaac
    isaac' bytes hencode
  rw [GamePacketFraming.feed_fresh]
  constructor
  · obtain ⟨rest, hrest⟩ := hchunks
    rw [← hrest, Machine.run_append] at hrun
    have hout := congrArg Config.out hrun
    rw [Config.out_emit] at hout
    exact ⟨_, hout⟩
  · intro hall
    rw [hall, hrun]

theorem receiveAll_of_unregistered {side : Side} {msgs : List OpcodeWithBuffer} (inited : Bool)
    (hr : ∀ msg ∈ msgs, msg.buf.readerIndex = 0)
    (hraw : ∀ msg ∈ msgs, r.byOpcode side msg.opcode = none) :
    r.receiveAll side inited msgs = (msgs.map .unidentified, inited) := by
  induction msgs with
  | nil => rfl
  | cons msg msgs ih =>
    have hrest := ih (fun m hm => hr m (List.mem_cons_of_mem _ hm))
      fun m hm => hraw m (List.mem_cons_of_mem _ hm)
    have hcopy : msg.buf.readable = msg.buf.written := by
      rw [ByteBuf.readable, hr msg List.mem_cons_self, List.drop_zero]
    have hfirst : r.receive side inited msg = (some (.unidentified msg), inited) := by
      rw [ProxyRuntime.receive, hraw msg List.mem_cons_self, hcopy]
      have hzero := hr msg List.mem_cons_self
      obtain ⟨opcode, written, readerIndex⟩ := msg
      cases hzero
      rfl
    rw [ProxyRuntime.receiveAll, hfirst]
    simp only [hrest, Option.toList_some, List.map_cons, List.singleton_append]

theorem relayedAs_of_unregistered {side : Side} {msgs : List OpcodeWithBuffer}
    (hr : ∀ msg ∈ msgs, msg.buf.readerIndex = 0)
    (hraw : ∀ msg ∈ msgs, r.byOpcode side msg.opcode = none) : relayedAs r side msgs = msgs := by
  rw [relayedAs, receiveAll_of_unregistered false hr hraw, List.filterMap_map]
  exact List.filterMap_some

/-- Packets that no codec is registered for reach the peer of the other side as they were sent,
however the bytes are cut on both ways: in order and each once, behind nothing but the answers of
the handlers, and nothing is missing once the proxy has nothing left to do. -/
theorem relays_end_to_end (hsizes : WellSizedProtocol r) (incoming outgoing : Side → ISAACCipher)
    (es : List ProxyEvent) {s : ProxyPair P} (hrun : (start incoming outgoing).run r es = some s)
    {side : Side} {msgs : List OpcodeWithBuffer} (hr : ∀ msg ∈ msgs, msg.buf.readerIndex = 0)
    (hraw : ∀ msg ∈ msgs, r.byOpcode side msg.opcode = none) {bytes : List Byte}
    {isaac : ISAACCipher}
    (hencode : GamePacketEncoder.encodeAll (r.endpoint (otherSide side)) (incoming side) msgs =
      some (bytes, isaac))
    (hread : (chunksOf es side).flatten <+: bytes) (arrived : List (List Byte))
    (harrived : arrived.flatten <+: (s.ends (otherSide side)).wire) :
    ∃ sent,
      ((decoder (r.endpoint side)).feed (fresh (outgoing (otherSide side))) arrived).out <+:
        sent.map ProxyWrite.message ∧
      relayedPart sent <+: msgs ∧
      (∀ w ∈ sent, w.relayed = false → IsAnswer r
        (fun d => (r.receiveAll d false (framed r incoming d es)).1) (otherSide side) w.message) ∧
      ((chunksOf es side).flatten = bytes → s.Drained side →
        arrived.flatten = (s.ends (otherSide side)).wire →
        ((decoder (r.endpoint side)).feed (fresh (outgoing (otherSide side))) arrived).out =
          sent.map ProxyWrite.message ∧ relayedPart sent = msgs) := by
  obtain ⟨polled, log, sent, h⟩ := relaying_of_run hrun
  have hframed := feed_endpoint hsizes hr hencode hread
  have hunregistered : ∀ framed, framed <+: msgs → relayedAs r side framed = framed :=
    fun framed hpre => relayedAs_of_unregistered
      (fun msg hmsg => hr msg (hpre.subset hmsg)) fun msg hmsg => hraw msg (hpre.subset hmsg)
  have hrelayed := h.prefix_relayedPart side
  rw [hunregistered _ hframed.1] at hrelayed
  have hsent : ∀ msg ∈ (sent (otherSide side)).map ProxyWrite.message, msg.buf.readerIndex = 0 := by
    intro msg hmsg
    obtain ⟨w, hw, rfl⟩ := List.mem_map.mp hmsg
    cases hkind : w.relayed with
    | false => exact (h.isAnswer w hw hkind).readerIndex
    | true =>
      have hmem : w.message ∈ relayedPart (sent (otherSide side)) :=
        List.mem_map_of_mem (List.mem_filter.mpr ⟨hw, hkind⟩)
      exact hr _ ((hrelayed.trans hframed.1).subset hmem)
  obtain ⟨wire, isaac', hwritten, hwire, hbytes⟩ := (h.sends (otherSide side)).encoded
  have hfar := @feed_endpoint P r hsizes side _ _ _ _ hsent hwritten arrived (harrived.trans hwire)
  refine ⟨sent (otherSide side), hfar.1, hrelayed.trans hframed.1,
    fun w hw hfalse => h.isAnswer w hw hfalse, fun hall hdrained hdone => ⟨?_, ?_⟩⟩
  · refine hfar.2 (hdone.trans ?_)
    obtain ⟨-, hopen, -, houtbound⟩ := hdrained
    rw [(hbytes hopen).1, houtbound, List.append_nil]
  · have hpart := h.relayedPart_eq hdrained
    rw [hunregistered _ hframed.1] at hpart
    exact hpart.trans (hframed.2 hall)

/-- A proxy without codecs, for a client whose opcode 7 has two bytes. -/
def sampleRuntime : ProxyRuntime Unit where
  protocol :=
    { clientProtSizes := fun opcode => if opcode = 7 then some 2 else none
      serverProtSizes := fun _ => none }
  build := 946
  byOpcode _ _ := none
  byClass _ _ := none
  handlePacket _ := []

def sampleCipher (_ : Side) : ISAACCipher := { count := 256 }

/-- A packet of the client goes to the server. -/
def sampleRun : List ProxyEvent :=
  [.ready .client, .ready .server, .read .client [7, 1, 2], .tick, .tick, .tick, .tick, .tick, .tick,
    .tick, .task .server, .task .server]

theorem wellSizedProtocol_sampleRuntime : WellSizedProtocol sampleRuntime := by
  intro side opcode size h
  cases side with
  | client =>
    change (if opcode = 7 then some (2 : Word) else none) = some size at h
    split_ifs at h with h7
    cases h
    subst h7
    exact ⟨by unfold IsOpcode; decide, Or.inl (by decide)⟩
  | server => cases h

theorem channelRead_sample :
    (decoder (sampleRuntime.endpoint .client)).channelRead (fresh { count := 256 }) [7, 1, 2] =
      { state := { isaac := { count := 255 } }, unread := [], out := [samplePacket] } := by
  have hrun := run_encodeAll (connected_endpoint wellSizedProtocol_sampleRuntime .client)
    (noOverride_endpoint .server .client) [samplePacket]
    (List.forall_mem_singleton.mpr rfl) { count := 256 } { count := 255 } [7, 1, 2] rfl
  rw [← hrun]
  exact GamePacketFraming.feed_fresh _ _ [[7, 1, 2]]

/-- An end before the packet. -/
def sampleClient : ConnectedProxyClient Unit where
  reading := fresh { count := 256 }
  isaac := { count := 256 }
  ready := true

theorem read_sampleClient : sampleClient.read sampleRuntime .client [7, 1, 2] =
    { sampleClient with
      reading := { state := { isaac := { count := 255 } }, unread := [], out := [samplePacket] }
      incomingQueue := [.unidentified samplePacket] } := by
  unfold ConnectedProxyClient.read
  have hfresh : ({ sampleClient.reading with out := [] } : Reading) = fresh { count := 256 } := rfl
  rw [hfresh, channelRead_sample]
  rfl

theorem exists_run_sampleRun : ∃ s, (start sampleCipher sampleCipher).run sampleRuntime sampleRun =
    some s ∧ s.Drained .client ∧ (s.ends .server).wire = [7, 1, 2] := by
  have hread : (start sampleCipher sampleCipher).run sampleRuntime sampleRun =
      run sampleRuntime
        { ends := fun d => if d = .client then sampleClient.read sampleRuntime .client [7, 1, 2]
            else sampleClient }
        [.tick, .tick, .tick, .tick, .tick, .tick, .tick, .task .server, .task .server] := by
    refine congrArg (fun ends => run sampleRuntime { ends := ends }
      [.tick, .tick, .tick, .tick, .tick, .tick, .tick, .task .server, .task .server]) ?_
    funext d
    cases d <;> rfl
  rw [hread, read_sampleClient]
  exact ⟨_, rfl, ⟨rfl, rfl, rfl, rfl⟩, rfl⟩

theorem relays_in_order_sampleRun : ∃ s,
    (start sampleCipher sampleCipher).run sampleRuntime sampleRun = some s ∧
      ∃ sent isaac,
        GamePacketEncoder.encodeAll (sampleRuntime.endpoint .server) { count := 256 }
          (sent.map ProxyWrite.message) = some ([7, 1, 2], isaac) ∧
        relayedPart sent = relayedAs sampleRuntime .client
          (framed sampleRuntime sampleCipher .client sampleRun) := by
  obtain ⟨s, hrun, hdrained, hwire⟩ := exists_run_sampleRun
  obtain ⟨sent, bytes, isaac, hencode, -, -, -, -, hall⟩ :=
    relays_in_order sampleRuntime sampleCipher sampleCipher sampleRun hrun .client
  have hbytes : bytes = [7, 1, 2] := (hall hdrained).2.symm.trans hwire
  exact ⟨s, hrun, sent, isaac, hbytes ▸ hencode, (hall hdrained).1⟩

theorem relays_end_to_end_sampleRun : ∃ sent,
    ((decoder (sampleRuntime.endpoint .client)).feed (fresh { count := 256 }) [[7], [1, 2]]).out =
      sent.map ProxyWrite.message ∧ relayedPart sent = [samplePacket] := by
  obtain ⟨s, hrun, hdrained, hwire⟩ := exists_run_sampleRun
  have hread : (chunksOf sampleRun .client).flatten = [7, 1, 2] := rfl
  have harrived : ([[7], [1, 2]] : List (List Byte)).flatten = (s.ends .server).wire := hwire.symm
  obtain ⟨sent, -, -, -, hall⟩ := @relays_end_to_end Unit sampleRuntime
    wellSizedProtocol_sampleRuntime sampleCipher sampleCipher sampleRun s hrun .client
    [samplePacket] (List.forall_mem_singleton.mpr rfl) (List.forall_mem_singleton.mpr rfl)
    [7, 1, 2] { count := 255 } rfl (hread ▸ List.prefix_rfl) [[7], [1, 2]]
    (harrived ▸ List.prefix_rfl)
  exact ⟨sent, hall hread hdrained harrived⟩

end EndToEnd

end ProxyPair

end OpenNXT.Net.Proxy
