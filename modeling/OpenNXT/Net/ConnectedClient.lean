import OpenNXT.Net.Channel
import OpenNXT.Net.DynamicGamePacketCodec

/-! Writing packets to a client: varps of the late bootstrap wait in a queue and leave with the
flushes, eight at a time. -/
namespace OpenNXT.Net
open Buffer Data

inductive GamePacket
  | varpSmall (id value : Word)
  | varpLarge (id value : Word)
  | noTimeout
  deriving DecidableEq

namespace GamePacket

def varpId : GamePacket → Option Word
  | varpSmall id _ | varpLarge id _ => some id
  | noTimeout => none

def forVarp (id : Word) (packets : List GamePacket) : List GamePacket :=
  packets.filter fun p => p.varpId = some id

/-- The last packet for a varp. -/
def lastFor (id : Word) (packets : List GamePacket) : Option GamePacket :=
  (forVarp id packets).getLast?

@[simp] theorem forVarp_append (id : Word) (packets more : List GamePacket) :
    forVarp id (packets ++ more) = forVarp id packets ++ forVarp id more :=
  List.filter_append ..

theorem forVarp_of_ne {id : Word} {packet : GamePacket} (h : packet.varpId ≠ some id) :
    forVarp id [packet] = [] := by
  unfold forVarp
  simp [h]

theorem forVarp_eq_nil {id : Word} {packets : List GamePacket}
    (h : some id ∉ packets.map varpId) : forVarp id packets = [] := by
  apply List.filter_eq_nil_iff.mpr
  intro packet hpacket
  rw [decide_eq_true_eq]
  rintro hid
  exact h (hid ▸ List.mem_map_of_mem hpacket)

end GamePacket

/-- A codec that writes an `Int`. -/
def CodecName.IsNumber (codec : CodecName) : Prop := codec ≠ .string ∧ codec ≠ .long

/-- A declaration of a varp packet: its two numbers, in any order and encoding. -/
structure VarpDeclaration where
  opcode : Word
  fields : List PacketFieldDeclaration
  declared : ∀ field ∈ fields,
    (field.key = "id" ∨ field.key = "value") ∧ field.dataCodec.IsNumber

namespace VarpDeclaration

def toMap (id value : Word) : FieldMap :=
  (SortedMap.empty.insert "id" (.int id)).insert "value" (.int value)

def encode (d : VarpDeclaration) (id value : Word) : Option (List Byte) :=
  DynamicGamePacketCodec.encode d.fields (toMap id value)

end VarpDeclaration

/-- `codec` is `none` where it throws. -/
structure Registration where
  opcode : Word
  codec : GamePacket → Option (List Byte)

/-- The packets that are registered: the varps on the server side only. -/
structure PacketRegistry where
  varpSmall : Option VarpDeclaration
  varpLarge : Option VarpDeclaration
  noTimeout : Side → Option Word

namespace PacketRegistry

/-- The registration of a packet's class. -/
def getRegistration (registry : PacketRegistry) : Side → GamePacket → Option Registration
  | .server, .varpSmall _ _ => registry.varpSmall.map fun d =>
    ⟨d.opcode, fun
      | .varpSmall id value => d.encode id value
      | _ => none⟩
  | .server, .varpLarge _ _ => registry.varpLarge.map fun d =>
    ⟨d.opcode, fun
      | .varpLarge id value => d.encode id value
      | _ => none⟩
  | .client, .varpSmall _ _ | .client, .varpLarge _ _ => none
  | side, .noTimeout => (registry.noTimeout side).map fun opcode => ⟨opcode, fun _ => some []⟩

end PacketRegistry

structure LobbyBootstrap where
  defaultVarpMinId : Word
  defaultVarpMaxId : Word

structure DeferredServerPacket where
  registration : Registration
  packet : GamePacket

/-- What is put on a channel, with the packet it encodes. -/
structure Sent where
  packet : GamePacket
  message : OpcodeWithBuffer

/-- One end of a connection, with what it has put on the channel. -/
structure ClientWriter extends ConnectedClient where
  side : Side
  deferredBootstrapVarpQueue : List DeferredServerPacket := []
  lateDefaultVarpReplaySkipIds : List Word := []
  channel : List Sent := []

namespace ClientWriter

def lateBootstrapVarpBatchSize : ℕ := 8

def stage (c : ClientWriter) : String :=
  (c.currentBootstrapStage.or c.lastCompletedBootstrapStage).getD "none"

/-- The side of the packets that are written. -/
def registrationSide (c : ClientWriter) : Side := if c.side = .client then .server else .client

/-- Whether a packet passes the filter. -/
def evaluateLobbyBootstrapVarpFilter (c : ClientWriter) (config : LobbyBootstrap)
    (packet : GamePacket) (stage : String) : Bool :=
  if c.side ≠ .client ∨
      stage ≠ "default-state" ∧ stage ≠ "default-varps" ∧ stage ≠ "late-default-varps" then true
  else
    match packet.varpId with
    | none => true
    | some id => config.defaultVarpMinId.sle id && id.sle config.defaultVarpMaxId

def shouldSkipLateDefaultVarpReplay (c : ClientWriter) (packet : GamePacket) (stage : String) :
    Bool :=
  if c.side ≠ .client ∨ stage ≠ "late-default-varps" ∨ c.lateDefaultVarpReplaySkipIds = [] then false
  else
    match packet.varpId with
    | none => false
    | some id => c.lateDefaultVarpReplaySkipIds.contains id

def shouldDeferLateBootstrapVarp (c : ClientWriter) (packet : GamePacket) (stage : String) : Bool :=
  if c.side ≠ .client ∨ stage ≠ "late-default-varps" then false else packet.varpId.isSome

/-- `none` is an exception of the codec. -/
def writeEncodedPacket (c : ClientWriter) (registration : Registration) (packet : GamePacket) :
    Option ClientWriter := do
  let payload ← registration.codec packet
  return { c with channel := c.channel ++ [⟨packet, ⟨registration.opcode, { written := payload }⟩⟩] }

/-- Exceptions are caught. -/
def write (registry : PacketRegistry) (config : LobbyBootstrap) (c : ClientWriter)
    (packet : GamePacket) : ClientWriter :=
  match registry.getRegistration c.registrationSide packet with
  | none => c
  | some registration =>
    if !c.evaluateLobbyBootstrapVarpFilter config packet c.stage then c
    else if c.shouldSkipLateDefaultVarpReplay packet c.stage then c
    else if c.shouldDeferLateBootstrapVarp packet c.stage then
      { c with
        deferredBootstrapVarpQueue := c.deferredBootstrapVarpQueue ++ [⟨registration, packet⟩] }
    else (c.writeEncodedPacket registration packet).getD c

/-- The loop over a batch, and how many packets it drained. `none` is an exception: its packet has
left the queue. -/
def drainBatch : ℕ → ℕ → ClientWriter → ClientWriter × Option ℕ
  | 0, drained, c => (c, some drained)
  | n + 1, drained, c =>
    match c.deferredBootstrapVarpQueue with
    | [] => (c, some drained)
    | deferred :: rest =>
      let c := { c with deferredBootstrapVarpQueue := rest }
      match c.writeEncodedPacket deferred.registration deferred.packet with
      | none => (c, none)
      | some c => drainBatch n (drained + 1) c

/-- A keepalive is sent behind a batch that leaves something in the queue. -/
def drainDeferredBootstrapVarps (registry : PacketRegistry) (c : ClientWriter) : ClientWriter :=
  match drainBatch lateBootstrapVarpBatchSize 0 c with
  | (c, none) => c
  | (c, some drained) =>
    if c.side = .client && 0 < drained && !c.deferredBootstrapVarpQueue.isEmpty then
      match registry.getRegistration .server .noTimeout with
      | some registration => (c.writeEncodedPacket registration .noTimeout).getD c
      | none => c
    else c

def flush (registry : PacketRegistry) (c : ClientWriter) : ClientWriter :=
  c.drainDeferredBootstrapVarps registry

/-- A packet is registered and passes both filters. -/
def Passes (registry : PacketRegistry) (config : LobbyBootstrap) (c : ClientWriter)
    (packet : GamePacket) : Prop :=
  (registry.getRegistration c.registrationSide packet).isSome ∧
    c.evaluateLobbyBootstrapVarpFilter config packet c.stage = true ∧
    c.shouldSkipLateDefaultVarpReplay packet c.stage = false

instance (registry : PacketRegistry) (config : LobbyBootstrap) (c : ClientWriter)
    (packet : GamePacket) : Decidable (Passes registry config c packet) :=
  inferInstanceAs (Decidable (_ ∧ _ ∧ _))

/-- A varp goes straight out while another packet for it waits. -/
def Overtakes (registry : PacketRegistry) (config : LobbyBootstrap) (c : ClientWriter)
    (packet : GamePacket) : Prop :=
  Passes registry config c packet ∧ c.shouldDeferLateBootstrapVarp packet c.stage = false ∧
    packet.varpId.isSome ∧ packet.varpId ∈ c.deferredBootstrapVarpQueue.map fun d => d.packet.varpId

instance (registry : PacketRegistry) (config : LobbyBootstrap) (c : ClientWriter)
    (packet : GamePacket) : Decidable (Overtakes registry config c packet) :=
  inferInstanceAs (Decidable (_ ∧ _ ∧ _ ∧ _))

/-- The runs of a fresh connection, with the packets that were written and passed. Packets are
written where they are admitted. -/
inductive Run (registry : PacketRegistry) (config : LobbyBootstrap)
    (admits : ClientWriter → GamePacket → Prop) : ClientWriter → List GamePacket → Prop
  | start (side : Side) : Run registry config admits { side := side } []
  | write {c : ClientWriter} {log : List GamePacket} (h : Run registry config admits c log)
      (packet : GamePacket) (hp : admits c packet) :
      Run registry config admits (c.write registry config packet)
        (if Passes registry config c packet then log ++ [packet] else log)
  | changeStage {c : ClientWriter} {log : List GamePacket} (h : Run registry config admits c log)
      (current last : Option String) :
      Run registry config admits
        { c with currentBootstrapStage := current, lastCompletedBootstrapStage := last } log
  | changeSkipIds {c : ClientWriter} {log : List GamePacket} (h : Run registry config admits c log)
      (ids : List Word) :
      Run registry config admits { c with lateDefaultVarpReplaySkipIds := ids } log
  | flush {c : ClientWriter} {log : List GamePacket} (h : Run registry config admits c log) :
      Run registry config admits (c.flush registry) log

section Codec

theorem isSome_write {codec : CodecName} (h : codec.IsNumber) (v : Word) :
    ((Codecs.codecs codec).write (.int v)).isSome := by
  obtain ⟨hstring, hlong⟩ := h
  cases codec <;> first | rfl | contradiction

private theorem isSome_mapM {map : FieldMap} {fields : List PacketFieldDeclaration}
    (h : ∀ field ∈ fields, (DynamicGamePacketCodec.encodeField map field).isSome) :
    (fields.mapM (DynamicGamePacketCodec.encodeField map)).isSome := by
  induction fields with
  | nil => rfl
  | cons field fields ih =>
    obtain ⟨bs, hbs⟩ := Option.isSome_iff_exists.mp (h field List.mem_cons_self)
    obtain ⟨rest, hrest⟩ :=
      Option.isSome_iff_exists.mp (ih fun f hf => h f (List.mem_cons_of_mem _ hf))
    rw [List.mapM_cons, hbs, hrest]
    rfl

/-- The encoding of a varp never throws. -/
theorem isSome_encode (d : VarpDeclaration) (id value : Word) : (d.encode id value).isSome := by
  have hfields : ∀ field ∈ d.fields,
      (DynamicGamePacketCodec.encodeField (VarpDeclaration.toMap id value) field).isSome := by
    intro field hfield
    obtain ⟨hkey, hnumber⟩ := d.declared field hfield
    have hvalue : ∃ v, (VarpDeclaration.toMap id value).get? field.key = some (.int v) := by
      unfold VarpDeclaration.toMap
      rcases hkey with hkey | hkey
      · refine ⟨id, ?_⟩
        rw [hkey, SortedMap.get?_insert, SortedMap.get?_insert, if_neg (by decide), if_pos rfl]
      · refine ⟨value, ?_⟩
        rw [hkey, SortedMap.get?_insert, if_pos rfl]
    obtain ⟨v, hv⟩ := hvalue
    unfold DynamicGamePacketCodec.encodeField
    rw [hv]
    exact isSome_write hnumber v
  obtain ⟨written, hwritten⟩ := Option.isSome_iff_exists.mp (isSome_mapM hfields)
  unfold VarpDeclaration.encode DynamicGamePacketCodec.encode
  rw [hwritten]
  rfl

/-- A registered class encodes its packets. -/
theorem isSome_codec {registry : PacketRegistry} {side : Side} {packet : GamePacket}
    {registration : Registration} (h : registry.getRegistration side packet = some registration) :
    (registration.codec packet).isSome := by
  cases packet with
  | varpSmall id value =>
    cases side with
    | client => cases h
    | server =>
      obtain ⟨d, -, rfl⟩ := Option.map_eq_some_iff.mp h
      exact isSome_encode d id value
  | varpLarge id value =>
    cases side with
    | client => cases h
    | server =>
      obtain ⟨d, -, rfl⟩ := Option.map_eq_some_iff.mp h
      exact isSome_encode d id value
  | noTimeout =>
    cases side with
    | client =>
      obtain ⟨opcode, -, rfl⟩ := Option.map_eq_some_iff.mp h
      rfl
    | server =>
      obtain ⟨opcode, -, rfl⟩ := Option.map_eq_some_iff.mp h
      rfl

end Codec

/-- The packets on the channel. -/
def packets (c : ClientWriter) : List GamePacket := c.channel.map Sent.packet

/-- The packets that wait. -/
def deferred (c : ClientWriter) : List GamePacket :=
  c.deferredBootstrapVarpQueue.map DeferredServerPacket.packet

section Steps
open GamePacket
variable {registry : PacketRegistry} {config : LobbyBootstrap} {c : ClientWriter}

private theorem writeEncodedPacket_eq {registration : Registration} {packet : GamePacket}
    (h : (registration.codec packet).isSome) : ∃ message,
    c.writeEncodedPacket registration packet =
      some { c with channel := c.channel ++ [⟨packet, message⟩] } := by
  obtain ⟨payload, hpayload⟩ := Option.isSome_iff_exists.mp h
  unfold writeEncodedPacket
  rw [hpayload]
  exact ⟨_, rfl⟩

/-- Everything that waits can be encoded. -/
def Encodable (c : ClientWriter) : Prop :=
  ∀ d ∈ c.deferredBootstrapVarpQueue, (d.registration.codec d.packet).isSome

/-- A batch moves packets from the queue to the channel, in their order. -/
private theorem drainBatch_spec (n drained : ℕ) (h : c.Encodable) : ∃ c' k,
    drainBatch n drained c = (c', some k) ∧ c'.packets ++ c'.deferred = c.packets ++ c.deferred ∧
      c'.Encodable := by
  induction n generalizing drained c with
  | zero => exact ⟨c, drained, rfl, rfl, h⟩
  | succ n ih =>
    unfold drainBatch
    cases hq : c.deferredBootstrapVarpQueue with
    | nil => exact ⟨c, drained, rfl, rfl, h⟩
    | cons d rest =>
      have hencode : (d.registration.codec d.packet).isSome := by
        apply h
        rw [hq]
        exact List.mem_cons_self
      obtain ⟨message, hmessage⟩ :=
        writeEncodedPacket_eq (c := { c with deferredBootstrapVarpQueue := rest }) hencode
      have hrest : Encodable { c with
          deferredBootstrapVarpQueue := rest
          channel := c.channel ++ [⟨d.packet, message⟩] } := by
        intro x hx
        apply h
        rw [hq]
        exact List.mem_cons_of_mem _ hx
      obtain ⟨c', k, hdrain, horder, hencodable⟩ := ih (drained + 1) hrest
      refine ⟨c', k, ?_, ?_, hencodable⟩
      · simp only [hmessage]
        exact hdrain
      · rw [horder]
        unfold packets deferred
        simp [hq]

/-- A flush keeps the packets of each varp in order. -/
private theorem flush_spec (h : c.Encodable) (id : Word) :
    forVarp id (c.flush registry).packets ++ forVarp id (c.flush registry).deferred =
      forVarp id c.packets ++ forVarp id c.deferred ∧ (c.flush registry).Encodable := by
  obtain ⟨c', k, hdrain, horder, hencodable⟩ := drainBatch_spec lateBootstrapVarpBatchSize 0 h
  have hsame : forVarp id c'.packets ++ forVarp id c'.deferred =
      forVarp id c.packets ++ forVarp id c.deferred := by
    rw [← forVarp_append, horder, forVarp_append]
  unfold flush drainDeferredBootstrapVarps
  simp only [hdrain]
  split_ifs
  · cases hregistration : registry.getRegistration .server .noTimeout with
    | none => exact ⟨hsame, hencodable⟩
    | some registration =>
      obtain ⟨message, hmessage⟩ :=
        writeEncodedPacket_eq (c := c') (isSome_codec hregistration)
      simp only [hmessage, Option.getD_some]
      constructor
      · rw [← hsame]
        have hkeepalive : forVarp id [noTimeout] = [] := rfl
        unfold packets deferred
        rw [List.map_append, forVarp_append, List.map_singleton, hkeepalive, List.append_nil]
      · exact hencodable
  · exact ⟨hsame, hencodable⟩

/-- So does a write that does not overtake. -/
private theorem write_spec {packet : GamePacket} (h : c.Encodable)
    (hp : ¬ Overtakes registry config c packet) (id : Word) :
    forVarp id (c.write registry config packet).packets ++
        forVarp id (c.write registry config packet).deferred =
      forVarp id c.packets ++ forVarp id c.deferred ++
        forVarp id (if Passes registry config c packet then [packet] else []) ∧
      (c.write registry config packet).Encodable := by
  unfold write
  cases hregistration : registry.getRegistration c.registrationSide packet with
  | none =>
    have hnot : ¬ Passes registry config c packet := by
      unfold Passes
      simp [hregistration]
    rw [if_neg hnot]
    exact ⟨(List.append_nil _).symm, h⟩
  | some registration =>
    simp only
    by_cases hallowed : c.evaluateLobbyBootstrapVarpFilter config packet c.stage = true
    · by_cases hskip : c.shouldSkipLateDefaultVarpReplay packet c.stage = true
      · have hnot : ¬ Passes registry config c packet := by
          unfold Passes
          simp [hskip]
        rw [if_neg hnot, if_neg (by simp [hallowed]), if_pos hskip]
        exact ⟨(List.append_nil _).symm, h⟩
      · have hpasses : Passes registry config c packet :=
          ⟨by rw [hregistration]; rfl, hallowed, by simpa using hskip⟩
        rw [if_pos hpasses, if_neg (by simp [hallowed]), if_neg hskip]
        split_ifs with hdefer
        · constructor
          · unfold packets deferred
            simp
          · intro d hd
            rcases List.mem_append.mp hd with hd | hd
            · exact h d hd
            · rw [List.mem_singleton.mp hd]
              exact isSome_codec hregistration
        · obtain ⟨message, hmessage⟩ := writeEncodedPacket_eq (c := c) (isSome_codec hregistration)
          rw [hmessage, Option.getD_some]
          constructor
          · -- Nothing that waits is for the same varp.
            have hfree : forVarp id [packet] = [] ∨ forVarp id c.deferred = [] := by
              by_cases hid : packet.varpId = some id
              · right
                apply forVarp_eq_nil
                intro hmem
                apply hp
                refine ⟨hpasses, by simpa using hdefer, by rw [hid]; rfl, ?_⟩
                rw [hid]
                unfold deferred at hmem
                rwa [List.map_map] at hmem
              · exact Or.inl (forVarp_of_ne hid)
            have hsent : ClientWriter.packets { c with
                channel := c.channel ++ [⟨packet, message⟩] } = c.packets ++ [packet] := by
              unfold packets
              rw [List.map_append, List.map_singleton]
            rw [hsent, forVarp_append]
            rcases hfree with hnil | hnil
            · rw [hnil, List.append_nil, List.append_nil]
              rfl
            · have hdeferred : forVarp id (ClientWriter.deferred { c with
                  channel := c.channel ++ [⟨packet, message⟩] }) = [] := hnil
              rw [hdeferred, hnil, List.append_nil, List.append_nil]
          · exact h
    · have hnot : ¬ Passes registry config c packet := by
        unfold Passes
        simp [hallowed]
      rw [if_neg hnot, if_pos (by simpa using hallowed)]
      exact ⟨(List.append_nil _).symm, h⟩

end Steps

section Run
open GamePacket
variable {registry : PacketRegistry} {config : LobbyBootstrap}

/-- In every run without overtaking, what is on the channel for a varp and then what waits for it
is what was written for it. -/
theorem order_of_run {c : ClientWriter} {log : List GamePacket}
    (h : Run registry config (fun c p => ¬ Overtakes registry config c p) c log) (id : Word) :
    forVarp id c.packets ++ forVarp id c.deferred = forVarp id log ∧ c.Encodable := by
  induction h with
  | start side => exact ⟨rfl, fun d hd => (List.not_mem_nil hd).elim⟩
  | @write c log _ packet hp ih =>
    obtain ⟨horder, hencodable⟩ := write_spec ih.2 hp id
    refine ⟨?_, hencodable⟩
    rw [horder, ih.1, ← forVarp_append]
    split_ifs
    · rfl
    · rw [List.append_nil]
  | changeStage _ current last ih => exact ih
  | changeSkipIds _ ids ih => exact ih
  | flush _ ih =>
    obtain ⟨horder, hencodable⟩ := flush_spec ih.2 id
    exact ⟨horder.trans ih.1, hencodable⟩

/-- Once nothing waits, the last packet on the channel for a varp is the last one written for it. -/
theorem lastFor_packets_of_run (registry : PacketRegistry) (config : LobbyBootstrap)
    (c : ClientWriter) (log : List GamePacket)
    (h : Run registry config (fun c p => ¬ Overtakes registry config c p) c log)
    (hdrained : c.deferredBootstrapVarpQueue = []) (id : Word) :
    lastFor id c.packets = lastFor id log := by
  have hnone : c.deferred = [] := by
    unfold deferred
    rw [hdrained]
    rfl
  have horder := (order_of_run h id).1
  rw [hnone] at horder
  unfold lastFor
  rw [← horder]
  exact congrArg List.getLast? (List.append_nil _).symm

def sampleRegistry : PacketRegistry where
  varpSmall := some
    { opcode := 72
      fields := [⟨"id", .ushort⟩, ⟨"value", .ubyte⟩]
      declared := by simp [CodecName.IsNumber] }
  varpLarge := none
  noTimeout
    | .client => some 80
    | .server => some 131

def sampleBootstrap : LobbyBootstrap where
  defaultVarpMinId := 0
  defaultVarpMaxId := 0x7fffffff

/-- Two values for one varp in the late stage, and a flush. -/
theorem lastFor_packets_of_run_sample : ∃ c log,
    Run sampleRegistry sampleBootstrap (fun c p => ¬ Overtakes sampleRegistry sampleBootstrap c p)
      c log ∧ log = [varpSmall 1 5, varpSmall 1 6] ∧ lastFor 1 c.packets = lastFor 1 log := by
  have hlate : Run sampleRegistry sampleBootstrap
      (fun c p => ¬ Overtakes sampleRegistry sampleBootstrap c p) _ _ :=
    (Run.start .client).changeStage (some "late-default-varps") none
  have hwritten := (hlate.write (varpSmall 1 5) (by decide)).write (varpSmall 1 6) (by decide)
  refine ⟨_, _, hwritten.flush, by decide, ?_⟩
  exact lastFor_packets_of_run sampleRegistry sampleBootstrap _ _ hwritten.flush rfl 1

/-- A value waits in the queue when the next one for its varp goes straight out, and is sent last. -/
theorem not_lastFor_packets_overtaking : ∃ c log,
    Run sampleRegistry sampleBootstrap (fun _ _ => True) c log ∧
      c.deferredBootstrapVarpQueue = [] ∧ lastFor 1 log = some (varpSmall 1 6) ∧
      lastFor 1 c.packets = some (varpSmall 1 5) := by
  have hlate : Run sampleRegistry sampleBootstrap (fun _ _ => True) _ _ :=
    ((Run.start .client).changeStage (some "late-default-varps") none).write (varpSmall 1 5) trivial
  have hovertaken := (hlate.changeStage (some "social-state") none).write (varpSmall 1 6) trivial
  refine ⟨_, _, hovertaken.flush, ?_, ?_, ?_⟩
  · rfl
  · decide
  · decide

end Run

end ClientWriter

end OpenNXT.Net
