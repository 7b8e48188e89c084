import OpenNXT.Net.Buf.PacketFields

/-! Packets with arguments or strings that may be left out. -/
namespace OpenNXT.Net.Game
open Buffer Net.Buf

/-- An argument of a script; an array of `Any` may hold other objects as well. -/
inductive Arg
  | string (value : List Char)
  | int (value : Word)
  | other
  deriving DecidableEq

structure RunClientScript where
  script : Word
  args : List Arg := []
  deriving DecidableEq

namespace RunClientScript

def descOf : Arg → Char
  | .string _ => 's'
  | .int _ => 'i'
  | .other => 'i'

def encodeArg : Arg → Option (List Byte)
  | .string value => some (GamePacketBuilder.putString value)
  | .int value => GamePacketBuilder.putIntValue value
  | .other => none

/-- The last argument is put first. -/
def encodeArgs : List Arg → Option (List Byte)
  | [] => some []
  | a :: as => do
    let later ← encodeArgs as
    let bytes ← encodeArg a
    return later ++ bytes

def encode (packet : RunClientScript) : Option (List Byte) := do
  let desc := packet.args.map descOf
  let args ← encodeArgs packet.args
  let script ← GamePacketBuilder.putIntValue packet.script
  return GamePacketBuilder.putString desc ++ (args ++ script)

def decodeArg (c : Char) : Reader Arg :=
  if c = 's' then do
    let value ← GamePacketReader.getString
    return .string value
  else do
    let value ← GamePacketReader.getInt
    return .int value

def decodeArgs : List Char → Reader (List Arg)
  | [] => return []
  | c :: cs => do
    let later ← decodeArgs cs
    let arg ← decodeArg c
    return arg :: later

def decode : Reader RunClientScript := do
  let desc ← GamePacketReader.getString
  let args ← decodeArgs desc
  let script ← GamePacketReader.getInt
  return { script, args }

example : encode ⟨0x11223344, [.int 0x01020304, .string ['a', 'b', 'c'], .int 0x05060708]⟩ =
    some [0x69, 0x73, 0x69, 0, 5, 6, 7, 8, 0x61, 0x62, 0x63, 0, 1, 2, 3, 4, 0x11, 0x22, 0x33, 0x44] := by
  decide

/-- The arguments that the packet is for. -/
def Takes : Arg → Prop
  | .string value => Windows1252.Plain value
  | .int _ => True
  | .other => False

section RoundTrip
variable {packet : RunClientScript}

theorem reads_decodeArg {a : Arg} (h : Takes a) :
    ∃ bs, encodeArg a = some bs ∧ Reads (decodeArg (descOf a)) bs a := by
  cases a with
  | string value => exact ⟨_, rfl, (reads_getString h).map Arg.string⟩
  | int value =>
    obtain ⟨bs, hput, hread⟩ := reads_getInt value
    exact ⟨bs, hput, hread.map Arg.int⟩
  | other => exact h.elim

/-- What is put last for the tail is what the reader needs before the head. -/
theorem reads_decodeArgs {args : List Arg} (h : ∀ a ∈ args, Takes a) :
    ∃ bs, encodeArgs args = some bs ∧ Reads (decodeArgs (args.map descOf)) bs args := by
  induction args with
  | nil => exact ⟨[], rfl, Reads.pure []⟩
  | cons a as ih =>
    obtain ⟨later, hlater, hreads⟩ := ih fun b hb => h b (List.mem_cons_of_mem a hb)
    obtain ⟨bytes, hbytes, hread⟩ := reads_decodeArg (h a List.mem_cons_self)
    have hencode : encodeArgs (a :: as) = some (later ++ bytes) := by
      rw [encodeArgs, hlater, Option.bind_eq_bind, Option.bind_some, hbytes]
      rfl
    exact ⟨later ++ bytes, hencode, hreads.bind (hread.map fun arg => arg :: as)⟩

/-- The letters of a descriptor are in the charset. -/
theorem plain_desc (args : List Arg) : Windows1252.Plain (args.map descOf) := by
  intro c hc
  obtain ⟨a, -, rfl⟩ := List.mem_map.mp hc
  have hletter : descOf a = 's' ∨ descOf a = 'i' := by
    cases a with
    | string value => exact Or.inl rfl
    | int value => exact Or.inr rfl
    | other => exact Or.inr rfl
  rcases hletter with hs | hi
  · rw [hs]
    exact ⟨Windows1252.encodable_of_decodeByte 0x73 rfl (by decide), by decide⟩
  · rw [hi]
    exact ⟨Windows1252.encodable_of_decodeByte 0x69 rfl (by decide), by decide⟩

theorem reads_decode (h : ∀ a ∈ packet.args, Takes a) :
    ∃ bs, encode packet = some bs ∧ Reads decode bs packet := by
  obtain ⟨args, hargs, hreads⟩ := reads_decodeArgs h
  obtain ⟨script, hscript, hread⟩ := reads_getInt packet.script
  have hencode : encode packet =
      some (GamePacketBuilder.putString (packet.args.map descOf) ++ (args ++ script)) := by
    rw [encode, hargs, Option.bind_eq_bind, Option.bind_some, hscript]
    rfl
  have hdesc := reads_getString (plain_desc packet.args)
  have hlast := hread.map fun script => RunClientScript.mk script packet.args
  exact ⟨_, hencode, hdesc.bind (hreads.bind hlast)⟩

end RoundTrip

end RunClientScript

/-- A line of chat. -/
structure MessageGame where
  type : Word
  message : List Char
  intParam1 : Word := 0
  stringParam1 : Option (List Char) := none
  stringParam2 : Option (List Char) := none
  deriving DecidableEq

namespace MessageGame

def hash (packet : MessageGame) : Word :=
  (if packet.stringParam1.isSome then 0x1 else 0) ||| (if packet.stringParam2.isSome then 0x2 else 0)

/-- The strings that go before the message: the second one never without the first. -/
def putParams (packet : MessageGame) : List Byte :=
  match packet.stringParam1, packet.stringParam2 with
  | some string1, some string2 =>
    GamePacketBuilder.putString string1 ++ GamePacketBuilder.putString string2
  | some string1, none => GamePacketBuilder.putString string1
  | none, _ => []

def encode (packet : MessageGame) : Option (List Byte) := do
  let param ← GamePacketBuilder.putIntValue packet.intParam1
  let mask ← GamePacketBuilder.put .byte .big .none (packet.hash.signExtend 64)
  return GamePacketBuilder.putSmart packet.type ++
    (param ++ (mask ++ (packet.putParams ++ GamePacketBuilder.putString packet.message)))

/-- `if (present) buf.getString() else null` -/
def getParam (present : Bool) : Reader (Option (List Char)) :=
  if present then do
    let string ← GamePacketReader.getString
    return some string
  else return none

def decode : Reader MessageGame := do
  let type ← Ext.readSmartShort
  let param ← GamePacketReader.getInt
  let unsigned ← GamePacketReader.getUnsigned .byte .big .none
  let mask := unsigned.setWidth 32
  let string1 ← getParam (mask &&& 1 ≠ 0)
  let string2 ← getParam (mask &&& 1 ≠ 0 && mask &&& 2 ≠ 0)
  let message ← GamePacketReader.getString
  return { type := BitVec.ofNat 32 type, message, intParam1 := param, stringParam1 := string1
           stringParam2 := string2 }

/-- The packets that are for the client: a smart for the type, and strings of the charset. -/
structure Fits (packet : MessageGame) : Prop where
  low : 0 ≤ packet.type.toInt
  high : packet.type.toInt ≤ 32767
  message : Windows1252.Plain packet.message
  stringParam1 : ∀ s ∈ packet.stringParam1, Windows1252.Plain s
  stringParam2 : ∀ s ∈ packet.stringParam2, Windows1252.Plain s

/-- What the reader makes of a packet: a second string without a first is not sent. -/
def received (packet : MessageGame) : MessageGame :=
  { packet with stringParam2 := if packet.stringParam1.isSome then packet.stringParam2 else none }

section RoundTrip
variable {packet : MessageGame}

/-- A byte with two bits comes back without a sign. -/
theorem reads_mask (packet : MessageGame) :
    ∃ bs, GamePacketBuilder.put .byte .big .none (packet.hash.signExtend 64) = some bs ∧
      Reads (GamePacketReader.getUnsigned .byte .big .none) bs (packet.hash.signExtend 64) := by
  obtain ⟨bs, hbs⟩ : ∃ bs,
      GamePacketBuilder.put .byte .big .none (packet.hash.signExtend 64) = some bs := ⟨_, rfl⟩
  have hfits : DataType.byte.FitsUnsigned (packet.hash.signExtend 64) := by
    rw [DataType.FitsUnsigned, hash]
    cases packet.stringParam1.isSome <;> cases packet.stringParam2.isSome <;> decide
  have hno : ¬ GainsSign .big (packet.hash.signExtend 64) := by
    intro hgains
    rcases hgains.1 with hmid | hmid <;> cases hmid
  exact ⟨bs, hbs, (reads_getUnsigned_iff (by decide) hbs hfits).mpr hno⟩

theorem hash_bits (packet : MessageGame) :
    decide ((packet.hash.signExtend 64).setWidth 32 &&& 1 ≠ (0 : Word)) = packet.stringParam1.isSome ∧
      decide ((packet.hash.signExtend 64).setWidth 32 &&& 2 ≠ (0 : Word)) =
        packet.stringParam2.isSome := by
  rw [hash]
  cases packet.stringParam1.isSome <;> cases packet.stringParam2.isSome <;> decide

/-- A string that is there, or none of its bytes. -/
theorem reads_getParam {s : Option (List Char)} (h : ∀ t ∈ s, Windows1252.Plain t) :
    Reads (getParam s.isSome) ((s.map GamePacketBuilder.putString).getD []) s := by
  cases s with
  | none => exact Reads.pure none
  | some t => exact (reads_getString (h t rfl)).map some

theorem putParams_eq (packet : MessageGame) : packet.putParams =
    (packet.received.stringParam1.map GamePacketBuilder.putString).getD [] ++
      (packet.received.stringParam2.map GamePacketBuilder.putString).getD [] := by
  rw [putParams, received]
  cases packet.stringParam1 with
  | none => rfl
  | some string1 =>
    cases packet.stringParam2 with
    | none => exact (List.append_nil _).symm
    | some string2 => rfl

theorem reads_received (h : packet.Fits) :
    ∃ bs, packet.encode = some bs ∧ Reads decode bs packet.received := by
  obtain ⟨param, hparam, hint⟩ := reads_getInt packet.intParam1
  obtain ⟨mask, hmask, hbits⟩ := reads_mask packet
  obtain ⟨hfirst, hsecond⟩ := hash_bits packet
  have hencode : packet.encode = some (GamePacketBuilder.putSmart packet.type ++
      (param ++ (mask ++ (packet.putParams ++ GamePacketBuilder.putString packet.message)))) := by
    rw [encode, hparam, Option.bind_eq_bind, Option.bind_some, hmask]
    rfl
  have hparam2 : ∀ s ∈ packet.received.stringParam2, Windows1252.Plain s := by
    intro s hs
    rw [received] at hs
    split_ifs at hs
    · exact h.stringParam2 s hs
    · cases hs
  have hboth : packet.received.stringParam2.isSome =
      (packet.stringParam1.isSome && packet.stringParam2.isSome) := by
    rw [received]
    cases packet.stringParam1 <;> simp
  have htype : BitVec.ofNat 32 packet.type.toNat = packet.type := by
    rw [BitVec.ofNat_toNat, BitVec.setWidth_eq]
  have hlast := (reads_getString h.message).map fun message =>
    MessageGame.mk packet.type message packet.intParam1 packet.stringParam1
      packet.received.stringParam2
  have hstrings := (reads_getParam h.stringParam1).bind
    (f := fun string1 => do
      let string2 ← getParam packet.received.stringParam2.isSome
      let message ← GamePacketReader.getString
      return MessageGame.mk packet.type message packet.intParam1 string1 string2)
    ((reads_getParam hparam2).bind hlast)
  rw [putParams_eq, List.append_assoc] at hencode
  refine ⟨_, hencode, (reads_smart h.low h.high).bind (hint.bind (hbits.bind ?_))⟩
  dsimp only
  rw [hfirst, hsecond, htype, ← hboth]
  exact hstrings

end RoundTrip

end MessageGame

/-- The reader takes every byte of both packets, and loses the second string only when there is no
first one. -/
theorem serverprot_roundTrips (script : RunClientScript) (message : MessageGame)
    (hscript : ∀ a ∈ script.args, RunClientScript.Takes a) (hmessage : message.Fits) :
    (∃ bs, script.encode = some bs ∧ Reads RunClientScript.decode bs script) ∧
      ∃ bs back, message.encode = some bs ∧ Reads MessageGame.decode bs back ∧
        back.type = message.type ∧ back.message = message.message ∧
        back.intParam1 = message.intParam1 ∧ back.stringParam1 = message.stringParam1 ∧
        (message.stringParam1 ≠ none → back.stringParam2 = message.stringParam2) ∧
        (message.stringParam1 = none → back.stringParam2 = none) := by
  obtain ⟨bs, hencode, hread⟩ := MessageGame.reads_received hmessage
  have hpresent : message.stringParam1 ≠ none →
      message.received.stringParam2 = message.stringParam2 := by
    intro hne
    rw [MessageGame.received, if_pos (Option.isSome_iff_ne_none.mpr hne)]
  have habsent : message.stringParam1 = none → message.received.stringParam2 = none := by
    intro hnone
    rw [MessageGame.received, hnone]
    rfl
  exact ⟨RunClientScript.reads_decode hscript, bs, message.received, hencode, hread, rfl, rfl, rfl,
    rfl, hpresent, habsent⟩

/-- Two arguments, and a type of two bytes before a lonely second string. -/
theorem serverprot_roundTrips_lonely :
    (∃ bs, RunClientScript.encode ⟨1, [.int 2, .string ['a']]⟩ = some bs ∧
      Reads RunClientScript.decode bs ⟨1, [.int 2, .string ['a']]⟩) ∧
      ∃ bs back, MessageGame.encode ⟨128, ['m'], 5, none, some ['b']⟩ = some bs ∧
        Reads MessageGame.decode bs back ∧ back.stringParam2 = none := by
  have hplain : ∀ c : Char, c = 'a' ∨ c = 'b' ∨ c = 'm' → Windows1252.Encodable c ∧ c ≠ '\x00' := by
    intro c hc
    rcases hc with rfl | rfl | rfl
    · exact ⟨Windows1252.encodable_of_decodeByte 0x61 rfl (by decide), by decide⟩
    · exact ⟨Windows1252.encodable_of_decodeByte 0x62 rfl (by decide), by decide⟩
    · exact ⟨Windows1252.encodable_of_decodeByte 0x6d rfl (by decide), by decide⟩
  have hargs : ∀ a ∈ (RunClientScript.mk 1 [.int 2, .string ['a']]).args,
      RunClientScript.Takes a := by
    intro a ha
    rcases List.mem_pair.mp ha with rfl | rfl
    · trivial
    · intro c hc
      exact hplain c (Or.inl (List.mem_singleton.mp hc))
  have hfits : (MessageGame.mk 128 ['m'] 5 none (some ['b'])).Fits :=
    { low := by decide
      high := by decide
      message := fun c hc => hplain c (Or.inr (Or.inr (List.mem_singleton.mp hc)))
      stringParam1 := fun s hs => nomatch hs
      stringParam2 := by
        intro s hs c hc
        cases hs
        exact hplain c (Or.inr (Or.inl (List.mem_singleton.mp hc))) }
  obtain ⟨hscript, bs, back, hencode, hread, -, -, -, -, -, hnone⟩ :=
    serverprot_roundTrips ⟨1, [.int 2, .string ['a']]⟩ _ hargs hfits
  exact ⟨hscript, bs, back, hencode, hread, hnone rfl⟩

end OpenNXT.Net.Game
