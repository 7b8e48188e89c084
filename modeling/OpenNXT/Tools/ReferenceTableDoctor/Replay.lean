import OpenNXT.Filesystem.ContainerCodec
import OpenNXT.Net.Js5Decoder
import OpenNXT.Net.Js5Serving

/-! The reference table doctor asks a JS5 server for one file and parses the reply. -/
namespace OpenNXT.Tools.ReferenceTableDoctor
open Buffer Decoding Net

def js5BlockBytes : ℕ := 102400

section Requests

end Requests

structure ResponseHeader where
  index : ℕ
  archive : ℕ
  priority : Bool
  compression : ℕ
  fileSize : ℕ
  deriving DecidableEq

def ResponseHeader.containerBytes (header : ResponseHeader) : ℕ :=
  header.fileSize + 5 + if header.compression ≠ 0 then 4 else 0

/-- Ten bytes: the envelope of a block, and the front of a container. -/
def parseResponseHeader (headerBytes : List Byte) : Option ResponseHeader :=
  if headerBytes.length ≠ 10 then none
  else
    let archiveHash := ofBytes ((headerBytes.drop 1).take 4)
    some {
      index := ofBytes (headerBytes.take 1)
      archive := archiveHash &&& 0x7FFFFFFF
      priority := archiveHash &&& 0x80000000 = 0
      compression := ofBytes ((headerBytes.drop 5).take 1)
      fileSize := ofBytes ((headerBytes.drop 6).take 4) }

section Replay

end Replay

section Parse

structure ParsedJs5Reply where
  handshakeResponse : Byte
  header : ResponseHeader
  frameBytes : List Byte
  payloadBytes : List Byte
  trailingBytes : List Byte
  deriving DecidableEq

/-- The payload and the frame of the blocks behind the first one, and what follows them. -/
def parseContinuations (remaining : ℕ) (view : List Byte) :
    Option (List Byte × List Byte × List Byte) :=
  if _h : remaining = 0 then some ([], [], view)
  else if view.length < 5 then none
  else
    let chunkBytes := min (js5BlockBytes - 5) remaining
    if view.length < 5 + chunkBytes then none
    else do
      let (payload, frame, trailing) ←
        parseContinuations (remaining - chunkBytes) (view.drop (5 + chunkBytes))
      return ((view.drop 5).take chunkBytes ++ payload, view.take (5 + chunkBytes) ++ frame, trailing)
termination_by remaining
decreasing_by
  simp only [js5BlockBytes]
  omega

/-- `none` is an exception: the reply is cut. -/
def parseJs5Reply (received : List Byte) : Option ParsedJs5Reply :=
  match received with
  | [] => none
  | handshakeResponse :: view =>
    if view.length < 10 then none
    else do
      let header ← parseResponseHeader (view.take 10)
      let remaining := header.containerBytes - 5
      let firstChunkBytes := min (js5BlockBytes - 10) remaining
      if view.length < 10 + firstChunkBytes then none
      else do
        let (payload, frame, trailing) ←
          parseContinuations (remaining - firstChunkBytes) (view.drop (10 + firstChunkBytes))
        return {
          handshakeResponse := handshakeResponse
          header := header
          frameBytes := view.take (10 + firstChunkBytes) ++ frame
          payloadBytes := (view.drop 5).take (5 + firstChunkBytes) ++ payload
          trailingBytes := trailing }

end Parse

section Reading

theorem parseContinuations_response (t : Target) (data trailing : List Byte) :
    parseContinuations data.length (Js5Encoder.response t data ++ trailing) =
      some (data, Js5Encoder.response t data, trailing) := by
  induction hn : data.length using Nat.strongRecOn generalizing data with
  | _ n ih =>
    rw [parseContinuations]
    by_cases hzero : n = 0
    · rw [hzero] at hn
      rw [List.length_eq_zero_iff.mp hn, Js5Encoder.response_nil, dif_pos hzero]
      rfl
    · have hne : data ≠ [] := List.ne_nil_of_length_pos (by omega)
      have hlength : (t.header ++ data.take maxResponseBlockPayloadBytes).length =
          5 + min (js5BlockBytes - 5) n := by
        rw [List.length_append, t.length_header, List.length_take, hn]
        rfl
      have hleft : n - min (js5BlockBytes - 5) n =
          (data.drop maxResponseBlockPayloadBytes).length := by
        rw [List.length_drop, hn]
        unfold js5BlockBytes maxResponseBlockPayloadBytes
        omega
      have hmore := ih (data.drop maxResponseBlockPayloadBytes).length (by
        rw [← hleft]
        unfold js5BlockBytes
        omega) _ rfl
      rw [dif_neg hzero, Js5Encoder.response_of_ne t hne, List.append_assoc, if_neg (by
        rw [List.length_append, hlength]
        omega), if_neg (by
        rw [List.length_append, hlength]
        omega), ← hlength, List.drop_left, List.take_left, hleft, hmore]
      have hfirst : ((t.header ++ data.take maxResponseBlockPayloadBytes ++
          (Js5Encoder.response t (data.drop maxResponseBlockPayloadBytes) ++ trailing)).drop 5).take
            (min (js5BlockBytes - 5) n) = data.take maxResponseBlockPayloadBytes := by
        rw [List.append_assoc, List.drop_left' t.length_header]
        have hcount : min (js5BlockBytes - 5) n =
            (data.take maxResponseBlockPayloadBytes).length := by
          rw [List.length_take, hn]
          rfl
        rw [hcount, List.take_left]
      rw [hfirst, Option.bind_eq_bind, Option.bind_some]
      dsimp only
      rw [List.take_append_drop]
      rfl

/-- The front of a container, behind the envelope of a block. -/
theorem parseResponseHeader_block {t : Target} (h : t.archive.msb = false) (compression : Byte)
    (fileSize : Word) :
    parseResponseHeader (t.header ++ compression :: putInt fileSize) = some {
      index := t.index.toNat, archive := t.archive.toNat, priority := t.priority
      compression := compression.toNat, fileSize := fileSize.toNat } := by
  have hbyte : ∀ b : Byte, ofBytes [b] = b.toNat := fun b => by simp [ofBytes]
  have harchive := congrArg BitVec.toNat (archive_of_header t h)
  have hpriority := priority_of_header t h
  simp only [← BitVec.toNat_inj, BitVec.toNat_and] at harchive hpriority
  rw [t.header_eq]
  generalize (if t.priority = true then t.archive else t.archive ||| 0x80000000) = hash at *
  obtain ⟨h₁, h₂, h₃, h₄, hhash⟩ : ∃ b₁ b₂ b₃ b₄, putInt hash = [b₁, b₂, b₃, b₄] :=
    ⟨_, _, _, _, rfl⟩
  obtain ⟨f₁, f₂, f₃, f₄, hfile⟩ : ∃ b₁ b₂ b₃ b₄, putInt fileSize = [b₁, b₂, b₃, b₄] :=
    ⟨_, _, _, _, rfl⟩
  have hhashBytes : ofBytes [h₁, h₂, h₃, h₄] = hash.toNat := hhash ▸ ofBytes_putWord 4 hash
  have hfileBytes : ofBytes [f₁, f₂, f₃, f₄] = fileSize.toNat := hfile ▸ ofBytes_putWord 4 fileSize
  rw [hhash, hfile, parseResponseHeader, if_neg (by simp)]
  simp only [List.cons_append, List.nil_append, List.drop_succ_cons, List.drop_zero,
    List.take_succ_cons, List.take_zero, hbyte, hhashBytes, hfileBytes]
  rw [← harchive, ← hpriority]
  rfl

end Reading

section Container
open Filesystem

variable {compression : ContainerCompression} {decompressedSize : Word} {compressed : List Byte}

/-- The header of the first block of a container. -/
def containerHeader (t : Target) (compression : ContainerCompression) (compressed : List Byte) :
    ResponseHeader where
  index := t.index.toNat
  archive := t.archive.toNat
  priority := t.priority
  compression := compression.id.toNat
  fileSize := compressed.length

theorem containerBytes_containerHeader (t : Target) :
    (containerHeader t compression compressed).containerBytes =
      (Container.packed compression decompressedSize compressed).length := by
  rw [Container.length_packed, ResponseHeader.containerBytes]
  cases compression <;> simp [containerHeader, ContainerCompression.id, Nat.add_comm] <;> omega

/-- A container as the doctor reads it: what its header counts, the front of the first block, and
the other blocks. -/
theorem response_packed (t : Target) : ∃ front tail,
    Container.packed compression decompressedSize compressed = front ++ tail ∧
      front = compression.id :: putInt (BitVec.ofNat 32 compressed.length) ∧
      Js5Encoder.response t (front ++ tail) = t.header ++ (front ++
        (tail.take (js5BlockBytes - 10) ++
          Js5Encoder.response t (tail.drop (js5BlockBytes - 10)))) := by
  refine ⟨_, (if compression = .none then [] else putInt decompressedSize) ++ compressed, ?_, rfl, ?_⟩
  · rw [Container.packed, List.append_assoc]
    rfl
  · generalize (if compression = .none then [] else putInt decompressedSize) ++ compressed = tail
    have hfront : (compression.id :: putInt (BitVec.ofNat 32 compressed.length)).length = 5 := by
      simp
    generalize compression.id :: putInt (BitVec.ofNat 32 compressed.length) = front at hfront ⊢
    have hne : front ++ tail ≠ [] :=
      List.append_ne_nil_of_left_ne_nil (List.ne_nil_of_length_pos (by omega)) _
    have hcount : maxResponseBlockPayloadBytes = front.length + (js5BlockBytes - 10) := by
      rw [hfront]
      rfl
    rw [Js5Encoder.response_of_ne t hne, hcount, List.take_length_add_append,
      List.drop_length_add_append]
    simp only [List.append_assoc]

/-- What was sent in blocks is parsed to the file, and what follows is left over. -/
theorem parseJs5Reply_response {t : Target} (harchive : t.archive.msb = false)
    (hfits : compressed.length < 2 ^ 32) (handshakeResponse : Byte) (trailing : List Byte) :
    parseJs5Reply (handshakeResponse :: (Js5Encoder.response t
      (Container.packed compression decompressedSize compressed) ++ trailing)) = some {
        handshakeResponse := handshakeResponse
        header := containerHeader t compression compressed
        frameBytes := Js5Encoder.response t
          (Container.packed compression decompressedSize compressed)
        payloadBytes := Container.packed compression decompressedSize compressed
        trailingBytes := trailing } := by
  have hbytes := @containerBytes_containerHeader compression decompressedSize compressed t
  obtain ⟨front, tail, hpacked, hfront, hresponse⟩ := @response_packed compression decompressedSize
    compressed t
  have hsize : (BitVec.ofNat 32 compressed.length).toNat = compressed.length := by
    rw [BitVec.toNat_ofNat]
    exact Nat.mod_eq_of_lt hfits
  have hheader := parseResponseHeader_block harchive compression.id (BitVec.ofNat 32 compressed.length)
  have hfive : front.length = 5 := by simp [hfront]
  rw [← hfront, hsize] at hheader
  rw [hpacked] at hbytes ⊢
  rw [hresponse]
  generalize hbody : tail.take (js5BlockBytes - 10) = body
  have hbodyLength : min (js5BlockBytes - 10) tail.length = body.length := by
    rw [← hbody, List.length_take]
  have hleft : tail.length - body.length = (tail.drop (js5BlockBytes - 10)).length := by
    rw [← hbodyLength, List.length_drop]
    omega
  have hremaining : (containerHeader t compression compressed).containerBytes - 5 = tail.length := by
    rw [hbytes, List.length_append, hfive, Nat.add_sub_cancel_left]
  have hmore := parseContinuations_response t (tail.drop (js5BlockBytes - 10)) trailing
  generalize Js5Encoder.response t (tail.drop (js5BlockBytes - 10)) = more at hmore ⊢
  have hten : (t.header ++ front).length = 10 := by
    rw [List.length_append, t.length_header, hfive]
  have hview : t.header ++ (front ++ (body ++ more)) ++ trailing =
      (t.header ++ front ++ body) ++ (more ++ trailing) := by
    simp only [List.append_assoc]
  have hfirst : (t.header ++ front ++ body).length = 10 + body.length := by
    rw [List.length_append, hten]
  rw [parseJs5Reply, hview, if_neg (by rw [List.length_append, hfirst]; omega)]
  have htake : (t.header ++ front ++ body ++ (more ++ trailing)).take 10 = t.header ++ front := by
    rw [List.append_assoc, List.take_left' hten]
  have hdrop : ((t.header ++ front ++ body ++ (more ++ trailing)).drop 5).take (5 + body.length) =
      front ++ body := by
    rw [List.append_assoc, List.append_assoc, List.drop_left' t.length_header, ← List.append_assoc,
      List.take_left' (by rw [List.length_append, hfive])]
  have hbehind : (t.header ++ front ++ body ++ (more ++ trailing)).drop (10 + body.length) =
      more ++ trailing := List.drop_left' hfirst
  have hframe : (t.header ++ front ++ body ++ (more ++ trailing)).take (10 + body.length) =
      t.header ++ front ++ body := List.take_left' hfirst
  have hparsed : parseResponseHeader (t.header ++ front) =
      some (containerHeader t compression compressed) := hheader
  rw [htake, hparsed, Option.bind_eq_bind, Option.bind_some, hremaining]
  dsimp only
  rw [hbodyLength, if_neg (by
    rw [List.length_append, hfirst]
    omega), hbehind, hleft, hmore, Option.bind_eq_bind, Option.bind_some]
  dsimp only
  rw [hframe, hdrop, ← hbody]
  simp only [List.append_assoc, List.take_append_drop]
  rfl

end Container

section Sent

variable {build archive : ℕ} {token : List Char}

end Sent

section Session
open Filesystem Js5Session

/-- Four bytes, uncompressed. -/
def smallTable : List Byte := Container.packed .none 0 [0xAA, 0xBB, 0xCC, 0xDD]

def smallRequest : RequestFile where
  priority := true
  index := 255
  archive := 28
  build := 947

end Session

end OpenNXT.Tools.ReferenceTableDoctor
