import OpenNXT.Model.WorldListSync

/-! A full reply, from the server's list through its chunks to the client's. -/
namespace OpenNXT.Model
open Buffer Ext

namespace WorldList
open WorldListExchange

section Chunks

private theorem flatten_chunksFrom (n : ℕ) (bytes : List Byte) (hn : bytes.length ≤ n) :
    (chunksFrom n bytes).flatMap WorldListFetchReply.chunk = bytes := by
  induction n generalizing bytes with
  | zero =>
    rw [List.length_eq_zero_iff.mp (Nat.le_zero.mp hn)]
    rfl
  | succ n ih =>
    rw [chunksFrom]
    split_ifs with hnil
    · rw [hnil]
      rfl
    · have hpos := List.length_pos_iff.mpr hnil
      have hshorter : (bytes.drop 2999).length ≤ n := by
        rw [List.length_drop]
        omega
      rw [List.flatMap_cons, ih _ hshorter, List.take_append_drop]

theorem flatten_chunks (bytes : List Byte) :
    (chunks bytes).flatMap WorldListFetchReply.chunk = bytes :=
  flatten_chunksFrom bytes.length bytes le_rfl

/-- Whole chunks, and a last one that is flagged. -/
inductive Chunked : List WorldListFetchReply → Prop
  | last (chunk : List Byte) (hpos : chunk ≠ []) (hle : chunk.length ≤ 2999) : Chunked [⟨true, chunk⟩]
  | more (chunk : List Byte) {rest : List WorldListFetchReply} (hwhole : chunk.length = 2999)
      (h : Chunked rest) : Chunked (⟨false, chunk⟩ :: rest)

private theorem chunked_chunksFrom (n : ℕ) (bytes : List Byte) (hne : bytes ≠ [])
    (hn : bytes.length ≤ n) : Chunked (chunksFrom n bytes) := by
  induction n generalizing bytes with
  | zero => exact absurd (List.length_eq_zero_iff.mp (Nat.le_zero.mp hn)) hne
  | succ n ih =>
    have hpos := List.length_pos_iff.mpr hne
    rw [chunksFrom, if_neg hne]
    by_cases hlast : bytes.drop 2999 = []
    · have hle : bytes.length ≤ 2999 := List.drop_eq_nil_iff.mp hlast
      have hempty : chunksFrom n [] = [] := by
        cases n <;> rfl
      rw [hlast, hempty, List.take_of_length_le hle]
      exact .last bytes hne hle
    · have hmore : (bytes.drop 2999).isEmpty = false := List.isEmpty_eq_false_iff.mpr hlast
      have hlong : ¬ bytes.length ≤ 2999 := fun hle => hlast (List.drop_eq_nil_iff.mpr hle)
      have hshorter : (bytes.drop 2999).length ≤ n := by
        rw [List.length_drop]
        omega
      rw [hmore]
      refine .more _ ?_ (ih _ hlast hshorter)
      rw [List.length_take]
      omega

theorem chunked_chunks {bytes : List Byte} (hne : bytes ≠ []) : Chunked (chunks bytes) :=
  chunked_chunksFrom bytes.length bytes hne le_rfl

end Chunks

section Full
variable {server client : WorldList}

/-- The chunks of a full reply give the client the entries by their ids and the checksum, and it
reads them to the end. -/
theorem entries_of_full_reply {oldChecksum : Word} (hvalid : Valid server.entries)
    (hlocations : (uniqueLocations server.entries).length ≤ 256)
    (hsize : server.entries.length ≤ 32767) (hchanged : server.hashCode ≠ oldChecksum)
    (hfull : partialHash server.entries ≠ server.previousPartialHash)
    (hbuffer : client.buffer = none) :
    ∃ replies body client', (server.handleRequest oldChecksum).2 = some replies ∧
      Chunked replies ∧ replies.flatMap WorldListFetchReply.chunk = 2 :: 1 :: body ∧
      (∃ w, decodeUpdate { client with buffer := some (2 :: 1 :: body) } 1 body = some (w, [])) ∧
      replies.foldlM handle client = some client' ∧
      client'.entries = sortById server.entries ∧ client'.checksum = server.hashCode := by
  have hupdate : server.requiresFullUpdate = (true,
      { server with previousPartialHash := partialHash server.entries }) := by
    unfold requiresFullUpdate
    rw [if_neg hfull]
  have hfixed : SameWorlds (server.entries.map WorldListEntry.fixed) server.entries := by
    rw [sameWorlds_iff, List.map_map]
    rfl
  obtain ⟨body, start, hbody, hreadBody, hstart⟩ :=
    reads_body server.hashCode hvalid hlocations hsize
  obtain ⟨counts, table, hcounts, hreadCounts, htable⟩ := reads_counts hvalid hfixed hstart
  let w := takeOver client server.hashCode server.entries table
  have hread (buffer : Option (List Byte)) :
      Reads (decodeUpdate { client with buffer := buffer } 1) (body ++ counts)
        { w with buffer := buffer } := by
    unfold decodeUpdate
    rw [if_pos rfl]
    apply Reads.bind (hreadBody _)
    exact hreadCounts _ rfl rfl
  have hcollect : w.collect = some (sortById server.entries) := collect_eq rfl rfl htable hvalid
  have hreplies : (server.handleRequest oldChecksum).2 =
      some (chunks (2 :: 1 :: (body ++ counts))) := by
    unfold handleRequest
    rw [if_neg hchanged, hupdate]
    change (writeReply server.entries server.hashCode true).map chunks = _
    rw [writeReply_full hbody hcounts]
    rfl
  exact ⟨_, body ++ counts, _, hreplies, chunked_chunks (List.cons_ne_nil _ _), flatten_chunks _,
    ⟨_, (hread _).run⟩, foldlM_handle_reply hbuffer true hread hcollect, rfl, rfl⟩

def sampleServer : WorldList := { entries := [sampleWorld 5] }

/-- A first fetch of one world. -/
theorem entries_of_full_reply_sample :
    ∃ replies body client', (sampleServer.handleRequest 0).2 = some replies ∧ Chunked replies ∧
      replies.flatMap WorldListFetchReply.chunk = 2 :: 1 :: body ∧
      (∃ w, decodeUpdate { ({} : WorldList) with buffer := some (2 :: 1 :: body) } 1 body =
        some (w, [])) ∧
      replies.foldlM handle {} = some client' ∧
      client'.entries = sortById sampleServer.entries ∧
      client'.checksum = sampleServer.hashCode := by
  have hlocations : (uniqueLocations sampleServer.entries).length ≤ 256 := by decide +kernel
  have hsize : sampleServer.entries.length ≤ 32767 := by decide
  have hchanged : sampleServer.hashCode ≠ 0 := by decide +kernel
  have hfull : partialHash sampleServer.entries ≠ sampleServer.previousPartialHash := by
    decide +kernel
  exact entries_of_full_reply valid_sample hlocations hsize hchanged hfull rfl

/-- An entry without a zero in its strings. -/
structure WithoutNul (e : WorldListEntry) : Prop where
  id : 0 ≤ e.id.toInt ∧ e.id.toInt ≤ 32767
  location : (0 ≤ e.location.flag.toInt ∧ e.location.flag.toInt ≤ 32767) ∧
    '\x00' ∉ e.location.name
  locationOverride : ∀ l ∈ e.locationOverride,
    (0 ≤ l.flag.toInt ∧ l.flag.toInt ≤ 32767) ∧ l.flag ≠ 0 ∧ '\x00' ∉ l.name
  activity : '\x00' ∉ e.activity
  host : '\x00' ∉ e.host
  playercount : -1 ≤ e.playercount.toInt ∧ e.playercount.toInt ≤ 65534

/-- A world with an activity in another script. -/
def greekWorld : WorldListEntry := { sampleWorld 5 with activity := ['λ'] }

private theorem withoutNul_greek : WithoutNul greekWorld where
  id := by decide
  location := ⟨by decide, List.not_mem_nil⟩
  locationOverride l hl := by cases hl
  activity := by decide
  host := List.not_mem_nil
  playercount := by decide

/-- The letter comes back as a question mark. -/
private theorem fetched_greek :
    ((handleRequest { entries := [greekWorld] } 0).2.bind fun replies =>
      (replies.foldlM handle {}).map WorldList.entries) =
      some [{ sampleWorld 5 with activity := ['?'] }] := by
  decide +kernel

theorem not_entries_of_full_reply :
    ¬ ∀ (server client : WorldList) (oldChecksum : Word),
      (∀ e ∈ server.entries, WithoutNul e) → (server.entries.map WorldListEntry.id).Nodup →
      (uniqueLocations server.entries).length ≤ 256 → server.hashCode ≠ oldChecksum →
      partialHash server.entries ≠ server.previousPartialHash → client.buffer = none →
      ∃ replies client', (server.handleRequest oldChecksum).2 = some replies ∧
        replies.foldlM handle client = some client' ∧
        client'.entries = sortById server.entries := by
  intro hclaim
  obtain ⟨replies, client', hreplies, hclient, hentries⟩ :=
    hclaim { entries := [greekWorld] } {} 0
      (fun e he => List.mem_singleton.mp he ▸ withoutNul_greek) (List.nodup_singleton _)
      (by decide +kernel) (by decide +kernel) (by decide +kernel) rfl
  have hfetched := fetched_greek
  rw [hreplies, Option.bind_some, hclient, Option.map_some, hentries] at hfetched
  have hsorted : sortById [greekWorld] = [greekWorld] := List.mergeSort_singleton _
  rw [hsorted] at hfetched
  exact absurd hfetched (by decide)

end Full

end WorldList

end OpenNXT.Model
