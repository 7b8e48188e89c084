import OpenNXT.Model.WorldListReply

/-! A server's world list and a client's through a run of changes and fetches. -/
namespace OpenNXT.Model
open Buffer Ext

/-- What a request is answered with. -/
inductive WorldListAnswer
  | unchanged
  | playercounts
  | full
  deriving DecidableEq

/-- Both sides, with what has been fetched and the last answer that was not "unchanged". -/
structure WorldListExchange where
  server : WorldList
  client : WorldList := {}
  fetched : List (List WorldListEntry) := []
  lastAnswer : Option WorldListAnswer := none
  deriving DecidableEq

namespace WorldListExchange
open WorldList

def answer (s : WorldListExchange) : WorldListAnswer :=
  if s.server.hashCode = s.client.checksum then .unchanged
  else if WorldList.partialHash s.server.entries = s.server.previousPartialHash then .playercounts
  else .full

/-- The client asks with the checksum it has, and takes every chunk over. `none` is an exception. -/
def fetch (s : WorldListExchange) : Option WorldListExchange := do
  let (server, chunks) := s.server.handleRequest s.client.checksum
  let client ← (← chunks).foldlM handle s.client
  return {
    server := server
    client := client
    fetched := s.server.entries :: s.fetched
    lastAnswer := if s.answer = .unchanged then s.lastAnswer else some s.answer }

def setPlayercount (s : WorldListExchange) (i : ℕ) (v : Word) : WorldListExchange :=
  { s with server := { s.server with
    entries := s.server.entries.modify i fun e => { e with playercount := v } } }

def setEntries (s : WorldListExchange) (entries : List WorldListEntry) : WorldListExchange :=
  { s with server := { s.server with entries := entries } }

/-- The runs of two new lists. A fetch happens where it is admitted. -/
inductive Run (admits : WorldListExchange → Prop) : WorldListExchange → Prop
  | start {entries : List WorldListEntry} (h : Valid entries) :
      Run admits { server := { entries := entries } }
  | setPlayercount {s : WorldListExchange} (h : Run admits s) (i : ℕ) {v : Word}
      (hv : -1 ≤ v.toInt ∧ v.toInt ≤ 65534) : Run admits (s.setPlayercount i v)
  | setEntries {s : WorldListExchange} (h : Run admits s) {entries : List WorldListEntry}
      (hentries : Valid entries) : Run admits (s.setEntries entries)
  | fetch {s s' : WorldListExchange} (h : Run admits s) (hs : admits s) (hfetch : s.fetch = some s') :
      Run admits s'

/-- The checksum is only refreshed by a full body. So "unchanged" is right while no counts were sent
since, counts are right once there was a body, and a body has to fit its fields. -/
def Sound (s : WorldListExchange) : Prop :=
  match s.answer with
  | .unchanged => s.lastAnswer = some .full
  | .playercounts => s.lastAnswer ≠ none
  | .full => s.server.entries.length ≤ 32767 ∧ (uniqueLocations s.server.entries).length ≤ 256

instance (s : WorldListExchange) : Decidable s.Sound := by
  unfold Sound
  cases s.answer <;> infer_instance

/-- Distinct lists have distinct hash codes, among these. -/
def DistinctHashCodes (lists : List (List WorldListEntry)) : Prop :=
  ∀ a ∈ lists, ∀ b ∈ lists,
    (contentHashCode a = contentHashCode b → a = b) ∧
    (WorldList.partialHash a = WorldList.partialHash b →
      a.map WorldListEntry.fixed = b.map WorldListEntry.fixed)

/-- What a client has: the worlds of the last body, with the counts that were sent last. -/
structure Holds (s : WorldListExchange) (body current : List WorldListEntry) : Prop where
  body_mem : body ∈ s.fetched
  checksum : s.client.checksum = contentHashCode body
  previousPartialHash : s.server.previousPartialHash = WorldList.partialHash body
  valid : Valid current
  same : SameWorlds body current
  table : IsTable s.client.unsortedEntries (s.client.highestEntry + 1) current
  entryCount : s.client.entryCount = current.length
  lowestEntry : s.client.lowestEntry = 0
  entries : s.client.entries = sortById current
  body_eq : s.lastAnswer = some .full → current = body

structure InSync (s : WorldListExchange) : Prop where
  buffer : s.client.buffer = none
  valid : Valid s.server.entries
  holds : s.lastAnswer ≠ none → ∃ body current, s.Holds body current

section Reply
variable {w w' : WorldList} {entries : List WorldListEntry}

/-- The client takes a reply over that it can read to the end. -/
theorem foldlM_handle_reply (hbuffer : w.buffer = none) (full : Bool) {body : List Byte}
    (hread : ∀ buffer, Reads (decodeUpdate { w with buffer := buffer } (if full then 1 else 0)) body
      { w' with buffer := buffer })
    (hcollect : w'.collect = some entries) :
    (chunks (2 :: (if full then 1 else 0) :: body)).foldlM handle w =
      some { w' with entries := entries, buffer := none } := by
  have hkind : ∀ rest, readUnsignedByte (2 :: rest) = some (2, rest) :=
    reads_unsignedByte (v := 2) (by decide)
  have hfull : ∀ rest, readUnsignedByte ((if full then 1 else 0) :: rest) =
      some (if full then 1 else 0, rest) := by
    intro rest
    cases full
    · exact reads_unsignedByte (v := 0) (by decide) rest
    · exact reads_unsignedByte (v := 1) (by decide) rest
  rw [foldlM_handle_chunks w hbuffer (List.cons_ne_nil _ _)]
  unfold decode
  simp only [hkind, hfull, Option.bind_eq_bind, Option.bind_some, ne_eq, not_true_eq_false, if_false,
    (hread _).run]
  have hcollect' : ∀ buffer, collect { w' with buffer := buffer } = some entries :=
    fun buffer => hcollect
  rw [hcollect']
  rfl

/-- A table of the worlds is collected in the order of their ids. -/
theorem collect_eq (hlow : w.lowestEntry = 0) (hcount : w.entryCount = entries.length)
    (htable : IsTable w.unsortedEntries (w.highestEntry + 1) entries) (hvalid : Valid entries) :
    w.collect = some (sortById entries) := by
  have hall : w.unsortedEntries.take (w.highestEntry + 1) = w.unsortedEntries := by
    rw [← htable.length]
    exact List.take_length
  have hlength : (sortById entries).length = w.entryCount := by
    rw [hcount]
    exact (List.mergeSort_perm entries _).length_eq
  unfold collect
  rw [hlow, Nat.sub_zero]
  simp only [hall, htable.reduceOption hvalid]
  rw [if_neg (by rw [htable.length]; exact lt_irrefl _), if_pos hlength]

end Reply

section Steps
variable {s : WorldListExchange}

private theorem Holds.setEntries {body current : List WorldListEntry} (h : s.Holds body current)
    (entries : List WorldListEntry) : (s.setEntries entries).Holds body current :=
  { h with }

private theorem valid_modify {entries : List WorldListEntry} (h : Valid entries) (i : ℕ) {v : Word}
    (hv : -1 ≤ v.toInt ∧ v.toInt ≤ 65534) :
    Valid (entries.modify i fun e => { e with playercount := v }) := by
  constructor
  · intro e he
    obtain ⟨j, hj⟩ := List.mem_iff_getElem?.mp he
    rw [List.getElem?_modify] at hj
    obtain ⟨x, hx, hset⟩ := Option.map_eq_some_iff.mp hj
    have hrange := h.inRange x (List.mem_of_getElem? hx)
    split_ifs at hset
    · subst hset
      exact { hrange with playercount := hv }
    · exact hset ▸ hrange
  · have hids : (entries.modify i fun e => { e with playercount := v }).map WorldListEntry.id =
        entries.map WorldListEntry.id := by
      apply List.ext_getElem?
      intro j
      rw [List.getElem?_map, List.getElem?_map, List.getElem?_modify]
      cases entries[j]? with
      | none => rfl
      | some e => split_ifs <;> rfl
    rw [hids]
    exact h.nodup

/-- A list that did not change since the last body is not sent. -/
private theorem fetch_unchanged (h : s.InSync) (hanswer : s.answer = .unchanged) :
    s.fetch = some { s with fetched := s.server.entries :: s.fetched } := by
  have heq : s.server.hashCode = s.client.checksum := by
    unfold answer at hanswer
    split_ifs at hanswer with heq
    exact heq
  have hclient : [(⟨true, [0]⟩ : WorldListFetchReply)].foldlM handle s.client = some s.client := by
    have hnone := h.buffer
    obtain ⟨server, ⟨entries, hash, buffer, low, high, count, table, checksum⟩, fetched, last⟩ := s
    subst hnone
    rfl
  unfold fetch handleRequest
  rw [if_pos heq]
  simp only [Option.bind_eq_bind, Option.bind_some, hclient, hanswer, if_true]
  rfl

private theorem fetch_reply (client : WorldList) (hchanged : s.answer ≠ .unchanged)
    (hbuffer : s.client.buffer = none)
    {full : Bool} {server : WorldList} {body : List Byte} {entries : List WorldListEntry}
    (hupdate : s.server.requiresFullUpdate = (full, server))
    (hwrite : writeReply server.entries s.server.hashCode full =
      some (2 :: (if full then 1 else 0) :: body))
    (hread : ∀ buffer, Reads (decodeUpdate { s.client with buffer := buffer }
      (if full then 1 else 0)) body { client with buffer := buffer })
    (hcollect : client.collect = some entries) :
    s.fetch = some {
      server := server
      client := { client with entries := entries, buffer := none }
      fetched := s.server.entries :: s.fetched
      lastAnswer := some s.answer } := by
  have hne : s.server.hashCode ≠ s.client.checksum := by
    intro heq
    apply hchanged
    unfold answer
    rw [if_pos heq]
  unfold fetch handleRequest
  rw [if_neg hne, hupdate]
  simp only [hwrite, Option.map_some, Option.bind_eq_bind, Option.bind_some,
    foldlM_handle_reply hbuffer full hread hcollect, if_neg hchanged]
  rfl

theorem writeReply_full {entries : List WorldListEntry} {checksum : Word}
    {body counts : List Byte} (hbody : writeBody entries checksum = some body)
    (hcounts : writePlayercounts entries = some counts) :
    writeReply entries checksum true = some (2 :: 1 :: (body ++ counts)) := by
  unfold writeReply
  rw [if_pos rfl, hbody, hcounts]
  rfl

private theorem writeReply_playercounts {entries : List WorldListEntry} {checksum : Word}
    {counts : List Byte} (hcounts : writePlayercounts entries = some counts) :
    writeReply entries checksum false = some (2 :: 0 :: counts) := by
  unfold writeReply
  rw [if_neg (by decide), hcounts]
  rfl

/-- The client with a full body and the counts after it. -/
def takeOver (w : WorldList) (checksum : Word) (entries : List WorldListEntry)
    (table : List (Option WorldListEntry)) : WorldList := { w with
  lowestEntry := 0, highestEntry := (maxId entries).toNat, entryCount := entries.length
  unsortedEntries := table, checksum := checksum }

/-- A full body brings the worlds of the server, and the counts with them. -/
private theorem fetch_full (h : s.InSync) (hanswer : s.answer = .full)
    (hsize : s.server.entries.length ≤ 32767)
    (hlocations : (uniqueLocations s.server.entries).length ≤ 256) : ∃ s',
    s.fetch = some s' ∧ s'.server.entries = s.server.entries ∧ s'.client.buffer = none ∧
      s'.lastAnswer = some .full ∧ s'.fetched = s.server.entries :: s.fetched ∧
      s'.Holds s.server.entries s.server.entries := by
  have hpartial : WorldList.partialHash s.server.entries ≠ s.server.previousPartialHash := by
    unfold answer at hanswer
    split_ifs at hanswer with hsame hpartial
    exact hpartial
  have hupdate : s.server.requiresFullUpdate = (true,
      { s.server with previousPartialHash := WorldList.partialHash s.server.entries }) := by
    unfold requiresFullUpdate
    rw [if_neg hpartial]
  have hfixed : SameWorlds (s.server.entries.map WorldListEntry.fixed) s.server.entries := by
    rw [sameWorlds_iff, List.map_map]
    rfl
  obtain ⟨body, start, hbody, hreadBody, hstart⟩ :=
    reads_body s.server.hashCode h.valid hlocations hsize
  obtain ⟨counts, table, hcounts, hreadCounts, htable⟩ := reads_counts h.valid hfixed hstart
  have hread : ∀ buffer, Reads (decodeUpdate { s.client with buffer := buffer } 1) (body ++ counts)
      { takeOver s.client s.server.hashCode s.server.entries table with buffer := buffer } := by
    intro buffer
    unfold decodeUpdate
    rw [if_pos rfl]
    apply Reads.bind (hreadBody _)
    exact hreadCounts _ rfl rfl
  have hcollect :=
    collect_eq (w := takeOver s.client s.server.hashCode s.server.entries table) rfl rfl htable h.valid
  have hfetch := fetch_reply (takeOver s.client s.server.hashCode s.server.entries table) (by rw [hanswer]; decide) h.buffer hupdate
    (writeReply_full hbody hcounts) hread hcollect
  refine ⟨_, hfetch, rfl, rfl, by rw [hanswer], rfl, ?_⟩
  exact {
    body_mem := List.mem_cons_self
    checksum := rfl
    previousPartialHash := rfl
    valid := h.valid
    same := sameWorlds_iff.mpr rfl
    table := htable
    entryCount := rfl
    lowestEntry := rfl
    entries := rfl
    body_eq := fun _ => rfl }

/-- The counts alone bring the worlds of the last body up to date. -/
private theorem fetch_playercounts {body current : List WorldListEntry} (h : s.InSync)
    (hanswer : s.answer = .playercounts) (hold : s.Holds body current)
    (hsame : SameWorlds current s.server.entries) : ∃ s',
    s.fetch = some s' ∧ s'.server.entries = s.server.entries ∧ s'.client.buffer = none ∧
      s'.lastAnswer = some .playercounts ∧ s'.fetched = s.server.entries :: s.fetched ∧
      s'.Holds body s.server.entries := by
  have hpartial : WorldList.partialHash s.server.entries = s.server.previousPartialHash := by
    unfold answer at hanswer
    split_ifs at hanswer with hsame hpartial
    exact hpartial
  have hupdate : s.server.requiresFullUpdate = (false, s.server) := by
    unfold requiresFullUpdate
    rw [if_pos hpartial]
  have hcount : s.client.entryCount = s.server.entries.length := by
    rw [hold.entryCount]
    exact hsame.length_eq
  obtain ⟨counts, table, hcounts, hreadCounts, htable⟩ := reads_counts h.valid hsame hold.table
  have hread : ∀ buffer, Reads (decodeUpdate { s.client with buffer := buffer } 0) counts
      { s.client with buffer := buffer, unsortedEntries := table } := by
    intro buffer
    unfold decodeUpdate
    rw [if_neg (by decide)]
    exact hreadCounts _ rfl hcount
  have hcollect := collect_eq (w := { s.client with unsortedEntries := table }) hold.lowestEntry
    hcount htable h.valid
  have hfetch := fetch_reply { s.client with unsortedEntries := table } (by rw [hanswer]; decide) h.buffer hupdate
    (writeReply_playercounts hcounts) hread hcollect
  refine ⟨_, hfetch, rfl, rfl, by rw [hanswer], rfl, ?_⟩
  exact {
    body_mem := List.mem_cons_of_mem _ hold.body_mem
    checksum := hold.checksum
    previousPartialHash := hold.previousPartialHash
    valid := h.valid
    same := sameWorlds_iff.mpr ((sameWorlds_iff.mp hold.same).trans (sameWorlds_iff.mp hsame))
    table := htable
    entryCount := hcount
    lowestEntry := hold.lowestEntry
    entries := rfl
    body_eq := fun heq => by cases hanswer ▸ heq }

end Steps

section Run
variable {s s' : WorldListExchange}

private theorem fetched_of_fetch (h : s.fetch = some s') :
    s'.fetched = s.server.entries :: s.fetched := by
  unfold fetch at h
  simp only [Option.bind_eq_bind, Option.bind_eq_some_iff] at h
  obtain ⟨chunks, -, client, -, h⟩ := h
  cases h
  rfl

/-- A sound fetch leaves the client with the list of the server. -/
private theorem fetch_spec (h : s.InSync) (hs : s.Sound)
    (hhash : DistinctHashCodes (s.server.entries :: s.fetched)) : ∃ s',
    s.fetch = some s' ∧ s'.InSync ∧ s'.server.entries = s.server.entries ∧
      s'.client.entries = sortById s.server.entries := by
  unfold Sound at hs
  cases hanswer : s.answer with
  | unchanged =>
    rw [hanswer] at hs
    have hlast : s.lastAnswer = some .full := hs
    obtain ⟨body, current, hold⟩ := h.holds (by rw [hlast]; exact Option.some_ne_none _)
    have hcurrent := hold.body_eq hlast
    have hcode : contentHashCode s.server.entries = contentHashCode body := by
      rw [← hold.checksum]
      unfold answer at hanswer
      split_ifs at hanswer with heq
      exact heq
    have hbody : s.server.entries = body :=
      (hhash _ List.mem_cons_self _ (List.mem_cons_of_mem _ hold.body_mem)).1 hcode
    refine ⟨_, fetch_unchanged h hanswer, ⟨h.buffer, h.valid, ?_⟩, rfl, ?_⟩
    · intro _
      exact ⟨body, current, { hold with body_mem := List.mem_cons_of_mem _ hold.body_mem }⟩
    · rw [hbody, ← hcurrent]
      exact hold.entries
  | playercounts =>
    rw [hanswer] at hs
    obtain ⟨body, current, hold⟩ := h.holds hs
    have hcode : WorldList.partialHash s.server.entries = WorldList.partialHash body := by
      rw [← hold.previousPartialHash]
      unfold answer at hanswer
      split_ifs at hanswer with hsame hpartial
      exact hpartial
    have hworlds := (hhash _ List.mem_cons_self _ (List.mem_cons_of_mem _ hold.body_mem)).2 hcode
    have hsame : SameWorlds current s.server.entries := by
      rw [sameWorlds_iff, hworlds]
      exact (sameWorlds_iff.mp hold.same).symm
    obtain ⟨s', hfetch, hentries, hbuffer, -, -, hnew⟩ := fetch_playercounts h hanswer hold hsame
    refine ⟨s', hfetch, ⟨hbuffer, hentries ▸ h.valid, ?_⟩, hentries, hnew.entries⟩
    exact fun _ => ⟨_, _, hnew⟩
  | full =>
    rw [hanswer] at hs
    obtain ⟨s', hfetch, hentries, hbuffer, -, -, hnew⟩ := fetch_full h hanswer hs.1 hs.2
    refine ⟨s', hfetch, ⟨hbuffer, hentries ▸ h.valid, ?_⟩, hentries, hnew.entries⟩
    exact fun _ => ⟨_, _, hnew⟩

/-- The two lists are in sync through every run with sound fetches. -/
theorem inSync_of_run (h : Run Sound s) (hhash : DistinctHashCodes s.fetched) : s.InSync := by
  induction h with
  | start hentries => exact ⟨rfl, hentries, fun hlast => absurd rfl hlast⟩
  | setPlayercount _ i hv ih =>
    obtain ⟨hbuffer, hvalid, hholds⟩ := ih hhash
    refine ⟨hbuffer, valid_modify hvalid i hv, ?_⟩
    intro hlast
    obtain ⟨body, current, hold⟩ := hholds hlast
    exact ⟨body, current, hold.setEntries _⟩
  | setEntries _ hentries ih =>
    obtain ⟨hbuffer, -, hholds⟩ := ih hhash
    refine ⟨hbuffer, hentries, ?_⟩
    intro hlast
    obtain ⟨body, current, hold⟩ := hholds hlast
    exact ⟨body, current, hold.setEntries _⟩
  | fetch _ hs hfetch ih =>
    rw [fetched_of_fetch hfetch] at hhash
    have hsync := ih fun a ha b hb =>
      hhash a (List.mem_cons_of_mem _ ha) b (List.mem_cons_of_mem _ hb)
    obtain ⟨s'', hfetch', hsync', -, -⟩ := fetch_spec hsync hs hhash
    rw [hfetch] at hfetch'
    cases hfetch'
    exact hsync'

/-- Every sound fetch of a run succeeds, and leaves the client with the worlds of the server in the
order of their ids. -/
theorem client_entries_of_run (s : WorldListExchange) (h : Run Sound s) (hs : s.Sound)
    (hhash : DistinctHashCodes (s.server.entries :: s.fetched)) : ∃ s',
    s.fetch = some s' ∧ s'.server.entries = s.server.entries ∧
      s'.client.entries = sortById s'.server.entries := by
  have hsync := inSync_of_run h fun a ha b hb =>
    hhash a (List.mem_cons_of_mem _ ha) b (List.mem_cons_of_mem _ hb)
  obtain ⟨s', hfetch, -, hentries, hclient⟩ := fetch_spec hsync hs hhash
  refine ⟨s', hfetch, hentries, ?_⟩
  rw [hclient, hentries]

def sampleWorld (playercount : Word) : WorldListEntry where
  id := 1
  location := { flag := 3, name := [] }
  flag := 0
  activity := []
  host := []
  playercount := playercount

theorem valid_sample : Valid [sampleWorld 5] where
  inRange e he := by
    rw [List.mem_singleton.mp he]
    exact {
      id := by decide
      location := by decide
      locationOverride := fun l hl => by cases hl
      activity := by decide
      host := by decide
      playercount := by decide }
  nodup := List.nodup_singleton _

/-- The first fetch of one world. -/
theorem client_entries_of_run_sample : ∃ s',
    fetch { server := { entries := [sampleWorld 5] } } = some s' ∧
      s'.server.entries = [sampleWorld 5] ∧ s'.client.entries = sortById s'.server.entries := by
  have hrun : Run Sound { server := { entries := [sampleWorld 5] } } := Run.start valid_sample
  have hcodes : DistinctHashCodes [[sampleWorld 5]] := by
    intro a ha b hb
    rw [List.mem_singleton.mp ha, List.mem_singleton.mp hb]
    exact ⟨fun _ => rfl, fun _ => rfl⟩
  exact client_entries_of_run _ hrun (by decide +kernel) hcodes

/-- Five players at the last body, and then others. -/
def sampleExchange (served shown : Word) (fetched : List Word) (lastAnswer : WorldListAnswer) :
    WorldListExchange where
  server := {
    entries := [sampleWorld served], previousPartialHash := WorldList.partialHash [sampleWorld 5] }
  client := {
    entries := [sampleWorld shown], highestEntry := 1, entryCount := 1
    unsortedEntries := [none, some (sampleWorld shown)]
    checksum := contentHashCode [sampleWorld 5] }
  fetched := fetched.map fun v => [sampleWorld v]
  lastAnswer := some lastAnswer

/-- The list goes back to what it was at the last body: its checksum is still the client's. -/
theorem client_entries_ne_returned : ∃ s s', Run (fun _ => True) s ∧ s.fetch = some s' ∧
    DistinctHashCodes s'.fetched ∧ s'.server.entries = [sampleWorld 5] ∧
      s'.client.entries = [sampleWorld 6] := by
  have hbody : fetch { server := { entries := [sampleWorld 5] } } =
      some (sampleExchange 5 5 [5] .full) := by decide +kernel
  have hcounts : fetch (sampleExchange 6 5 [5] .full) =
      some (sampleExchange 6 6 [6, 5] .playercounts) := by decide +kernel
  have hunchanged : fetch (sampleExchange 5 6 [6, 5] .playercounts) =
      some (sampleExchange 5 6 [5, 6, 5] .playercounts) := by decide +kernel
  have hrun : Run (fun _ => True) (sampleExchange 5 5 [5] .full) :=
    (Run.start valid_sample).fetch trivial hbody
  have hrun' : Run (fun _ => True) (sampleExchange 6 6 [6, 5] .playercounts) :=
    (hrun.setPlayercount 0 (v := 6) (by decide)).fetch trivial hcounts
  have hcodes : DistinctHashCodes ([5, 6, 5].map fun v => [sampleWorld v]) := by
    unfold DistinctHashCodes
    decide +kernel
  exact ⟨_, _, hrun'.setPlayercount 0 (v := 5) (by decide), hunchanged, hcodes, rfl, rfl⟩

end Run

end WorldListExchange

end OpenNXT.Model
