import OpenNXT.Net.ServerPipeline

/-! However its bytes arrive, a connection is one stream to the handlers behind the transport. -/
namespace OpenNXT.Net.ServerPipeline
open Buffer Ext Decoding TransportSniffer

section Sniff
variable {xs : List Byte}

theorem sniff_append (h : sniff xs ≠ .waits) (ys : List Byte) : sniff (xs ++ ys) = sniff xs := by
  cases xs with
  | nil => exact absurd rfl h
  | cons contentType rest =>
    rw [List.cons_append]
    unfold sniff at h ⊢
    dsimp only at h ⊢
    split_ifs at h ⊢ with hrecord
    · cases rest with
      | nil => exact absurd rfl h
      | cons major rest =>
        cases rest with
        | nil => exact absurd rfl h
        | cons minor rest => rfl
    · rfl

theorem sniff_of_append {ys : List Byte} (h : sniff (xs ++ ys) = .waits) : sniff xs = .waits := by
  by_contra hne
  rw [sniff_append hne] at h
  exact hne h

end Sniff

/-- What a handler decrypts of some chunks. -/
def TlsHandler.plain {τ : Type} (tls : TlsHandler τ) : τ → List (List Byte) → List (List Byte)
  | _, [] => []
  | state, chunk :: chunks =>
    (tls.unwrap state chunk).2 ++ TlsHandler.plain tls (tls.unwrap state chunk).1 chunks

def bytesOf (arrivals : List Arrival) : List Byte := arrivals.flatMap Arrival.bytes

namespace Connection
variable {τ : Type} {tls : TlsHandler τ} {cfg : Setup}

theorem run_of_closed {c : Connection τ} (h : c.served.isOpen = false) (arrivals : List Arrival) :
    run tls cfg c arrivals = c := by
  induction arrivals with
  | nil => rfl
  | cons a as ih =>
    rw [run, List.foldl_cons, channelRead, if_neg (by simp [h])]
    exact ih

theorem channelRead_sniffing (unread : List Byte) (a : Arrival) :
    channelRead tls cfg { transport := .sniffing unread } a =
      decide tls cfg { transport := .sniffing unread } ⟨unread ++ a.bytes, a.stale⟩ := rfl

/-- While the sniffer waits, everything is kept. -/
theorem run_of_waits {arrivals : List Arrival} {unread : List Byte}
    (h : sniff (unread ++ bytesOf arrivals) = .waits) :
    run tls cfg { transport := .sniffing unread } arrivals =
      { transport := .sniffing (unread ++ bytesOf arrivals) } := by
  induction arrivals generalizing unread with
  | nil => simp [run, bytesOf]
  | cons a as ih =>
    have hbytes : unread ++ bytesOf (a :: as) = unread ++ a.bytes ++ bytesOf as := by
      simp [bytesOf]
    rw [hbytes] at h ⊢
    have hfirst : channelRead tls cfg { transport := .sniffing unread } a =
        { transport := .sniffing (unread ++ a.bytes) } := by
      rw [channelRead_sniffing]
      simp only [decide, sniff_of_append h]
    rw [run, List.foldl_cons, hfirst]
    exact ih h

theorem run_plain (s : Served) (arrivals : List Arrival) :
    run tls cfg { transport := .plain, served := s } arrivals =
      { transport := .plain, served := (arrivals.map Arrival.bytes).foldl (Served.deliver cfg) s } := by
  induction arrivals generalizing s with
  | nil => rfl
  | cons a as ih =>
    cases hopen : s.isOpen with
    | true =>
      have hfirst : channelRead tls cfg { transport := .plain, served := s } a =
          { transport := .plain, served := s.deliver cfg a.bytes } := by
        rw [channelRead, if_pos hopen]
        rfl
      rw [run, List.foldl_cons, hfirst]
      exact ih (s.deliver cfg a.bytes)
    | false => rw [run_of_closed hopen, foldl_deliver_of_closed hopen]

theorem served_run_tls (state : τ) (s : Served) (arrivals : List Arrival) :
    (run tls cfg { transport := .tls state, served := s } arrivals).served =
      (tls.plain state (arrivals.map Arrival.bytes)).foldl (Served.deliver cfg) s := by
  induction arrivals generalizing state s with
  | nil => rfl
  | cons a as ih =>
    cases hopen : s.isOpen with
    | true =>
      have hfirst : channelRead tls cfg { transport := .tls state, served := s } a =
          { transport := .tls (tls.unwrap state a.bytes).1
            served := (tls.unwrap state a.bytes).2.foldl (Served.deliver cfg) s } := by
        rw [channelRead, if_pos hopen]
        rfl
      rw [run, List.foldl_cons, hfirst, List.map_cons, TlsHandler.plain, List.foldl_append]
      exact ih _ _
    | false => rw [run_of_closed hopen, foldl_deliver_of_closed hopen]

theorem run_of_plaintext {arrivals : List Arrival} {unread : List Byte}
    (hunread : sniff unread = .waits) (h : sniff (unread ++ bytesOf arrivals) = .plaintext) :
    ∃ cuts : List (List Byte), cuts.flatten = unread ++ bytesOf arrivals ∧
      run tls cfg { transport := .sniffing unread } arrivals =
        { transport := .plain, served := cuts.foldl (Served.deliver cfg) {} } := by
  induction arrivals generalizing unread with
  | nil =>
    rw [bytesOf, List.flatMap_nil, List.append_nil, hunread] at h
    cases h
  | cons a as ih =>
    have hbytes : unread ++ bytesOf (a :: as) = unread ++ a.bytes ++ bytesOf as := by
      simp [bytesOf]
    rw [hbytes] at h ⊢
    by_cases hwaits : sniff (unread ++ a.bytes) = .waits
    · obtain ⟨cuts, hcuts, hrun⟩ := ih hwaits h
      refine ⟨cuts, hcuts, ?_⟩
      have hfirst : channelRead tls cfg { transport := .sniffing unread } a =
          { transport := .sniffing (unread ++ a.bytes) } := by
        rw [channelRead_sniffing]
        simp only [decide, hwaits]
      rw [← hrun, run, List.foldl_cons, hfirst]
      rfl
    · have hplain : sniff (unread ++ a.bytes) = .plaintext := by
        rw [← sniff_append hwaits (bytesOf as)]
        exact h
      have hfirst : channelRead tls cfg { transport := .sniffing unread } a =
          { transport := .plain, served := Served.deliver cfg {} (unread ++ a.bytes) } := by
        rw [channelRead_sniffing]
        simp only [decide, hplain]
        rfl
      refine ⟨(unread ++ a.bytes) :: as.map Arrival.bytes, ?_, ?_⟩
      · rw [List.flatten_cons, bytesOf, List.flatMap_def]
      · rw [run, List.foldl_cons, hfirst]
        exact run_plain _ as

theorem run_of_tls {arrivals : List Arrival} {unread : List Byte}
    (hroom : ∀ a ∈ arrivals, 9 ≤ a.bytes.length + a.stale.length)
    (hunread : sniff unread = .waits) (h : sniff (unread ++ bytesOf arrivals) = .tls) :
    ∃ (hello : Option TlsClientHelloInfo) (cuts : List (List Byte)),
      cuts.flatten = unread ++ bytesOf arrivals ∧
      (run tls cfg { transport := .sniffing unread } arrivals).served =
        (tls.plain tls.start cuts).foldl (Served.deliver cfg) { out := [.clientHello hello] } := by
  induction arrivals generalizing unread with
  | nil =>
    rw [bytesOf, List.flatMap_nil, List.append_nil, hunread] at h
    cases h
  | cons a as ih =>
    have hbytes : unread ++ bytesOf (a :: as) = unread ++ a.bytes ++ bytesOf as := by
      simp [bytesOf]
    rw [hbytes] at h ⊢
    by_cases hwaits : sniff (unread ++ a.bytes) = .waits
    · obtain ⟨hello, cuts, hcuts, hrun⟩ := ih (fun b hb => hroom b (List.mem_cons_of_mem _ hb))
        hwaits h
      refine ⟨hello, cuts, hcuts, ?_⟩
      have hfirst : channelRead tls cfg { transport := .sniffing unread } a =
          { transport := .sniffing (unread ++ a.bytes) } := by
        rw [channelRead_sniffing]
        simp only [decide, hwaits]
      rw [← hrun, run, List.foldl_cons, hfirst]
      rfl
    · have htls : sniff (unread ++ a.bytes) = .tls := by
        rw [← sniff_append hwaits (bytesOf as)]
        exact h
      have hcapacity : 9 ≤ (Cumulation.mk (unread ++ a.bytes) a.stale).memory.length := by
        have hthis := hroom a List.mem_cons_self
        simp only [Cumulation.memory, List.length_append]
        omega
      obtain ⟨hello, hparse⟩ := parse_returns hcapacity
      have hfirst : channelRead tls cfg { transport := .sniffing unread } a =
          { transport := .tls (tls.unwrap tls.start (unread ++ a.bytes)).1
            served := (tls.unwrap tls.start (unread ++ a.bytes)).2.foldl (Served.deliver cfg)
              { out := [.clientHello hello] } } := by
        rw [channelRead_sniffing]
        simp only [decide, htls, hparse]
        rfl
      refine ⟨hello, (unread ++ a.bytes) :: as.map Arrival.bytes, ?_, ?_⟩
      · rw [List.flatten_cons, bytesOf, List.flatMap_def]
      · rw [run, List.foldl_cons, hfirst, TlsHandler.plain, List.foldl_append]
        exact served_run_tls _ _ as

/-- Nothing is lost, doubled or moved on the way to the handlers: they are fed the stream as it came,
or what the handler of the TLS context makes of it. -/
theorem run_carried (tls : TlsHandler τ) (cfg : Setup) {arrivals : List Arrival}
    (hroom : ∀ a ∈ arrivals, 9 ≤ a.bytes.length + a.stale.length) :
    (sniff (bytesOf arrivals) = .waits →
      run tls cfg {} arrivals = { transport := .sniffing (bytesOf arrivals) }) ∧
    (sniff (bytesOf arrivals) = .plaintext →
      ∃ cuts : List (List Byte), cuts.flatten = bytesOf arrivals ∧
        run tls cfg {} arrivals =
          { transport := .plain, served := cuts.foldl (Served.deliver cfg) {} }) ∧
    (sniff (bytesOf arrivals) = .tls →
      ∃ (hello : Option TlsClientHelloInfo) (cuts : List (List Byte)),
        cuts.flatten = bytesOf arrivals ∧
        (run tls cfg {} arrivals).served =
          (tls.plain tls.start cuts).foldl (Served.deliver cfg) { out := [.clientHello hello] }) :=
  ⟨fun h => @run_of_waits τ tls cfg arrivals [] h,
    fun h => @run_of_plaintext τ tls cfg arrivals [] rfl h,
    fun h => @run_of_tls τ tls cfg arrivals [] hroom rfl h⟩

end Connection

section Clients
variable {τ : Type} {cfg : Setup}

/-- Nothing is decrypted before the handshake of TLS is done. -/
def TlsHandler.silent : TlsHandler Unit where
  start := ()
  unwrap _ _ := ((), [])

def withoutProxy : Setup where
  activates _ := false
  rsaConfig := ⟨3, 3233⟩
  remote := { uniqueId := 77 }

/-- The first record comes in two pieces. -/
def recordArrivals : List Arrival :=
  [⟨[0x16, 0x03], List.replicate 62 0⟩, ⟨[0x01, 0x00, 0x01, 0x01], List.replicate 58 0⟩]

theorem run_carried_record : ∃ (hello : Option TlsClientHelloInfo) (cuts : List (List Byte)),
    cuts.flatten = bytesOf recordArrivals ∧
      (Connection.run TlsHandler.silent withoutProxy {} recordArrivals).served =
        (TlsHandler.silent.plain TlsHandler.silent.start cuts).foldl (Served.deliver withoutProxy)
          { out := [.clientHello hello] } := by
  have hroom : ∀ a ∈ recordArrivals, 9 ≤ a.bytes.length + a.stale.length := by
    intro a ha
    simp only [recordArrivals, List.mem_cons, List.not_mem_nil, or_false] at ha
    rcases ha with rfl | rfl <;> simp
  exact (Connection.run_carried TlsHandler.silent withoutProxy hroom).2.2 rfl

section LoginServed
variable (cfg : Setup) (first : List Byte) (later : List (List Byte))

end LoginServed

end Clients

end OpenNXT.Net.ServerPipeline
