import OpenNXT.CacheDownloader.Js5ClientMachine

/-! The handler that keeps every request of the downloader. -/
namespace OpenNXT.CacheDownloader
open Buffer Data Js5ClientDecoder

/-- Where only flags were changed, every request has what it was sent so far. -/
structure Heap.Retains (h h' : Heap) : Prop where
  request : ∀ r, Keeps (h.requests r) (h'.requests r)
  buffer : ∀ r, (h'.requests r).buffer = (h.requests r).buffer

namespace Heap.Retains
variable {h h' h'' : Heap}

theorem refl (h : Heap) : h.Retains h := by
  constructor
  · intro r
    exact ⟨rfl, rfl, rfl⟩
  · intro r
    rfl

theorem trans (hfirst : h.Retains h') (hsecond : h'.Retains h'') : h.Retains h'' := by
  constructor
  · intro r
    have hone := hfirst.request r
    have htwo := hsecond.request r
    exact ⟨htwo.index.trans hone.index, htwo.archive.trans hone.archive,
      htwo.priority.trans hone.priority⟩
  · intro r
    exact (hsecond.buffer r).trans (hfirst.buffer r)

theorem modify (h : Heap) (r : Ref) {f : ArchiveRequest → ArchiveRequest}
    (hkeeps : Keeps (h.requests r) (f (h.requests r)))
    (hbuffer : (f (h.requests r)).buffer = (h.requests r).buffer) : h.Retains (h.modify r f) := by
  constructor
  · intro p
    by_cases hp : p = r
    · rw [hp, requests_modify_self]
      exact hkeeps
    · rw [requests_modify_of_ne h f hp]
      exact ⟨rfl, rfl, rfl⟩
  · intro p
    by_cases hp : p = r
    · rw [hp, requests_modify_self]
      exact hbuffer
    · rw [requests_modify_of_ne h f hp]

end Heap.Retains

theorem Js5Client.retains_markAsCrashed (client : Js5Client) (h : Heap) :
    h.Retains (client.markAsCrashed h) := by
  unfold markAsCrashed
  induction client.outstanding generalizing h with
  | nil => exact .refl h
  | cons r outstanding ih =>
    rw [List.foldl_cons]
    have hflag := Heap.Retains.modify h r (f := fun q => { q with crashed := true }) ⟨rfl, rfl, rfl⟩ rfl
    exact hflag.trans (ih _)

/-- The handler's sets, the HTTP jobs of its pool, and the requests they share. -/
structure Js5RequestHandler where
  useHttpForIndex40 : Bool := true
  maxHttpAttempts : ℕ := 2
  pending : List Ref := []
  processing : List Ref := []
  processingHttp : List Ref := []
  http : List Ref := []
  heap : Heap

namespace Js5RequestHandler

/-- Two requests are equal if index, archive and priority are. -/
def sameRequest (p q : ArchiveRequest) : Bool :=
  p.index = q.index && p.archive = q.archive && p.priority = q.priority

/-- A set keeps the element it has. -/
def addTo (h : Heap) (set : List Ref) (r : Ref) : List Ref :=
  if set.any (fun s => sameRequest (h.requests s) (h.requests r)) then set else set ++ [r]

def shouldUseHttp (d : Js5RequestHandler) (q : ArchiveRequest) : Bool :=
  d.useHttpForIndex40 && q.index = 40 && q.httpAttempts < d.maxHttpAttempts

def addHttpRequest (d : Js5RequestHandler) (r : Ref) : Js5RequestHandler :=
  { d with
    processingHttp := addTo d.heap d.processingHttp r
    http := d.http ++ [r]
    heap := d.heap.modify r fun q => { q with httpAttempts := q.httpAttempts + 1 } }

/-- One turn of the loop of `request`. -/
def requestOne (d : Js5RequestHandler) (r : Ref) : Js5RequestHandler :=
  let d := { d with heap := d.heap.modify r fun q => { q with crashed := false } }
  if d.shouldUseHttp (d.heap.requests r) then d.addHttpRequest r
  else { d with pending := addTo d.heap d.pending r }

def request (d : Js5RequestHandler) (requests : List Ref) : Js5RequestHandler :=
  requests.foldl requestOne d

theorem retains_addHttpRequest (d : Js5RequestHandler) (r : Ref) :
    d.heap.Retains (d.addHttpRequest r).heap :=
  Heap.Retains.modify d.heap r (f := fun q => { q with httpAttempts := q.httpAttempts + 1 })
    ⟨rfl, rfl, rfl⟩ rfl

theorem retains_requestOne (d : Js5RequestHandler) (r : Ref) :
    d.heap.Retains (d.requestOne r).heap := by
  have hflag := Heap.Retains.modify d.heap r (f := fun q => { q with crashed := false })
    ⟨rfl, rfl, rfl⟩ rfl
  have hhttp := retains_addHttpRequest
    { d with heap := d.heap.modify r fun q => { q with crashed := false } } r
  unfold requestOne
  simp only
  split_ifs
  · exact hflag.trans hhttp
  · exact hflag

theorem retains_request (d : Js5RequestHandler) (requests : List Ref) :
    d.heap.Retains (d.request requests).heap := by
  unfold request
  induction requests generalizing d with
  | nil => exact .refl d.heap
  | cons r requests ih =>
    rw [List.foldl_cons]
    exact (retains_requestOne d r).trans (ih _)

end Js5RequestHandler

end OpenNXT.CacheDownloader
