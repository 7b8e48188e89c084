import OpenNXT.Tools.TlsTerminateProxy.HttpRequests

/-! The pump of requests: they arrive in pieces, and each is sent on as soon as it is whole. -/
namespace OpenNXT.Tools.TlsTerminateProxy
open Buffer Data Latin1

structure Pump where
  pending : List Byte
  /-- The world host that was asked for last through localhost. -/
  remembered : Option (List Char)
  sent : List (List Byte) := []
  /-- A header could not be encoded, which ends the pump. -/
  raised : Bool := false

section Pump
variable (rt : Runtime) (upstreamHost : List Char) (originalHost : Option (List Char))

def flushCompleteRequests (p : Pump) : Pump :=
  if p.pending = [] then p
  else
    match _hparse : parseHttpRequestHeader rt p.pending with
    | none => p
    | some parsed =>
      if p.pending.length < parsed.expectedTotalBytes then p
      else
        match rewriteHttpRequest rt upstreamHost (p.pending.take parsed.expectedTotalBytes)
            originalHost p.remembered with
        | (some (request, _), remembered) =>
          flushCompleteRequests
            { p with
              pending := p.pending.drop parsed.expectedTotalBytes
              remembered
              sent := p.sent ++ [request] }
        | (none, remembered) =>
          { p with
            pending := p.pending.drop parsed.expectedTotalBytes
            remembered
            raised := true }
termination_by p.pending.length
decreasing_by
  have hpos := expectedTotalBytes_pos rt _hparse
  rw [List.length_drop]
  omega

/-- The loop over the reads; one without bytes is the end of the stream. -/
def pumpLoop (p : Pump) : List (List Byte) → Pump
  | [] => p
  | data :: reads =>
    if p.raised ∨ data = [] then p
    else
      pumpLoop (flushCompleteRequests rt upstreamHost originalHost
        { p with pending := p.pending ++ data }) reads

def pumpHttpRequests (initialBuffer : List Byte) (remembered : Option (List Char))
    (reads : List (List Byte)) : Pump :=
  pumpLoop rt upstreamHost originalHost
    (flushCompleteRequests rt upstreamHost originalHost { pending := initialBuffer, remembered })
    reads

end Pump

end OpenNXT.Tools.TlsTerminateProxy
