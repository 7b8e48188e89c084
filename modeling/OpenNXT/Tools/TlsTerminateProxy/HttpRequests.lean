import OpenNXT.Data.Decimal
import OpenNXT.Data.Lines
import OpenNXT.Data.Split
import OpenNXT.Data.UrlQuery
import OpenNXT.Tools.TlsTerminateProxy.AppData

/-! Requests of a client on their way to the upstream, with the headers rewritten. -/
namespace OpenNXT.Tools.TlsTerminateProxy
open Buffer Data Latin1

/-- What the language knows of letters beyond Latin-1, and of hosts in brackets. -/
structure Runtime where
  lower : List Char → List Char
  lower_latin1 : ∀ s, Latin1.Encodable s → lower s = s.map lowerChar
  bracketed : List Char → Bool

def httpHeaderTerminator : List Byte := [0x0d, 0x0a, 0x0d, 0x0a]

def originalHostHeader : List Char :=
  ['X', '-', 'O', 'p', 'e', 'n', 'N', 'X', 'T', '-', 'O', 'r', 'i', 'g', 'i', 'n', 'a', 'l', '-',
    'H', 'o', 's', 't']

def hostHeaderName : List Char := ['h', 'o', 's', 't', ':']

def connectionHeaderName : List Char := ['c', 'o', 'n', 'n', 'e', 'c', 't', 'i', 'o', 'n', ':']

def contentLengthHeaderName : List Char :=
  ['c', 'o', 'n', 't', 'e', 'n', 't', '-', 'l', 'e', 'n', 'g', 't', 'h']

def localhost : List Char := ['l', 'o', 'c', 'a', 'l', 'h', 'o', 's', 't']

section Hosts
variable (rt : Runtime)

def normalizeTlsServerName (serverName : Option (List Char)) : List Char :=
  rt.lower (strip (serverName.getD []))

def isWorldTlsSni (serverName : Option (List Char)) : Bool :=
  let normalized := normalizeTlsServerName rt serverName
  !normalized.isEmpty && ['w', 'o', 'r', 'l', 'd'].isPrefixOf normalized &&
    ['.', 'r', 'u', 'n', 'e', 's', 'c', 'a', 'p', 'e', '.', 'c', 'o', 'm'].isSuffixOf normalized

/-- The remembered host after `note_localhost_requested_world_host`. -/
def noteLocalhostRequestedWorldHost (serverName : Option (List Char))
    (remembered : Option (List Char)) : Option (List Char) :=
  let normalized := normalizeTlsServerName rt serverName
  if isWorldTlsSni rt (some normalized) then some normalized else remembered

def requestedWorldHostField : List Char :=
  ['r', 'e', 'q', 'u', 'e', 's', 't', 'e', 'd', 'W', 'o', 'r', 'l', 'd', 'H', 'o', 's', 't']

def extractRequestedWorldHost (requestPath : List Char) : Option (List Char) :=
  if requestPath = [] then none
  else
    ((UrlQuery.queryValues rt.bracketed requestedWorldHostField requestPath).getD []).findSome?
      fun value =>
        let normalized := normalizeTlsServerName rt (some value)
        if isWorldTlsSni rt (some normalized) then some normalized else none

def javConfigPath : List Char :=
  ['/', 'j', 'a', 'v', '_', 'c', 'o', 'n', 'f', 'i', 'g', '.', 'w', 's']

/-- The host that a request is kept under, and the remembered one after it. -/
def resolveEffectiveOriginalHost (requestPath : List Char) (originalHost : Option (List Char))
    (remembered : Option (List Char)) : Option (List Char) × Option (List Char) :=
  let normalizedOriginalHost := normalizeTlsServerName rt originalHost
  if normalizedOriginalHost ≠ localhost then (some normalizedOriginalHost, remembered)
  else if requestPath = [] then (none, remembered)
  else
    let loweredPath := rt.lower requestPath
    if findSub javConfigPath loweredPath ≠ none then
      match extractRequestedWorldHost rt requestPath with
      | some requested =>
        (some requested, noteLocalhostRequestedWorldHost rt (some requested) remembered)
      | none => (remembered, remembered)
    else if ['/', 'm', 's', '?'].isPrefixOf loweredPath ∨ loweredPath = ['/', 'm', 's'] then
      (none, remembered)
    else (some normalizedOriginalHost, remembered)

end Hosts

/-- The lines so far, and what was seen among them. -/
structure Rewriting where
  lines : List (List Char) := []
  sawHost : Bool := false
  sawConnection : Bool := false
  sawOriginalHost : Bool := false
  changed : Bool := false

def hostLine (upstreamHost : List Char) : List Char := ['H', 'o', 's', 't', ':', ' '] ++ upstreamHost

def originalHostLine (host : List Char) : List Char := originalHostHeader ++ [':', ' '] ++ host

def keepAlive : List Char :=
  ['C', 'o', 'n', 'n', 'e', 'c', 't', 'i', 'o', 'n', ':', ' ', 'k', 'e', 'e', 'p', '-', 'a', 'l',
    'i', 'v', 'e']

section Rewrite
variable (rt : Runtime) (upstreamHost : List Char)

/-- One turn of the loop over the lines; `preserved` is the host to keep, if there is one. -/
def rewriteLine (preserved : Option (List Char)) (r : Rewriting) (line : List Char) : Rewriting :=
  let lower := rt.lower line
  if hostHeaderName.isPrefixOf lower then
    { r with
      lines := r.lines ++ [hostLine upstreamHost]
      sawHost := true
      changed := r.changed || line ≠ hostLine upstreamHost }
  else if connectionHeaderName.isPrefixOf lower then
    { r with lines := r.lines ++ [line], sawConnection := true }
  else if (rt.lower originalHostHeader ++ [':']).isPrefixOf lower then
    match preserved with
    | some host =>
      { r with
        lines := r.lines ++ [originalHostLine host]
        sawOriginalHost := true
        changed := r.changed || line ≠ originalHostLine host }
    | none => { r with sawOriginalHost := true, changed := true }
  else { r with lines := r.lines ++ [line] }

/-- The lines that are missing after the loop. -/
def addMissing (preserved : Option (List Char)) (r : Rewriting) : Rewriting :=
  let r := if r.sawHost then r
    else { r with lines := r.lines ++ [hostLine upstreamHost], changed := true }
  let r := if r.sawConnection then r
    else { r with lines := r.lines ++ [keepAlive], changed := true }
  match preserved with
  | some host =>
    if r.sawOriginalHost then r
    else { r with lines := r.lines ++ [originalHostLine host], changed := true }
  | none => r

/-- The host to keep, and the remembered one after the request. -/
def preservedHost (requestPath : List Char) (originalHost remembered : Option (List Char)) :
    Option (List Char) × Option (List Char) :=
  let (effective, after) := resolveEffectiveOriginalHost rt requestPath originalHost remembered
  (effective.filter fun host => host ≠ normalizeTlsServerName rt (some upstreamHost), after)

/-- The request for the upstream and whether it differs; `none` is a character that the header
cannot be encoded with. -/
def rewriteHttpRequest (data : List Byte) (originalHost remembered : Option (List Char)) :
    Option (List Byte × Bool) × Option (List Char) :=
  if upstreamHost = [] ∨ ¬ looksLikeHttpRequest data then (some (data, false), remembered)
  else
    match findSub httpHeaderTerminator data with
    | none => (some (data, false), remembered)
    | some headerEnd =>
      let headerLines := splitLines '\r' '\n' (decode (data.take headerEnd))
      let remainder := data.drop (headerEnd + httpHeaderTerminator.length)
      let requestLine := headerLines.headD []
      let requestPath := (cuts ' ' 2 requestLine).getD 1 []
      let (preserved, after) := preservedHost rt upstreamHost requestPath originalHost remembered
      let looped := headerLines.tail.foldl (rewriteLine rt upstreamHost preserved)
        { lines := [requestLine] }
      let rewriting := addMissing upstreamHost preserved looped
      ((encode (joinLines '\r' '\n' rewriting.lines)).map fun header =>
        (header ++ httpHeaderTerminator ++ remainder, rewriting.changed), after)

end Rewrite

structure RequestHeader where
  requestLine : List Char
  method : List Char
  path : List Char
  version : List Char
  headerBytes : ℕ
  contentLength : ℕ
  headers : List Char → Option (List Char)

namespace RequestHeader

def expectedTotalBytes (h : RequestHeader) : ℕ := h.headerBytes + h.contentLength

end RequestHeader

section Parse
variable (rt : Runtime)

/-- The entry that a line makes in the table of headers. -/
def readHeader (headers : List Char → Option (List Char)) (line : List Char) :
    List Char → Option (List Char) :=
  match UrlQuery.partition ':' line with
  | (name, some value) => Function.update headers (rt.lower (strip name)) (some (strip value))
  | (_, none) => headers

/-- A value that is not a number counts as none. -/
def contentLengthOf (headers : List Char → Option (List Char)) : ℕ :=
  match headers contentLengthHeaderName with
  | some value => ((Decimal.parseLiteral (strip value)).getD 0).toNat
  | none => 0

def parseHttpRequestHeader (data : List Byte) : Option RequestHeader :=
  if ¬ looksLikeHttpRequest data then none
  else
    match findSub httpHeaderTerminator data with
    | none => none
    | some headerEnd =>
      let headerLines := splitLines '\r' '\n' (decode (data.take headerEnd))
      let requestLine := headerLines.headD []
      match cuts ' ' 2 requestLine with
      | [method, path, version] =>
        let headers := headerLines.tail.foldl (readHeader rt) fun _ => none
        some { requestLine, method, path, version, headers
               headerBytes := headerEnd + httpHeaderTerminator.length
               contentLength := contentLengthOf headers }
      | _ => none

theorem expectedTotalBytes_pos {data : List Byte} {h : RequestHeader}
    (hparse : parseHttpRequestHeader rt data = some h) : 0 < h.expectedTotalBytes := by
  rw [parseHttpRequestHeader] at hparse
  split_ifs at hparse
  split at hparse
  · cases hparse
  · next headerEnd hfind =>
    dsimp only at hparse
    split at hparse
    · cases hparse
      rw [RequestHeader.expectedTotalBytes, httpHeaderTerminator]
      simp only [List.length_cons]
      omega
    · cases hparse

end Parse

end OpenNXT.Tools.TlsTerminateProxy
