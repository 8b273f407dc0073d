import SocketHandoff.Php.Forward

/-!
# Answers of an OpenAI API, in the AMP daemon

`streamFromOpenAIHttp2` reads the body of an answer with the HTTP client of AMP, and does not look at
the status. `streamFromOpenAI` reads the whole answer from a socket, which has no timeout. What a
`read` does behind the last chunk is up to the two packages, and all that the calls ever learn of the
way in which the transfer has ended: `null` is taken for the end of the answer.
-/

namespace SocketHandoff.Amp

open Php

/-- What `read` does behind the last chunk. -/
inductive Read
  | null
  | throws
  /-- it does not return -/
  | waits
  deriving DecidableEq, Repr

/-- What the packages of AMP report of an answer, behind its last chunk. -/
structure Reads where
  /-- `read` of the body of a response, in `amphp/http-client` -/
  body : Upstream → Read
  /-- `read` of a socket, in `amphp/socket` -/
  socket : Upstream → Read

/-- **What is documented of them.** The client throws where a transfer fails, so that its `null` is
the end of the body. A socket returns `null` once it is closed, and a connection that is reset is
closed like any other: only a peer that keeps silent is waited for. -/
structure Reads.Documented (reads : Reads) (u : Upstream) : Prop where
  body : reads.body u = .null ↔ u.ending = .endOfBody
  socket : reads.socket u = .null ↔ u.ending ≠ .idle

/-- Packages that do as documented. -/
def Reads.asDocumented : Reads where
  body u := if u.ending = .endOfBody then .null else .throws
  socket u := if u.ending = .idle then .waits else .null

theorem Reads.asDocumented_documented (u : Upstream) : Reads.asDocumented.Documented u := by
  constructor <;> cases hending : u.ending <;> simp [Reads.asDocumented, hending]

/-- What a call returns that has read every chunk and met no marker. -/
def afterRead (writes : Writes) (s : SentMessages) : Read → Outcome
  | .null => ⟨some true, (s.write writes .done).2⟩
  | .throws => ⟨some false, s⟩
  | .waits => ⟨none, s⟩

/-- Read an answer that starts with headers, or with the body. -/
def readAnswer (inHeaders : Bool) (behind : Upstream → Read) (contentOf : ContentOf) (link : Link)
    (u : Upstream) : Outcome :=
  if link.ready then
    match readChunks contentOf link.writes .nothing ⟨[], inHeaders⟩ u.chunks with
    | (.done, s, _) => ⟨some true, s⟩
    | (.gone, s, _) => ⟨some false, s⟩
    | (.waiting, s, _) => afterRead link.writes s (behind u)
  else .refused

/-- `streamFromOpenAIHttp2`. -/
def streamFromOpenAIHttp2 (reads : Reads) := readAnswer false reads.body

/-- `streamFromOpenAI`; what it reads starts with the headers. -/
def streamFromOpenAI (reads : Reads) := readAnswer true reads.socket

end SocketHandoff.Amp
