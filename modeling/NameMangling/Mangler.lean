/-
# Sessions of a mangler

A session answers one request after the other.  A request that does not fit the program is
refused before it begins and leaves the session alone.  Any other request begins by clearing
all that an earlier request has left; what it leaves itself, a text that was not finished
among it, is there until the next request begins.
-/
import NameMangling.Encoder.Requests

namespace NameMangling.Session

/-- Clear what an earlier request has left, and start with the given text in the mode of the
options. -/
def begin (s : Session) (lead : String) : Session :=
  { s with
    text := lead
    nodes := {}
    ledger := []
    bindings := []
    owner := none
    acceptsSugar := s.mangler.options.keepsSugar
    allowsPlaceholders := s.mangler.options.allowsPlaceholders
    subject := none }

/-- Begin a command: what it asks for goes before the mode of the options. -/
def start (s : Session) (c : Command) : Session :=
  let s := s.begin c.lead
  { s with
    acceptsSugar := s.acceptsSugar || c.keepsSugar
    allowsPlaceholders := s.allowsPlaceholders && c.allowsPlaceholders
    subject := c.subject }

/-- Carry out a command.  A finished text is taken out of the session. -/
def perform (s : Session) (c : Command) : Answer × Session :=
  match c.body.run (s.start c) with
  | .ok _ s => (.ok s.text, { s with text := "" })
  | .error e s => (.error e, s)

/-- The command for a request, with as much nesting as the program can need. -/
def command (s : Session) (r : Request) : Except Refusal Command :=
  s.mangler.command (Encoder.encode (s.mangler.grammar false).depthBound) r

/-- Answer a request. -/
def request (s : Session) (r : Request) : Answer × Session :=
  match s.command r with
  | .error e => (.error (.refused e), s)
  | .ok c => s.perform c

end NameMangling.Session
