import LeadPipe.Fetch.Runs

/-!
# One server and one cache

Surroundings in which a run is determined: a server that may answer every request for an address
in another way, the cache as the calls leave it, and a clock.
-/

namespace LeadPipe

open Framework

def isRequestFor (url : Text) (e : Event Call.Answer) : Bool :=
  match e.call with
  | .request _ requested _ => requested == url
  | _ => false

def isReading (e : Event Call.Answer) : Bool :=
  match e.call with
  | .clock => true
  | _ => false

def remembered (origin : Text) (h : Trace) : Option RobotsRules :=
  h.foldl (fun found e => match e.call with
    | .remember o rules => if o == origin then some rules else found
    | _ => found) none

/-- The n-th answer to each address, the cache in the beginning, and the n-th reading. -/
structure Surroundings where
  server : Nat → Text → Reply
  entries : Text → Option RobotsRules
  clock : Nat → Instant

namespace Surroundings

def answer (w : Surroundings) (h : Trace) : (c : Call) → c.Answer
  | .request _ url _ => w.server (h.countP (isRequestFor url)) url
  | .cached origin => (remembered origin h).or (w.entries origin)
  | .clock => w.clock (h.countP isReading)
  | .remember .. | .wait .. | .sleep _ | .note _ => ()

def run {α : Type} (w : Surroundings) (m : Fetch α) : Trace × Except Raised α :=
  Dialogue.exec w.answer m []

section

variable (w : Surroundings) (h : Trace)

theorem exec_send (purpose : Purpose) (url : Text) (headers : Dict Text) :
    Dialogue.exec w.answer (Fetch.send purpose url headers) h =
      ([exchanged purpose url headers (w.server (h.countP (isRequestFor url)) url)],
        .ok (w.server (h.countP (isRequestFor url)) url)) := rfl

theorem exec_wait (host : Text) (interval : Option Nat) :
    Dialogue.exec w.answer (Fetch.wait host interval) h =
      ([⟨.wait host interval, ()⟩], .ok ()) := rfl

theorem exec_now : Dialogue.exec w.answer Fetch.now h =
    ([⟨.clock, w.clock (h.countP isReading)⟩], .ok (w.clock (h.countP isReading))) := rfl

theorem exec_cached (origin : Text) : Dialogue.exec w.answer (Fetch.cached origin) h =
    ([⟨.cached origin, (remembered origin h).or (w.entries origin)⟩],
      .ok ((remembered origin h).or (w.entries origin))) := rfl

theorem exec_remember (origin : Text) (rules : RobotsRules) :
    Dialogue.exec w.answer (Fetch.remember origin rules) h =
      ([⟨.remember origin rules, ()⟩], .ok ()) := rfl

theorem exec_note (n : Note) :
    Dialogue.exec w.answer (Fetch.note n) h = ([marked n], .ok ()) := rfl

end

end Surroundings

def Answer.of (url : Text) (status : Nat) (headers : Dict Text) (body : String) : Answer :=
  ⟨url, status, headers, [body.toUTF8.data.toList], none⟩

/-- Libraries to compute with: every host has one public address, and the only rule read from
`robots.txt` is the one that disallows everything. -/
def Web.plain : Web where
  platform := .ascii
  decimal c := if c.isDigit then some (c.toNat - '0'.toNat) else none
  resolver _ := .addresses ["93.184.216.34".toList]
  ipAddress _ := some ⟨false, false, false, false, false, false⟩
  urlError _ := "Invalid IPv6 URL".toList
  robotsParse _ := .ok ()
  canFetch lines _ _ := .ok (!lines.contains "Disallow: /".toList)
  robotsDelay _ _ := .ok none
  loads _ := .error (.decodeError "Expecting value".toList)
  repr _ := .ok []
  html :=
    { Node := Text
      parse := fun text _ => .ok text
      select := fun _ _ => .ok []
      selectOne := fun _ _ => .ok none
      get := fun _ _ => none
      getText := id
      render := .ok
      str := List.flatten }

end LeadPipe
