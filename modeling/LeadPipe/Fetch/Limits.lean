import Mathlib.Algebra.Order.Field.Rat
import LeadPipe.Fetch.Runs
import LeadPipe.Framework.Interleaving
import LeadPipe.Framework.Throttle
import LeadPipe.Framework.Transition

/-!
# One fetcher, many calls

`app/fetch/limits.py`, and the calls of one `Fetcher` that take turns. A call goes on at once with
what it is answered, until it waits for the throttle, for a reply or for its back-off; a request
goes out at the moment the call comes to it. Time passes while all wait.
-/

namespace LeadPipe

open Framework

/-- The interval of `DomainThrottle.wait`. -/
def throttleInterval (minInterval : ℚ) (delay : Option Nat) : ℚ :=
  max minInterval ((delay.getD 0 : Nat) : ℚ)

/-- A request as it goes out, with the passage of the throttle before it. -/
structure Request extends Passage Text ℚ where
  purpose : Purpose
  url : Text
  deriving DecidableEq

inductive LogEntry where
  | sent (request : Request)
  | loaded (origin : Text)
  deriving DecidableEq

abbrev Getting := Task Call.Answer Raised FetchResponse

/-- A fetcher with all its calls of `get`, and what it did so far. -/
structure Fetcher where
  now : ℚ
  cache : Text → Option RobotsRules
  throttle : Throttle Nat Text ℚ
  calls : List Getting
  log : List LogEntry

namespace Fetcher

def start (now : ℚ) : Fetcher where
  now := now
  cache _ := none
  throttle := ⟨fun _ => 0, fun _ => none⟩
  calls := []
  log := []

def reading (now : ℚ) : Instant := (now * 1000000).floor

/-- What happens next: `enter` and `leave` are the two halves of `DomainThrottle.wait`. -/
inductive Label where
  | pass (span : ℚ)
  | get (url : Text) (headers : Dict Text)
  | act (i : Nat)
  | enter (i : Nat)
  | leave (i : Nat)
  | reply (i : Nat) (reply : Reply)
  | wake (i : Nat)

variable (web : Web) (policy : FetchPolicy) (minInterval : ℚ) (s : Fetcher)

def atOnce : (c : Call) → Option c.Answer
  | .cached origin => some (s.cache origin)
  | .clock => some (reading s.now)
  | .remember .. | .note _ => some ()
  | .request .. | .wait .. | .sleep _ => none

def remember (origin : Text) (rules : RobotsRules) : Fetcher :=
  { s with
    cache := Function.update s.cache origin (some rules)
    log := s.log ++ [.loaded origin] }

def effect : Call → Fetcher
  | .remember origin rules => s.remember origin rules
  | _ => s

def sends (key : Text) (interval : ℚ) : Fetch FetchResponse → List LogEntry
  | .call (.request purpose url _) _ => [.sent ⟨⟨key, s.now, interval⟩, purpose, url⟩]
  | _ => []

/-- A call goes on, after a passage of the throttle if it comes from there. -/
def goOn (i : Nat) (key : Text) (interval : ℚ) (call : Getting) : Fetcher :=
  { s with calls := s.calls.set i call, log := s.log ++ s.sends key interval call.rest }

def step (s : Fetcher) : Label → Fetcher
  | .pass span => if 0 ≤ span then { s with now := s.now + span } else s
  | .get url headers => { s with calls := s.calls ++ [⟨[], Fetcher.get web policy url headers⟩] }
  | .act i =>
      match s.calls[i]? with
      | some ⟨done, .call c next⟩ =>
          match s.atOnce c with
          | some a => (s.effect c).goOn i [] 0 ⟨done ++ [⟨c, a⟩], next a⟩
          | none => s
      | _ => s
  | .enter i =>
      match s.calls[i]? with
      | some ⟨done, .call (.wait host delay) next⟩ =>
          let interval := throttleInterval minInterval delay
          if interval ≤ 0 then s.goOn i host interval ⟨done ++ [⟨.wait host delay, ()⟩], next ()⟩
          else { s with throttle := s.throttle.enter i host s.now }
      | _ => s
  | .leave i =>
      match s.calls[i]? with
      | some ⟨done, .call (.wait host delay) next⟩ =>
          let interval := throttleInterval minInterval delay
          match s.throttle.inside host with
          | some (j, wake) =>
              if j = i ∧ wake ≤ s.now ∧ 0 < interval then
                goOn { s with throttle := s.throttle.leave host s.now interval } i host interval
                  ⟨done ++ [⟨.wait host delay, ()⟩], next ()⟩
              else s
          | none => s
      | _ => s
  | .reply i reply =>
      match s.calls[i]? with
      | some ⟨done, .call (.request purpose url headers) next⟩ =>
          s.goOn i [] 0 ⟨done ++ [exchanged purpose url headers reply], next reply⟩
      | _ => s
  | .wake i =>
      match s.calls[i]? with
      | some ⟨done, .call (.sleep attempt) next⟩ =>
          s.goOn i [] 0 ⟨done ++ [⟨.sleep attempt, ()⟩], next ()⟩
      | _ => s

/-- What becomes of a fetcher that answers a call, and the passage of the throttle this is. -/
inductive Answers : (c : Call) → c.Answer → Text → ℚ → Fetcher → Prop
  | cached (origin : Text) : Answers (.cached origin) (s.cache origin) [] 0 s
  | clock : Answers .clock (reading s.now) [] 0 s
  | remember (origin : Text) (rules : RobotsRules) :
      Answers (.remember origin rules) () [] 0 (s.remember origin rules)
  | note (n : Note) : Answers (.note n) () [] 0 s
  | free (host : Text) (delay : Option Nat) (hfree : throttleInterval minInterval delay ≤ 0) :
      Answers (.wait host delay) () host (throttleInterval minInterval delay) s
  | leave (i : Nat) (host : Text) (delay : Option Nat) (wake : ℚ)
      (hinside : s.throttle.inside host = some (i, wake)) (hwake : wake ≤ s.now)
      (hpos : 0 < throttleInterval minInterval delay) :
      Answers (.wait host delay) () host (throttleInterval minInterval delay)
        { s with
          throttle := s.throttle.leave host s.now (throttleInterval minInterval delay) }
  | reply (purpose : Purpose) (url : Text) (headers : Dict Text) (reply : Reply) :
      Answers (.request purpose url headers) reply [] 0 s
  | sleep (attempt : Nat) : Answers (.sleep attempt) () [] 0 s

inductive Moves : Fetcher → Prop
  | stay : Moves s
  | pass (span : ℚ) (hspan : 0 ≤ span) : Moves { s with now := s.now + span }
  | get (url : Text) (headers : Dict Text) :
      Moves { s with calls := s.calls ++ [⟨[], Fetcher.get web policy url headers⟩] }
  | enter (i : Nat) (host : Text) : Moves { s with throttle := s.throttle.enter i host s.now }
  | answer (i : Nat) (done : Trace) (c : Call) (next : c.Answer → Fetch FetchResponse)
      (a : c.Answer) (key : Text) (interval : ℚ) (s' : Fetcher)
      (hcall : s.calls[i]? = some ⟨done, .call c next⟩)
      (hanswer : s.Answers minInterval c a key interval s') :
      Moves (s'.goOn i key interval ⟨done ++ [⟨c, a⟩], next a⟩)

variable {web policy minInterval s}

theorem answers_atOnce {c : Call} {a : c.Answer} (h : s.atOnce c = some a) :
    s.Answers minInterval c a [] 0 (s.effect c) := by
  cases c with
  | cached origin =>
      obtain rfl := Option.some.inj h
      exact .cached origin
  | clock =>
      obtain rfl := Option.some.inj h
      exact .clock
  | remember origin rules => exact .remember origin rules
  | note n => exact .note n
  | request | wait | sleep => cases h

theorem step_moves (l : Label) :
    s.Moves web policy minInterval (s.step web policy minInterval l) := by
  cases l with
  | pass span =>
      unfold step
      dsimp only
      split
      · rename_i hspan
        exact .pass span hspan
      · exact .stay
  | get url headers => exact .get url headers
  | act i =>
      unfold step
      dsimp only
      split
      · rename_i done c next hcall
        split
        · rename_i a hatOnce
          exact .answer i done c next a [] 0 _ hcall (answers_atOnce hatOnce)
        · exact .stay
      · exact .stay
  | enter i =>
      unfold step
      dsimp only
      split
      · rename_i done host delay next hcall
        split
        · rename_i hfree
          exact .answer i done _ next () _ _ _ hcall (.free host delay hfree)
        · exact .enter i host
      · exact .stay
  | leave i =>
      unfold step
      dsimp only
      split
      · rename_i done host delay next hcall
        split
        · rename_i j wake hinside
          split
          · rename_i hleave
            exact .answer i done _ next () _ _ _ hcall
              (.leave j host delay wake hinside hleave.2.1 hleave.2.2)
          · exact .stay
        · exact .stay
      · exact .stay
  | reply i reply =>
      unfold step
      dsimp only
      split
      · rename_i done purpose url headers next hcall
        exact .answer i done _ next reply _ _ _ hcall (.reply purpose url headers reply)
      · exact .stay
  | wake i =>
      unfold step
      dsimp only
      split
      · rename_i done attempt next hcall
        exact .answer i done _ next () _ _ _ hcall (.sleep attempt)
      · exact .stay

end Fetcher

def requests (log : List LogEntry) : List Request :=
  log.filterMap fun
    | .sent request => some request
    | .loaded _ => none

theorem requests_append (log more : List LogEntry) :
    requests (log ++ more) = requests log ++ requests more :=
  List.filterMap_append

def passages (log : List LogEntry) : List (Passage Text ℚ) := (requests log).map Request.toPassage

namespace Fetcher

variable {web : Web} {policy : FetchPolicy} {minInterval : ℚ} {s s' : Fetcher}

def Throttled (s : Fetcher) : Prop := s.throttle.Keeps s.now (passages s.log)

theorem sends_cases (s : Fetcher) (key : Text) (interval : ℚ) (rest : Fetch FetchResponse) :
    s.sends key interval rest = [] ∨
      ∃ purpose url headers next, rest = .call (.request purpose url headers) next ∧
        s.sends key interval rest = [.sent ⟨⟨key, s.now, interval⟩, purpose, url⟩] := by
  unfold sends
  split
  · rename_i purpose url headers next
    exact .inr ⟨purpose, url, headers, next, rfl, rfl⟩
  · exact .inl rfl

namespace Answers

variable {c : Call} {a : c.Answer} {key : Text} {interval : ℚ}

theorem calls (h : s.Answers minInterval c a key interval s') : s'.calls = s.calls := by
  cases h <;> rfl

theorem requests (h : s.Answers minInterval c a key interval s') :
    LeadPipe.requests s'.log = LeadPipe.requests s.log := by
  cases h with
  | remember origin rules =>
      have hlog : (s.remember origin rules).log = s.log ++ [.loaded origin] := rfl
      rw [hlog, requests_append]
      exact List.append_nil _
  | _ => rfl

theorem throttled (h : s.Answers minInterval c a key interval s') (hs : s.Throttled) :
    s'.throttle.Keeps s'.now (passages s.log) ∧
      s'.throttle.Keeps s'.now (passages s.log ++ [⟨key, s'.now, interval⟩]) := by
  cases h with
  | free host delay hfree => exact ⟨hs, hs.free rfl hfree⟩
  | leave i host delay wake hinside hwake hpos => exact hs.leave hinside hwake hpos.le
  | cached | clock | remember | note | reply | sleep => exact ⟨hs, hs.free rfl le_rfl⟩

end Answers

theorem Moves.throttled (h : s.Moves web policy minInterval s') (hs : s.Throttled) :
    s'.Throttled := by
  cases h with
  | stay => exact hs
  | pass span hspan => exact hs.pass (le_add_of_nonneg_right hspan)
  | get url headers => exact hs
  | enter i host => exact hs.enter i host s.now
  | answer i done c next a key interval s₁ hcall hanswer =>
      obtain ⟨hquiet, hsent⟩ := hanswer.throttled hs
      have hsame : passages s₁.log = passages s.log := by rw [passages, hanswer.requests, passages]
      unfold Throttled goOn
      dsimp only
      rcases sends_cases s₁ key interval (next a) with hnone | ⟨purpose, url, headers, _, -, hone⟩
      · rw [hnone, List.append_nil, hsame]
        exact hquiet
      · rw [hone, passages, requests_append, List.map_append, ← passages, hsame]
        exact hsent

end Fetcher

end LeadPipe
