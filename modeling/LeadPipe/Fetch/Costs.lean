import LeadPipe.Fetch.Client
import LeadPipe.Framework.Spending

/-!
# What a fetch costs

The requests a call of `Fetcher.get` sends at most, for pages and for `robots.txt`, whatever the
servers answer: each hop of a redirect may look at `robots.txt` once, and requests its page once and
then as often as it may be retried.
-/

namespace LeadPipe

open Framework

/-- What is counted, and how much each of it counts. -/
structure Prices where
  page : Nat
  robots : Nat
  yielded : Nat

def Prices.cost (prices : Prices) : Call → Nat
  | .request .page .. => prices.page
  | .request .robots .. => prices.robots
  | .note (.yielded _) => prices.yielded
  | _ => 0

/-- The price of one call of `Fetcher.get`. -/
def FetchPolicy.visit (policy : FetchPolicy) (prices : Prices) : Nat :=
  (policy.maxRedirects.toNat + 1) * (policy.attempts * prices.page + prices.robots)

/-- The program can be paid from `n`. -/
abbrev Fetch.AtMost {α : Type} (prices : Prices) (n : Nat) (m : Fetch α) : Prop :=
  Dialogue.AtMost prices.cost n m

namespace Fetch.AtMost

variable {α : Type} (prices : Prices)

theorem now (f : Instant → α) :
    Fetch.AtMost prices 0 (Fetch.now >>= fun now => pure (f now) : Fetch α) :=
  .free_bind (.ask (Nat.le_refl 0)) fun _ => .pure _

variable (web : Web) (policy : FetchPolicy)

theorem ensureSafeUrl (url : Text) :
    Fetch.AtMost prices 0 (LeadPipe.ensureSafeUrl web policy url) :=
  .free_bind (.lift _) fun _ => .free_bind (.ask (Nat.le_refl 0)) fun _ => .pure _

theorem read (purpose : Purpose) (url : Text) (headers : Dict Text) :
    Fetch.AtMost prices (prices.cost (.request purpose url headers))
      (LeadPipe.read web policy purpose url headers) :=
  .bind_free (.ask (Nat.le_refl _)) fun _ => .lift _

theorem fetchRobots (url : Text) :
    Fetch.AtMost prices prices.robots (LeadPipe.fetchRobots web policy url) := by
  refine .free_bind (.lift _) fun host => .free_bind (.ask (Nat.le_refl 0)) fun _ => ?_
  exact .bind_free (read prices web policy .robots url []) fun response => .pure _

theorem load (origin : Text) :
    Fetch.AtMost prices prices.robots
      (RobotsCache.load web (LeadPipe.fetchRobots web policy) origin) := by
  refine .bind_free (fetchRobots prices web policy _).attempt fun tried => ?_
  cases tried with
  | error e => exact now prices _
  | ok answer =>
      dsimp only
      split
      · exact now prices _
      · split
        · exact now prices _
        · exact .free_bind (.lift _) fun _ => now prices _

theorem rulesFor (url : Text) :
    Fetch.AtMost prices prices.robots
      (RobotsCache.rulesFor web policy (LeadPipe.fetchRobots web policy) url) := by
  refine .free_bind (.lift _) fun origin => .free_bind (.ask (Nat.le_refl 0)) fun entry => ?_
  refine .free_bind ?_ fun found => ?_
  · cases entry with
    | none => exact .pure _
    | some rules => exact now prices _
  · cases found with
    | some rules => exact .pure _
    | none =>
        refine .bind_free (load prices web policy origin) fun rules => ?_
        exact .free_bind (.ask (Nat.le_refl 0)) fun _ => .pure _

theorem checkRobots (url : Text) :
    Fetch.AtMost prices prices.robots (LeadPipe.checkRobots web policy url) := by
  unfold LeadPipe.checkRobots
  split
  · exact .pure _
  · refine .bind_free (rulesFor prices web policy url) fun rules => ?_
    refine .free_bind (.ask (Nat.le_refl 0)) fun _ => .free_bind (.lift _) fun allowed => ?_
    split
    · exact .raise _
    · exact .lift _

theorem pause (left attempt : Nat) : Fetch.AtMost prices 0 (LeadPipe.pause left attempt) := by
  unfold LeadPipe.pause
  split
  · exact .free_bind (.lift _) fun _ => .ask (Nat.le_refl 0)
  · exact .pure _

theorem request (url : Text) (headers : Dict Text) (delay : Option Nat) (left attempt : Nat)
    (last : Option Text) :
    Fetch.AtMost prices (left * prices.page)
      (LeadPipe.request web policy url headers delay left attempt last) := by
  induction left generalizing attempt last with
  | zero => exact .raise _
  | succ left ih =>
      have hturn : Fetch.AtMost prices (prices.page + left * prices.page)
          (LeadPipe.request web policy url headers delay (left + 1) attempt last) := by
        refine .free_bind (.lift _) fun host => .free_bind (.ask (Nat.le_refl 0)) fun _ => ?_
        refine .bind (read prices web policy .page url headers).attempt fun tried => ?_
        refine .free_bind (.lift _) fun verdict => ?_
        cases verdict with
        | inl response => exact .pure _
        | inr last =>
            exact .free_bind (pause prices left attempt) fun _ => ih (attempt + 1) (some last)
      exact hturn.mono (by rw [Nat.add_mul, Nat.one_mul, Nat.add_comm])

theorem hop (headers : Dict Text) (current : Text) (delay : Option Nat)
    {follow : Text → Fetch FetchResponse} {n : Nat}
    (hfollow : ∀ location, Fetch.AtMost prices n (follow location)) :
    Fetch.AtMost prices (policy.attempts * prices.page + n)
      (LeadPipe.hop web policy headers current delay follow) := by
  refine .bind (request prices web policy current headers delay _ _ _) fun response => ?_
  split
  · exact .pure _
  · dsimp only
    split
    · exact .pure _
    · exact hfollow _

theorem getWithRedirects (url : Text) (headers : Dict Text) (left : Nat) (current : Text)
    (delay : Option Nat) :
    Fetch.AtMost prices
      (policy.attempts * prices.page + left * (policy.attempts * prices.page + prices.robots))
      (LeadPipe.getWithRedirects web policy url headers left current delay) := by
  induction left generalizing current delay with
  | zero =>
      refine (hop prices web policy headers current delay (n := 0) fun _ => .raise _).mono ?_
      omega
  | succ left ih =>
      have hfollow (location : Text) : Fetch.AtMost prices (prices.robots +
          (policy.attempts * prices.page +
            left * (policy.attempts * prices.page + prices.robots))) (do
          let joined ← Dialogue.lift (joinUrl web current location)
          let next ← LeadPipe.ensureSafeUrl web policy joined
          let crawlDelay ← LeadPipe.checkRobots web policy next
          LeadPipe.getWithRedirects web policy url headers left next crawlDelay) :=
        .free_bind (.lift _) fun joined => .free_bind (ensureSafeUrl prices web policy joined)
          fun next => .bind (checkRobots prices web policy next) fun delay => ih next delay
      refine (hop prices web policy headers current delay hfollow).mono ?_
      rw [Nat.add_mul left, Nat.one_mul]
      omega

theorem get (url : Text) (headers : Dict Text) :
    Fetch.AtMost prices (policy.visit prices) (Fetcher.get web policy url headers) := by
  unfold Fetcher.get
  have hget : Fetch.AtMost prices (prices.robots + (policy.attempts * prices.page +
      policy.maxRedirects.toNat * (policy.attempts * prices.page + prices.robots))) (do
        let target ← LeadPipe.ensureSafeUrl web policy url
        let crawlDelay ← LeadPipe.checkRobots web policy target
        LeadPipe.getWithRedirects web policy target headers policy.maxRedirects.toNat target
          crawlDelay : Fetch FetchResponse) :=
    .free_bind (ensureSafeUrl prices web policy url) fun target =>
      .bind (checkRobots prices web policy target) fun delay =>
        getWithRedirects prices web policy target headers _ target delay
  refine hget.mono ?_
  rw [FetchPolicy.visit, Nat.add_mul, Nat.one_mul]
  omega

end Fetch.AtMost

end LeadPipe
