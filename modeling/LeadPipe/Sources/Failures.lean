import LeadPipe.Fetch.Vetting
import LeadPipe.Sources.Credentials

/-!
# Failures that are reported

The fetcher and the adapters raise errors of their own for what they expect of a server. Whatever
else the libraries raise on a server's texts goes through.
-/

namespace LeadPipe

open Framework Urllib

private theorem ended {orderly : Trace → Prop} {trace : Trace} {out : Except Raised Unit}
    (horderly : orderly trace)
    (hout : Dialogue.Outcome (fun _ => True) (Reported orderly trace) out) :
    out = .ok () ∨ ∃ message, out = .error (.source message) := by
  cases out with
  | ok u => exact .inl rfl
  | error e =>
      obtain ⟨message, rfl⟩ := hout horderly
      exact .inr ⟨message, rfl⟩

/-- A server of which only `robots.txt` can be had. -/
private def silent : Surroundings where
  server _ url :=
    if url = "http://a.fi/robots.txt".toList then .answered (.of url 200 [] "")
    else .failed (.transport "timed out".toList)
  entries _ := none
  clock _ := 0

section Silent

variable {trace : Trace} (hb : ∀ e ∈ trace, ∃ h, e.answer = silent.answer h e.call)

include hb

end Silent

end LeadPipe
