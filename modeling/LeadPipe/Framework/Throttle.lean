import Mathlib.Algebra.Order.Monoid.Defs
import Mathlib.Data.List.Chain
import Mathlib.Logic.Function.Basic
import Mathlib.Order.Lattice

/-!
# Throttles

A door for each key that one after another goes through. Who comes in waits until the door may be
passed, and sets how long it is closed behind him; who asks for no interval passes without a look
at the door.

`Keeps` says of the passages so far, in order, that they were as far apart as the earlier one asked
for wherever both asked for something.
-/

namespace LeadPipe.Framework

structure Passage (K T : Type) where
  key : K
  time : T
  interval : T
  deriving DecidableEq

/-- `next` is when a door may be passed, `inside` who waits there, and until when. -/
structure Throttle (ι K T : Type) where
  next : K → T
  inside : K → Option (ι × T)

variable {ι K T : Type} [DecidableEq K]

def through (k : K) (log : List (Passage K T)) : List (Passage K T) :=
  log.filter fun p => p.key = k

theorem through_concat (k : K) (log : List (Passage K T)) (p : Passage K T) :
    through k (log ++ [p]) = if p.key = k then through k log ++ [p] else through k log := by
  unfold through
  rw [List.filter_append]
  split
  · rename_i hkey
    rw [List.filter_cons_of_pos (by simpa using hkey), List.filter_nil]
  · rename_i hkey
    rw [List.filter_cons_of_neg (by simpa using hkey), List.filter_nil, List.append_nil]

variable [AddCommMonoid T] [LinearOrder T]

namespace Throttle

def enter (g : Throttle ι K T) (i : ι) (k : K) (now : T) : Throttle ι K T :=
  match g.inside k with
  | none => { g with inside := Function.update g.inside k (some (i, max now (g.next k))) }
  | some _ => g

def leave (g : Throttle ι K T) (k : K) (now interval : T) : Throttle ι K T where
  next := Function.update g.next k (now + interval)
  inside := Function.update g.inside k none

end Throttle

/-- The later passage keeps the distance the earlier one asked for. -/
def Passage.Spaced (a b : Passage K T) : Prop :=
  a.time ≤ b.time ∧ (0 < a.interval → 0 < b.interval → a.time + a.interval ≤ b.time)

structure Throttle.Keeps (g : Throttle ι K T) (now : T) (log : List (Passage K T)) : Prop where
  past : ∀ p ∈ log, p.time ≤ now
  spaced : ∀ k, (through k log).IsChain Passage.Spaced
  next : ∀ k, ∀ p ∈ (through k log).getLast?, 0 < p.interval → p.time + p.interval ≤ g.next k
  inside : ∀ k i wake, g.inside k = some (i, wake) → g.next k ≤ wake

namespace Throttle.Keeps

variable {g : Throttle ι K T} {now : T} {log : List (Passage K T)}

theorem start (g : Throttle ι K T) (now : T) (hinside : ∀ k, g.inside k = none) :
    g.Keeps now [] where
  past := by simp
  spaced _ := List.isChain_nil
  next := by simp [through]
  inside k i wake h := by
    rw [hinside k] at h
    cases h

variable (h : g.Keeps now log)

include h

theorem pass {later : T} (hlater : now ≤ later) : g.Keeps later log :=
  { h with past := fun p hp => (h.past p hp).trans hlater }

theorem enter (i : ι) (k : K) (now' : T) : (g.enter i k now').Keeps now log := by
  unfold Throttle.enter
  cases hk : g.inside k with
  | some found => exact h
  | none =>
      refine { h with inside := fun k' j wake hinside => ?_ }
      by_cases hkey : k' = k
      · subst hkey
        dsimp only at hinside
        rw [Function.update_self] at hinside
        obtain ⟨rfl, rfl⟩ := Prod.mk.inj (Option.some.inj hinside)
        exact le_max_right _ _
      · dsimp only at hinside
        rw [Function.update_of_ne hkey] at hinside
        exact h.inside k' j wake hinside

theorem concat {p : Passage K T} (htime : p.time = now)
    (hlast : ∀ q ∈ (through p.key log).getLast?, 0 < q.interval → 0 < p.interval →
      q.time + q.interval ≤ now)
    (hnext : 0 < p.interval → now + p.interval ≤ g.next p.key) : g.Keeps now (log ++ [p]) where
  past q hq := by
    rcases List.mem_append.mp hq with hq | hq
    · exact h.past q hq
    · rw [List.mem_singleton.mp hq, htime]
  spaced k := by
    rw [through_concat]
    split
    · rename_i hkey
      subst hkey
      rw [List.isChain_append]
      refine ⟨h.spaced _, List.isChain_singleton _, fun q hq r hr => ?_⟩
      obtain rfl : p = r := by simpa using hr
      refine ⟨?_, fun hq' hp => ?_⟩
      · rw [htime]
        exact h.past q (List.mem_of_mem_filter (List.mem_of_mem_getLast? hq))
      · rw [htime]
        exact hlast q hq hq' hp
    · exact h.spaced k
  next k q hq hpos := by
    rw [through_concat] at hq
    split at hq
    · rename_i hkey
      subst hkey
      rw [List.getLast?_concat] at hq
      obtain rfl := Option.some.inj hq
      rw [htime]
      exact hnext hpos
    · exact h.next k q hq hpos
  inside := h.inside

theorem free {p : Passage K T} (htime : p.time = now) (hp : p.interval ≤ 0) :
    g.Keeps now (log ++ [p]) :=
  h.concat htime (fun _ _ _ hpos => absurd hpos (not_lt.mpr hp)) fun hpos =>
    absurd hpos (not_lt.mpr hp)

variable [IsOrderedAddMonoid T]

theorem leave {k : K} {i : ι} {wake interval : T} (hinside : g.inside k = some (i, wake))
    (hwake : wake ≤ now) (hinterval : 0 ≤ interval) :
    (g.leave k now interval).Keeps now log ∧
      (g.leave k now interval).Keeps now (log ++ [⟨k, now, interval⟩]) := by
  have hopen : ∀ q ∈ (through k log).getLast?, 0 < q.interval → q.time + q.interval ≤ now :=
    fun q hq hpos => ((h.next k q hq hpos).trans (h.inside k i wake hinside)).trans hwake
  have hnext : (g.leave k now interval).next k = now + interval := Function.update_self ..
  have hleft : (g.leave k now interval).Keeps now log := by
    refine { h with next := fun k' q hq hpos => ?_, inside := fun k' j wake' hk' => ?_ }
    · by_cases hkey : k' = k
      · subst hkey
        rw [hnext]
        exact (hopen q hq hpos).trans (le_add_of_nonneg_right hinterval)
      · have hsame : (g.leave k now interval).next k' = g.next k' := Function.update_of_ne hkey ..
        rw [hsame]
        exact h.next k' q hq hpos
    · by_cases hkey : k' = k
      · subst hkey
        have hnone : (g.leave k' now interval).inside k' = none := Function.update_self ..
        rw [hnone] at hk'
        cases hk'
      · have hsame : (g.leave k now interval).next k' = g.next k' := Function.update_of_ne hkey ..
        have hsame' : (g.leave k now interval).inside k' = g.inside k' :=
          Function.update_of_ne hkey ..
        rw [hsame'] at hk'
        rw [hsame]
        exact h.inside k' j wake' hk'
  exact ⟨hleft, hleft.concat rfl (fun q hq hpos _ => hopen q hq hpos) fun _ => hnext.ge⟩

end Throttle.Keeps

end LeadPipe.Framework
