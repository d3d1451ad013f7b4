import Mathlib.Data.List.Nodup
import Mathlib.Order.Lattice

/-!
# Keyset paging

The rows of every state are in increasing key order. A page is the first rows behind a cursor,
and the last key of a full page is the next cursor; a short page is the last one. `readPages`
reads one page in each of a list of states, so that anything may happen to the rows in between.
-/

namespace LeadPipe.Framework

variable {σ ρ κ : Type} [LinearOrder κ] (key : ρ → κ) (rows : σ → List ρ)

def behind (cursor : Option κ) (k : κ) : Bool := cursor.all fun c => c < k

def page (limit : Nat) (cursor : Option κ) (s : σ) : List ρ :=
  ((rows s).filter fun r => behind cursor (key r)).take limit

/-- The rows of the pages read, and whether the last of them was short. -/
def readPages (limit : Nat) : List σ → Option κ → List ρ × Bool
  | [], _ => ([], false)
  | s :: rest, cursor =>
      let items := page key rows limit cursor s
      if items.length < limit then (items, true)
      else
        let (more, ended) := readPages limit rest (items.getLast?.map key)
        (items ++ more, ended)

def Ordered : Prop := ∀ s, (rows s).Pairwise fun a b => key a < key b

variable {key rows} {limit : Nat} {cursor : Option κ} {s : σ} {states : List σ}

theorem behind_iff {k : κ} : behind cursor k = true ↔ ∀ c ∈ cursor, c < k := by
  cases cursor <;> simp [behind]

theorem page_subset {r : ρ} (h : r ∈ page key rows limit cursor s) :
    r ∈ rows s ∧ behind cursor (key r) = true :=
  List.mem_filter.mp (List.mem_of_mem_take h)

theorem page_sorted (h : Ordered key rows) :
    (page key rows limit cursor s).Pairwise fun a b => key a < key b :=
  ((h s).filter _).take

/-- The last row of a page comes after the others. -/
theorem le_last {l : List ρ} {last : ρ} (h : l.Pairwise fun a b => key a < key b)
    (hlast : l.getLast? = some last) {r : ρ} (hr : r ∈ l) : key r ≤ key last := by
  obtain ⟨front, rfl⟩ := List.getLast?_eq_some_iff.mp hlast
  rcases List.mem_append.mp hr with hfront | htail
  · exact ((List.pairwise_append.mp h).2.2 r hfront last (by simp)).le
  · rw [List.mem_singleton.mp htail]

/-- A page that is not short ends with a row, which is the next cursor. -/
theorem full_page_last (hlimit : 1 ≤ limit) {l : List ρ} (h : ¬l.length < limit) :
    ∃ last, l.getLast? = some last := by
  cases hlast : l.getLast? with
  | some last => exact ⟨last, rfl⟩
  | none =>
      rw [List.getLast?_eq_none_iff.mp hlast, List.length_nil] at h
      omega

theorem readPages_cons (limit : Nat) (s : σ) (rest : List σ) (cursor : Option κ) :
    readPages key rows limit (s :: rest) cursor =
      if (page key rows limit cursor s).length < limit then (page key rows limit cursor s, true)
      else
        (page key rows limit cursor s ++
            (readPages key rows limit rest ((page key rows limit cursor s).getLast?.map key)).1,
          (readPages key rows limit rest ((page key rows limit cursor s).getLast?.map key)).2) :=
  rfl

theorem readPages_subset (hlimit : 1 ≤ limit) {r : ρ}
    (hr : r ∈ (readPages key rows limit states cursor).1) :
    (∃ s ∈ states, r ∈ rows s) ∧ behind cursor (key r) = true := by
  induction states generalizing cursor with
  | nil => cases hr
  | cons s rest ih =>
      have hfirst (hin : r ∈ page key rows limit cursor s) :
          (∃ t ∈ s :: rest, r ∈ rows t) ∧ behind cursor (key r) = true := by
        obtain ⟨hrow, hkey⟩ := page_subset hin
        exact ⟨⟨s, List.mem_cons_self, hrow⟩, hkey⟩
      rw [readPages_cons] at hr
      by_cases hshort : (page key rows limit cursor s).length < limit
      · rw [if_pos hshort] at hr
        exact hfirst hr
      · rw [if_neg hshort] at hr
        rcases List.mem_append.mp hr with hin | hmore
        · exact hfirst hin
        · obtain ⟨last, hlast⟩ := full_page_last hlimit hshort
          obtain ⟨⟨t, ht, hrow⟩, hkey⟩ := ih hmore
          refine ⟨⟨t, List.mem_cons_of_mem _ ht, hrow⟩, behind_iff.mpr fun c hc => ?_⟩
          have hcursor := behind_iff.mp (page_subset (List.mem_of_getLast? hlast)).2 c hc
          rw [hlast] at hkey
          exact hcursor.trans (behind_iff.mp hkey _ rfl)

theorem readPages_sorted (h : Ordered key rows) (hlimit : 1 ≤ limit) :
    (readPages key rows limit states cursor).1.Pairwise fun a b => key a < key b := by
  induction states generalizing cursor with
  | nil => exact .nil
  | cons s rest ih =>
      rw [readPages_cons]
      by_cases hshort : (page key rows limit cursor s).length < limit
      · rw [if_pos hshort]
        exact page_sorted h
      · rw [if_neg hshort]
        obtain ⟨last, hlast⟩ := full_page_last hlimit hshort
        refine List.pairwise_append.mpr ⟨page_sorted h, ih, fun a ha b hb => ?_⟩
        rw [hlast] at hb
        have hbehind := (readPages_subset hlimit hb).2
        exact (le_last (page_sorted h) hlast ha).trans_lt (behind_iff.mp hbehind _ rfl)

theorem readPages_complete (h : Ordered key rows) (hlimit : 1 ≤ limit) {k : κ}
    (hstays : ∀ s ∈ states, ∃ r ∈ rows s, key r = k) (hk : behind cursor k = true)
    (hended : (readPages key rows limit states cursor).2 = true) :
    ∃ r ∈ (readPages key rows limit states cursor).1, key r = k := by
  induction states generalizing cursor with
  | nil => cases hended
  | cons s rest ih =>
      obtain ⟨r, hr, rfl⟩ := hstays s List.mem_cons_self
      have hin : r ∈ (rows s).filter fun r => behind cursor (key r) :=
        List.mem_filter.mpr ⟨hr, hk⟩
      rw [readPages_cons] at hended ⊢
      by_cases hshort : (page key rows limit cursor s).length < limit
      · rw [if_pos hshort]
        refine ⟨r, ?_, rfl⟩
        have hall : page key rows limit cursor s = (rows s).filter fun r => behind cursor (key r) := by
          unfold page at hshort ⊢
          rw [List.length_take] at hshort
          exact List.take_of_length_le (by omega)
        rw [hall]
        exact hin
      · rw [if_neg hshort] at hended ⊢
        obtain ⟨last, hlast⟩ := full_page_last hlimit hshort
        rw [← List.take_append_drop limit (List.filter _ _)] at hin
        rcases List.mem_append.mp hin with htake | hdrop
        · exact ⟨r, List.mem_append_left _ htake, rfl⟩
        · -- the row comes after the page, and so after its last row
          have hsorted := (h s).filter fun r => behind cursor (key r)
          rw [← List.take_append_drop limit ((rows s).filter fun r => behind cursor (key r))] at hsorted
          have hafter := (List.pairwise_append.mp hsorted).2.2 last
            (List.mem_of_getLast? hlast) r hdrop
          have hnext : behind ((page key rows limit cursor s).getLast?.map key) (key r) = true := by
            rw [hlast]
            exact behind_iff.mpr fun c hc => by
              obtain rfl : key last = c := by simpa using hc
              exact hafter
          obtain ⟨r', hr', hkey⟩ := ih (fun t ht => hstays t (List.mem_cons_of_mem _ ht))
            hnext hended
          exact ⟨r', List.mem_append_right _ hr', hkey⟩

theorem readPages_count [DecidableEq κ] (h : Ordered key rows) (hlimit : 1 ≤ limit) {k : κ}
    (hstays : ∀ s ∈ states, ∃ r ∈ rows s, key r = k) (hk : behind cursor k = true)
    (hended : (readPages key rows limit states cursor).2 = true) :
    ((readPages key rows limit states cursor).1.map key).count k = 1 := by
  have hnodup : ((readPages key rows limit states cursor).1.map key).Nodup := by
    rw [List.Nodup, List.pairwise_map]
    exact (readPages_sorted h hlimit).imp fun hlt => hlt.ne
  obtain ⟨r, hr, rfl⟩ := readPages_complete h hlimit hstays hk hended
  exact (List.nodup_iff_count_eq_one.mp hnodup) _ (List.mem_map_of_mem hr)

theorem filter_behind_last {l : List ρ} (hl : l.Pairwise fun a b => key a < key b) {last : ρ}
    (hlast : (l.take limit).getLast? = some last) :
    l.filter (fun r => behind (some (key last)) (key r)) = l.drop limit := by
  have hsplit := List.take_append_drop limit l
  rw [← hsplit] at hl
  obtain ⟨hfront, -, hacross⟩ := List.pairwise_append.mp hl
  have hnone : (l.take limit).filter (fun r => behind (some (key last)) (key r)) = [] := by
    refine List.filter_eq_nil_iff.mpr fun r hr => ?_
    simpa [behind] using le_last hfront hlast hr
  have hall : (l.drop limit).filter (fun r => behind (some (key last)) (key r)) = l.drop limit := by
    refine List.filter_eq_self.mpr fun r hr => ?_
    simpa [behind] using hacross last (List.mem_of_getLast? hlast) r hr
  calc l.filter (fun r => behind (some (key last)) (key r))
      = (l.take limit ++ l.drop limit).filter (fun r => behind (some (key last)) (key r)) := by
        rw [hsplit]
    _ = l.drop limit := by rw [List.filter_append, hnone, hall, List.nil_append]

/-- A state that does not change is read to its end, in as many pages as there are rows and one
more at most. -/
theorem readPages_replicate (h : Ordered key rows) (hlimit : 1 ≤ limit) {n : Nat}
    (hn : ((rows s).filter fun r => behind cursor (key r)).length < n) :
    readPages key rows limit (.replicate n s) cursor =
      ((rows s).filter fun r => behind cursor (key r), true) := by
  induction n generalizing cursor with
  | zero => omega
  | succ n ih =>
      have hlength : (page key rows limit cursor s).length =
          min limit ((rows s).filter fun r => behind cursor (key r)).length := List.length_take
      rw [List.replicate_succ, readPages_cons]
      by_cases hshort : (page key rows limit cursor s).length < limit
      · rw [if_pos hshort]
        have hall : page key rows limit cursor s = (rows s).filter fun r => behind cursor (key r) :=
          List.take_of_length_le (by omega)
        rw [hall]
      · rw [if_neg hshort]
        obtain ⟨last, hlast⟩ := full_page_last hlimit hshort
        have hleft : ((rows s).filter fun r => behind (some (key last)) (key r)) =
            ((rows s).filter fun r => behind cursor (key r)).drop limit := by
          rw [← filter_behind_last ((h s).filter _) hlast, List.filter_filter]
          refine List.filter_congr fun r _ => ?_
          rw [Bool.eq_iff_iff, Bool.and_eq_true]
          refine ⟨fun hr => ⟨hr, behind_iff.mpr fun c hc => ?_⟩, And.left⟩
          have hcursor := behind_iff.mp (page_subset (List.mem_of_getLast? hlast)).2 c hc
          exact hcursor.trans (behind_iff.mp hr _ rfl)
        have hfewer : ((rows s).filter fun r => behind (some (key last)) (key r)).length < n := by
          rw [hleft, List.length_drop]
          omega
        rw [hlast, Option.map_some, ih hfewer, hleft]
        refine Prod.ext ?_ rfl
        exact List.take_append_drop limit _

end LeadPipe.Framework
