import LeadPipe.Deduplication.MergeLaws
import LeadPipe.Python.Dicts

/-!
# Which record a merged column comes from

The order of the candidates does not matter to `merge`. With the candidates ranked as the
documentation ranks them, every single field, the website pair and their origins follow the
first candidate that has a value. The additional fields do so too unless a candidate that
stores a null under a key is ranked above every candidate that has a value for it.
-/

namespace LeadPipe

open Framework

namespace Candidate

def recordId (c : Candidate) : Nat := Nat.ofDigitChars 10 c.origin 0

end Candidate

/-- The origins are the decimal strings of distinct record ids. -/
def Identified (cs : List Candidate) : Prop :=
  (∀ c ∈ cs, c.origin = Text.ofNat c.recordId) ∧ (cs.map Candidate.recordId).Nodup

instance (cs : List Candidate) : Decidable (Identified cs) := inferInstanceAs (Decidable (_ ∧ _))

theorem Identified.numbered {cs : List Candidate} (h : Identified cs) : Numbered cs := by
  have hpair : cs.Pairwise fun a b => a.recordId ≠ b.recordId := List.pairwise_map.mp h.2
  refine List.Pairwise.imp_of_mem ?_ hpair
  intro a b ha hb hne hkey
  rw [h.1 a ha, h.1 b hb] at hkey
  exact hne (originKey_ofNat_injective hkey)

theorem foldl_max_perm {l l' : List Instant} (hp : l.Perm l') (t : Instant) :
    l.foldl max t = l'.foldl max t := by
  induction hp generalizing t with
  | nil => rfl
  | cons a _ ih => exact ih (max t a)
  | swap a b l => simp only [List.foldl_cons, sup_right_comm]
  | trans _ _ ih ih' => exact (ih t).trans (ih' t)

theorem merge_order_does_not_matter {cs cs' : List Candidate} (hne : cs ≠ [])
    (h : Identified cs) (hp : cs.Perm cs') :
    ∃ merged, merge cs = some merged ∧ merge cs' = some merged := by
  have hranked : ranked rank cs = ranked rank cs' := h.numbered.ranked_eq hp
  have hsame : merge cs = merge cs' := by
    unfold merge
    rw [← hranked]
    cases ranked rank cs with
    | nil => rfl
    | cons top rest => simp only [foldl_max_perm (hp.map fun c => c.lead.collectedAt)]
  obtain ⟨merged, hmerged⟩ := Option.ne_none_iff_exists'.mp (mt merge_eq_none.mp hne)
  exact ⟨merged, hmerged, hsame ▸ hmerged⟩

private def sampleRecord (id : Nat) (priority : Int) (name city : Option String)
    (extra : Dict (Option Text)) (t : Instant) : Candidate where
  lead :=
    { companyName := name.map String.toList, contactName := none, website := none
      websiteDomain := none, email := none, phone := none, address := none
      city := city.map String.toList, country := none, extra := extra
      source := ⟨"crm".toList, none⟩, collectedAt := t }
  origin := Text.ofNat id
  priority := priority

/-- Three records whose ids are not ordered as their decimal strings are. -/
private def threeRecords : List Candidate :=
  [sampleRecord 11 0 (some "Acme") none [] 5, sampleRecord 3 0 none (some "Oulu") [] 5,
    sampleRecord 7 (-1) (some "Acme Oy") none [] 9]

theorem merge_order_does_not_matter_three :
    ∃ merged, merge threeRecords = some merged ∧ merge threeRecords.reverse = some merged :=
  merge_order_does_not_matter (by decide) (by decide) (List.reverse_perm _).symm

/-- The documented order: higher priority, then collected later, then more complete, then the
lower record id. -/
def Outranks (a b : Candidate) : Prop :=
  b.priority < a.priority ∨ a.priority = b.priority ∧
    (b.lead.collectedAt < a.lead.collectedAt ∨ a.lead.collectedAt = b.lead.collectedAt ∧
      (filled b.lead.toLeadPayload < filled a.lead.toLeadPayload ∨
        filled a.lead.toLeadPayload = filled b.lead.toLeadPayload ∧ a.recordId < b.recordId))

instance (a b : Candidate) : Decidable (Outranks a b) := by
  unfold Outranks
  infer_instance

theorem Outranks.asymm {a b : Candidate} (h : Outranks a b) : ¬Outranks b a := by
  unfold Outranks at *
  grind

/-- `order` lists the candidates of `cs`, the best first. -/
def BestFirst (cs order : List Candidate) : Prop := order.Perm cs ∧ order.Pairwise Outranks

instance (cs order : List Candidate) : Decidable (BestFirst cs order) :=
  inferInstanceAs (Decidable (_ ∧ _))

theorem BestFirst.unique {cs order order' : List Candidate} (h : BestFirst cs order)
    (h' : BestFirst cs order') : order = order' := by
  refine (h.1.trans h'.1.symm).eq_of_pairwise ?_ h.2 h'.2
  intro a b _ _ hab hba
  exact absurd hba hab.asymm

theorem rank_le_iff {a b : Candidate} (ha : a.origin = Text.ofNat a.recordId)
    (hb : b.origin = Text.ofNat b.recordId) (hla : a.recordId < originBound)
    (hlb : b.recordId < originBound) (hne : a.recordId ≠ b.recordId) :
    rank a ≤ rank b ↔ Outranks a b := by
  rw [rank_le, ha, hb, originKey_le hla hlb]
  unfold Outranks
  grind

/-- `sorted` with `_rank` is the documented order. -/
theorem bestFirst_ranked {cs : List Candidate} (h : Identified cs)
    (hbound : ∀ c ∈ cs, c.recordId < originBound) : BestFirst cs (ranked rank cs) := by
  refine ⟨ranked_perm rank cs, ?_⟩
  have hids : ((ranked rank cs).map Candidate.recordId).Nodup :=
    ((ranked_perm rank cs).map _).nodup_iff.mpr h.2
  refine List.Pairwise.imp_of_mem ?_
    ((ranked_sorted rank cs).and (List.pairwise_map.mp hids))
  rintro a b ha hb ⟨hle, hne⟩
  have ha : a ∈ cs := mem_ranked.mp ha
  have hb : b ∈ cs := mem_ranked.mp hb
  exact (rank_le_iff (h.1 a ha) (h.1 b hb) (hbound a ha) (hbound b hb) hne).mp hle

theorem SingleField.name_injective : Function.Injective SingleField.name := by
  intro f f'
  cases f <;> cases f' <;> decide

theorem SingleField.mem_all (f : SingleField) : f ∈ SingleField.all := by
  cases f <;> decide

theorem SingleField.get_mergedPayload (f : SingleField) (cs : List Candidate) :
    f.get (mergedPayload cs) = winningValue f.get cs := by
  cases f <;> rfl

theorem winningValue_eq (f : LeadPayload → Option Text) (cs : List Candidate) :
    winningValue f cs = cs.findSome? fun c => f c.lead.toLeadPayload := by
  unfold winningValue winner firstWith
  induction cs with
  | nil => rfl
  | cons c cs ih =>
      cases h : f c.lead.toLeadPayload with
      | none => simpa [h] using ih
      | some v => simp [h]

theorem get_mergedExtra {cs : List Candidate} (h : ∀ c ∈ cs, c.lead.extra.Keyed) (key : Text) :
    (mergedExtra cs).get key = cs.findSome? fun c => c.lead.extra.get key := by
  unfold mergedExtra
  rw [List.foldl_reverse]
  induction cs with
  | nil => rfl
  | cons c cs ih =>
      obtain ⟨hc, hcs⟩ := List.forall_mem_cons.mp h
      rw [List.foldr_cons, Dict.get_update _ hc, ih hcs, List.findSome?_cons]
      cases c.lead.extra.get key <;> rfl

theorem SingleField.name_ne (f : SingleField) :
    f.name ≠ "website".toList ∧ f.name ≠ "website_domain".toList := by
  cases f <;> decide

private theorem mergedOrigins_eq (cs : List Candidate) :
    mergedOrigins cs =
      (SingleField.all.filterMap fun f =>
          ((winner f.get cs).map Candidate.origin).map fun origin => (f.name, origin)) ++
        match (winner LeadPayload.website cs).map Candidate.origin with
        | some origin => [("website".toList, origin), ("website_domain".toList, origin)]
        | none => [] := by
  unfold mergedOrigins
  simp only [Option.map_map]
  cases winner LeadPayload.website cs <;> rfl

theorem get_mergedOrigins (cs : List Candidate) (f : SingleField) :
    (mergedOrigins cs).get f.name = (winner f.get cs).map Candidate.origin := by
  have hpair (origin : Text) : Dict.get
      [("website".toList, origin), ("website_domain".toList, origin)] f.name = none := by
    rw [Dict.get_eq_none, List.map_cons, List.map_cons, List.map_nil, List.mem_pair]
    rintro (hweb | hdomain)
    · exact f.name_ne.1 hweb
    · exact f.name_ne.2 hdomain
  rw [mergedOrigins_eq, Dict.get_append,
    Dict.get_filterMap SingleField.name_injective fun g => (winner g.get cs).map Candidate.origin,
    if_pos f.mem_all]
  cases (winner LeadPayload.website cs).map Candidate.origin with
  | none => exact Option.or_none
  | some origin => rw [hpair, Option.or_none]

theorem get_mergedOrigins_website {cs : List Candidate} {key : Text}
    (hkey : key = "website".toList ∨ key = "website_domain".toList) :
    (mergedOrigins cs).get key = (winner LeadPayload.website cs).map Candidate.origin := by
  have hsingle (g : SingleField → Option Text) :
      Dict.get (SingleField.all.filterMap fun f => (g f).map fun o => (f.name, o)) key = none := by
    rw [Dict.get_eq_none, List.mem_map]
    rintro ⟨p, hp, rfl⟩
    obtain ⟨f, _, hf⟩ := List.mem_filterMap.mp hp
    obtain ⟨o, _, rfl⟩ := Option.map_eq_some_iff.mp hf
    rcases hkey with hkey | hkey
    · exact f.name_ne.1 hkey
    · exact f.name_ne.2 hkey
  rw [mergedOrigins_eq, Dict.get_append, hsingle fun f => (winner f.get cs).map Candidate.origin]
  cases (winner LeadPayload.website cs).map Candidate.origin with
  | none => rfl
  | some origin =>
      rcases hkey with rfl | rfl
      · rfl
      · rfl

/-- Every column of the merged lead follows the first candidate of `order` that has a value for
it, the website and its domain together. -/
structure Precedence (order : List Candidate) (merged : MergedLead) : Prop where
  single : ∀ f : SingleField, f.get merged.lead.toLeadPayload =
    order.findSome? fun c => f.get c.lead.toLeadPayload
  website : merged.lead.website =
    (firstWith (fun c => c.lead.website) order).bind fun c => c.lead.website
  websiteDomain : merged.lead.websiteDomain =
    (firstWith (fun c => c.lead.website) order).bind fun c => c.lead.websiteDomain
  extra : ∀ key, (merged.lead.extra.get key).join =
    order.findSome? fun c => (c.lead.extra.get key).join
  singleOrigin : ∀ f : SingleField, merged.origins.get f.name =
    (firstWith (fun c => f.get c.lead.toLeadPayload) order).map Candidate.origin
  websiteOrigin : merged.origins.get "website".toList =
    (firstWith (fun c => c.lead.website) order).map Candidate.origin
  websiteDomainOrigin : merged.origins.get "website_domain".toList =
    (firstWith (fun c => c.lead.website) order).map Candidate.origin

/-- Where some candidate has a value under a key, every null under it is outranked by one. -/
def NullsOutranked (cs : List Candidate) : Prop :=
  ∀ key, ∀ a ∈ cs, a.lead.extra.get key = some none →
    (∃ b ∈ cs, (b.lead.extra.get key).join.isSome) →
      ∃ b ∈ cs, (b.lead.extra.get key).join.isSome ∧ Outranks b a

theorem precedence_iff_extra {order : List Candidate} {merged : MergedLead}
    (hpayload : merged.lead.toLeadPayload = mergedPayload order)
    (horigins : merged.origins = mergedOrigins order) :
    Precedence order merged ↔ ∀ key, ((mergedExtra order).get key).join =
      order.findSome? fun c => (c.lead.extra.get key).join := by
  constructor
  · intro h key
    rw [← h.extra key, hpayload]
    rfl
  · intro h
    exact
      { single := fun f => by rw [hpayload, f.get_mergedPayload, winningValue_eq]
        website := by rw [hpayload]; rfl
        websiteDomain := by rw [hpayload]; rfl
        extra := fun key => by rw [hpayload]; exact h key
        singleOrigin := fun f => by rw [horigins, get_mergedOrigins]; rfl
        websiteOrigin := by rw [horigins, get_mergedOrigins_website (.inl rfl)]; rfl
        websiteDomainOrigin := by rw [horigins, get_mergedOrigins_website (.inr rfl)]; rfl }

theorem merge_eq_some {cs : List Candidate} {merged : MergedLead} (h : merge cs = some merged) :
    merged.lead.toLeadPayload = mergedPayload (ranked rank cs) ∧
      merged.origins = mergedOrigins (ranked rank cs) := by
  obtain ⟨top, -, rfl⟩ := merge_some h
  exact ⟨rfl, rfl⟩

/-- A merge follows the documented precedence exactly when no null is ahead of the values. -/
theorem merge_precedence_iff {cs : List Candidate} (hne : cs ≠ []) (h : Identified cs)
    (hbound : ∀ c ∈ cs, c.recordId < originBound) (hextra : ∀ c ∈ cs, c.lead.extra.Keyed) :
    ∃ order merged, BestFirst cs order ∧ merge cs = some merged ∧
      (Precedence order merged ↔ NullsOutranked cs) := by
  obtain ⟨merged, hmerged⟩ := Option.ne_none_iff_exists'.mp (mt merge_eq_none.mp hne)
  obtain ⟨hpayload, horigins⟩ := merge_eq_some hmerged
  have hbest : BestFirst cs (ranked rank cs) := bestFirst_ranked h hbound
  refine ⟨ranked rank cs, merged, hbest, hmerged, ?_⟩
  rw [precedence_iff_extra hpayload horigins]
  unfold NullsOutranked
  refine forall_congr' fun key => ?_
  rw [get_mergedExtra (fun c hc => hextra c (mem_ranked.mp hc)),
    findSome_join_iff (fun _ _ => Outranks.asymm) hbest.2]
  simp only [mem_ranked]

theorem merge_precedence_iff_three :
    ∃ order merged, BestFirst threeRecords order ∧ merge threeRecords = some merged ∧
      (Precedence order merged ↔ NullsOutranked threeRecords) :=
  merge_precedence_iff (by decide) (by decide) (by decide) (by decide)

/-- The better source has the column of the note, but no note for this company. -/
private def emptyNote : List Candidate :=
  [sampleRecord 1 10 (some "Acme") none [("note".toList, none)] 5,
    sampleRecord 2 0 (some "Acme Oy") none [("note".toList, some "call back".toList)] 5]

/-- The note of the second record is lost. -/
theorem merge_precedence_fails :
    Identified emptyNote ∧ BestFirst emptyNote emptyNote ∧
      ∃ merged, merge emptyNote = some merged ∧ ¬Precedence emptyNote merged := by
  refine ⟨by decide, by decide, _, rfl, fun h => ?_⟩
  have hnote := h.extra "note".toList
  revert hnote
  decide

end LeadPipe
