import Mathlib.Data.List.Pairwise
import LeadPipe.Deduplication.Merge

/-!
# What a merge depends on

Two records never share a rank, because their origins are distinct numbers. So the merged
columns depend on the set of candidates alone, and on their instants only through the order
of the instants.
-/

namespace LeadPipe

open Framework

/-- The columns of the merged lead, without its source and its instant. -/
def mergedColumns (cs : List Candidate) : Option LeadPayload :=
  (merge cs).map fun merged => merged.lead.toLeadPayload

theorem mergedColumns_eq (cs : List Candidate) :
    mergedColumns cs = if cs = [] then none else some (mergedPayload (ranked rank cs)) := by
  unfold mergedColumns merge
  cases h : ranked rank cs with
  | nil => simp [ranked_eq_nil.mp h]
  | cons c rest =>
      have hne : cs ≠ [] := fun hnil => by simp [ranked_eq_nil.mpr hnil] at h
      simp [hne]

theorem mergedColumns_some {cs : List Candidate} {merged : MergedLead}
    (h : merge cs = some merged) : mergedColumns cs = some merged.lead.toLeadPayload := by
  simp [mergedColumns, h]

theorem merge_website {cs : List Candidate} {merged : MergedLead} (h : merge cs = some merged) :
    (merged.lead.website = none ∨ ∃ c ∈ cs, merged.lead.website = c.lead.website) ∧
      ∃ c ∈ cs, merged.lead.source = c.lead.source := by
  obtain ⟨top, htop, rfl⟩ := merge_some h
  refine ⟨?_, top, htop, rfl⟩
  cases hw : winner LeadPayload.website (ranked rank cs) with
  | none => exact .inl (by simp [mergedPayload, winningValue, hw])
  | some c =>
      have hc : c ∈ cs := mem_ranked.mp (mem_of_firstWith hw).1
      exact .inr ⟨c, hc, by simp [mergedPayload, winningValue, hw]⟩

private theorem originKey_ofNat (n : Nat) :
    originKey (Text.ofNat n) = (0, (Text.ofNat n).zfill 20) := by
  have hdigit : (Text.ofNat n).isDigit = true := by
    simp only [Text.isDigit, Text.ofNat, Bool.and_eq_true, Bool.not_eq_true',
      List.isEmpty_eq_false_iff, List.all_eq_true]
    refine ⟨Nat.toDigits_ne_nil, fun c hc => ?_⟩
    exact Nat.isDigit_of_mem_toDigits (by decide) (by decide) hc
  simp [originKey, hdigit]

private theorem zfill_value (n : Nat) :
    Nat.ofDigitChars 10 ((Text.ofNat n).zfill 20) 0 = n := by
  simp [Text.zfill, Text.ofNat, Nat.ofDigitChars_append]

theorem originKey_ofNat_injective {m n : Nat}
    (h : originKey (Text.ofNat m) = originKey (Text.ofNat n)) : m = n := by
  rw [originKey_ofNat, originKey_ofNat, Prod.mk.injEq] at h
  rw [← zfill_value m, ← zfill_value n, h.2]

private theorem digit_value {c : Char} (h : c.isDigit = true) :
    '0'.toNat ≤ c.toNat ∧ c.toNat - '0'.toNat < 10 := by
  have hrange : 48 ≤ c.toNat ∧ c.toNat ≤ 57 := by
    simp only [Char.isDigit, Bool.and_eq_true, decide_eq_true_eq] at h
    exact h
  have hzero : '0'.toNat = 48 := rfl
  omega

private theorem digits_lt_iff {xs ys : List Char} (hx : ∀ c ∈ xs, c.isDigit = true)
    (hy : ∀ c ∈ ys, c.isDigit = true) (hlength : xs.length = ys.length) (m n : Nat) :
    Nat.ofDigitChars 10 xs m < Nat.ofDigitChars 10 ys n ↔ m < n ∨ m = n ∧ xs < ys := by
  induction xs generalizing ys m n with
  | nil =>
      obtain rfl : ys = [] := List.length_eq_zero_iff.mp hlength.symm
      simp
  | cons c xs ih =>
      cases ys with
      | nil => cases hlength
      | cons d ys =>
          obtain ⟨hc, hxs⟩ := List.forall_mem_cons.mp hx
          obtain ⟨hd, hys⟩ := List.forall_mem_cons.mp hy
          have hdigitC := digit_value hc
          have hdigitD := digit_value hd
          have hless : c < d ↔ c.toNat < d.toNat := Iff.rfl
          have hequal : c = d ↔ c.toNat = d.toNat := Char.toNat_inj.symm
          rw [Nat.ofDigitChars_cons, Nat.ofDigitChars_cons, ih hxs hys (Nat.succ.inj hlength),
            List.cons_lt_cons_iff, hless, hequal]
          by_cases htail : xs < ys
          · simp only [htail, and_true]
            omega
          · simp only [htail, and_false, or_false]
            omega

/-- From here on the padding of an origin is too short. -/
def originBound : Nat := 100000000000000000000

/-- Padded to one length, origins are compared as numbers. -/
theorem originKey_le {m n : Nat} (hm : m < originBound) (hn : n < originBound) :
    toLex (originKey (Text.ofNat m)) ≤ toLex (originKey (Text.ofNat n)) ↔ m ≤ n := by
  have hlength (k : Nat) (hk : k < originBound) : ((Text.ofNat k).zfill 20).length = 20 := by
    have hshort : (Text.ofNat k).length ≤ 20 :=
      (Nat.length_toDigits_le_iff (by decide) (by decide)).mpr hk
    simp only [Text.zfill, List.length_append, List.length_replicate]
    omega
  have hdigits (k : Nat) : ∀ c ∈ (Text.ofNat k).zfill 20, c.isDigit = true := by
    intro c hc
    rcases List.mem_append.mp hc with hc | hc
    · rw [List.eq_of_mem_replicate hc]
      rfl
    · exact Nat.isDigit_of_mem_toDigits (by decide) (by decide) hc
  have hless := digits_lt_iff (hdigits n) (hdigits m) ((hlength n hn).trans (hlength m hm).symm)
    0 0
  rw [zfill_value, zfill_value] at hless
  simp only [Nat.lt_irrefl, false_or, true_and] at hless
  rw [originKey_ofNat, originKey_ofNat, Prod.Lex.toLex_le_toLex]
  simp only [Nat.lt_irrefl, false_or, true_and]
  rw [← not_lt, ← hless, not_lt]

theorem rank_origin {a b : Candidate} (h : rank a = rank b) :
    originKey a.origin = originKey b.origin := by
  have h' := congrArg (fun r : Rank => (ofLex (ofLex (ofLex r).2).2).2) h
  exact toLex.injective h'

/-- No two candidates are the same record. -/
def Numbered (cs : List Candidate) : Prop :=
  cs.Pairwise fun a b => originKey a.origin ≠ originKey b.origin

theorem Numbered.eq_of_origin {cs : List Candidate} (h : Numbered cs) {a b : Candidate}
    (ha : a ∈ cs) (hb : b ∈ cs) (hkey : originKey a.origin = originKey b.origin) : a = b := by
  have : Std.Symm fun a b : Candidate => originKey a.origin ≠ originKey b.origin :=
    ⟨fun _ _ => Ne.symm⟩
  by_contra hne
  exact h.forall ha hb hne hkey

theorem Numbered.nodup {cs : List Candidate} (h : Numbered cs) : cs.Nodup :=
  h.imp fun hne heq => hne (by rw [heq])

theorem Numbered.map {cs : List Candidate} {g : Candidate → Candidate} (h : Numbered cs)
    (hg : ∀ c ∈ cs, (g c).origin = c.origin) : Numbered (cs.map g) := by
  refine List.pairwise_map.mpr (List.Pairwise.imp_of_mem ?_ h)
  intro a b ha hb hne
  rwa [hg a ha, hg b hb]

theorem Numbered.ranked_eq {cs cs' : List Candidate} (h : Numbered cs) (hp : cs.Perm cs') :
    ranked rank cs = ranked rank cs' :=
  ranked_eq_of_perm hp fun _ ha _ hb hr => h.eq_of_origin ha hb (rank_origin hr)

theorem mergedColumns_perm {cs cs' : List Candidate} (hp : cs.Perm cs') (h : Numbered cs) :
    mergedColumns cs = mergedColumns cs' := by
  rw [mergedColumns_eq, mergedColumns_eq, h.ranked_eq hp]
  have hnil : cs = [] ↔ cs' = [] := ⟨fun h => (h ▸ hp).nil_eq.symm, fun h => (h ▸ hp).eq_nil⟩
  simp only [hnil]

theorem winner_map {g : Candidate → Candidate} {cs : List Candidate}
    (f : LeadPayload → Option Text)
    (hg : ∀ c ∈ cs, (g c).lead.toLeadPayload = c.lead.toLeadPayload) :
    winner f (cs.map g) = (winner f cs).map g := by
  unfold winner
  rw [firstWith_map]
  refine congrArg _ (List.find?_congr fun c hc => ?_)
  simp only [hg c hc]

theorem mergedPayload_map {g : Candidate → Candidate} {cs : List Candidate}
    (hg : ∀ c ∈ cs, (g c).lead.toLeadPayload = c.lead.toLeadPayload) :
    mergedPayload (cs.map g) = mergedPayload cs := by
  have hvalue (f f' : LeadPayload → Option Text) :
      ((winner f (cs.map g)).bind fun c => f' c.lead.toLeadPayload) =
        (winner f cs).bind fun c => f' c.lead.toLeadPayload := by
    rw [winner_map f hg]
    cases hw : winner f cs with
    | none => rfl
    | some c => simp [hg c (mem_of_firstWith hw).1]
  have hextra : mergedExtra (cs.map g) = mergedExtra cs := by
    unfold mergedExtra
    rw [← List.map_reverse, List.foldl_map]
    apply List.foldl_ext
    intro extra c hc
    rw [hg c (List.mem_reverse.mp hc)]
  unfold mergedPayload winningValue
  rw [hextra]
  simp only [LeadPayload.mk.injEq, and_true]
  exact ⟨hvalue _ _, hvalue _ _, hvalue _ _, hvalue _ LeadPayload.websiteDomain, hvalue _ _,
    hvalue _ _, hvalue _ _, hvalue _ _, hvalue _ _⟩

theorem mergedColumns_map {g : Candidate → Candidate} {cs : List Candidate}
    (hg : ∀ c ∈ cs, (g c).lead.toLeadPayload = c.lead.toLeadPayload)
    (horder : ∀ a ∈ cs, ∀ b ∈ cs, rank a ≤ rank b ↔ rank (g a) ≤ rank (g b)) :
    mergedColumns (cs.map g) = mergedColumns cs := by
  rw [mergedColumns_eq, mergedColumns_eq, ← map_ranked g horder,
    mergedPayload_map fun c hc => hg c (mem_ranked.mp hc)]
  simp

theorem rank_le {a b : Candidate} :
    rank a ≤ rank b ↔ b.priority < a.priority ∨ a.priority = b.priority ∧
      (b.lead.collectedAt < a.lead.collectedAt ∨ a.lead.collectedAt = b.lead.collectedAt ∧
        (filled b.lead.toLeadPayload < filled a.lead.toLeadPayload ∨
          filled a.lead.toLeadPayload = filled b.lead.toLeadPayload ∧
            toLex (originKey a.origin) ≤ toLex (originKey b.origin))) := by
  simp only [rank, Prod.Lex.toLex_le_toLex, Int.neg_lt_neg_iff, Int.neg_inj, Int.ofNat_lt,
    Int.ofNat_inj]

/-- Candidates that are paired with candidates of the same payloads, ranked alike, merge alike. -/
theorem mergedColumns_paired {cs cs' : List Candidate} (h : Numbered cs) (h' : Numbered cs')
    (pair : Candidate → Candidate → Prop) (hthere : ∀ c ∈ cs, ∃ c' ∈ cs', pair c c')
    (hback : ∀ c' ∈ cs', ∃ c ∈ cs, pair c c')
    (hpayload : ∀ c c', pair c c' → c'.lead.toLeadPayload = c.lead.toLeadPayload)
    (horder : ∀ a ∈ cs, ∀ a' ∈ cs', pair a a' → ∀ b ∈ cs, ∀ b' ∈ cs', pair b b' →
      (rank a ≤ rank b ↔ rank a' ≤ rank b')) :
    mergedColumns cs = mergedColumns cs' := by
  choose! g hg using hthere
  have hsame {a b : Candidate} (ha : a ∈ cs) (hb : b ∈ cs) {b' : Candidate} (hb' : b' ∈ cs')
      (hpair : pair b b') (heq : rank (g a) = rank b') : a = b := by
    have hle := (horder a ha _ (hg a ha).1 (hg a ha).2 b hb b' hb' hpair).mpr heq.le
    have hge := (horder b hb b' hb' hpair a ha _ (hg a ha).1 (hg a ha).2).mpr heq.ge
    exact h.eq_of_origin ha hb (rank_origin (le_antisymm hle hge))
  have hnodup : (cs.map g).Nodup := by
    refine List.Nodup.map_on (fun a ha b hb heq => ?_) h.nodup
    exact hsame ha hb (hg b hb).1 (hg b hb).2 (congrArg rank heq)
  have hmem : ∀ c', c' ∈ cs.map g ↔ c' ∈ cs' := by
    intro c'
    rw [List.mem_map]
    constructor
    · rintro ⟨c, hc, rfl⟩
      exact (hg c hc).1
    · intro hc'
      obtain ⟨c, hc, hpair⟩ := hback c' hc'
      have hle := (horder c hc _ (hg c hc).1 (hg c hc).2 c hc c' hc' hpair).mp le_rfl
      have hge := (horder c hc c' hc' hpair c hc _ (hg c hc).1 (hg c hc).2).mp le_rfl
      exact ⟨c, hc, h'.eq_of_origin (hg c hc).1 hc' (rank_origin (le_antisymm hle hge))⟩
  rw [← mergedColumns_map (g := g) (fun c hc => hpayload c _ (hg c hc).2) fun a ha b hb =>
    horder a ha _ (hg a ha).1 (hg a ha).2 b hb _ (hg b hb).1 (hg b hb).2]
  exact (mergedColumns_perm ((List.perm_ext_iff_of_nodup h'.nodup hnodup).mpr fun c' =>
    (hmem c').symm) h').symm

/-- A candidate without the name and the address of its source, which no column depends on. -/
def Candidate.unsourced (c : Candidate) : Candidate :=
  { c with lead := { c.lead with source := ⟨[], none⟩ } }

theorem mergedColumns_unsourced (cs : List Candidate) :
    mergedColumns (cs.map Candidate.unsourced) = mergedColumns cs :=
  mergedColumns_map (fun _ _ => rfl) fun _ _ _ _ => Iff.rfl

theorem mergedColumns_congr {cs cs' : List Candidate} (h : Numbered cs) (h' : Numbered cs')
    (hsame : ∀ c, c ∈ cs.map Candidate.unsourced ↔ c ∈ cs'.map Candidate.unsourced) :
    mergedColumns cs = mergedColumns cs' := by
  have hn : Numbered (cs.map Candidate.unsourced) := h.map fun _ _ => rfl
  have hn' : Numbered (cs'.map Candidate.unsourced) := h'.map fun _ _ => rfl
  rw [← mergedColumns_unsourced cs, ← mergedColumns_unsourced cs']
  exact mergedColumns_perm ((List.perm_ext_iff_of_nodup hn.nodup hn'.nodup).mpr hsame) hn

/-- The same record, collected at another instant or under another name of its source. -/
structure Candidate.Again (c c' : Candidate) : Prop where
  payload : c'.lead.toLeadPayload = c.lead.toLeadPayload
  origin : c'.origin = c.origin
  priority : c'.priority = c.priority

theorem Candidate.Again.rank_le {a a' b b' : Candidate} (ha : a.Again a') (hb : b.Again b')
    (hle : a.lead.collectedAt ≤ b.lead.collectedAt ↔ a'.lead.collectedAt ≤ b'.lead.collectedAt)
    (hge : b.lead.collectedAt ≤ a.lead.collectedAt ↔ b'.lead.collectedAt ≤ a'.lead.collectedAt) :
    rank a ≤ rank b ↔ rank a' ≤ rank b' := by
  have hlt : b.lead.collectedAt < a.lead.collectedAt ↔
      b'.lead.collectedAt < a'.lead.collectedAt := by
    rw [← not_le, ← not_le, hle]
  have heq : a.lead.collectedAt = b.lead.collectedAt ↔
      a'.lead.collectedAt = b'.lead.collectedAt := by
    rw [le_antisymm_iff, le_antisymm_iff, hle, hge]
  rw [LeadPipe.rank_le, LeadPipe.rank_le, ha.payload, ha.origin, ha.priority, hb.payload,
    hb.origin, hb.priority, hlt, heq]

theorem mergedColumns_again {cs cs' : List Candidate} (h : Numbered cs) (h' : Numbered cs')
    (hthere : ∀ c ∈ cs, ∃ c' ∈ cs', c.Again c') (hback : ∀ c' ∈ cs', ∃ c ∈ cs, c.Again c')
    (htime : ∀ a ∈ cs, ∀ a' ∈ cs', a.Again a' → ∀ b ∈ cs, ∀ b' ∈ cs', b.Again b' →
      (a.lead.collectedAt ≤ b.lead.collectedAt ↔ a'.lead.collectedAt ≤ b'.lead.collectedAt)) :
    mergedColumns cs = mergedColumns cs' := by
  apply mergedColumns_paired h h' Candidate.Again hthere hback
  · intro c c' hagain
    exact hagain.payload
  · intro a ha a' ha' hagain b hb b' hb' hagain'
    exact hagain.rank_le hagain' (htime a ha a' ha' hagain b hb b' hb' hagain')
      (htime b hb b' hb' hagain' a ha a' ha' hagain)

/-- A column of the merge with one more candidate is that candidate's or what it was. -/
theorem winning_snoc {cs : List Candidate} {x : Candidate} (h : Numbered (cs ++ [x]))
    (f f' : LeadPayload → Option Text) :
    ((winner f (ranked rank (cs ++ [x]))).bind fun c => f' c.lead.toLeadPayload) =
        f' x.lead.toLeadPayload ∨
      ((winner f (ranked rank (cs ++ [x]))).bind fun c => f' c.lead.toLeadPayload) =
        (winner f (ranked rank cs)).bind fun c => f' c.lead.toLeadPayload := by
  rw [h.ranked_eq (List.perm_append_singleton x cs)]
  have hone : winner f (ranked rank (x :: cs)) = some x ∨
      winner f (ranked rank (x :: cs)) = winner f (ranked rank cs) := firstWith_ranked_cons x cs
  rcases hone with hx | hcs
  · left
    rw [hx, Option.bind_some]
  · right
    rw [hcs]

end LeadPipe
