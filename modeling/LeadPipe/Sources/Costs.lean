import LeadPipe.Fetch.Costs
import LeadPipe.Sources.Html
import LeadPipe.Sources.Pagination
import Mathlib.Tactic.Ring

/-!
# What a collection costs

Whatever the servers answer, a collection reads no more listings than its configuration allows, and
none twice; it sends no more requests than the redirects and the retries of so many pages take; and
one that is to stop after some records yields no more of them.
-/

namespace LeadPipe

open Framework

variable {web : Web} {policy : FetchPolicy} (prices : Prices)

namespace Fetch.AtMost

theorem loadPage (name url : Text) (headers : Dict Text) :
    Fetch.AtMost prices (policy.visit prices) (LeadPipe.loadPage web policy name url headers) := by
  refine .bind_free (get prices web policy url headers).attempt fun tried => ?_
  cases tried with
  | error e =>
      cases e with
      | fetch | source | transport | other => exact .raise _
  | ok response =>
      dsimp only
      split
      · exact .raise _
      · exact .pure _

end Fetch.AtMost

namespace ApiSource

variable (source : ApiSource)

theorem load_atMost (url : Text) :
    Fetch.AtMost prices (policy.visit prices) (source.load web policy url) := by
  refine .bind_free (Fetch.AtMost.loadPage prices source.name url source.options.headers)
    fun response => .free_bind (.ask (Nat.le_refl 0)) fun _ => ?_
  cases web.loads response.text with
  | ok payload => exact .pure _
  | error failure =>
      cases failure with
      | decodeError message => exact .raise _
      | other message => exact .raise _

theorem emit_atMost (hfree : prices.yielded = 0) (url : Text) (collectedAt : Instant)
    (items : List Json) : Fetch.AtMost prices 0 (source.emit web url collectedAt items) := by
  induction items with
  | nil => exact .pure _
  | cons item items ih =>
      exact .free_bind (.lift _) fun record => .free_bind (.ask (Nat.le_of_eq hfree)) fun _ => ih

theorem pages_atMost (hfree : prices.yielded = 0) (collectedAt : Instant) (left : Nat)
    (seen : List Text) (next : Option Text) :
    Fetch.AtMost prices (left * policy.visit prices)
      (source.pages web policy collectedAt left seen next) := by
  induction left generalizing seen next with
  | zero =>
      unfold pages
      exact .pure _
  | succ left ih =>
      cases next with
      | none => exact .pure _
      | some url =>
          unfold pages
          split
          · exact .pure _
          · have hpage : Fetch.AtMost prices (policy.visit prices +
                left * policy.visit prices) (do
                  let payload ← source.load web policy url
                  source.listing web collectedAt url payload fun next =>
                    source.pages web policy collectedAt left (url :: seen) next : Fetch Unit) := by
              refine .bind (source.load_atMost prices url) fun payload => ?_
              refine .free_bind (.lift _) fun items => ?_
              refine .free_bind (source.emit_atMost prices hfree url collectedAt items) fun _ => ?_
              exact .free_bind (.lift _) fun next => ih (url :: seen) next
            refine hpage.mono ?_
            rw [Nat.add_mul left, Nat.one_mul, Nat.add_comm]

theorem collect_atMost (hfree : prices.yielded = 0) (collectedAt : Instant) :
    Fetch.AtMost prices (source.options.maxPages.toNat * policy.visit prices)
      (source.collect web policy collectedAt) :=
  .free_bind (.lift _) fun first => source.pages_atMost prices hfree collectedAt _ [] (some first)

end ApiSource

namespace HtmlSource

variable (source : HtmlSource)

theorem load_atMost (url : Text) :
    Fetch.AtMost prices (policy.visit prices) (source.load web policy url) :=
  .bind_free (Fetch.AtMost.loadPage prices source.name url source.options.headers) fun _ => .pure _

theorem detailed_atMost (fields : Dict (Option Text)) (collectedAt : Instant) (url : Text) :
    Fetch.AtMost prices (policy.visit prices)
      (source.detailed web policy fields collectedAt url) := by
  refine .bind_free (Dialogue.AtMost.attempt
    (.bind_free (source.load_atMost prices url) fun _ => .lift _)) fun tried => ?_
  cases tried with
  | ok detail => exact .free_bind (.lift _) fun fields => .pure _
  | error e =>
      cases e with
      | source message => exact .pure _
      | fetch | transport | other => exact .raise _

theorem toRecord_atMost (node : web.html.Node) (url : Text) (collectedAt : Instant) :
    Fetch.AtMost prices (policy.visit prices)
      (source.toRecord web policy node url collectedAt) := by
  have hrecord : Fetch.AtMost prices (policy.visit prices)
      (source.record web policy node url collectedAt) := by
    refine .free_bind (.lift _) fun fields => .free_bind (.lift _) fun _ => ?_
    refine .free_bind (.lift _) fun detail => ?_
    cases detail with
    | none => exact .pure _
    | some detail => exact source.detailed_atMost prices fields collectedAt detail
  refine .bind_free hrecord.attempt fun tried => ?_
  cases tried with
  | ok item => exact .pure _
  | error e => exact .free_bind (.lift _) fun _ => .pure _

/-- What is left for records when there are so many; one is yielded before it is asked whether they
are enough. -/
def allowance (policy : FetchPolicy) (bound : Int) (emitted : Nat) : Nat :=
  max (bound.toNat - emitted) 1 * (policy.visit prices + prices.yielded)

def remainder (policy : FetchPolicy) (bound : Int) : Except Raised (Option Nat) → Nat
  | .ok (some emitted) => allowance prices policy bound emitted
  | _ => 0

variable {bound : Int}

theorem le_allowance (policy : FetchPolicy) (bound : Int) (emitted : Nat) :
    policy.visit prices + prices.yielded ≤ allowance prices policy bound emitted :=
  Nat.le_mul_of_pos_left _ (Nat.le_max_right _ 1)

theorem allowance_succ {emitted : Nat} (hmore : ((emitted + 1 : Nat) : Int) < bound) :
    policy.visit prices + prices.yielded + allowance prices policy bound (emitted + 1) =
      allowance prices policy bound emitted := by
  have hleft : max (bound.toNat - emitted) 1 = max (bound.toNat - (emitted + 1)) 1 + 1 := by
    omega
  rw [allowance, allowance, hleft, Nat.add_mul, Nat.one_mul, Nat.add_comm]

theorem enough_eq (hmax : source.options.maxItems = some bound) (hzero : bound ≠ 0)
    (emitted : Int) : source.enough emitted = decide (bound ≤ emitted) := by
  simp [enough, hmax, hzero]

theorem emit_spends (hmax : source.options.maxItems = some bound) (hzero : bound ≠ 0)
    (url : Text) (collectedAt : Instant) (nodes : List web.html.Node) (emitted : Nat) :
    Dialogue.Spends prices.cost (remainder prices policy bound)
      (source.emit web policy url collectedAt nodes emitted)
      (allowance prices policy bound emitted) := by
  induction nodes generalizing emitted with
  | nil => exact Nat.le_refl _
  | cons node nodes ih =>
      have hturn (k : Nat) (hgoOn : Dialogue.Spends prices.cost (remainder prices policy bound)
          (if source.enough (emitted + 1) then return none
            else source.emit web policy url collectedAt nodes (emitted + 1)) k) :
          Dialogue.Spends prices.cost (remainder prices policy bound)
            (source.emit web policy url collectedAt (node :: nodes) emitted)
            (policy.visit prices + (prices.yielded + k)) := by
        refine Dialogue.Spends.bind ((source.toRecord_atMost prices node url collectedAt).frame _)
          (fun item => ?_) fun _ => Nat.zero_le _
        rw [Nat.zero_add]
        refine ⟨Nat.le_add_right _ k, fun _ => ?_⟩
        rw [show prices.yielded + k - prices.cost (.note (.yielded item)) = k from
          Nat.add_sub_cancel_left prices.yielded k]
        exact hgoOn
      rw [source.enough_eq hmax hzero] at hturn
      by_cases hdone : bound ≤ (emitted : Int) + 1
      · rw [if_pos (decide_eq_true hdone)] at hturn
        exact (hturn 0 (Nat.le_refl 0)).mono (le_allowance prices policy bound emitted)
          fun _ => Nat.le_refl _
      · rw [if_neg (by simpa using hdone)] at hturn
        refine (hturn _ (ih (emitted + 1))).mono ?_ fun _ => Nat.le_refl _
        rw [← Nat.add_assoc, allowance_succ prices (by push_cast; omega)]

theorem pages_atMost (hmax : source.options.maxItems = some bound) (hzero : bound ≠ 0)
    (collectedAt : Instant) (left : Nat) (seen : List Text) (emitted : Nat) (next : Option Text) :
    Fetch.AtMost prices
      (left * policy.visit prices + allowance prices policy bound emitted)
      (source.pages web policy collectedAt left seen emitted next) := by
  induction left generalizing seen emitted next with
  | zero =>
      unfold pages
      exact .pure _
  | succ left ih =>
      cases next with
      | none => exact .pure _
      | some url =>
          unfold pages
          split
          · exact .pure _
          · have hrecords (text : Text) : Fetch.AtMost prices
                (allowance prices policy bound emitted +
                  left * policy.visit prices)
                (source.listing web policy collectedAt url text emitted fun emitted next =>
                  source.pages web policy collectedAt left (url :: seen) emitted next) := by
              refine .free_bind (.lift _) fun soup => .free_bind (.lift _) fun nodes => ?_
              refine Dialogue.Spends.bind
                ((source.emit_spends prices hmax hzero url collectedAt nodes emitted).frame _)
                (fun counted => ?_) fun _ => Nat.zero_le _
              cases counted with
              | none => exact Dialogue.AtMost.pure _
              | some emitted =>
                  refine Dialogue.AtMost.free_bind (.lift _) fun next => ?_
                  exact (ih (url :: seen) emitted next).mono (Nat.le_of_eq (Nat.add_comm _ _))
            have hpage : Fetch.AtMost prices (policy.visit prices +
                (allowance prices policy bound emitted + left * policy.visit prices)) (do
                  let text ← source.load web policy url
                  Fetch.note (.listed url text)
                  source.listing web policy collectedAt url text emitted fun emitted next =>
                    source.pages web policy collectedAt left (url :: seen) emitted next :
                    Fetch Unit) := by
              refine .bind (source.load_atMost prices url) fun text => ?_
              exact .free_bind (.ask (Nat.le_refl 0)) fun _ => hrecords text
            refine hpage.mono ?_
            rw [Nat.add_mul left, Nat.one_mul]
            omega

theorem collect_atMost (hmax : source.options.maxItems = some bound) (hzero : bound ≠ 0)
    (collectedAt : Instant) :
    Fetch.AtMost prices (source.options.maxPages.toNat * policy.visit prices +
        max bound.toNat 1 * (policy.visit prices + prices.yielded))
      (source.collect web policy collectedAt) :=
  source.pages_atMost prices hmax hzero collectedAt _ [] 0 _

end HtmlSource

/-- Between the two, at most so many listings were read, none twice and none of those before. -/
def Fresh (left : Nat) (seen : List Text) (h h' : Trace) : Prop :=
  ∃ new, listings h' = listings h ++ new ∧ new.length ≤ left ∧ (new.map Prod.fst).Nodup ∧
    ∀ url ∈ new.map Prod.fst, url ∉ seen

namespace Fresh

variable {left : Nat} {seen : List Text} {h h₁ h₂ h' : Trace} {url text : Text}

theorem same (hsame : listings h' = listings h) : Fresh left seen h h' :=
  ⟨[], by rw [hsame, List.append_nil], Nat.zero_le _, List.nodup_nil, nofun⟩

theorem trans_same (hfresh : Fresh left seen h h₁) (hsame : listings h' = listings h₁) :
    Fresh left seen h h' := by
  obtain ⟨new, hnew, hrest⟩ := hfresh
  exact ⟨new, hsame.trans hnew, hrest⟩

theorem same_trans (hsame : listings h₁ = listings h) (hfresh : Fresh left seen h₁ h') :
    Fresh left seen h h' := by
  obtain ⟨new, hnew, hrest⟩ := hfresh
  exact ⟨new, hnew.trans (by rw [hsame]), hrest⟩

theorem cons (hnew : url ∉ seen) (hlisted : listings h₁ = listings h ++ [(url, text)])
    (hrest : Fresh left (url :: seen) h₁ h') : Fresh (left + 1) seen h h' := by
  obtain ⟨new, hlistings, hlength, hnodup, hother⟩ := hrest
  refine ⟨(url, text) :: new, ?_, Nat.succ_le_succ hlength, ?_, ?_⟩
  · rw [hlistings, hlisted, List.append_assoc, List.singleton_append]
  · exact List.nodup_cons.mpr ⟨fun hmem => hother url hmem List.mem_cons_self, hnodup⟩
  · intro u hu
    rcases List.mem_cons.mp hu with rfl | hu
    · exact hnew
    · exact fun hseen => hother u hu (List.mem_cons_of_mem _ hseen)

theorem single (hnew : url ∉ seen) (hlisted : listings h₁ = listings h ++ [(url, text)]) :
    Fresh (left + 1) seen h h₁ :=
  cons hnew hlisted (.same rfl)

end Fresh

theorem ApiSource.pages_fresh (source : ApiSource) (collectedAt : Instant) (left : Nat)
    (seen : List Text) (next : Option Text) (h : Trace) :
    Dialogue.Ensures (fun _ _ => True) (fun h' _ => Fresh left seen h h')
      (source.pages web policy collectedAt left seen next) h := by
  induction left generalizing seen next h with
  | zero =>
      unfold pages
      exact .same rfl
  | succ left ih =>
      cases next with
      | none => exact .same rfl
      | some url =>
          unfold pages
          split
          · exact .same rfl
          · rename_i hseen
            have hnew : url ∉ seen := by simpa using hseen
            refine (load_lists url h).seq (fun h₁ payload _ hpayload => ?_) fun h₁ e _ hfailed => ?_
            · obtain ⟨text, hlisted, -⟩ := hpayload
              apply Dialogue.Ensures.lift_bind
              cases source.items payload url with
              | error e => exact .single hnew hlisted
              | ok items =>
                  refine (emit_lists url collectedAt items h₁).seq (fun h₂ _ _ hsame => ?_)
                    fun h₂ e _ hsame => (Fresh.single hnew hlisted).trans_same hsame
                  apply Dialogue.Ensures.lift_bind
                  cases source.nextUrl web payload url items.length with
                  | error e => exact (Fresh.single hnew hlisted).trans_same hsame
                  | ok next =>
                      exact (ih (url :: seen) next h₂).mono (fun _ _ _ hok => hok)
                        fun h' out _ hrest => .cons hnew hlisted (.same_trans hsame hrest)
            · rcases hfailed with hsame | ⟨text, hlisted⟩
              · exact .same hsame
              · exact .single hnew hlisted

namespace HtmlSource

variable (source : HtmlSource)

theorem toRecord_unmarked (node : web.html.Node) (url : Text) (collectedAt : Instant) :
    Unmarked (source.toRecord web policy node url collectedAt) := by
  have hdetailed (fields : Dict (Option Text)) (detail : Text) :
      Unmarked (source.detailed web policy fields collectedAt detail) := by
    refine .bind (Dialogue.Only.attempt
      (Unmarked.bind (source.load_unmarked detail) fun _ => .lift _)) fun tried => ?_
    cases tried with
    | ok detail => exact .bind (.lift _) fun _ => trivial
    | error e =>
        cases e with
        | fetch | source | transport | other => trivial
  have hrecord : Unmarked (source.record web policy node url collectedAt) := by
    refine .bind (.lift _) fun fields => .bind (.lift _) fun _ => .bind (.lift _) fun detail => ?_
    cases detail with
    | none => trivial
    | some detail => exact hdetailed fields detail
  refine .bind (Dialogue.Only.attempt hrecord) fun tried => ?_
  cases tried with
  | ok item => trivial
  | error e => exact .bind (.lift _) fun _ => trivial

theorem emit_lists (url : Text) (collectedAt : Instant) (nodes : List web.html.Node)
    (emitted : Nat) (h : Trace) :
    Dialogue.Ensures (fun _ _ => True) (fun h' _ => listings h' = listings h)
      (source.emit web policy url collectedAt nodes emitted) h := by
  induction nodes generalizing emitted h with
  | nil => rfl
  | cons node nodes ih =>
      refine ((source.toRecord_unmarked node url collectedAt).listings h).seq
        (fun h₁ item _ hsame u => ⟨trivial, ?_⟩) fun h₁ e _ hsame => hsame
      have hyielded : listings (h₁ ++ [marked (.yielded item)]) = listings h := by
        rw [← hsame]
        simp [listings, marked]
      split
      · exact hyielded
      · exact (ih (emitted + 1) _).mono (fun _ _ _ hok => hok)
          fun h' out _ hrest => hrest.trans hyielded

theorem pages_fresh (collectedAt : Instant) (left : Nat) (seen : List Text) (emitted : Nat)
    (next : Option Text) (h : Trace) :
    Dialogue.Ensures (fun _ _ => True) (fun h' _ => Fresh left seen h h')
      (source.pages web policy collectedAt left seen emitted next) h := by
  induction left generalizing seen emitted next h with
  | zero =>
      unfold pages
      exact .same rfl
  | succ left ih =>
      cases next with
      | none => exact .same rfl
      | some url =>
          unfold pages
          split
          · exact .same rfl
          · rename_i hseen
            have hnew : url ∉ seen := by simpa using hseen
            refine ((source.load_unmarked url).listings h).seq (fun h₁ text _ hsame u => ?_)
              fun h₁ e _ hsame => .same hsame
            have hlisted := listings_marked h₁ url text
            rw [hsame] at hlisted
            refine ⟨trivial, Dialogue.Ensures.lift_bind ?_⟩
            cases parse web text source.options.parser with
            | error e => exact .single hnew hlisted
            | ok soup =>
                apply Dialogue.Ensures.lift_bind
                cases select web soup source.options.itemSelector with
                | error e => exact .single hnew hlisted
                | ok nodes =>
                    refine (source.emit_lists url collectedAt nodes emitted _).seq
                      (fun h₂ counted _ hsame => ?_)
                      fun h₂ e _ hsame => (Fresh.single hnew hlisted).trans_same hsame
                    cases counted with
                    | none => exact (Fresh.single hnew hlisted).trans_same hsame
                    | some emitted =>
                        apply Dialogue.Ensures.lift_bind
                        cases source.nextUrl web soup url with
                        | error e => exact (Fresh.single hnew hlisted).trans_same hsame
                        | ok next =>
                            exact (ih (url :: seen) emitted next h₂).mono (fun _ _ _ hok => hok)
                              fun h' out _ hrest => .cons hnew hlisted (.same_trans hsame hrest)

end HtmlSource

def isRobotsRequest (e : Framework.Event Call.Answer) : Bool :=
  match e.call with
  | .request .robots _ _ => true
  | _ => false

def isYield (e : Framework.Event Call.Answer) : Bool :=
  match e.call with
  | .note (.yielded _) => true
  | _ => false

theorem spent_eq (trace : Trace) :
    Dialogue.spent prices.cost trace = prices.page * pageRequests trace +
      prices.robots * trace.countP isRobotsRequest + prices.yielded * trace.countP isYield := by
  induction trace with
  | nil => rfl
  | cons e trace ih =>
      have hprice : prices.cost e.call = prices.page * (if isPageRequest e then 1 else 0) +
          prices.robots * (if isRobotsRequest e then 1 else 0) +
            prices.yielded * (if isYield e then 1 else 0) := by
        obtain ⟨c, a⟩ := e
        cases c with
        | request purpose url headers =>
            cases purpose <;> simp [Prices.cost, isPageRequest, isRobotsRequest, isYield]
        | note n => cases n <;> simp [Prices.cost, isPageRequest, isRobotsRequest, isYield]
        | cached | remember | clock | wait | sleep => rfl
      rw [Dialogue.spent, hprice, ih, pageRequests, pageRequests]
      simp only [List.countP_cons]
      ring

/-- At most so many listings were read, and none twice. -/
def ListsOnce (maxPages : Int) (trace : Trace) : Prop :=
  (listings trace).length ≤ maxPages.toNat ∧ ((listings trace).map Prod.fst).Nodup

/-- The requests for so many pages, each with its redirects and retries. -/
def FetchPolicy.Allows (policy : FetchPolicy) (pages : Nat) (trace : Trace) : Prop :=
  pageRequests trace ≤ pages * ((policy.maxRedirects.toNat + 1) * policy.attempts) ∧
    trace.countP isRobotsRequest ≤ pages * (policy.maxRedirects.toNat + 1)

theorem Fresh.listsOnce {maxPages : Int} {trace : Trace}
    (h : Fresh maxPages.toNat [] [] trace) : ListsOnce maxPages trace := by
  obtain ⟨new, hnew, hlength, hnodup, -⟩ := h
  have hlistings : listings trace = new := by simpa [listings] using hnew
  rw [ListsOnce, hlistings]
  exact ⟨hlength, hnodup⟩

/-- Whatever the servers answer: a collection reads at most as many listings as it is configured
to, and none twice. From an API it takes the requests of so many pages. From HTML, with a bound on
the records, it takes those of so many pages and one more for each record, and yields no more
records than the bound; a bound below one stops it after the first. -/
theorem collections_are_bounded (web : Web) (policy : FetchPolicy) :
    (∀ (source : ApiSource) collectedAt trace out,
      (source.collect web policy collectedAt).Run trace out →
        ListsOnce source.options.maxPages trace ∧
          policy.Allows source.options.maxPages.toNat trace) ∧
      ∀ (source : HtmlSource) collectedAt trace out,
        (source.collect web policy collectedAt).Run trace out →
          ListsOnce source.options.maxPages trace ∧
            ∀ bound, source.options.maxItems = some bound → bound ≠ 0 →
              trace.countP isYield ≤ max bound.toNat 1 ∧
                policy.Allows (source.options.maxPages.toNat + max bound.toNat 1) trace := by
  refine ⟨fun source collectedAt trace out hrun => ⟨?_, ?_, ?_⟩,
    fun source collectedAt trace out hrun => ⟨?_, fun bound hmax hzero => ⟨?_, ?_, ?_⟩⟩⟩
  · cases hfirst : source.firstUrl web with
    | error e =>
        rw [ApiSource.collect, hfirst] at hrun
        obtain ⟨rfl, rfl⟩ := hrun
        exact ⟨Nat.zero_le _, List.nodup_nil⟩
    | ok first =>
        rw [ApiSource.collect, hfirst] at hrun
        exact (((source.pages_fresh collectedAt _ [] (some first) []).run hrun).2).listsOnce
  · have hspent := (source.collect_atMost ⟨1, 0, 0⟩ rfl collectedAt).run hrun
    simpa [spent_eq, FetchPolicy.visit] using hspent
  · have hspent := (source.collect_atMost ⟨0, 1, 0⟩ rfl collectedAt).run hrun
    simpa [spent_eq, FetchPolicy.visit] using hspent
  · exact (((source.pages_fresh collectedAt _ [] 0 _ []).run hrun).2).listsOnce
  · have hspent := (source.collect_atMost ⟨0, 0, 1⟩ hmax hzero collectedAt).run hrun
    simpa [spent_eq, FetchPolicy.visit] using hspent
  · have hspent := (source.collect_atMost ⟨1, 0, 0⟩ hmax hzero collectedAt).run hrun
    simpa [spent_eq, FetchPolicy.visit, Nat.add_mul] using hspent
  · have hspent := (source.collect_atMost ⟨0, 1, 0⟩ hmax hzero collectedAt).run hrun
    simpa [spent_eq, FetchPolicy.visit, Nat.add_mul] using hspent

private def circularWeb : Web :=
  { Web.plain with
    html :=
      { Node := Text
        parse := fun text _ => .ok text
        select := fun node _ => .ok [node, node]
        selectOne := fun node _ => .ok (some node)
        get := fun _ _ => some (.inl "/leads".toList)
        getText := id
        render := .ok
        str := List.flatten } }

private def circularServer : Surroundings where
  server _ url := .answered (.of url 200 [] "")
  entries _ := none
  clock _ := 0

private def circularSource : HtmlSource where
  name := "html".toList
  mapping := []
  options :=
    { url := "http://a.fi/leads".toList
      itemSelector := "li".toList
      detailLink := some "@href".toList
      detailMapping := []
      nextSelector := some "a".toList
      maxPages := 20
      maxItems := some 3
      headers := []
      parser := "lxml".toList }

theorem collections_are_bounded_circular :
    let run := circularServer.run (circularSource.collect circularWeb .default 0)
    run.2 = .ok () ∧ (listings run.1).length = 1 ∧ run.1.countP isYield = 2 ∧
      ListsOnce 20 run.1 ∧ run.1.countP isYield ≤ 3 ∧
        FetchPolicy.Allows .default (20 + 3) run.1 := by
  have hrun := (collections_are_bounded circularWeb .default).2 circularSource 0 _ _
    (Dialogue.exec_run circularServer.answer _ [])
  have hends : (circularServer.run (circularSource.collect circularWeb .default 0)).2 = .ok () ∧
      (listings (circularServer.run (circularSource.collect circularWeb .default 0)).1).length = 1 ∧
        (circularServer.run
          (circularSource.collect circularWeb .default 0)).1.countP isYield = 2 := by
    decide +kernel
  exact ⟨hends.1, hends.2.1, hends.2.2, hrun.1, hrun.2 3 rfl (by decide)⟩

end LeadPipe
