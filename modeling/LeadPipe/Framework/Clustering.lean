import Mathlib.Data.Set.Insert
import Mathlib.Logic.Relation

/-!
# Clusterings

Items belong to owners, and a relation says which items meet. A clustering is chained when two
items of one owner are connected by items of that owner that meet one after the other, and it is
closed when items that meet have one owner. Items arrive one at a time.
-/

namespace LeadPipe.Framework

open Relation

variable {α β α' β' : Type} {items : Set α} {owner : α → β} {meets : α → α → Prop}
  {items' : Set α'} {owner' : α' → β'} {meets' : α' → α' → Prop}

def Adjacent (items : Set α) (owner : α → β) (meets : α → α → Prop) (a b : α) : Prop :=
  a ∈ items ∧ b ∈ items ∧ owner a = owner b ∧ meets a b

def Chained (items : Set α) (owner : α → β) (meets : α → α → Prop) : Prop :=
  ∀ a ∈ items, ∀ b ∈ items, owner a = owner b → ReflTransGen (Adjacent items owner meets) a b

/-- Items that meet have one owner. -/
def Closed (items : Set α) (owner : α → β) (meets : α → α → Prop) : Prop :=
  ∀ a ∈ items, ∀ b ∈ items, meets a b → owner a = owner b

theorem Adjacent.subset {more : Set α} (hsub : items ⊆ more) {a b : α}
    (h : Adjacent items owner meets a b) : Adjacent more owner meets a b :=
  ⟨hsub h.1, hsub h.2.1, h.2.2⟩

private theorem adjacent_symm (items : Set α) (owner : α → β)
    (hsymm : ∀ a b, meets a b → meets b a) : Std.Symm (Adjacent items owner meets) :=
  ⟨fun a b h => ⟨h.2.1, h.1, h.2.2.1.symm, hsymm a b h.2.2.2⟩⟩

/-- A new item joins an owner through one of its items that it meets, or it has an owner of its
own. -/
theorem Chained.insert (h : Chained items owner meets) (hsymm : ∀ a b, meets a b → meets b a)
    {x : α} (hx : (∃ a ∈ items, owner a = owner x ∧ meets a x) ∨ ∀ a ∈ items, owner a ≠ owner x) :
    Chained (insert x items) owner meets := by
  have hold : ∀ a ∈ items, ∀ b ∈ items, owner a = owner b →
      ReflTransGen (Adjacent (Insert.insert x items) owner meets) a b := by
    intro a ha b hb hab
    exact ReflTransGen.mono (fun _ _ hstep => hstep.subset (Set.subset_insert x items)) _ _
      (h a ha b hb hab)
  have hnew : ∀ a ∈ items, owner a = owner x →
      ReflTransGen (Adjacent (Insert.insert x items) owner meets) a x := by
    intro a ha hax
    rcases hx with ⟨c, hc, hcx, hmeet⟩ | hapart
    · exact (hold a ha c hc (hax.trans hcx.symm)).tail
        ⟨Set.mem_insert_of_mem x hc, Set.mem_insert x items, hcx, hmeet⟩
    · exact absurd hax (hapart a ha)
  intro a ha b hb hab
  rcases Set.mem_insert_iff.mp ha with rfl | ha' <;>
    rcases Set.mem_insert_iff.mp hb with rfl | hb'
  · exact .refl
  · have hadjacent := adjacent_symm (Insert.insert a items) owner hsymm
    exact Std.Symm.symm _ _ (hnew b hb' hab.symm)
  · exact hnew a ha' hab
  · exact hold a ha' b hb' hab

theorem Closed.insert (h : Closed items owner meets) (hsymm : ∀ a b, meets a b → meets b a) {x : α}
    (hx : ∀ a ∈ items, meets a x → owner a = owner x) :
    Closed (insert x items) owner meets := by
  intro a ha b hb hab
  rcases Set.mem_insert_iff.mp ha with rfl | ha' <;>
    rcases Set.mem_insert_iff.mp hb with rfl | hb'
  · rfl
  · exact (hx b hb' (hsymm a b hab)).symm
  · exact hx a ha' hab
  · exact h a ha' b hb' hab

/-- The items of two clusterings, paired so that what meets in the first meets in the second. -/
structure Pairs (items : Set α) (meets : α → α → Prop) (items' : Set α')
    (meets' : α' → α' → Prop) (pair : α → α' → Prop) : Prop where
  total : ∀ a ∈ items, ∃ a' ∈ items', pair a a'
  single : ∀ a ∈ items, ∀ a' ∈ items', ∀ b' ∈ items', pair a a' → pair a b' → a' = b'
  meet : ∀ a ∈ items, ∀ a' ∈ items', ∀ b ∈ items, ∀ b' ∈ items', pair a a' → pair b b' →
    meets a b → meets' a' b'

/-- Items that are chained in one clustering have one owner in a closed one. -/
theorem Chained.transfer (h : Chained items owner meets) (hclosed : Closed items' owner' meets')
    {pair : α → α' → Prop} (hpairs : Pairs items meets items' meets' pair) {a b : α} {a' b' : α'}
    (ha : a ∈ items) (hb : b ∈ items) (ha' : a' ∈ items') (hb' : b' ∈ items') (hpair : pair a a')
    (hpair' : pair b b') (howner : owner a = owner b) : owner' a' = owner' b' := by
  have hchain := h a ha b hb howner
  clear howner hb
  induction hchain generalizing b' with
  | refl => rw [hpairs.single a ha a' ha' b' hb' hpair hpair']
  | @tail c b hac hstep ih =>
      obtain ⟨hc, hb, -, hmeets⟩ := hstep
      obtain ⟨c', hc', hpairC⟩ := hpairs.total c hc
      have hmeets' := hpairs.meet c hc c' hc' b hb b' hb' hpairC hpair' hmeets
      exact (ih hc' hpairC).trans (hclosed c' hc' b' hb' hmeets')

end LeadPipe.Framework
