import MarketAggregator.GatewayMerge

/-!
# The merge of permuted reports

Reports enter the merge by the claims they add to the books. Reports in another order add
the same claims to every stream in another order, and the books are read by symbol and
venue and by the age and the label of a claim.
-/

namespace MergeOrder

open Clocks CrossTouch GatewayMerge OrderedMaps VenueStreams

section Lists

universe u v w

variable {A : Type u} {B : Type v} {C : Type w} {R : A → B → Prop} {l : List A} {r : List B}

theorem map_alike {f : A → C} {g : B → C} (h : List.Forall₂ R l r)
    (same : ∀ a b, R a b → f a = g b) : l.map f = r.map g := by
  induction h with
  | nil => rfl
  | cons related _ ih => rw [List.map_cons, List.map_cons, same _ _ related, ih]

theorem filterMap_alike {f : A → Option C} {g : B → Option C} (h : List.Forall₂ R l r)
    (same : ∀ a b, R a b → f a = g b) : l.filterMap f = r.filterMap g := by
  induction h with
  | nil => rfl
  | cons related _ ih => rw [List.filterMap_cons, List.filterMap_cons, same _ _ related, ih]

theorem filterMap_related {D : Type w} {S : C → D → Prop} {f : A → Option C} {g : B → Option D}
    (h : List.Forall₂ R l r) (related : ∀ a b, R a b → Option.Rel S (f a) (g b)) :
    List.Forall₂ S (l.filterMap f) (r.filterMap g) := by
  induction h with
  | nil => exact .nil
  | cons first _ ih =>
    rw [List.filterMap_cons, List.filterMap_cons]
    have both := related _ _ first
    split <;> rename_i left <;> split <;> rename_i right <;> rw [left, right] at both
    · exact ih
    · cases both
    · cases both
    · cases both with
      | some same => exact .cons same ih

theorem flatMap_related {D : Type w} {S : C → D → Prop} {f : A → List C} {g : B → List D}
    (h : List.Forall₂ R l r) (related : ∀ a b, R a b → List.Forall₂ S (f a) (g b)) :
    List.Forall₂ S (l.flatMap f) (r.flatMap g) := by
  induction h with
  | nil => exact .nil
  | cons first _ ih =>
    rw [List.flatMap_cons, List.flatMap_cons]
    exact List.rel_append (related _ _ first) ih

end Lists

variable {κ ρ : Type} {reports others : List (NodeReport κ ρ)} {now : IngestTime}
  {policy : GatewayPolicy}

/-- The same claims in another order, by nodes with different labels. -/
def AlikeClaims (a b : VenueId × List (Claim κ ρ)) : Prop :=
  a.1 = b.1 ∧ a.2.Perm b.2 ∧ (a.2.map Claim.node).Nodup

/-- The same venues with alike claims. -/
def AlikeVenues (a b : OrderedMap VenueId (List (Claim κ ρ)) VenueId.cmp) : Prop :=
  List.Forall₂ AlikeClaims a.entries b.entries

theorem held_rel {T : Type} {R : List T → List T → Prop} {l r : List T} (perm : l.Perm r)
    (related : R l r) : Option.Rel R (held l) (held r) := by
  cases l with
  | nil =>
    rw [List.nil_perm.mp perm]
    exact .none
  | cons x l =>
    cases r with
    | nil => exact False.elim (List.cons_ne_nil x l (List.perm_nil.mp perm))
    | cons y r => exact .some related

theorem claimsOn_perm (perm : reports.Perm others) {symbol : Symbol} {venue : VenueId} :
    (claimsOn reports now policy symbol venue).Perm (claimsOn others now policy symbol venue) := by
  have flat := perm.flatMap_right (fun report => report.claims now policy)
  exact (flat.filter _).map _

/-- A symbol that is not claimed in one order is not claimed in the other. -/
theorem gather_absent (perm : reports.Perm others) {symbol : Symbol}
    (absent : (gather others now policy).find? symbol = none) :
    (gather reports now policy).find? symbol = none := by
  cases found : (gather reports now policy).find? symbol with
  | none => rfl
  | some byVenue =>
    obtain ⟨venue, claimed⟩ := holds_gather.claimed symbol byVenue found
    have empty : claimsOn others now policy symbol venue = [] := claimsOn_absent absent
    have same : (claimsOn reports now policy symbol venue).Perm _ := claimsOn_perm perm
    rw [empty] at same
    exact False.elim (claimed (List.perm_nil.mp same))

theorem gather_venues (labels : (reports.map NodeReport.node).Nodup) (once : ListedOnce reports)
    (perm : reports.Perm others) (symbol : Symbol) :
    AlikeVenues (((gather reports now policy).find? symbol).getD OrderedMap.empty)
      (((gather others now policy).find? symbol).getD OrderedMap.empty) := by
  have related := OrderedMap.forall₂_of_find?
    (m := ((gather reports now policy).find? symbol).getD OrderedMap.empty)
    (n := ((gather others now policy).find? symbol).getD OrderedMap.empty)
    (R := fun a b => a.Perm b ∧ (a.map Claim.node).Nodup)
  refine related ?_
  intro venue
  rw [holds_gather.claims, holds_gather.claims]
  have same : (claimsOn reports now policy symbol venue).Perm _ := claimsOn_perm perm
  exact held_rel same ⟨same, claimsOn_nodup labels once⟩

theorem gather_perm (labels : (reports.map NodeReport.node).Nodup) (once : ListedOnce reports)
    (perm : reports.Perm others) :
    List.Forall₂ (fun a b => a.1 = b.1 ∧ AlikeVenues a.2 b.2)
      (gather reports now policy).entries (gather others now policy).entries := by
  refine OrderedMap.forall₂_of_find? ?_
  intro symbol
  have alike : AlikeVenues (((gather reports now policy).find? symbol).getD OrderedMap.empty) _ :=
    gather_venues labels once perm symbol
  cases left : (gather reports now policy).find? symbol with
  | none =>
    rw [gather_absent perm.symm left]
    exact .none
  | some byVenue =>
    cases right : (gather others now policy).find? symbol with
    | none =>
      rw [gather_absent perm right] at left
      cases left
    | some byVenue' =>
      rw [left, right] at alike
      exact .some alike

theorem mergeSymbol_alike (arith : TouchArith)
    {a b : Symbol × OrderedMap VenueId (List (Claim κ ρ)) VenueId.cmp}
    (h : a.1 = b.1 ∧ AlikeVenues a.2 b.2) :
    mergeSymbol arith now policy a = mergeSymbol arith now policy b := by
  have served : a.2.entries.filterMap (fun e => (serve e.2).map (fun claim => (e.1, claim))) =
      b.2.entries.filterMap (fun e => (serve e.2).map (fun claim => (e.1, claim))) := by
    refine filterMap_alike h.2 ?_
    rintro c d ⟨venue, perm, nodes⟩
    rw [venue, serve_perm perm nodes]
  rw [mergeSymbol, mergeSymbol, served, h.1]

/-- The same stream, and the same nodes in another order. -/
structure AlikeDuplicate (a b : DuplicatedStream) : Prop where
  symbol : a.symbol = b.symbol
  venue : a.venue = b.venue
  nodes : a.nodes.Perm b.nodes

theorem duplicated_alike {a b : Symbol × OrderedMap VenueId (List (Claim κ ρ)) VenueId.cmp}
    (h : a.1 = b.1 ∧ AlikeVenues a.2 b.2) :
    List.Forall₂ AlikeDuplicate (a.2.entries.filterMap (duplicatedStream a.1))
      (b.2.entries.filterMap (duplicatedStream b.1)) := by
  refine filterMap_related h.2 ?_
  rintro c d ⟨venue, perm, -⟩
  rw [duplicatedStream, duplicatedStream, perm.length_eq]
  split
  · exact .some ⟨congrArg Symbol.text h.1, venue, perm.map _⟩
  · exact .none

theorem addChannel_comm (channel : ChannelMetrics) (a b : NodeReport κ ρ) :
    addChannel now policy (addChannel now policy channel a) b =
      addChannel now policy (addChannel now policy channel b) a := by
  simp only [addChannel]
  cases a.taking now policy <;> cases b.taking now policy <;> simp [Nat.add_right_comm]

/-- The same merge up to the order of the nodes. -/
structure SameMerge (a b : MergedSnapshot κ ρ) : Prop where
  symbols : a.snapshot.symbols = b.snapshot.symbols
  channel : a.snapshot.channel = b.snapshot.channel
  nodes : a.nodes.Perm b.nodes
  duplicated : List.Forall₂ AlikeDuplicate a.duplicated b.duplicated

/-- Reports in another order merge into the same symbols, the same channel, the same nodes
and the same duplicated streams, up to the order of the nodes. -/
theorem merge_perm (arith : TouchArith) (labels : (reports.map NodeReport.node).Nodup)
    (once : ListedOnce reports) (perm : reports.Perm others) (now : IngestTime) (seq : Nat)
    (policy : GatewayPolicy) :
    SameMerge (merge arith reports now seq policy) (merge arith others now seq policy) := by
  have books : List.Forall₂ _ (gather reports now policy).entries _ :=
    gather_perm labels once perm
  constructor
  · exact map_alike books fun a b h => mergeSymbol_alike arith h
  · refine perm.foldl_eq' ?_ _
    intro a _ b _ channel
    exact addChannel_comm channel a b
  · exact perm.map _
  · exact flatMap_related books fun a b h => duplicated_alike h

theorem merge_perm_handover : SameMerge
    (merge TouchArith.idle handover ⟨0, 0⟩ 1 ⟨0, ⟨0⟩⟩)
    (merge TouchArith.idle handover.reverse ⟨0, 0⟩ 1 ⟨0, ⟨0⟩⟩) :=
  merge_perm TouchArith.idle handover_labels handover_listedOnce (List.reverse_perm _).symm
    ⟨0, 0⟩ 1 ⟨0, ⟨0⟩⟩

end MergeOrder
