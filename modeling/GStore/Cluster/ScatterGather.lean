import GStore.Cluster.ShardNode

/-! # Scatter-gather

The four sharded stores of `cluster.rs` answer every access pattern the same way:
they ask each shard and merge the answers back into the order and the counts of a
single store. If every shard describes a part of a set of triples and the parts are
disjoint, the merge describes the whole. -/

namespace GStore.Cluster

open Store SortedSlice

/-- What a scatter-gather reads from one shard. -/
structure ShardReads where
  «exists» : UInt32 → UInt32 → UInt32 → Bool
  poByS : UInt32 → List (UInt32 × UInt32)
  oBySp : UInt32 → UInt32 → List UInt32
  pBySo : UInt32 → UInt32 → List UInt32
  psByO : UInt32 → List (UInt32 × UInt32)
  sByPo : UInt32 → UInt32 → List UInt32
  soByP : UInt32 → List (UInt32 × UInt32)
  subsByP : UInt32 → List UInt32
  objsByP : UInt32 → List UInt32
  subjectKeys : List UInt32
  objectKeys : List UInt32
  predicates : List UInt32
  tripleCount : Nat
  predCard : UInt32 → Nat

/-- The reads of a store in the same process. -/
def storeReads (store : TripleStore) : ShardReads where
  «exists» := store.exists
  poByS := store.poByS
  oBySp := store.oBySp
  pBySo := store.pBySo
  psByO := store.psByO
  sByPo := store.sByPo
  soByP := store.soByP
  subsByP := store.subsByP
  objsByP := store.objsByP
  subjectKeys := store.subjectKeys
  objectKeys := store.objectKeys
  predicates := store.predicates
  tripleCount := store.tripleCount
  predCard := store.predCard

/-- The reads of a shard over a network. -/
def Shard.reads (hash : UInt32 → UInt64) (network : Network) (shard : Shard) : ShardReads where
  «exists» sub pred obj :=
    shard.read hash network (fun store => store.exists sub pred obj) (.exists sub pred obj)
      Response.intoBool false
  poByS sub :=
    shard.read hash network (fun store => store.poByS sub) (.poByS sub) Response.intoPairs []
  oBySp sub pred :=
    shard.read hash network (fun store => store.oBySp sub pred) (.oBySp sub pred)
      Response.intoIds []
  pBySo sub obj :=
    shard.read hash network (fun store => store.pBySo sub obj) (.pBySo sub obj)
      Response.intoIds []
  psByO obj :=
    shard.read hash network (fun store => store.psByO obj) (.psByO obj) Response.intoPairs []
  sByPo pred obj :=
    shard.read hash network (fun store => store.sByPo pred obj) (.sByPo pred obj)
      Response.intoIds []
  soByP pred :=
    shard.read hash network (fun store => store.soByP pred) (.soByP pred) Response.intoPairs []
  subsByP pred :=
    shard.read hash network (fun store => store.subsByP pred) (.subsByP pred) Response.intoIds []
  objsByP pred :=
    shard.read hash network (fun store => store.objsByP pred) (.objsByP pred) Response.intoIds []
  subjectKeys := shard.read hash network TripleStore.subjectKeys .subjectKeys Response.intoIds []
  objectKeys := shard.read hash network TripleStore.objectKeys .objectKeys Response.intoIds []
  predicates := shard.read hash network TripleStore.predicates .predicates Response.intoIds []
  tripleCount := shard.read hash network TripleStore.tripleCount .tripleCount Response.intoCount 0
  predCard pred :=
    shard.read hash network (fun store => store.predCard pred) (.predCard pred)
      Response.intoCount 0

/-- `sort_dedup` on pairs. -/
def sortDedupPairs (pairs : List (UInt32 × UInt32)) : List (UInt32 × UInt32) :=
  (sortDedup (pairs.map toLex)).map ofLex

/-- `impl TripleSource` for the sharded stores. -/
def gather (shards : List ShardReads) : TripleSource :=
  let soByP := fun pred => sortDedupPairs (shards.flatMap fun shard => shard.soByP pred)
  let subsByP := fun pred => sortDedup (shards.flatMap fun shard => shard.subsByP pred)
  let objsByP := fun pred => sortDedup (shards.flatMap fun shard => shard.objsByP pred)
  let subjectKeys := sortDedup (shards.flatMap ShardReads.subjectKeys)
  let objectKeys := sortDedup (shards.flatMap ShardReads.objectKeys)
  { «exists» := fun sub pred obj => shards.any fun shard => shard.exists sub pred obj
    poByS := fun sub => sortDedupPairs (shards.flatMap fun shard => shard.poByS sub)
    oBySp := fun sub pred => sortDedup (shards.flatMap fun shard => shard.oBySp sub pred)
    pBySo := fun sub obj => sortDedup (shards.flatMap fun shard => shard.pBySo sub obj)
    psByO := fun obj => sortDedupPairs (shards.flatMap fun shard => shard.psByO obj)
    sByPo := fun pred obj => sortDedup (shards.flatMap fun shard => shard.sByPo pred obj)
    soByP
    subsByP
    objsByP
    subjectKeys
    objectKeys
    tripleCount := (shards.map ShardReads.tripleCount).sum
    distinctSubjects := subjectKeys.length
    distinctObjects := objectKeys.length
    -- A hash set of the predicates.
    numPredicates := (shards.flatMap ShardReads.predicates).dedup.length
    predCard := fun pred => (shards.map fun shard => shard.predCard pred).sum
    predDistinctSubj := fun pred => (subsByP pred).length
    predDistinctObj := fun pred => (objsByP pred).length
    iterAll := (sortDedup (shards.flatMap ShardReads.predicates)).flatMap fun pred =>
      (soByP pred).map fun pair => ⟨pair.1, pred, pair.2⟩ }

/-! ## Shards over parts of a set -/

/-- A shard answers for a set of triples. -/
structure ShardReads.Covers (shard : ShardReads) (triples : Finset IdTriple) : Prop where
  exists_iff : ∀ sub pred obj, shard.exists sub pred obj = true ↔ ⟨sub, pred, obj⟩ ∈ triples
  poByS : ∀ sub pair, pair ∈ shard.poByS sub ↔ ⟨sub, pair.1, pair.2⟩ ∈ triples
  oBySp : ∀ sub pred obj, obj ∈ shard.oBySp sub pred ↔ ⟨sub, pred, obj⟩ ∈ triples
  pBySo : ∀ sub obj pred, pred ∈ shard.pBySo sub obj ↔ ⟨sub, pred, obj⟩ ∈ triples
  psByO : ∀ obj pair, pair ∈ shard.psByO obj ↔ ⟨pair.2, pair.1, obj⟩ ∈ triples
  sByPo : ∀ pred obj sub, sub ∈ shard.sByPo pred obj ↔ ⟨sub, pred, obj⟩ ∈ triples
  soByP : ∀ pred pair, pair ∈ shard.soByP pred ↔ ⟨pair.1, pred, pair.2⟩ ∈ triples
  subsByP : ∀ pred sub, sub ∈ shard.subsByP pred ↔ ∃ obj, ⟨sub, pred, obj⟩ ∈ triples
  objsByP : ∀ pred obj, obj ∈ shard.objsByP pred ↔ ∃ sub, ⟨sub, pred, obj⟩ ∈ triples
  subjectKeys : ∀ sub, sub ∈ shard.subjectKeys ↔ ∃ pred obj, ⟨sub, pred, obj⟩ ∈ triples
  objectKeys : ∀ obj, obj ∈ shard.objectKeys ↔ ∃ sub pred, ⟨sub, pred, obj⟩ ∈ triples
  predicates : ∀ pred, pred ∈ shard.predicates ↔ ∃ sub obj, ⟨sub, pred, obj⟩ ∈ triples
  tripleCount : shard.tripleCount = triples.card
  predCard : ∀ pred, shard.predCard pred =
    (triples.filter fun triple => triple.pred = pred).card

theorem storeReads_covers {store : TripleStore} {triples : Finset IdTriple}
    (refines : Refines store triples) : (storeReads store).Covers triples := by
  have describes := refines.source_describes
  exact
    { exists_iff := describes.exists_iff
      poByS := fun sub pair => (describes.poByS sub).mem_iff pair
      oBySp := fun sub pred => (describes.oBySp sub pred).mem_iff
      pBySo := fun sub obj => (describes.pBySo sub obj).mem_iff
      psByO := fun obj => (describes.psByO obj).mem_iff
      sByPo := fun pred obj => (describes.sByPo pred obj).mem_iff
      soByP := fun pred => (describes.soByP pred).mem_iff
      subsByP := fun pred => (describes.subsByP pred).mem_iff
      objsByP := fun pred => (describes.objsByP pred).mem_iff
      subjectKeys := describes.subjectKeys.mem_iff
      objectKeys := describes.objectKeys.mem_iff
      predicates := refines.predicates.mem_iff
      tripleCount := describes.tripleCount
      predCard := describes.predCard }

/-- When every call is answered, a remote shard reads as its node's store does. -/
theorem Shard.reads_eq {hash : UInt32 → UInt64} {network : Network}
    (answered : ∀ request, (network request).isAnswered = true) (shard : Shard) :
    shard.reads hash network = storeReads shard.store := by
  cases shard with
  | «local» store => rfl
  | remote store =>
    have read : ∀ {α : Type} (answer : TripleStore → α) (request : Request)
        (into : Response → Except IoError α) (fallback : α),
        (∀ store, into (dispatch hash store request).1 = .ok (answer store)) →
        (∀ store, (dispatch hash store request).2 = store) →
        (Shard.remote store).read hash network answer request into fallback =
          answer store := by
      intro α answer request into fallback result unchanged
      have delivered := answered request
      cases delivery : network request with
      | answered => simp [Shard.read, call, delivery, Except.bind, result]
      | answeredAgain => simp [Shard.read, call, delivery, Except.bind, result, unchanged]
      | lost executions => simp [delivery, Delivery.isAnswered] at delivered
    simp only [Shard.reads, storeReads, Shard.store, ShardReads.mk.injEq]
    refine ⟨?_, ?_, ?_, ?_, ?_, ?_, ?_, ?_, ?_, ?_, ?_, ?_, ?_, ?_⟩
    · funext sub pred obj
      exact read _ _ _ _ (fun _ => rfl) fun _ => rfl
    · funext sub
      exact read _ _ _ _ (fun _ => rfl) fun _ => rfl
    · funext sub pred
      exact read _ _ _ _ (fun _ => rfl) fun _ => rfl
    · funext sub obj
      exact read _ _ _ _ (fun _ => rfl) fun _ => rfl
    · funext obj
      exact read _ _ _ _ (fun _ => rfl) fun _ => rfl
    · funext pred obj
      exact read _ _ _ _ (fun _ => rfl) fun _ => rfl
    · funext pred
      exact read _ _ _ _ (fun _ => rfl) fun _ => rfl
    · funext pred
      exact read _ _ _ _ (fun _ => rfl) fun _ => rfl
    · funext pred
      exact read _ _ _ _ (fun _ => rfl) fun _ => rfl
    · exact read _ _ _ _ (fun _ => rfl) fun _ => rfl
    · exact read _ _ _ _ (fun _ => rfl) fun _ => rfl
    · exact read _ _ _ _ (fun _ => rfl) fun _ => rfl
    · exact read _ _ _ _ (fun _ => rfl) fun _ => rfl
    · funext pred
      exact read _ _ _ _ (fun _ => rfl) fun _ => rfl

/-- The union of the parts. -/
def whole (parts : List (Finset IdTriple)) : Finset IdTriple := parts.foldr (· ∪ ·) ∅

section Merge

variable {shards : List ShardReads} {parts : List (Finset IdTriple)}

@[simp] theorem mem_whole {triple : IdTriple} :
    triple ∈ whole parts ↔ ∃ part ∈ parts, triple ∈ part := by
  induction parts with
  | nil => simp [whole]
  | cons part rest induction =>
    rw [whole, List.foldr_cons, Finset.mem_union]
    change _ ∨ triple ∈ whole rest ↔ _
    rw [induction]
    simp

theorem sum_card_filter (disjoint : parts.Pairwise Disjoint) (keep : IdTriple → Prop)
    [DecidablePred keep] :
    (parts.map fun part => (part.filter keep).card).sum = ((whole parts).filter keep).card := by
  induction parts with
  | nil => simp [whole]
  | cons part rest induction =>
    have apart := List.pairwise_cons.mp disjoint
    have separate : Disjoint part (whole rest) := by
      rw [Finset.disjoint_left]
      intro triple inside outside
      rcases mem_whole.mp outside with ⟨other, member, held⟩
      exact Finset.disjoint_left.mp (apart.1 other member) inside held
    have split : whole (part :: rest) = part ∪ whole rest := rfl
    rw [List.map_cons, List.sum_cons, induction apart.2, split, Finset.filter_union,
      Finset.card_union_of_disjoint
        (Finset.disjoint_filter_filter separate)]

theorem sum_card (disjoint : parts.Pairwise Disjoint) :
    (parts.map Finset.card).sum = (whole parts).card := by
  have counted := sum_card_filter disjoint fun _ => True
  simpa using counted

/-- An answer of some shard is an answer for some part. -/
theorem mem_flatMap_iff {α : Type*} (covers : List.Forall₂ ShardReads.Covers shards parts)
    {answer : ShardReads → List α} {holds : Finset IdTriple → Prop} {value : α}
    (each : ∀ shard part, shard.Covers part → (value ∈ answer shard ↔ holds part)) :
    value ∈ shards.flatMap answer ↔ ∃ part ∈ parts, holds part := by
  induction covers with
  | nil => simp
  | cons head _ induction =>
    rw [List.flatMap_cons, List.mem_append, each _ _ head, induction]
    simp

/-- Counts add up. -/
theorem sum_map_eq (covers : List.Forall₂ ShardReads.Covers shards parts)
    {count : ShardReads → Nat} {size : Finset IdTriple → Nat}
    (each : ∀ shard part, shard.Covers part → count shard = size part) :
    (shards.map count).sum = (parts.map size).sum := by
  induction covers with
  | nil => rfl
  | cons head _ induction =>
    rw [List.map_cons, List.map_cons, List.sum_cons, List.sum_cons, each _ _ head, induction]

theorem any_exists_iff (covers : List.Forall₂ ShardReads.Covers shards parts)
    (sub pred obj : UInt32) :
    (gather shards).exists sub pred obj = true ↔ ⟨sub, pred, obj⟩ ∈ whole parts := by
  rw [mem_whole, gather, List.any_eq_true]
  induction covers with
  | nil => simp
  | cons head _ induction =>
    simp only [List.mem_cons, exists_eq_or_imp]
    rw [head.exists_iff, induction]

theorem ascends_sortDedup {α : Type*} [LinearOrder α] {list : List α} {holds : α → Prop}
    (mem_iff : ∀ value, value ∈ list ↔ holds value) : Ascends (· < ·) (sortDedup list) holds :=
  .of_pairwise (sortDedup_pairwise list) fun value => mem_sortDedup.trans (mem_iff value)

theorem ascends_sortDedupPairs {list : List (UInt32 × UInt32)}
    {holds : UInt32 × UInt32 → Prop} (mem_iff : ∀ value, value ∈ list ↔ holds value) :
    Ascends PairLt (sortDedupPairs list) holds := by
  have ordered := sortDedup_pairwise (list.map toLex)
  refine ⟨⟨?_, ?_⟩, ?_⟩
  · exact (List.nodup_map_iff ofLex.injective).mpr (ordered.imp ne_of_lt)
  · intro value
    rw [← mem_iff]
    constructor
    · intro member
      rcases List.mem_map.mp member with ⟨pair, present, rfl⟩
      rcases List.mem_map.mp (mem_sortDedup.mp present) with ⟨original, held, rfl⟩
      exact held
    · intro member
      exact List.mem_map.mpr ⟨toLex value, mem_sortDedup.mpr (List.mem_map_of_mem member), rfl⟩
  · exact List.pairwise_map.mpr ordered

theorem length_sortDedup {α : Type*} [LinearOrder α] (list : List α) :
    (sortDedup list).length = list.dedup.length := by
  have ascends : Ascends (· < ·) (sortDedup list) (· ∈ list) := ascends_sortDedup fun _ => Iff.rfl
  rw [ascends.length_eq_card list.toFinset (by simp), List.card_toFinset]

/-- Shards over disjoint parts answer together as one source over their union, in
the order of a single store. -/
theorem gather_describes (covers : List.Forall₂ ShardReads.Covers shards parts)
    (disjoint : parts.Pairwise Disjoint) :
    (gather shards).Describes (whole parts) ∧
      (gather shards).iterAll.Pairwise PredicateMajor := by
  have soByP : ∀ pred, Ascends PairLt ((gather shards).soByP pred)
      fun pair => ⟨pair.1, pred, pair.2⟩ ∈ whole parts := fun pred =>
    ascends_sortDedupPairs fun pair => (mem_flatMap_iff covers fun shard part covers =>
      covers.soByP pred pair).trans mem_whole.symm
  have subsByP : ∀ pred, Ascends (· < ·) ((gather shards).subsByP pred)
      fun sub => ∃ obj, ⟨sub, pred, obj⟩ ∈ whole parts := fun pred =>
    ascends_sortDedup fun sub => (mem_flatMap_iff covers fun shard part covers =>
      covers.subsByP pred sub).trans (by simp only [mem_whole]; tauto)
  have objsByP : ∀ pred, Ascends (· < ·) ((gather shards).objsByP pred)
      fun obj => ∃ sub, ⟨sub, pred, obj⟩ ∈ whole parts := fun pred =>
    ascends_sortDedup fun obj => (mem_flatMap_iff covers fun shard part covers =>
      covers.objsByP pred obj).trans (by simp only [mem_whole]; tauto)
  have subjectKeys : Ascends (· < ·) (gather shards).subjectKeys
      fun sub => ∃ pred obj, ⟨sub, pred, obj⟩ ∈ whole parts :=
    ascends_sortDedup fun sub => (mem_flatMap_iff covers fun shard part covers =>
      covers.subjectKeys sub).trans (by simp only [mem_whole]; tauto)
  have objectKeys : Ascends (· < ·) (gather shards).objectKeys
      fun obj => ∃ sub pred, ⟨sub, pred, obj⟩ ∈ whole parts :=
    ascends_sortDedup fun obj => (mem_flatMap_iff covers fun shard part covers =>
      covers.objectKeys obj).trans (by simp only [mem_whole]; tauto)
  have predicates : Ascends (· < ·) (sortDedup (shards.flatMap ShardReads.predicates))
      fun pred => ∃ sub obj, ⟨sub, pred, obj⟩ ∈ whole parts :=
    ascends_sortDedup fun pred => (mem_flatMap_iff covers fun shard part covers =>
      covers.predicates pred).trans (by simp only [mem_whole]; tauto)
  have ordered : (gather shards).iterAll.Pairwise PredicateMajor := by
    refine List.pairwise_flatMap.mpr ⟨?_, ?_⟩
    · intro pred _
      exact List.pairwise_map.mpr ((soByP pred).ordered.imp fun less => .inr ⟨rfl, less⟩)
    · refine predicates.ordered.imp ?_
      intro left right less first firstMember second secondMember
      rcases List.mem_map.mp firstMember with ⟨firstPair, -, rfl⟩
      rcases List.mem_map.mp secondMember with ⟨secondPair, -, rfl⟩
      exact .inl less
  refine ⟨?_, ordered⟩
  exact
    { exists_iff := any_exists_iff covers
      poByS := fun sub => ascends_sortDedupPairs fun pair =>
        (mem_flatMap_iff covers fun shard part covers => covers.poByS sub pair).trans
          mem_whole.symm
      oBySp := fun sub pred => ascends_sortDedup fun obj =>
        (mem_flatMap_iff covers fun shard part covers => covers.oBySp sub pred obj).trans
          mem_whole.symm
      pBySo := fun sub obj => ascends_sortDedup fun pred =>
        (mem_flatMap_iff covers fun shard part covers => covers.pBySo sub obj pred).trans
          mem_whole.symm
      psByO := fun obj => ascends_sortDedupPairs fun pair =>
        (mem_flatMap_iff covers fun shard part covers => covers.psByO obj pair).trans
          mem_whole.symm
      sByPo := fun pred obj => ascends_sortDedup fun sub =>
        (mem_flatMap_iff covers fun shard part covers => covers.sByPo pred obj sub).trans
          mem_whole.symm
      soByP
      subsByP
      objsByP
      subjectKeys
      objectKeys
      iterAll := by
        refine ⟨ordered.imp fun less => ?_, ?_⟩
        · rintro rfl
          exact less.asymm less
        · intro triple
          simp only [gather, List.mem_flatMap, List.mem_map, predicates.mem_iff]
          constructor
          · rintro ⟨pred, -, pair, member, rfl⟩
            exact ((soByP pred).mem_iff pair).mp member
          · intro member
            exact ⟨triple.pred, ⟨triple.sub, triple.obj, member⟩, (triple.sub, triple.obj),
              ((soByP triple.pred).mem_iff (triple.sub, triple.obj)).mpr member, rfl⟩
      tripleCount := (sum_map_eq covers fun shard part covers => covers.tripleCount).trans
        (sum_card disjoint)
      distinctSubjects := subjectKeys.length_eq_card _ fun sub => by
        simp [Finset.mem_image, IdTriple.exists_iff]
      distinctObjects := objectKeys.length_eq_card _ fun obj => by
        simp [Finset.mem_image, IdTriple.exists_iff]
      numPredicates := (length_sortDedup _).symm.trans (predicates.length_eq_card _ fun pred => by
        simp [Finset.mem_image, IdTriple.exists_iff])
      predCard := fun pred =>
        (sum_map_eq covers fun shard part covers => covers.predCard pred).trans
          (sum_card_filter disjoint _)
      predDistinctSubj := fun pred => (subsByP pred).length_eq_card _ fun sub => by
        simp [Finset.mem_image, IdTriple.exists_iff]
      predDistinctObj := fun pred => (objsByP pred).length_eq_card _ fun obj => by
        simp [Finset.mem_image, IdTriple.exists_iff] }

/-- Stores over disjoint parts answer together exactly as one store over their
union. -/
theorem gather_eq_source {stores : List TripleStore} {single : TripleStore}
    (refining : List.Forall₂ Refines stores parts) (disjoint : parts.Pairwise Disjoint)
    (refines : Refines single (whole parts)) :
    gather (stores.map storeReads) = single.source := by
  have covers : List.Forall₂ ShardReads.Covers (stores.map storeReads) parts := by
    rw [List.forall₂_map_left_iff]
    exact refining.imp fun _ _ => storeReads_covers
  rcases gather_describes covers disjoint with ⟨describes, ordered⟩
  exact describes.unique refines.source_describes ordered refines.iterAll_ordered

end Merge

end GStore.Cluster
