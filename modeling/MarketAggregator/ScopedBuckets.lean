import MarketAggregator.LocalStore
import Mathlib.Data.List.DropRight

/-!
# Handles on a shared bucket

A handle is confined to the keys under its prefix. It never sees the prefix in a key, and handles
whose prefixes are apart never see each other: what each of them is told is what a store of its own
would tell it, however their calls are interleaved and whichever of them fail.
-/

namespace ScopedBuckets

open ArchiveKeys GuardedRuns LocalStore OrderedMaps
open ArchiveReader (Objects)

inductive AwsError where
  | config (message : Key)
  | rejected (key : Key) (message : Key)
  deriving DecidableEq

/-- A bucket and the start of every key in reach. -/
structure ScopedBucket where
  bucket : Key
  scope : Key
  named : scope ≠ []
  trimmed : trimMatches '/' scope = scope

def splitOnce (c : Char) (s : Key) : Option (Key × Key) :=
  match s.dropWhile (· ≠ c) with
  | [] => none
  | _ :: rest => some (s.takeWhile (· ≠ c), rest)

section Handles

variable {B : Type} (debug : Key → Key)

/-- A key without the slashes that it starts with. -/
def bare (key : Key) : Key := key.dropWhile (· = '/')

/-- A listing arrives in pages, all of it. -/
structure Paging where
  split : List Key → List (List Key)
  whole : ∀ keys, (split keys).flatten = keys

inductive Request (B : Type) where
  | put (key : Key) (bytes : B)
  | get (key : Key)
  | list (start : Key)
  | delete (key : Key)

def Request.key {B : Type} : Request B → Key
  | .put key _ | .get key | .list key | .delete key => key

inductive Reply (B : Type) where
  | done
  | bytes (bytes : B)
  | keys (keys : List Key)
  | failed (error : AwsError)
  deriving DecidableEq

/-- How a request ends: it is answered, turned down, or done while its answer is lost. -/
inductive Outcome where
  | served
  | refused (message : Key)
  | unheard (message : Key)

/-- A request that would be done so, as it ends. -/
def ended {S B : Type} (before : S) (request : Request B) (done : S × Reply B) :
    Outcome → S × Reply B
  | .served => done
  | .refused message => (before, .failed (.rejected request.key message))
  | .unheard message => (done.1, .failed (.rejected request.key message))

variable (pages : Paging) (missing : Key)

namespace ScopedBucket

/-- The whole key for one that leaves out the prefix. -/
def key (h : ScopedBucket) (key : Key) : Key := h.scope ++ ['/'] ++ bare key

/-- The keys under a start, without the prefix of the handle. -/
def list (h : ScopedBucket) (objects : Objects B) (start : Key) : List Key :=
  ((pages.split (Objects.list objects (h.key start))).flatMap
    (fun page => page.filterMap (h.scope ++ ['/']).isPrefixOf?)).mergeSort keyLE

def request (h : ScopedBucket) (objects : Objects B) : Request B → Objects B × Reply B
  | .put key bytes => (objects.insert (h.key key) bytes, .done)
  | .get key =>
    (objects, (objects.find? (h.key key)).elim (.failed (.rejected key missing)) .bytes)
  | .list start => (objects, .keys (h.list pages objects start))
  | .delete key => (objects.remove (h.key key), .done)

end ScopedBucket

structure Call (B : Type) where
  handle : ScopedBucket
  request : Request B
  outcome : Outcome

def perform (objects : Objects B) (call : Call B) : Objects B × Reply B :=
  ended objects call.request (call.handle.request pages missing objects call.request) call.outcome

def step (objects : Objects B) (call : Call B) : Objects B := (perform pages missing objects call).1

/-- What the handles with a prefix are told. -/
def toldTo (scope : Key) (objects : Objects B) (call : Call B) : List (Reply B) :=
  if call.handle.scope = scope then [(perform pages missing objects call).2] else []

/-- The same requests to a store without prefixes. -/
def serve (store : Objects B) : Request B → Objects B × Reply B
  | .put key bytes => (store.insert (bare key) bytes, .done)
  | .get key => (store, (store.find? (bare key)).elim (.failed (.rejected key missing)) .bytes)
  | .list start => (store, .keys (Objects.list store (bare start)))
  | .delete key => (store.remove (bare key), .done)

def serveCall (store : Objects B) (call : Call B) : Objects B × Reply B :=
  ended store call.request (serve missing store call.request) call.outcome

def storeStep (store : Objects B) (call : Call B) : Objects B := (serveCall missing store call).1

def storeReplies (store : Objects B) (call : Call B) : List (Reply B) :=
  [(serveCall missing store call).2]

end Handles

section Gates

variable {debug : Key → Key} {ack : Option Key} {probe : Except Key Unit} {h : ScopedBucket}

end Gates

/-- The calls of the handles with a prefix. -/
def ownCalls {B : Type} (scope : Key) (calls : List (Call B)) : List (Call B) :=
  calls.filter (fun call => call.handle.scope = scope)

/-- Neither prefix leads to keys under the other. -/
def Apart (scope other : Key) : Prop :=
  ¬ scope ++ ['/'] <+: other ++ ['/'] ∧ ¬ other ++ ['/'] <+: scope ++ ['/']

instance (scope other : Key) : Decidable (Apart scope other) :=
  inferInstanceAs (Decidable (_ ∧ _))

theorem cmp_append (start a b : Key) : Key.cmp (start ++ a) (start ++ b) = Key.cmp a b := by
  induction start with
  | nil => rfl
  | cons c start ih =>
    have same : compare c c = .eq := Std.ReflOrd.compare_self
    calc Key.cmp (c :: start ++ a) (c :: start ++ b)
        = (compare c c).then (Key.cmp (start ++ a) (start ++ b)) := List.compare_cons_cons
      _ = Key.cmp a b := by rw [same, ih]; rfl

/-- The keys under a prefix among all keys. -/
def reach (scope : Key) : OrderedMap.KeyEmbedding Key Key Key.cmp Key.cmp where
  embed key := scope ++ ['/'] ++ key
  back := (scope ++ ['/']).isPrefixOf?
  back_eq_some := List.isPrefixOf?_eq_some_iff_append_eq
  ordered := cmp_append (scope ++ ['/'])

/-- What a prefix holds, as a store of its own. -/
def within {B : Type} (scope : Key) (objects : Objects B) : Objects B := objects.part (reach scope)

section Isolation

variable {B : Type} {pages : Paging} {missing : Key} {objects : Objects B} {h : ScopedBucket}
  {scope other key start : Key} {call : Call B} {calls : List (Call B)}

/-- No key under one of two prefixes apart is under the other. -/
theorem Apart.unreached (apart : Apart scope other) :
    (reach scope).back (other ++ ['/'] ++ key) = none := by
  refine Option.eq_none_iff_forall_ne_some.mpr fun rest found => ?_
  have joined : scope ++ ['/'] ++ rest = other ++ ['/'] ++ key :=
    (reach scope).back_eq_some.mp found
  rcases List.append_eq_append_iff.mp joined with ⟨mid, longer, -⟩ | ⟨mid, longer, -⟩
  · exact apart.1 ⟨mid, longer.symm⟩
  · exact apart.2 ⟨mid, longer.symm⟩

theorem filterMap_list (start : Key) :
    (Objects.list objects (scope ++ ['/'] ++ start)).filterMap (reach scope).back =
      Objects.list (within scope objects) start := by
  rw [Objects.list, Objects.list, within, OrderedMap.part, List.filterMap_filter,
    List.filterMap_map, List.map_filterMap, List.filter_filterMap]
  refine List.filterMap_congr fun entry _ => ?_
  cases found : (reach scope).back entry.1 with
  | none => simp [found]
  | some rest =>
    obtain named : scope ++ ['/'] ++ rest = entry.1 := (reach scope).back_eq_some.mp found
    have starts : (scope ++ ['/'] ++ start).isPrefixOf entry.1 = start.isPrefixOf rest := by
      rw [← named, Bool.eq_iff_iff, List.isPrefixOf_iff_prefix, List.isPrefixOf_iff_prefix,
        List.prefix_append_right_inj]
    rw [Function.comp_apply, starts, found, Option.map_some, Option.map_some, Option.filter_some]

/-- A listing through a handle is the listing of what is under its prefix. -/
theorem list_within :
    h.list pages objects start = Objects.list (within h.scope objects) (bare start) := by
  have joined : ∀ paged : List (List Key),
      paged.flatMap (fun page => page.filterMap (h.scope ++ ['/']).isPrefixOf?) =
        paged.flatten.filterMap (reach h.scope).back := by
    intro paged
    induction paged with
    | nil => rfl
    | cons page paged ih =>
      rw [List.flatMap_cons, List.flatten_cons, List.filterMap_append, ih]
      rfl
  rw [ScopedBucket.list, joined, pages.whole, ScopedBucket.key, filterMap_list]
  exact List.mergeSort_of_pairwise objects_sorted

theorem find?_within : objects.find? (h.key key) = (within h.scope objects).find? (bare key) := by
  rw [within, OrderedMap.find?_part]
  rfl

variable (pages missing objects)

/-- A request through a handle is one to a store of its own. -/
theorem request_within (h : ScopedBucket) (request : Request B) :
    within h.scope (h.request pages missing objects request).1 =
        (serve missing (within h.scope objects) request).1 ∧
      (h.request pages missing objects request).2 =
        (serve missing (within h.scope objects) request).2 := by
  cases request with
  | put key bytes => exact ⟨OrderedMap.part_insert, rfl⟩
  | get key =>
    refine ⟨rfl, ?_⟩
    rw [ScopedBucket.request, serve, find?_within]
  | list start =>
    refine ⟨rfl, ?_⟩
    rw [ScopedBucket.request, serve, list_within]
  | delete key => exact ⟨OrderedMap.part_remove, rfl⟩

/-- A request through a handle apart leaves a prefix as it is. -/
theorem request_apart (apart : Apart scope h.scope) (request : Request B) :
    within scope (h.request pages missing objects request).1 = within scope objects := by
  cases request with
  | put key bytes => exact OrderedMap.part_insert_other apart.unreached
  | get key => rfl
  | list start => rfl
  | delete key => exact OrderedMap.part_remove_other apart.unreached

theorem ownCalls_own (own : call.handle.scope = scope) :
    ownCalls scope (call :: calls) = call :: ownCalls scope calls :=
  List.filter_cons_of_pos (decide_eq_true own)

theorem ownCalls_foreign (foreign : call.handle.scope ≠ scope) :
    ownCalls scope (call :: calls) = ownCalls scope calls :=
  List.filter_cons_of_neg (fun own => foreign (of_decide_eq_true own))

theorem perform_within (own : call.handle.scope = scope) :
    within scope (step pages missing objects call) = storeStep missing (within scope objects) call ∧
      toldTo pages missing scope objects call =
        storeReplies missing (within scope objects) call := by
  obtain ⟨handle, request, outcome⟩ := call
  obtain rfl : handle.scope = scope := own
  obtain ⟨left, told⟩ := request_within pages missing objects handle request
  rw [toldTo, if_pos rfl]
  cases outcome with
  | served => exact ⟨left, congrArg ([·]) told⟩
  | refused message => exact ⟨rfl, rfl⟩
  | unheard message => exact ⟨left, rfl⟩

theorem perform_apart (apart : Apart scope call.handle.scope) :
    within scope (step pages missing objects call) = within scope objects := by
  obtain ⟨handle, request, outcome⟩ := call
  cases outcome with
  | served => exact request_apart pages missing objects apart request
  | refused message => rfl
  | unheard message => exact request_apart pages missing objects apart request

end Isolation

/-- However the calls of several handles are interleaved, whichever of them are turned down and
whichever answers are lost: the handles with one prefix leave under it, and are told, what a store
of their own would hold and tell, as long as the other prefixes are apart from it. -/
theorem scope_alone {B : Type} (pages : Paging) (missing scope : Key) (objects : Objects B)
    (calls : List (Call B))
    (apart : ∀ call ∈ calls, call.handle.scope = scope ∨ Apart scope call.handle.scope) :
    within scope (exec (step pages missing) objects calls) =
        exec (storeStep missing) (within scope objects)
          (ownCalls scope calls) ∧
      outputs (step pages missing) (toldTo pages missing scope) objects calls =
        outputs (storeStep missing) (storeReplies missing) (within scope objects)
          (ownCalls scope calls) := by
  induction calls generalizing objects with
  | nil => exact ⟨rfl, rfl⟩
  | cons call calls ih =>
    obtain ⟨here, rest⟩ := List.forall_mem_cons.mp apart
    obtain ⟨left, told⟩ := ih (step pages missing objects call) rest
    rcases here with own | other
    · obtain ⟨moved, heard⟩ := perform_within pages missing objects own
      rw [ownCalls_own own, exec_cons, exec_cons, outputs, outputs, ← heard, told, ← moved]
      exact ⟨left, rfl⟩
    · have foreign : call.handle.scope ≠ scope := by
        rintro same
        exact other.1 (same ▸ List.prefix_refl _)
      rw [ownCalls_foreign foreign, exec_cons, outputs, toldTo, if_neg foreign,
        List.nil_append, told, left, perform_apart pages missing objects other]
      exact ⟨rfl, rfl⟩

section Sample

def onePage : Paging := ⟨fun keys => [keys], fun keys => by simp⟩

def eventsHandle : ScopedBucket := ⟨['b'], ['e'], by decide, by decide⟩

def registryHandle : ScopedBucket := ⟨['b'], ['r', '/', 'e'], by decide, by decide⟩

/-- Both handles write to the same key, and the answer to a delete is lost. -/
def sampleCalls : List (Call Nat) :=
  [⟨eventsHandle, .put ['/', 'a'] 1, .served⟩, ⟨registryHandle, .put ['a'] 2, .served⟩,
    ⟨eventsHandle, .list [], .served⟩, ⟨eventsHandle, .get ['a'], .served⟩,
    ⟨eventsHandle, .delete ['a'], .unheard ['t']⟩, ⟨eventsHandle, .list [], .served⟩,
    ⟨registryHandle, .get ['a'], .served⟩]

theorem scope_alone_sample :
    outputs (step onePage []) (toldTo onePage [] ['e']) .empty sampleCalls =
      [.done, .keys [['a']], .bytes 1, .failed (.rejected ['a'] ['t']), .keys []] :=
  (scope_alone onePage [] ['e'] .empty sampleCalls (by decide)).2.trans (by decide)

end Sample

end ScopedBuckets
