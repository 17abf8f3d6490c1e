import Sews.Cpp.Stream
import Sews.Lib.PrefixTree
import Sews.Http.Message

/-!
# The trie router

`TrieRouter` keeps handlers in a tree of nodes, one level for each segment of a
path; a node maps methods to handler pointers.  `add` creates the nodes it
needs, `remove` gives up at the first one that is missing, and neither ever
removes a node.

Seen from outside it is a finite map, from a method and the segments of a path
to a pointer.  `Routes` is that map, `routes` the map after a sequence of
operations, and `router_refines_map` says the tree answers as it does.  The map
does not show the nodes that removed routes leave behind: `nodes_run` does.
-/

namespace Sews.Http

open Cpp IStringStream UnorderedMap

variable {H : Type*}

namespace TrieRouter

/-- The handlers of a node by method.  A handler pointer may be null. -/
abbrev Handlers (H : Type*) := UnorderedMap Bytes (Option H)

/-- `TrieRouter::Node`. -/
abbrev Node (H : Type*) := PrefixTree Bytes (Handlers H)

/-- The root of a new router. -/
def emptyRoot : Node H := .leaf ∅

/-- `TrieRouter::split`. -/
def split (segments : List Bytes) (path : Bytes) : List Bytes :=
  (whileGetline slash
    (fun segment segments => .yield (if segment = [] then segments else segments ++ [segment]))
    segments (ofBytes path)).1

/-- `TrieRouter::add`.  A child that is missing is made first, so the walk always
reaches the node of the last segment. -/
def add (root : Node H) (method path : Bytes) (handler : Option H) : Node H :=
  root.update ∅ (Finmap.insert method handler) (split [] path)

/-- `TrieRouter::remove`. -/
def remove (root : Node H) (method path : Bytes) : Node H :=
  root.updateExisting (Finmap.erase method) (split [] path)

/-- `TrieRouter::match`. -/
def matchMessage (root : Node H) (message : Message) : Option H :=
  match message with
  | .request request =>
    match root.find (split [] request.path) with
    | none => none
    | some handlers =>
      match handlers.lookup request.method with
      | none => none
      | some handler => handler
  | _ => none

/-! ### Operations -/

/-- A call of `add` or `remove`. -/
inductive Operation (H : Type*)
  | add (method path : Bytes) (handler : Option H)
  | remove (method path : Bytes)

/-- What the router keeps routes apart by. -/
def Operation.key : Operation H → Bytes × List Bytes
  | .add method path _ => (method, split [] path)
  | .remove method path => (method, split [] path)

/-- The pointer a call leaves under its key, if it leaves one. -/
def Operation.binding : Operation H → Option (Option H)
  | .add _ _ handler => some handler
  | .remove _ _ => none

/-- The key a request is looked up under. -/
def requestKey (request : Request) : Bytes × List Bytes := (request.method, split [] request.path)

def apply (root : Node H) : Operation H → Node H
  | .add method path handler => add root method path handler
  | .remove method path => remove root method path

/-- The router after a sequence of calls. -/
def run (operations : List (Operation H)) : Node H := operations.foldl apply emptyRoot

/-! ### The finite map -/

/-- A router, as the map it stands for. -/
abbrev Routes (H : Type*) := UnorderedMap (Bytes × List Bytes) (Option H)

def Routes.apply (routes : Routes H) : Operation H → Routes H
  | .add method path handler => routes.insert (method, split [] path) handler
  | .remove method path => routes.erase (method, split [] path)

theorem lookup_apply (routes : Routes H) (operation : Operation H) (key : Bytes × List Bytes) :
    (routes.apply operation).lookup key
      = if operation.key = key then operation.binding else routes.lookup key := by
  by_cases hk : operation.key = key
  · rw [if_pos hk, ← hk]
    cases operation with
    | add method path handler => exact Finmap.lookup_insert routes
    | remove method path => exact Finmap.lookup_erase _ routes
  · rw [if_neg hk]
    cases operation with
    | add method path handler => exact Finmap.lookup_insert_of_ne routes (Ne.symm hk)
    | remove method path => exact Finmap.lookup_erase_ne (Ne.symm hk)

/-- The map after a sequence of calls. -/
def routes (operations : List (Operation H)) : Routes H := operations.foldl Routes.apply ∅

/-- A tree and a map that give every key the same pointer. -/
def Refines (root : Node H) (routes : Routes H) : Prop :=
  ∀ key : Bytes × List Bytes, (root.valueAt ∅ key.2).lookup key.1 = routes.lookup key

theorem refines_empty : Refines (emptyRoot : Node H) ∅ := by
  intro key
  rw [emptyRoot, PrefixTree.valueAt_leaf, Finmap.lookup_empty, Finmap.lookup_empty]

/-- **One call keeps the tree and the map together.** -/
theorem refines_apply {root : Node H} {routes : Routes H} (h : Refines root routes)
    (operation : Operation H) : Refines (apply root operation) (routes.apply operation) := by
  rintro ⟨method', segments⟩
  rw [lookup_apply, ← h]
  cases operation with
  | add method path handler =>
    rw [apply, add, PrefixTree.valueAt_update]
    by_cases hs : segments = split [] path
    · subst hs
      rw [if_pos rfl]
      by_cases hm : method' = method
      · subst hm
        exact (Finmap.lookup_insert _).trans (if_pos rfl).symm
      · rw [Finmap.lookup_insert_of_ne _ hm, if_neg (by simp [Operation.key, Ne.symm hm])]
    · rw [if_neg hs, if_neg (by simp [Operation.key, Ne.symm hs])]
  | remove method path =>
    rw [apply, remove]
    have herase : Finmap.erase method (∅ : Handlers H) = ∅ := by
      refine Finmap.ext_lookup fun k => ?_
      by_cases hk : k = method
      · rw [hk, Finmap.lookup_erase, Finmap.lookup_empty]
      · rw [Finmap.lookup_erase_ne hk]
    rw [PrefixTree.valueAt_updateExisting herase]
    by_cases hs : segments = split [] path
    · subst hs
      rw [if_pos rfl]
      by_cases hm : method' = method
      · subst hm
        exact (Finmap.lookup_erase _ _).trans (if_pos rfl).symm
      · rw [Finmap.lookup_erase_ne hm, if_neg (by simp [Operation.key, Ne.symm hm])]
    · rw [if_neg hs, if_neg (by simp [Operation.key, Ne.symm hs])]

theorem refines_foldl : ∀ (operations : List (Operation H)) (root : Node H) (routes : Routes H),
    Refines root routes →
      Refines (operations.foldl apply root) (operations.foldl Routes.apply routes) := by
  intro operations
  induction operations with
  | nil => intro root routes h; exact h
  | cons operation rest ih => intro root routes h; exact ih _ _ (refines_apply h operation)

theorem refines_run (operations : List (Operation H)) : Refines (run operations) (routes operations) :=
  refines_foldl operations emptyRoot ∅ refines_empty

theorem matchMessage_of_refines {root : Node H} {routes : Routes H} (h : Refines root routes)
    (request : Request) :
    matchMessage root (.request request) = (routes.lookup (requestKey request)).join := by
  rw [← h, requestKey, PrefixTree.valueAt, matchMessage]
  cases root.find (split [] request.path) with
  | none => rfl
  | some handlers =>
    dsimp only [Option.getD_some]
    cases handlers.lookup request.method with
    | none => rfl
    | some handler => rfl

/-! ### The most recent call -/

/-- The handler of the most recent `add` under a key that no later `remove` has
deleted: what the last call under the key left there. -/
def lastAdd (operations : List (Operation H)) (key : Bytes × List Bytes) : Option (Option H) :=
  (operations.reverse.find? fun operation => decide (operation.key = key)).bind Operation.binding

theorem lastAdd_append (operations : List (Operation H)) (operation : Operation H)
    (key : Bytes × List Bytes) : lastAdd (operations ++ [operation]) key
      = if operation.key = key then operation.binding else lastAdd operations key := by
  unfold lastAdd
  rw [List.reverse_append, List.reverse_singleton, List.singleton_append]
  by_cases hk : operation.key = key
  · rw [List.find?_cons_of_pos (by simpa using hk), if_pos hk, Option.bind_some]
  · rw [List.find?_cons_of_neg (by simpa using hk), if_neg hk]

theorem lookup_routes (operations : List (Operation H)) (key : Bytes × List Bytes) :
    (routes operations).lookup key = lastAdd operations key := by
  induction operations using List.reverseRecOn with
  | nil => exact Finmap.lookup_empty key
  | append_singleton operations operation ih =>
    rw [lastAdd_append, ← ih, ← lookup_apply, routes, List.foldl_append]
    rfl

theorem matchMessage_run (operations : List (Operation H)) (request : Request) :
    matchMessage (run operations) (.request request)
      = (lastAdd operations (requestKey request)).join := by
  rw [matchMessage_of_refines (refines_run operations), lookup_routes]

/-- **The router is a finite map.**  A request gets the handler of the most recent
`add` under its key; a call under another key, or a `remove` of a route that is
not there, changes no answer. -/
theorem router_refines_map (operations : List (Operation H)) :
    (∀ request, matchMessage (run operations) (.request request)
      = (lastAdd operations (requestKey request)).join) ∧
    (∀ operation request, operation.key ≠ requestKey request →
      matchMessage (run (operations ++ [operation])) (.request request)
        = matchMessage (run operations) (.request request)) ∧
    (∀ method path, lastAdd operations (method, split [] path) = none → ∀ request,
      matchMessage (run (operations ++ [.remove method path])) (.request request)
        = matchMessage (run operations) (.request request)) := by
  refine ⟨matchMessage_run operations, fun operation request hk => ?_,
    fun method path habsent request => ?_⟩
  · rw [matchMessage_run, matchMessage_run, lastAdd_append, if_neg hk]
  · rw [matchMessage_run, matchMessage_run, lastAdd_append]
    by_cases hk : (Operation.remove method path : Operation H).key = requestKey request
    · rw [if_pos hk, ← hk]
      exact congrArg Option.join habsent.symm
    · rw [if_neg hk]

set_option maxRecDepth 10000 in
/-- A route under a prefix of the path is another route, and a repeated slash is
not a segment. -/
theorem router_refines_map_prefix :
    matchMessage (run ([.add (ascii "GET") (ascii "a/b") (some 1)]
        ++ [.add (ascii "GET") (ascii "/a") (some 2)]))
      (.request { method := ascii "GET", path := ascii "a//b" }) = some 1 := by
  rw [(router_refines_map [.add (ascii "GET") (ascii "a/b") (some 1)]).2.1
    (.add (ascii "GET") (ascii "/a") (some 2)) _ (by decide)]
  decide

/-! ### Nodes -/

/-- The paths a call makes nodes along. -/
def Operation.made : Operation H → Set (List Bytes)
  | .add _ path _ => { segments | segments <+: split [] path }
  | .remove _ _ => ∅

theorem nodes_apply (root : Node H) (operation : Operation H) :
    (apply root operation).nodes = root.nodes ∪ operation.made := by
  cases operation with
  | add method path handler => exact PrefixTree.nodes_update _ _ _ _
  | remove method path =>
    rw [apply, remove, PrefixTree.nodes_updateExisting]
    exact (Set.union_empty _).symm

/-- **The nodes of a router.**  They are the root and every prefix of the segments
of a path that was ever added, whatever was removed since: a `remove` takes the
handler and leaves the node, also where no route is left below it. -/
theorem nodes_run (operations : List (Operation H)) (segments : List Bytes) :
    segments ∈ (run operations).nodes ↔ segments = [] ∨
      ∃ method path handler, .add method path handler ∈ operations ∧
        segments <+: split [] path := by
  induction operations using List.reverseRecOn with
  | nil => simp [run, emptyRoot, PrefixTree.nodes_leaf]
  | append_singleton operations operation ih =>
    rw [run, List.foldl_append, List.foldl_cons, List.foldl_nil, nodes_apply, Set.mem_union]
    rw [run] at ih
    rw [ih]
    cases operation with
    | add method path handler =>
      constructor
      · rintro ((hnil | ⟨method', path', handler', hmem, hprefix⟩) | hprefix)
        · exact .inl hnil
        · exact .inr ⟨method', path', handler', List.mem_append_left _ hmem, hprefix⟩
        · exact .inr ⟨method, path, handler, List.mem_append_right _ (.head _), hprefix⟩
      · rintro (hnil | ⟨method', path', handler', hmem, hprefix⟩)
        · exact .inl (.inl hnil)
        · rcases List.mem_append.mp hmem with hmem | hmem
          · exact .inl (.inr ⟨method', path', handler', hmem, hprefix⟩)
          · cases List.mem_singleton.mp hmem
            exact .inr hprefix
    | remove method path => simp [Operation.made]

end TrieRouter
end Sews.Http
