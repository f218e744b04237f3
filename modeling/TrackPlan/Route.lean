import TrackPlan.Graph.Basic

/-!
# Shortest routes

The search keeps the least distance found so far of every node, the edge by which it was found, and
a heap of nodes to go on from, each with its distance. The nearest entry is taken out first; of two
equally near ones, the one with the lower position. An entry whose node was found nearer since is
stale, and is skipped. In the end the edges are followed back from the node that was looked for.
-/

namespace TrackPlan

/-- A way from one node to another. -/
structure Route where
  /-- All nodes passed, both ends included. -/
  nodes : List Nat
  /-- The edge from each node to the next. -/
  edges : List Nat
  /-- In millimeters. -/
  distance : Nat
  deriving DecidableEq, Repr

/-- The last number of 64 bits, which stands for the distance of a node that is not reached. -/
def Graph.unreached : Nat := UInt64.size - 1

/-- What a search knows. -/
structure RouteSearch where
  /-- The distance of each node from the start. -/
  dist : Array Nat
  /-- The edge by which each node was reached last. -/
  via : Array (Option Nat)
  /-- Distances with their nodes, the least first. -/
  heap : List (Nat × Nat)
  deriving DecidableEq, Repr

namespace RouteSearch

/-- Whether the entry comes out of the heap before the other: the nearer first, then the lower
position. -/
def before (a b : Nat × Nat) : Bool := a.1 < b.1 || (a.1 == b.1 && a.2 < b.2)

/-- The heap with one more entry. -/
def push (entry : Nat × Nat) : List (Nat × Nat) → List (Nat × Nat)
  | [] => [entry]
  | next :: rest => if before entry next then entry :: next :: rest else next :: push entry rest

/-- The distance of a node. A node that does not exist cannot be found nearer than it is. -/
def distOf (s : RouteSearch) (node : Nat) : Nat := s.dist[node]?.getD 0

/-- Only the start is known. -/
def start (g : Graph) (src : Nat) : RouteSearch where
  dist := (Array.replicate g.nodeCount Graph.unreached).setIfInBounds src 0
  via := Array.replicate g.nodeCount none
  heap := [(0, src)]

/-- Follows an edge from a node at distance `d`: if it leads nearer to its end than any before, this
is noted, and there is another entry to go on from. -/
def relax (d : Nat) (s : RouteSearch) (e : Edge) : RouteSearch :=
  let next := d + e.distance.toNat
  if next < s.distOf e.dest then
    { dist := s.dist.setIfInBounds e.dest next
      via := s.via.setIfInBounds e.dest (some e.id)
      heap := push (next, e.dest) s.heap }
  else s

/-- Takes the first entry out of the heap: it is stale, or the edges of its node are followed. There
is no next step when the heap is empty or the node is the one that is looked for. -/
def step (g : Graph) (dest : Nat) (s : RouteSearch) : Option RouteSearch :=
  match s.heap with
  | [] => none
  | (d, node) :: rest =>
    if node = dest then none
    else if s.distOf node < d then some { s with heap := rest }
    else some ((g.outgoing node).foldl (relax d) { s with heap := rest })

/-! ## The search ends

Each entry that is put into the heap goes with a distance that gets smaller, and each step takes an
entry out. So the distances and the number of entries, all added up, get smaller with each step. -/

/-- All distances and the number of entries, added up. -/
def rank (s : RouteSearch) : Nat := s.dist.toList.foldr Nat.add s.heap.length

theorem foldr_add_set_lt {l : List Nat} {i x v : Nat} (n : Nat) (hx : l[i]? = some x)
    (hv : v < x) : (l.set i v).foldr Nat.add n < l.foldr Nat.add n := by
  induction l generalizing i with
  | nil => simp at hx
  | cons y rest ih =>
    cases i with
    | zero =>
      rw [List.getElem?_cons_zero, Option.some.injEq] at hx
      subst hx
      exact Nat.add_lt_add_right hv _
    | succ i =>
      rw [List.getElem?_cons_succ] at hx
      exact Nat.add_lt_add_left (ih hx) y

theorem foldr_add_succ (l : List Nat) (n : Nat) :
    l.foldr Nat.add (n + 1) = l.foldr Nat.add n + 1 := by
  induction l with
  | nil => rfl
  | cons y rest ih => exact congrArg (y + ·) ih

theorem length_push (entry : Nat × Nat) (heap : List (Nat × Nat)) :
    (push entry heap).length = heap.length + 1 := by
  induction heap with
  | nil => rfl
  | cons next rest ih =>
    unfold push
    split
    · rfl
    · exact congrArg (· + 1) ih

theorem rank_relax_le (d : Nat) (s : RouteSearch) (e : Edge) : (s.relax d e).rank ≤ s.rank := by
  unfold relax
  dsimp only
  split
  · next hlt =>
    unfold distOf at hlt
    cases hx : s.dist[e.dest]? with
    | none => simp [hx] at hlt
    | some x =>
      rw [hx, Option.getD_some] at hlt
      unfold rank
      rw [length_push, foldr_add_succ, Array.toList_setIfInBounds]
      exact foldr_add_set_lt _ (by rw [Array.getElem?_toList, hx]) hlt
  · exact Nat.le_refl _

theorem rank_foldl_relax_le (d : Nat) (s : RouteSearch) (edges : List Edge) :
    (edges.foldl (relax d) s).rank ≤ s.rank := by
  induction edges generalizing s with
  | nil => exact Nat.le_refl _
  | cons e rest ih => exact Nat.le_trans (ih (s.relax d e)) (rank_relax_le d s e)

theorem rank_step_lt {g : Graph} {dest : Nat} {s s' : RouteSearch} (h : step g dest s = some s') :
    s'.rank < s.rank := by
  unfold step at h
  split at h
  · cases h
  · next d node rest hheap =>
    have hshorter : rank { s with heap := rest } < s.rank := by
      unfold rank
      rw [hheap, List.length_cons, foldr_add_succ]
      exact Nat.lt_succ_self _
    split at h
    · cases h
    · split at h
      · cases h
        exact hshorter
      · cases h
        exact Nat.lt_of_le_of_lt (rank_foldl_relax_le _ _ _) hshorter

/-- Goes on as long as there is a next step. -/
def run (g : Graph) (dest : Nat) (s : RouteSearch) : RouteSearch :=
  match _h : step g dest s with
  | none => s
  | some s' => run g dest s'
termination_by s.rank
decreasing_by exact rank_step_lt ‹_›

end RouteSearch

namespace Graph

/-- The edges by which a node was reached from the start, the last one first. Each is followed back,
at most `rounds` times; there are no more of them than nodes. -/
def edgesBack (g : Graph) (src : Nat) (via : Array (Option Nat)) :
    (rounds : Nat) → (node : Nat) → Option (List Nat)
  | 0, _ => none
  | rounds + 1, node =>
    if node = src then some []
    else do
      let id ← via[node]?.join
      let e ← g.edge? id
      return id :: (← g.edgesBack src via rounds e.src)

/-- A shortest route, or `none` if there is none or one of the nodes does not exist. -/
def shortestRoute? (g : Graph) (src dest : Nat) : Option Route :=
  if src < g.nodeCount ∧ dest < g.nodeCount then
    let s := (RouteSearch.start g src).run g dest
    if s.distOf dest = unreached then none
    else do
      let edges := (← g.edgesBack src s.via g.nodeCount dest).reverse
      let nodes ← edges.mapM fun id => (g.edge? id).map Edge.dest
      return ⟨src :: nodes, edges, s.distOf dest⟩
  else none

/-- A shortest route between named nodes. -/
def shortestRouteByName? (g : Graph) (src dest : String) : Option Route := do
  g.shortestRoute? (← g.nodeId? src) (← g.nodeId? dest)

end Graph

end TrackPlan
