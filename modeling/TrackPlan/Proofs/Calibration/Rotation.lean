import Mathlib.Data.List.Chain
import Mathlib.Data.Option.Basic
import TrackPlan.Proofs.Calibration
import TrackPlan.Proofs.Compile
import TrackPlan.Proofs.Graph.Predecessors

/-!
# Where the loop is cut

A loop may be told from any of its steps on, and its first step may be repeated at its end.

1. `sensorsAround_append`: cutting a lap elsewhere only turns its sensors, since what is travelled
   behind the last sensor is counted for the first one.
2. `eq_of_round`: a node with an edge to itself is alone on its loop. So no turn of a loop begins
   and ends with the same name, which would be taken for a repetition.
3. `extract_rotate_of_compile` puts the two together.
-/

namespace TrackPlan

/-! ## A lap cut in two -/

namespace Calibration

variable {g : Graph} {lap front back : List (Nat × Nat)} {lines nodes edges : List Nat}
  {steps : List LoopStep} {l : Loop}

/-- A sensor begins a new span. -/
theorem measureLap_cons_of_isSensor {node edge span : Nat} (h : g.isSensor node = true) :
    measureLap g span ((node, edge) :: lap) =
      (⟨node, span⟩ :: (measureLap g (g.edgeLength edge) lap).1,
        (measureLap g (g.edgeLength edge) lap).2) := by
  rw [measureLap, if_pos h]

theorem measureLap_cons_of_not_isSensor {node edge span : Nat} (h : ¬ g.isSensor node = true) :
    measureLap g span ((node, edge) :: lap) = measureLap g (span + g.edgeLength edge) lap := by
  rw [measureLap, if_neg h]

/-- Measuring goes on behind the first part with what is travelled since its last sensor. -/
theorem measureLap_append (span : Nat) : measureLap g span (front ++ back) =
    ((measureLap g span front).1 ++ (measureLap g (measureLap g span front).2 back).1,
      (measureLap g (measureLap g span front).2 back).2) := by
  induction front generalizing span with
  | nil => rfl
  | cons p rest ih =>
    obtain ⟨node, edge⟩ := p
    rw [List.cons_append]
    by_cases hs : g.isSensor node = true
    · rw [measureLap_cons_of_isSensor hs, measureLap_cons_of_isSensor hs, ih, List.cons_append]
    · rw [measureLap_cons_of_not_isSensor hs, measureLap_cons_of_not_isSensor hs, ih]

/-- What is travelled after the last sensor has nothing to do with what is travelled before the
first. -/
theorem measureLap_snd_eq (h : ∃ p ∈ lap, g.isSensor p.1 = true) (span span' : Nat) :
    (measureLap g span lap).2 = (measureLap g span' lap).2 := by
  induction lap generalizing span span' with
  | nil => exact absurd h (by simp)
  | cons p rest ih =>
    obtain ⟨node, edge⟩ := p
    by_cases hs : g.isSensor node = true
    · rw [measureLap_cons_of_isSensor hs, measureLap_cons_of_isSensor hs]
    · rw [measureLap_cons_of_not_isSensor hs, measureLap_cons_of_not_isSensor hs]
      apply ih
      simpa [hs] using h

/-- What is travelled before a lap is counted for its first sensor. -/
theorem measureLap_add {span left : Nat} {head : LoopSensor} {sensors : List LoopSensor}
    (h : measureLap g span lap = (head :: sensors, left)) (more : Nat) :
    (measureLap g (span + more) lap).1 =
      { head with distance := head.distance + more } :: sensors := by
  induction lap generalizing span with
  | nil => cases h
  | cons p rest ih =>
    obtain ⟨node, edge⟩ := p
    by_cases hs : g.isSensor node = true
    · rw [measureLap_cons_of_isSensor hs] at h ⊢
      cases h
      rfl
    · rw [measureLap_cons_of_not_isSensor hs] at h ⊢
      rw [Nat.add_right_comm]
      exact ih h

/-- The sensors of a closed lap: what is travelled after the last one is travelled before the first
one. -/
def sensorsAround (g : Graph) (lap : List (Nat × Nat)) : List LoopSensor :=
  (measureLap g (measureLap g 0 lap).2 lap).1

/-- Cutting a lap elsewhere turns its sensors. -/
theorem sensorsAround_append (h : ∃ p ∈ front ++ back, g.isSensor p.1 = true) :
    sensorsAround g (front ++ back) ~r sensorsAround g (back ++ front) := by
  have h' : ∃ p ∈ back ++ front, g.isSensor p.1 = true := by
    simpa only [List.mem_append, or_comm] using h
  -- what is travelled at the two cuts since the sensor before, on the way around
  obtain ⟨x, hx⟩ : ∃ x, x = (measureLap g 0 (front ++ back)).2 := ⟨_, rfl⟩
  obtain ⟨y, hy⟩ : ∃ y, y = (measureLap g x front).2 := ⟨_, rfl⟩
  have hround : (measureLap g y back).2 = x := by
    have := measureLap_snd_eq h x 0
    rwa [measureLap_append, ← hx, ← hy] at this
  have hround' : (measureLap g 0 (back ++ front)).2 = y := by
    rw [measureLap_snd_eq h' 0 y, measureLap_append, hround, hy]
  unfold sensorsAround
  rw [← hx, hround', measureLap_append, measureLap_append, ← hy, hround]
  exact List.isRotated_append

theorem sensorsAround_rotate (h : ∃ p ∈ lap, g.isSensor p.1 = true) (k : Nat) :
    sensorsAround g lap ~r sensorsAround g (lap.rotate k) := by
  rw [List.rotate_eq_drop_append_take_mod]
  have happend := List.take_append_drop (k % lap.length) lap
  rw [← happend] at h
  have := sensorsAround_append h
  rwa [happend] at this

/-! ## The loop of the steps -/

theorem length_lines (h : steps.mapM (locate g) = .ok nodes) :
    (steps.map LoopStep.line).length = nodes.length := by
  rw [List.length_map, (mapM_eq_ok_iff.1 h).length_eq]

/-- What is found of a loop. -/
theorem extract_eq_ok_some_iff : extract g steps = .ok (some l) ↔
    openSteps steps ≠ [] ∧ (openSteps steps).mapM (locate g) = .ok l.nodes ∧
      edgesAround g ((openSteps steps).map LoopStep.line) l.nodes = .ok l.edges ∧
        (∃ i ∈ l.nodes, g.isSensor i = true) ∧
          l.sensors = sensorsAround g (l.nodes.zip l.edges) ∧
            l.branches = branchesOf g (l.nodes.zip l.edges) := by
  unfold extract
  cases hopen : openSteps steps with
  | nil => simp
  | cons first rest =>
    simp only [bind_eq_ok_iff]
    constructor
    · rintro ⟨nodes, hnodes, edges, hedges, hl⟩
      have hlen := length_edgesAround hedges (length_lines hnodes)
      rcases hm : measureLap g 0 (nodes.zip edges) with ⟨_ | ⟨head, sensors⟩, left⟩
      · rw [hm] at hl
        cases hl
      · rw [hm] at hl
        cases hl
        refine ⟨List.cons_ne_nil _ _, hnodes, hedges, ?_, ?_, rfl⟩
        · exact (measureLap_ne_nil_iff hlen).1 (by rw [hm]; simp)
        · have hadd := measureLap_add hm left
          rw [Nat.zero_add] at hadd
          unfold sensorsAround
          rw [hm]
          exact hadd.symm
    · rintro ⟨-, hnodes, hedges, hsensor, hsensors, hbranches⟩
      have hlen := length_edgesAround hedges (length_lines hnodes)
      refine ⟨l.nodes, hnodes, l.edges, hedges, ?_⟩
      rcases hm : measureLap g 0 (l.nodes.zip l.edges) with ⟨_ | ⟨head, sensors⟩, left⟩
      · have hne : (measureLap g 0 (l.nodes.zip l.edges)).1 ≠ [] :=
          (measureLap_ne_nil_iff hlen).2 hsensor
        rw [hm] at hne
        exact absurd rfl hne
      · have hadd := measureLap_add hm left
        rw [Nat.zero_add] at hadd
        unfold sensorsAround at hsensors
        rw [hm, hadd] at hsensors
        dsimp only
        rw [← hbranches, ← hsensors]
        rfl

/-! ## Steps told from another one on -/

/-- Steps whose last one is no repetition of the first. -/
theorem openSteps_eq_self
    (h : steps.length = 1 ∨ steps.head?.map LoopStep.node ≠ steps.getLast?.map LoopStep.node) :
    openSteps steps = steps := by
  unfold openSteps
  rw [if_neg]
  rintro ⟨hlen, hends⟩
  exact h.elim (fun h => by omega) (fun h => h hends)

/-- A repetition of the first step at the end is left out. -/
theorem openSteps_concat {again : LoopStep} (h : steps.head?.map LoopStep.node = some again.node) :
    openSteps (steps ++ [again]) = steps := by
  cases steps with
  | nil => cases h
  | cons first rest =>
    unfold openSteps
    rw [if_pos, List.dropLast_concat]
    rw [List.getLast?_concat, List.length_append, List.length_cons, List.length_singleton]
    exact ⟨by omega, h⟩

theorem mapM_rotate {ε α β : Type} {f : α → Except ε β} {l : List α} {l' : List β}
    (h : l.mapM f = .ok l') (k : Nat) : (l.rotate k).mapM f = .ok (l'.rotate k) :=
  mapM_eq_ok_iff.2 (forall₂_rotate (mapM_eq_ok_iff.1 h) k)

theorem edgesAround_rotate (h : edgesAround g lines nodes = .ok edges)
    (hl : lines.length = nodes.length) (k : Nat) :
    edgesAround g (lines.rotate k) (nodes.rotate k) = .ok (edges.rotate k) := by
  have hnodes : nodes.length = (nodes.rotate 1).length := by rw [List.length_rotate]
  have hlines : lines.length = (nodes.zip (nodes.rotate 1)).length := by
    rw [List.length_zip, ← hnodes, Nat.min_self, hl]
  unfold edgesAround at h ⊢
  rw [rotateLeft_eq] at h ⊢
  rw [List.rotate_rotate, Nat.add_comm, ← List.rotate_rotate, ← zip_rotate hnodes,
    ← zip_rotate hlines]
  exact mapM_rotate h k

/-- The loop of the graph told from its `k`-th node on. -/
def turn (g : Graph) (k : Nat) (l : Loop) : Loop where
  nodes := l.nodes.rotate k
  edges := l.edges.rotate k
  sensors := sensorsAround g ((l.nodes.zip l.edges).rotate k)
  branches := branchesOf g ((l.nodes.zip l.edges).rotate k)

/-- Steps that are told from the `k`-th on give the loop told from its `k`-th node on. -/
theorem extract_eq_turn (h : extract g steps = .ok (some l)) {k : Nat} {steps' : List LoopStep}
    (hopen : openSteps steps' = (openSteps steps).rotate k) :
    extract g steps' = .ok (some (turn g k l)) := by
  obtain ⟨hne, hnodes, hedges, ⟨i, hi, hsensor⟩, -, -⟩ := extract_eq_ok_some_iff.1 h
  have hlen := length_edgesAround hedges (length_lines hnodes)
  rw [extract_eq_ok_some_iff, hopen]
  refine ⟨by rwa [ne_eq, List.rotate_eq_nil_iff], mapM_rotate hnodes k, ?_,
    ⟨i, List.mem_rotate.2 hi, hsensor⟩, ?_, ?_⟩
  · rw [List.map_rotate]
    exact edgesAround_rotate hedges (length_lines hnodes) k
  · rw [turn, zip_rotate hlen.symm]
  · rw [turn, zip_rotate hlen.symm]

theorem sensors_turn (h : extract g steps = .ok (some l)) (k : Nat) :
    l.sensors ~r (turn g k l).sensors := by
  obtain ⟨-, hnodes, hedges, ⟨i, hi, hsensor⟩, hsensors, -⟩ := extract_eq_ok_some_iff.1 h
  have hlen := length_edgesAround hedges (length_lines hnodes)
  rw [hsensors]
  apply sensorsAround_rotate
  rw [← List.map_fst_zip (Nat.le_of_eq hlen.symm), List.mem_map] at hi
  obtain ⟨p, hp, rfl⟩ := hi
  exact ⟨p, hp, hsensor⟩

theorem totalDistance_turn (k : Nat) : (turn g k l).totalDistance g = l.totalDistance g := by
  unfold Loop.totalDistance turn
  exact List.Perm.sum_eq ((List.rotate_perm l.edges k).map g.edgeLength)

end Calibration

/-! ## No turn looks closed -/

/-- Let no element lead on to itself and to others, and be reached from itself and from others. Then
a round that begins and ends with one element goes nowhere else. -/
theorem eq_of_round {α : Type} {R : α → α → Prop} {l : List α}
    (hround : ∀ p ∈ l.zip (l.rotate 1), R p.1 p.2) (hends : l.head? = l.getLast?)
    (halone : ∀ a, R a a → (∀ b, R a b → b = a) ∨ ∀ b, R b a → b = a) :
    ∀ a ∈ l, ∀ b ∈ l, a = b := by
  cases l with
  | nil => simp
  | cons a rest =>
    rw [List.rotate_cons_succ, List.rotate_zero] at hround
    have hchain : List.IsChain R (a :: rest ++ [a]) :=
      List.isChain_cons_append_singleton_iff_forall₂.2
        (List.forall₂_iff_zip.2 ⟨by simp, fun h => hround _ h⟩)
    have hlast : (a :: rest).getLast (List.cons_ne_nil a rest) = a := by
      rw [List.head?_cons, List.getLast?_eq_some_getLast (List.cons_ne_nil a rest)] at hends
      exact (Option.some.inj hends).symm
    have hself : R a a := by
      have := hchain.rel_getLast_head_of_append (List.cons_ne_nil a rest) (List.cons_ne_nil a [])
      rwa [hlast] at this
    suffices h : ∀ b ∈ a :: rest, b = a from fun b hb c hc => (h b hb).trans (h c hc).symm
    -- the one element is all that is met, forwards from the first place or backwards from the last
    rcases halone a hself with honward | hback
    · apply hchain.left_of_append.induction
      · rintro x y hxy rfl
        exact honward y hxy
      · exact fun _ => rfl
    · apply hchain.left_of_append.backwards_induction
      · rintro x y hxy rfl
        exact hback x hxy
      · exact fun _ => hlast

/-- A node with an edge to itself has no other successor, or no other predecessor. -/
theorem Graph.PredecessorLaw.alone {g : Graph} (hlaw : g.PredecessorLaw) (hg : g.WellFormed)
    {a : Nat} (h : g.Follows a a) : (∀ b, g.Follows a b → b = a) ∨ ∀ b, g.Follows b a → b = a := by
  obtain ⟨n, hn⟩ := Graph.WellFormed.exists_node (Graph.WellFormed.Follows.src_lt hg h)
  by_cases hmerge : n.kind.tag = .merge
  · left
    have hlen : n.kind.successors.length = 1 := by rw [Kind.length_successors, hmerge]; rfl
    obtain ⟨s, hs⟩ := List.length_eq_one_iff.1 hlen
    intro b hb
    rw [hg.follows_iff hn, hs, List.mem_singleton] at h hb
    rw [hb, h]
  · right
    obtain ⟨x, hx⟩ : ∃ x, g.predecessors a = {x} := by
      apply hlaw.exists_eq_singleton hn
      by_contra hother
      have hempty : g.predecessors a = ∅ := by
        apply hlaw.eq_empty hn
        revert hmerge hother
        cases n.kind.tag <;> simp
      exact absurd h (Set.eq_empty_iff_forall_notMem.1 hempty a)
    intro b hb
    have ha' : a ∈ g.predecessors a := h
    have hb' : b ∈ g.predecessors a := hb
    rw [hx, Set.mem_singleton_iff] at ha' hb'
    rw [hb', ← ha']

theorem Graph.WellFormed.nodeId?_inj {g : Graph} (hg : g.WellFormed) {a b : String} {i : Nat}
    (ha : g.nodeId? a = some i) (hb : g.nodeId? b = some i) : a = b := by
  obtain ⟨n, hn, -, rfl⟩ := hg.nodeId?_eq_some_iff.1 ha
  obtain ⟨m, hm, -, rfl⟩ := hg.nodeId?_eq_some_iff.1 hb
  rw [hn] at hm
  cases hm
  rfl

namespace Calibration

variable {g : Graph} {steps : List LoopStep} {l : Loop}

theorem forall_mem_zip_rotate {R : Nat → Nat → Prop} {nodes : List Nat} (k : Nat)
    (h : ∀ p ∈ nodes.zip (nodes.rotate 1), R p.1 p.2) :
    ∀ p ∈ (nodes.rotate k).zip ((nodes.rotate k).rotate 1), R p.1 p.2 := by
  rw [List.rotate_rotate, Nat.add_comm, ← List.rotate_rotate,
    ← zip_rotate (nodes.length_rotate 1).symm]
  exact fun p hp => h p (List.mem_rotate.1 hp)

theorem map_nodeId? {nodes : List Nat} (h : steps.mapM (locate g) = .ok nodes) :
    steps.map (fun s => g.nodeId? s.node) = nodes.map some := by
  have := mapM_eq_ok_iff.1 h
  simp only [locate_eq_ok] at this
  exact List.forall₂_eq_eq_eq ▸ List.forall₂_map_left_iff.2 (List.forall₂_map_right_iff.2 this)

/-- Steps that begin and end with the same name begin and end at the same node. -/
theorem head?_eq_getLast? {nodes : List Nat} (h : steps.mapM (locate g) = .ok nodes)
    (hends : steps.head?.map LoopStep.node = steps.getLast?.map LoopStep.node) :
    nodes.head? = nodes.getLast? := by
  apply Option.map_injective (Option.some_injective Nat)
  have := congrArg (Option.map g.nodeId?) hends
  rwa [Option.map_map, Option.map_map, ← List.head?_map, ← List.getLast?_map,
    show g.nodeId? ∘ LoopStep.node = fun s => g.nodeId? s.node from rfl, map_nodeId? h,
    List.head?_map, List.getLast?_map] at this

/-- No turn of the steps of a loop looks as if its last step repeated its first one. -/
theorem openSteps_rotate (hg : g.WellFormed) (hlaw : g.PredecessorLaw)
    (hs : steps.length = 1 ∨ steps.head?.map LoopStep.node ≠ steps.getLast?.map LoopStep.node)
    (hl : extract g steps = .ok (some l)) (k : Nat) :
    openSteps (steps.rotate k) = steps.rotate k := by
  obtain ⟨hne, hnodes, hedges, -⟩ := extract_eq_ok_some_iff.1 hl
  rw [openSteps_eq_self hs] at hne hnodes hedges
  apply openSteps_eq_self
  rw [List.length_rotate]
  refine hs.imp_right fun hends hclosed => hends ?_
  -- otherwise there is one node all around, hence one name
  have hround := (exists_edgesAround_iff hg (length_lines hnodes)).1 ⟨_, hedges⟩
  have hone := eq_of_round (forall_mem_zip_rotate k hround)
    (head?_eq_getLast? (mapM_rotate hnodes k) hclosed) fun _ => hlaw.alone hg
  have hnode : ∀ s ∈ steps, ∃ i ∈ l.nodes.rotate k, g.nodeId? s.node = some i := by
    intro s hs
    have := List.mem_map_of_mem (f := fun s => g.nodeId? s.node) hs
    rw [map_nodeId? hnodes, List.mem_map] at this
    obtain ⟨i, hi, heq⟩ := this
    exact ⟨i, List.mem_rotate.2 hi, heq.symm⟩
  have hname : ∀ s ∈ steps, ∀ s' ∈ steps, s.node = s'.node := by
    intro s hs s' hs'
    obtain ⟨i, hi, hsi⟩ := hnode s hs
    obtain ⟨j, hj, hsj⟩ := hnode s' hs'
    rw [hone i hi j hj] at hsi
    exact hg.nodeId?_inj hsi hsj
  rw [List.head?_eq_some_head hne, List.getLast?_eq_some_getLast hne, Option.map_some,
    Option.map_some, hname _ (List.head_mem hne) _ (List.getLast_mem hne)]

end Calibration

/-- **Where the loop is cut.** Let a loop be found on a compiled track from steps of which the last
one does not repeat the first. Then it is found from every turn of the steps, with or without a
repetition at the end; its nodes and its edges are turned alike, its sensors are turned and keep
their distances, and it is as long. -/
theorem extract_rotate_of_compile {text : String} {o : Options} {t : Track}
    (h : (compile text o).result = .ok t) {steps : List LoopStep} {l : Loop}
    (hs : steps.length = 1 ∨ steps.head?.map LoopStep.node ≠ steps.getLast?.map LoopStep.node)
    (hl : Calibration.extract t.graph steps = .ok (some l)) (k : Nat) :
    ∃ l', Calibration.extract t.graph (steps.rotate k) = .ok (some l') ∧
      (∀ again : LoopStep, (steps.rotate k).head?.map LoopStep.node = some again.node →
        Calibration.extract t.graph (steps.rotate k ++ [again]) = .ok (some l')) ∧
      l'.nodes = l.nodes.rotate k ∧ l'.edges = l.edges.rotate k ∧ l.sensors ~r l'.sensors ∧
      l'.totalDistance t.graph = l.totalDistance t.graph := by
  obtain ⟨records, r, hstages⟩ := exists_stages_of_compile h
  have hlaw := hstages.wellFormed.predecessorLaw hstages.mirrored hstages.reversible
  have hopen := Calibration.openSteps_rotate hstages.wellFormed hlaw hs hl k
  rw [← Calibration.openSteps_eq_self hs] at hopen
  refine ⟨Calibration.turn t.graph k l, Calibration.extract_eq_turn hl ?_, fun again hagain => ?_,
    rfl, rfl, Calibration.sensors_turn hl k, Calibration.totalDistance_turn k⟩
  · rw [← hopen, Calibration.openSteps_eq_self hs]
  · apply Calibration.extract_eq_turn hl
    rw [Calibration.openSteps_concat hagain, Calibration.openSteps_eq_self hs]

/-- Two sensors and a separator around a triangle. -/
def triangle : String :=
  "sensor A : 0 -> S @ AR : 1 -> BR\nsensor B : 2 -> A @ BR : 3 -> SR\nsep S -> B @ SR -> AR\n" ++
    "dist A S 90mm\ndist B A 50mm"

/-- The steps around the triangle, the first one not repeated. -/
def triangleSteps : List LoopStep := [⟨"A", 6⟩, ⟨"S", 7⟩, ⟨"B", 8⟩]

def triangleLoop : Loop := ⟨[0, 4, 2], [0, 4, 2], [⟨0, 50⟩, ⟨2, 90⟩], []⟩

theorem extract_rotate_triangle :
    (triangleSteps.length = 1 ∨
      triangleSteps.head?.map LoopStep.node ≠ triangleSteps.getLast?.map LoopStep.node) ∧
    ∃ t, (compile triangle {}).result = .ok t ∧
      Calibration.extract t.graph triangleSteps = .ok (some triangleLoop) ∧
      ∃ l', Calibration.extract t.graph (triangleSteps.rotate 1) = .ok (some l') ∧
        (∀ again : LoopStep, (triangleSteps.rotate 1).head?.map LoopStep.node = some again.node →
          Calibration.extract t.graph (triangleSteps.rotate 1 ++ [again]) = .ok (some l')) ∧
        l'.nodes = triangleLoop.nodes.rotate 1 ∧ l'.edges = triangleLoop.edges.rotate 1 ∧
        triangleLoop.sensors ~r l'.sensors ∧
        l'.totalDistance t.graph = triangleLoop.totalDistance t.graph := by
  have h : (compile triangle {}).result.toOption.map
      (fun t => Calibration.extract t.graph triangleSteps) = some (.ok (some triangleLoop)) := by
    rw [compile_eq_inserting]
    decide +kernel
  obtain ⟨t, ht, hl⟩ := exists_of_toOption_map h
  have hs : triangleSteps.length = 1 ∨
      triangleSteps.head?.map LoopStep.node ≠ triangleSteps.getLast?.map LoopStep.node := by
    decide
  exact ⟨hs, t, ht, hl, extract_rotate_of_compile ht hs hl 1⟩

end TrackPlan
