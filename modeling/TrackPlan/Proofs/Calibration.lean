import TrackPlan.Calibration
import TrackPlan.Proofs.Graph.Naming

/-!
# When a calibration loop is found

A lap around the loop needs an edge from each node to the next one, and a sensor to start the
measurement at.

1. `exists_edgesAround_iff` and `measureLap_nodes` say what the two parts of a lap come to.
2. `exists_extract_iff` puts them together, in terms of positions.
3. `Draws.exists_extract_iff` says the same in terms of names.
-/

namespace TrackPlan.Calibration

variable {g : Graph} {steps : List LoopStep} {s : LoopStep} {lines nodes : List Nat} {i : Nat}

/-! ## Parts of a lap -/

theorem map_openSteps (steps : List LoopStep) :
    (openSteps steps).map LoopStep.node = openRound (steps.map LoopStep.node) := by
  unfold openSteps openRound
  rw [List.length_map, List.head?_map, List.getLast?_map]
  split
  · rw [List.map_dropLast]
  · rfl

theorem locate_eq_ok : locate g s = .ok i ↔ g.nodeId? s.node = some i := by
  unfold locate
  cases g.nodeId? s.node <;> simp

theorem rotateLeft_eq {α : Type} (l : List α) : l.rotateLeft = l.rotate 1 := by
  match l with
  | [] => rfl
  | [a] => exact (List.rotate_singleton a 1).symm
  | a :: b :: rest =>
    rw [List.rotate_cons_succ, List.rotate_zero]
    simp [List.rotateLeft]

theorem exists_edgeOn_iff (hg : g.WellFormed) {line src dest : Nat} :
    (∃ k, edgeOn g line src dest = .ok k) ↔ g.Follows src dest := by
  rw [← hg.exists_edgeBetween?_iff]
  unfold edgeOn
  cases g.edgeBetween? src dest <;> simp

/-- The edges around a loop are found if each node is followed by the next one. -/
theorem exists_edgesAround_iff (hg : g.WellFormed) (hl : lines.length = nodes.length) :
    (∃ edges, edgesAround g lines nodes = .ok edges) ↔
      ∀ p ∈ nodes.zip (nodes.rotate 1), g.Follows p.1 p.2 := by
  have hzip : lines.length = (nodes.zip (nodes.rotate 1)).length := by
    rw [List.length_zip, List.length_rotate, Nat.min_self, hl]
  unfold edgesAround
  rw [exists_mapM_eq_ok_iff, rotateLeft_eq, ← forall_mem_zip_snd hzip]
  simp only [exists_edgeOn_iff hg]

theorem edgeOn_eq_ok {line src dest k : Nat} :
    edgeOn g line src dest = .ok k ↔ g.edgeBetween? src dest = some k := by
  unfold edgeOn
  cases g.edgeBetween? src dest <;> simp

/-- The edges around a loop, told without lines. -/
theorem edgesAround_eq_ok_iff {edges : List Nat} (hl : lines.length = nodes.length) :
    edgesAround g lines nodes = .ok edges ↔
      List.Forall₂ (fun p k => g.edgeBetween? p.1 p.2 = some k) (nodes.zip (nodes.rotate 1))
        edges := by
  have hzip : lines.length = (nodes.zip (nodes.rotate 1)).length := by
    rw [List.length_zip, List.length_rotate, Nat.min_self, hl]
  have hsnd := List.map_snd_zip (Nat.le_of_eq hzip.symm)
  unfold edgesAround
  rw [rotateLeft_eq, mapM_eq_ok_iff]
  simp only [edgeOn_eq_ok]
  conv_rhs => rw [← hsnd, List.forall₂_map_left_iff]

theorem length_edgesAround {edges : List Nat} (h : edgesAround g lines nodes = .ok edges)
    (hl : lines.length = nodes.length) : edges.length = nodes.length := by
  rw [← (mapM_eq_ok_iff.1 h).length_eq, rotateLeft_eq, List.length_zip, List.length_zip,
    List.length_rotate, hl, Nat.min_self, Nat.min_self]

/-- The sensors of a lap are the nodes of it that are sensors, in their order. -/
theorem measureLap_nodes (span : Nat) (lap : List (Nat × Nat)) :
    (measureLap g span lap).1.map LoopSensor.node = (lap.map Prod.fst).filter g.isSensor := by
  induction lap generalizing span with
  | nil => rfl
  | cons p rest ih =>
    obtain ⟨node, edge⟩ := p
    unfold measureLap
    rw [List.map_cons]
    by_cases hs : g.isSensor node = true
    · rw [if_pos hs, List.filter_cons_of_pos hs, ← ih (g.edgeLength edge)]
      rfl
    · rw [if_neg hs, List.filter_cons_of_neg hs, ih]

theorem measureLap_ne_nil_iff {edges : List Nat} (h : edges.length = nodes.length) {span : Nat} :
    (measureLap g span (nodes.zip edges)).1 ≠ [] ↔ ∃ i ∈ nodes, g.isSensor i = true := by
  have hnodes := measureLap_nodes (g := g) span (nodes.zip edges)
  rw [List.map_fst_zip (Nat.le_of_eq h.symm)] at hnodes
  rw [ne_eq, ← List.map_eq_nil_iff (f := LoopSensor.node), hnodes, List.filter_eq_nil_iff]
  push Not
  rfl

/-! ## The whole loop -/

/-- What is left to do once there are steps. -/
theorem exists_extract_iff_of_cons {first : LoopStep} {rest : List LoopStep}
    (h : openSteps steps = first :: rest) : (∃ l, extract g steps = .ok l) ↔
      ∃ nodes, (first :: rest).mapM (locate g) = .ok nodes ∧
        ∃ edges, edgesAround g ((first :: rest).map LoopStep.line) nodes = .ok edges ∧
          (measureLap g 0 (nodes.zip edges)).1 ≠ [] := by
  unfold extract
  rw [h]
  simp only [bind_eq_ok_iff]
  constructor
  · intro hs
    obtain ⟨l, nodes, hnodes, edges, hedges, hl⟩ := hs
    refine ⟨nodes, hnodes, edges, hedges, fun hnil => ?_⟩
    rcases hm : measureLap g 0 (nodes.zip edges) with ⟨sensors, left⟩
    rw [hm] at hl hnil
    obtain rfl : sensors = [] := hnil
    cases hl
  · intro hs
    obtain ⟨nodes, hnodes, edges, hedges, hne⟩ := hs
    rcases hm : measureLap g 0 (nodes.zip edges) with ⟨_ | ⟨head, sensors⟩, left⟩
    · rw [hm] at hne
      exact absurd rfl hne
    · exact ⟨_, nodes, hnodes, edges, hedges, by rw [hm]; rfl⟩

/-- A loop is found if there are no steps, or each step is followed by the next one and one of them
is at a sensor. -/
theorem exists_extract_iff (hg : g.WellFormed) : (∃ l, extract g steps = .ok l) ↔
    openSteps steps = [] ∨ ∃ nodes, (openSteps steps).mapM (locate g) = .ok nodes ∧
      (∀ p ∈ nodes.zip (nodes.rotate 1), g.Follows p.1 p.2) ∧ ∃ i ∈ nodes, g.isSensor i = true := by
  cases h : openSteps steps with
  | nil =>
    refine iff_of_true ⟨none, ?_⟩ (Or.inl rfl)
    unfold extract
    rw [h]
    rfl
  | cons first rest =>
    rw [exists_extract_iff_of_cons h, or_iff_right (List.cons_ne_nil first rest)]
    refine exists_congr fun nodes => and_congr_right fun hnodes => ?_
    have hlines : ((first :: rest).map LoopStep.line).length = nodes.length := by
      rw [List.length_map, (mapM_eq_ok_iff.1 hnodes).length_eq]
    rw [← exists_edgesAround_iff hg hlines]
    constructor
    · intro hx
      obtain ⟨edges, hedges, hs⟩ := hx
      exact ⟨⟨edges, hedges⟩, (measureLap_ne_nil_iff (length_edgesAround hedges hlines)).1 hs⟩
    · intro hx
      obtain ⟨⟨edges, hedges⟩, hs⟩ := hx
      exact ⟨edges, hedges, (measureLap_ne_nil_iff (length_edgesAround hedges hlines)).2 hs⟩

end TrackPlan.Calibration

namespace TrackPlan.Registry

variable {r : Registry} {g : Graph} {records : List LineRecord} {steps : List LoopStep}
  {nodes : List Nat}

/-! ## The loop by name -/

theorem Draws.isSensor_iff (h : r.Draws g records) {a : String} {i : Nat}
    (ha : g.nodeId? a = some i) :
    g.isSensor i = true ↔ ∃ d ∈ declsOf records, d.kind.tag = .sensor ∧ d.name = a := by
  obtain ⟨d, hd, n, rfl, hn, -, -, -, hkind⟩ := h.exists_decl ha
  unfold Graph.isSensor
  rw [hn]
  dsimp only
  rw [beq_iff_eq, hkind.tag_eq]
  constructor
  · exact fun ht => ⟨d, hd, ht, rfl⟩
  · intro hs
    obtain ⟨e, he, ht, hname⟩ := hs
    rwa [← h.decl_unique he hd hname]

/-- The names in a closed round are declared. -/
theorem declared_of_leads_around {decls : List Decl} {names : List String}
    (h : ∀ p ∈ names.zip (names.rotate 1), Leads decls p.1 p.2) :
    ∀ a ∈ names, Declared decls a := by
  intro a ha
  have hfst := List.map_fst_zip (Nat.le_of_eq (names.length_rotate 1).symm)
  rw [← hfst, List.mem_map] at ha
  obtain ⟨p, hp, rfl⟩ := ha
  obtain ⟨d, hd, hname, -⟩ := h p hp
  exact hname ▸ List.mem_map_of_mem hd

/-- Nodes follow each other around if their names lead to each other. -/
theorem Draws.follows_around_iff (h : r.Draws g records)
    (hnodes : List.Forall₂ (fun s i => g.nodeId? s.node = some i) steps nodes) :
    (∀ p ∈ nodes.zip (nodes.rotate 1), g.Follows p.1 p.2) ↔
      ∀ p ∈ (steps.map LoopStep.node).zip ((steps.map LoopStep.node).rotate 1),
        Leads (declsOf records) p.1 p.2 := by
  have hnames : List.Forall₂ (fun a i => g.nodeId? a = some i)
      (steps.map LoopStep.node) nodes := List.forall₂_map_left_iff.2 hnodes
  exact (forall_mem_iff_of_forall₂ (forall₂_zip_zip hnames (forall₂_rotate_one hnames))
    fun p q hpq => h.leads_iff_follows hpq.1 hpq.2).symm

/-- The loop is found if the names of its steps go around. -/
theorem Draws.exists_extract_iff (h : r.Draws g records) :
    (∃ l, Calibration.extract g steps = .ok l) ↔
      openRound (steps.map LoopStep.node) = [] ∨
        ClosedRound (declsOf records) (openRound (steps.map LoopStep.node)) := by
  rw [Calibration.exists_extract_iff h.wellFormed, ← Calibration.map_openSteps,
    List.map_eq_nil_iff]
  apply or_congr_right'
  intro _
  generalize Calibration.openSteps steps = steps
  constructor
  · intro hx
    obtain ⟨nodes, hnodes, hfollows, i, hi, hs⟩ := hx
    obtain ⟨s, hmem, hlocate⟩ := (mem_of_mapM_eq_ok hnodes).1 hi
    rw [mapM_eq_ok_iff] at hnodes
    simp only [Calibration.locate_eq_ok] at hnodes hlocate
    obtain ⟨d, hd, ht, hname⟩ := (h.isSensor_iff hlocate).1 hs
    exact ⟨(h.follows_around_iff hnodes).1 hfollows, d, hd, ht, hname ▸ List.mem_map_of_mem hmem⟩
  · intro hx
    obtain ⟨hleads, d, hd, ht, hmem⟩ := hx
    have hdeclared := declared_of_leads_around hleads
    obtain ⟨nodes, hnodes⟩ : ∃ nodes, steps.mapM (Calibration.locate g) = .ok nodes := by
      rw [exists_mapM_eq_ok_iff]
      intro s hs
      simp only [Calibration.locate_eq_ok]
      exact h.exists_nodeId?_iff.2 (hdeclared s.node (List.mem_map_of_mem hs))
    obtain ⟨s, hs, hname⟩ := List.mem_map.1 hmem
    obtain ⟨i, hi⟩ := h.exists_nodeId?_iff.2 (hdeclared _ hmem)
    refine ⟨nodes, hnodes, ?_, i, ?_, (h.isSensor_iff hi).2 ⟨d, hd, ht, rfl⟩⟩
    · rw [mapM_eq_ok_iff] at hnodes
      simp only [Calibration.locate_eq_ok] at hnodes
      exact (h.follows_around_iff hnodes).2 hleads
    · exact (mem_of_mapM_eq_ok hnodes).2 ⟨s, hs, Calibration.locate_eq_ok.2 (hname ▸ hi)⟩

end TrackPlan.Registry
