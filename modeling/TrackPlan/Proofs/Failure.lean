import TrackPlan.Proofs.Failure.Checking
import TrackPlan.Proofs.Failure.Declaring
import TrackPlan.Proofs.Failure.Finishing
import TrackPlan.Proofs.Failure.Linking
import TrackPlan.Proofs.Failure.Reading

/-!
# Why a description does not compile

Every error has its cause in the text: an unreadable line, or something that the records say, or
fail to say, together (`Cause`). Every stage has a lemma of its own about its errors, and here they
are put together.

1. `cause_of_ofRecords`, `Holds.cause_of_link` and `Draws.cause_of_finish` are the stages of a list
   of records; `exists_cause_of_compile` adds reading.
2. `blamedLine_of_compile`: the line that an error points at holds the record that is to blame.
3. `onlyStrandedEdges_of_check`: the checks on a linked graph fail only for stranded edges.
-/

namespace TrackPlan

open Text

/-- A record on the line declares the node, as its first half (0) or its second one (1). -/
def DeclaredAt (records : List LineRecord) (line half : Nat) (d : Decl) : Prop :=
  ∃ entry ∈ records, entry.line = line ∧ entry.halves[half]? = some d

/-- The node is declared on an earlier line, or on the line itself as an earlier half. -/
def DeclaredBefore (records : List LineRecord) (line half : Nat) (d : Decl) : Prop :=
  ∃ line' half', DeclaredAt records line' half' d ∧ (line' < line ∨ line' = line ∧ half' < half)

/-- Why records do not compile, each cause with the error that reports it. -/
inductive Cause (records : List LineRecord) (o : Options) : CompileError → Prop
  /-- Two nodes have one name. -/
  | duplicateName {line half : Nat} {d d' : Decl} (h : DeclaredAt records line half d)
    (hbefore : DeclaredBefore records line half d') (hname : d'.name = d.name) :
    Cause records o (.duplicateName line d.name)
  /-- Two sensors have one address. -/
  | duplicateAddress {line half : Nat} {d d' : Decl} {a : UInt32}
    (h : DeclaredAt records line half d) (ha : d.kind.address? = some a)
    (hbefore : DeclaredBefore records line half d') (ha' : d'.kind.address? = some a) :
    Cause records o (.duplicateAddress line a d.name d'.name)
  | addressOutOfRange {line half : Nat} {d : Decl} {a limit : UInt32}
    (h : DeclaredAt records line half d) (ha : d.kind.address? = some a)
    (hlimit : o.maxSensorAddress = some limit) (hlt : limit < a) :
    Cause records o (.addressOutOfRange line d.name a limit)
  | tooManyNodes {count : Nat} (hcount : count = addressSpan (declsOf records) +
      (declsOf records).countP (·.kind.tag ≠ .sensor)) (hlt : o.nodeLimit < count) :
    Cause records o (.tooManyNodes count o.nodeLimit)
  /-- A node record mentions a name that no record declares. -/
  | unknownSuccessor {line half : Nat} {d : Decl} {name : String}
    (h : DeclaredAt records line half d) (hname : name ∈ d.kind.successors)
    (hunknown : ¬ Declared (declsOf records) name) : Cause records o (.unknownName line name)
  /-- A distance record mentions a name that no record declares. -/
  | unknownEnd {line : Nat} {src dest name : String} {millimeters : UInt32}
    (h : ⟨line, .distance src dest millimeters⟩ ∈ records) (hname : name = src ∨ name = dest)
    (hunknown : ¬ Declared (declsOf records) name) : Cause records o (.unknownName line name)
  /-- A calibration record mentions a name that no record declares. -/
  | unknownStep {line : Nat} {name : String} (h : ⟨line, .calibration name⟩ ∈ records)
    (hunknown : ¬ Declared (declsOf records) name) : Cause records o (.unknownName line name)
  /-- The pair that a distance record names, or that of the reverses in the opposite order, is no
  edge. -/
  | orphanDistance {line : Nat} {a b src dest : String} {millimeters : UInt32}
    (h : ⟨line, .distance a b millimeters⟩ ∈ records)
    (hpair : src = a ∧ dest = b ∨
      Reverses (declsOf records) b src ∧ Reverses (declsOf records) a dest)
    (hnone : ¬ Leads (declsOf records) src dest) :
    Cause records o (.orphanDistance line src dest)
  /-- Distances are required, and none speaks for an edge, or both ways of some branch lead to one
  node. -/
  | missingDistance {src dest : String} (hrequired : o.requireDistances = true)
    (h : Leads (declsOf records) src dest)
    (hnone : Forks (declsOf records) → ∀ x ∈ records.filterMap LineRecord.distance?,
      ¬ Covers (declsOf records) x src dest) : Cause records o (.missingDistance src dest)
  | strandedEdge {a b a' b' : String} (h : Leads (declsOf records) a b)
    (ha : Reverses (declsOf records) a a') (hb : Reverses (declsOf records) b b')
    (hnone : ¬ Leads (declsOf records) b' a') : Cause records o (.strandedEdge a b b' a')
  /-- A mutex record lists a pair that is no edge. -/
  | unknownEdge {line : Nat} {edges : List (String × String)} {src dest : String}
    (h : ⟨line, .mutex edges⟩ ∈ records) (hpair : (src, dest) ∈ edges)
    (hnone : ¬ Leads (declsOf records) src dest) : Cause records o (.unknownEdge line src dest)
  /-- The node of a calibration record does not lead to the one reported as the next. -/
  | gap {line : Nat} {src dest : String} (h : ⟨line, .calibration src⟩ ∈ records)
    (hnone : ¬ Leads (declsOf records) src dest) :
    Cause records o (.invalidLoop line (.gap src dest))
  /-- The calibration records name no sensor. -/
  | noSensor {line : Nat} {node : String} (h : ⟨line, .calibration node⟩ ∈ records)
    (hnone : ∀ d ∈ declsOf records, d.kind.tag = .sensor →
      d.name ∉ openRound ((records.filterMap LineRecord.step?).map LoopStep.node)) :
    Cause records o (.invalidLoop line .noSensor)

variable {records before after : List LineRecord} {entry : LineRecord} {d d' : Decl}
  {earlier later : List Decl} {e : CompileError} {o : Options} {text : String}

/-! ## Declarations and their lines -/

theorem exists_declaredAt (h : d ∈ declsOf records) :
    ∃ half, DeclaredAt records d.line half d := by
  obtain ⟨entry, hentry, hd⟩ := List.mem_flatMap.1 h
  obtain ⟨half, hhalf⟩ := List.getElem?_of_mem hd
  exact ⟨half, entry, hentry, (LineRecord.line_of_mem_halves hd).symm, hhalf⟩

/-- In a list of records by line, what is declared earlier in the list is declared before. -/
theorem declaredBefore_of_mem
    (hasc : (before ++ entry :: after).Pairwise fun x y => x.line < y.line)
    (hhalves : entry.halves = earlier ++ d :: later) (h : d' ∈ declsOf before ++ earlier) :
    DeclaredBefore (before ++ entry :: after) entry.line earlier.length d' := by
  rcases List.mem_append.1 h with h | h
  · obtain ⟨entry', hentry', hd'⟩ := List.mem_flatMap.1 h
    obtain ⟨half, hhalf⟩ := List.getElem?_of_mem hd'
    have hlt := (List.pairwise_append.1 hasc).2.2 entry' hentry' entry List.mem_cons_self
    exact ⟨entry'.line, half, ⟨entry', List.mem_append_left _ hentry', rfl, hhalf⟩, Or.inl hlt⟩
  · obtain ⟨half, hhalf⟩ := List.getElem?_of_mem h
    obtain ⟨hlt, -⟩ := List.getElem?_eq_some_iff.1 hhalf
    refine ⟨entry.line, half, ⟨entry, by simp, rfl, ?_⟩, Or.inr ⟨rfl, hlt⟩⟩
    rw [hhalves, List.getElem?_append_left hlt, hhalf]

/-! ## Stage by stage -/

theorem cause_of_ofRecords (hasc : records.Pairwise fun x y => x.line < y.line)
    (h : Registry.ofRecords records = .error e) : Cause records o e := by
  obtain ⟨before, entry, after, earlier, d, later, rfl, hhalves, hrefused⟩ :=
    Registry.ofRecords_eq_error h
  have hline : d.line = entry.line := LineRecord.line_of_mem_halves (by rw [hhalves]; simp)
  have hat : DeclaredAt (before ++ entry :: after) d.line earlier.length d :=
    ⟨entry, by simp, hline.symm, by rw [hhalves]; simp⟩
  have hbefore : ∀ d' ∈ declsOf before ++ earlier,
      DeclaredBefore (before ++ entry :: after) d.line earlier.length d' := by
    intro d' hd'
    rw [hline]
    exact declaredBefore_of_mem hasc hhalves hd'
  cases hrefused with
  | name hname =>
    obtain ⟨d', hd', hname⟩ := List.mem_map.1 hname
    exact .duplicateName hat (hbefore d' hd') hname
  | address ha hd' ha' => exact .duplicateAddress hat ha (hbefore _ hd') ha'

namespace Registry

variable {r : Registry} {g : Graph}

theorem Holds.cause_of_checkCapacity (hh : r.Holds records) (hv : r.Valid)
    (h : r.checkCapacity o = .error e) : Cause records o e := by
  rcases hv.checkCapacity_eq_error h with ⟨d, hd, a, limit, ha, ho, hlt, rfl⟩ | ⟨hlt, rfl⟩
  · obtain ⟨half, hat⟩ := exists_declaredAt (hh.decls_eq ▸ hd)
    exact .addressOutOfRange hat ha ho hlt
  · exact .tooManyNodes (hh.decls_eq ▸ hh.slotCount_eq hv) hlt

theorem Draws.cause_of_orphan (h : r.Draws g records) {t : DistanceTable}
    (ht : (r.distanceTable g.places).result = .ok t) {pair : Nat × Nat} {entry : DistanceEntry}
    (hmem : (pair, entry) ∈ t) (hnone : g.edgeBetween? pair.1 pair.2 = none) :
    Cause records o (.orphanDistance entry.line (g.nameOf pair.1) (g.nameOf pair.2)) := by
  obtain ⟨x, hx, hline, hpair, hleads⟩ := h.exists_orphan ht hmem hnone
  obtain ⟨record, hrecord, hdistance⟩ := List.mem_filterMap.1 hx
  obtain rfl := LineRecord.distance?_eq_some_iff.1 hdistance
  rw [← hline]
  exact .orphanDistance hrecord hpair hleads

theorem Draws.cause_of_unmeasured (h : r.Draws g records) {t : DistanceTable}
    (ht : (r.distanceTable g.places).result = .ok t) (hrequired : o.requireDistances = true)
    {k : Nat} {edge : Edge} (hedge : g.edge? k = some edge)
    (hfree : ∀ pair ∈ t.keys, g.edgeBetween? pair.1 pair.2 ≠ some k) :
    Cause records o (.missingDistance (g.nameOf edge.src) (g.nameOf edge.dest)) := by
  have hf : g.Follows edge.src edge.dest := ⟨k, edge, hedge, rfl, rfl⟩
  obtain ⟨a, b, ha, hb⟩ := h.exists_names hf
  rw [h.nameOf_eq ha, h.nameOf_eq hb]
  refine .missingDistance hrequired ((h.leads_iff_follows ha hb).2 hf) fun hforks x hx hcovers => ?_
  -- a record that covers the edge would have given it a distance
  obtain ⟨p, q, hpq, hpair⟩ := (h.covers_iff ha hb hf).2 hcovers
  refine hfree _ ((h.mem_keys_iff ht).2 ⟨x, hx, p, q, hpq, hpair⟩) ?_
  exact (h.forked_iff.2 hforks).edgeBetween?_eq h.wellFormed hedge

theorem Draws.cause_of_attach (h : r.Draws g records) {t : DistanceTable}
    (ht : (r.distanceTable g.places).result = .ok t)
    (he : (g.attach t o.requireDistances).2.result = .error e) : Cause records o e := by
  rcases Graph.attach_eq_error he with ⟨pair, entry, hmem, hnone, rfl⟩ |
    ⟨hrequired, k, edge, hedge, hfree, rfl⟩
  · exact h.cause_of_orphan ht hmem hnone
  · -- names and edges are the same before and after distances
    have hw := h.wires.attach t o.requireDistances
    have hd : r.Draws (g.attach t o.requireDistances).1 records := ⟨h.valid, h.holds, hw⟩
    rw [h.wires.places_eq, ← hw.places_eq] at ht
    rw [hd.wellFormed.edge_id hedge] at hfree
    have hcause := hd.cause_of_unmeasured ht hrequired hedge (by simpa using hfree)
    rwa [Graph.nameOf_attach, Graph.nameOf_attach] at hcause

theorem Holds.cause_of_link (hh : r.Holds records) (hv : r.Valid)
    (h : (r.link o).result = .error e) : Cause records o e := by
  rcases link_eq_error_iff.1 h with hcap | ⟨-, hwire | ⟨g, hg, hdistances⟩⟩
  · exact hh.cause_of_checkCapacity hv hcap
  · obtain ⟨d, hd, s, hs, hunknown, rfl⟩ := hh.wire_eq_error hv hwire
    obtain ⟨half, hat⟩ := exists_declaredAt hd
    exact .unknownSuccessor hat hs hunknown
  · have hd : r.Draws g records := ⟨hv, hh, wires_of_wire hg⟩
    rcases hdistances with htable | ⟨t, ht, hattach⟩
    · obtain ⟨x, hx, s, hs, hunknown, rfl⟩ := hd.distanceTable_eq_error htable
      obtain ⟨record, hrecord, hdistance⟩ := List.mem_filterMap.1 hx
      obtain rfl := LineRecord.distance?_eq_some_iff.1 hdistance
      exact .unknownEnd hrecord hs hunknown
    · exact hd.cause_of_attach ht hattach

/-- The checks fail because of an edge that cannot be travelled the other way, told by name. -/
theorem Draws.cause_of_check (h : r.Draws g records) (he : g.check = .error e) :
    Cause records o e := by
  obtain ⟨k, edge, i, j, hedge, -, -, hri, hrj, hnone, rfl⟩ :=
    (h.wellFormed.check_eq_error_iff h.mirrored.symmetric).1 he
  obtain ⟨a, b, ha, hb⟩ := h.exists_names ⟨k, edge, hedge, rfl, rfl⟩
  obtain ⟨a', j', ha', hj'⟩ := h.exists_reverse ha
  obtain ⟨b', i', hb', hi'⟩ := h.exists_reverse hb
  rw [hrj, Option.some.injEq] at hj'
  rw [hri, Option.some.injEq] at hi'
  subst hj' hi'
  rw [h.nameOf_eq ha, h.nameOf_eq hb, h.nameOf_eq ha', h.nameOf_eq hb']
  refine .strandedEdge ?_ ?_ ?_ ?_
  · exact (h.leads_iff_follows ha hb).2 ⟨k, edge, hedge, rfl, rfl⟩
  · exact (h.reverses_iff_reverse? ha ha').2 hrj
  · exact (h.reverses_iff_reverse? hb hb').2 hri
  · rw [h.leads_iff_follows hb' ha']
    exact h.wellFormed.edgeBetween?_eq_none_iff.1 hnone

theorem Draws.cause_of_finish (h : r.Draws g records)
    (he : (MutexTable.build g r.mutexes).result = .error e ∨
      Calibration.extract g r.loop = .error e) : Cause records o e := by
  rcases he with he | he
  · obtain ⟨m, hm, p, hp, hnone, rfl⟩ := h.build_eq_error he
    obtain ⟨record, hrecord, hmutex⟩ := List.mem_filterMap.1 hm
    obtain rfl := LineRecord.mutex?_eq_some_iff.1 hmutex
    exact .unknownEdge hrecord hp hnone
  · obtain ⟨s, hs, hcases⟩ := h.extract_eq_error he
    obtain ⟨record, hrecord, hstep⟩ := List.mem_filterMap.1 hs
    obtain rfl := LineRecord.step?_eq_some_iff.1 hstep
    rcases hcases with ⟨hunknown, rfl⟩ | ⟨b, hnone, rfl⟩ | ⟨hnone, rfl⟩
    · exact .unknownStep hrecord hunknown
    · exact .gap hrecord hnone
    · exact .noSensor hrecord hnone

theorem Holds.cause_of_compile (hh : r.Holds records) (hv : r.Valid)
    (h : (r.compile o).result = .error e) : Cause records o e := by
  rcases compile_eq_error_iff.1 h with hlink | ⟨g, hg, hafter⟩
  · exact hh.cause_of_link hv hlink
  · have hd : r.Draws g records := ⟨hv, hh, wires_of_link hg⟩
    rcases hafter with hcheck | ⟨-, hbuild | ⟨m, -, hloop⟩⟩
    · exact hd.cause_of_check hcheck
    · exact hd.cause_of_finish (Or.inl hbuild)
    · exact hd.cause_of_finish (Or.inr hloop)

end Registry

/-- Every error has its cause in the text. -/
theorem exists_cause_of_compile (h : (compile text o).result = .error e) :
    (∃ before raw after fault, lines text.toList = before ++ raw :: after ∧
      (∀ l ∈ before, ¬ Unreadable l) ∧ Unreadable raw ∧
        e = .malformed (before.length + 1) (String.ofList (trim raw)) fault) ∨
    ∃ records, Describes text records ∧ Cause records o e := by
  rcases compile_eq_error_iff.1 h with hread | ⟨records, hread, hafter⟩
  · obtain ⟨before, raw, after, hlines, hbefore, he⟩ := readRecords_eq_error_iff.1 hread
    obtain ⟨fault, hfault⟩ := exists_malformed_of_readLine he
    have hraw : '\n' ∉ raw := newline_notMem_lines raw (by rw [hlines]; simp)
    exact Or.inl ⟨before, raw, after, fault, hlines, hbefore,
      (exists_readLine_eq_error_iff hraw).1 ⟨e, he⟩, hfault⟩
  · have hdescribes := readRecords_eq_ok_iff.1 hread
    refine Or.inr ⟨records, hdescribes, ?_⟩
    rcases hafter with hdeclare | ⟨r, hr, hcompile⟩
    · exact cause_of_ofRecords hdescribes.ascending hdeclare
    · exact (Registry.holds_ofRecords hr).cause_of_compile
        (Registry.reachable_ofRecords hr).valid hcompile

/-! ## The line that is to blame -/

theorem DeclaredAt.exists_record {line half : Nat} (h : DeclaredAt records line half d) :
    ∃ record, ⟨line, record⟩ ∈ records := by
  obtain ⟨⟨line, record⟩, hmem, rfl, -⟩ := h
  exact ⟨record, hmem⟩

/-- The line that an error points at holds a record. -/
theorem Cause.exists_record (h : Cause records o e) {line : Nat} (hline : e.line = some line) :
    ∃ record, ⟨line, record⟩ ∈ records := by
  cases h with
  | duplicateName h | duplicateAddress h | addressOutOfRange h | unknownSuccessor h =>
    cases hline
    exact h.exists_record
  | unknownEnd h | unknownStep h | orphanDistance h | unknownEdge h | gap h | noSensor h =>
    cases hline
    exact ⟨_, h⟩
  | tooManyNodes | missingDistance | strandedEdge => cases hline

/-- **Blame.** The line that an error points at is a line of the text. Either it is unreadable, the
first such line, and quoted; or it spells a record, and what that record says, or fails to say among
the others of the text, is the cause of the error. -/
theorem blamedLine_of_compile {line : Nat} (h : (compile text o).result = .error e)
    (hline : e.line = some line) : 1 ≤ line ∧ line ≤ (lines text.toList).length ∧
      ∃ raw, (lines text.toList)[line - 1]? = some raw ∧
        ((Unreadable raw ∧
            (∀ j < line - 1, ∀ l, (lines text.toList)[j]? = some l → ¬ Unreadable l) ∧
              ∃ fault, e = .malformed line (String.ofList (trim raw)) fault) ∨
          ∃ records record, Describes text records ∧ ⟨line, record⟩ ∈ records ∧
            record.SpelledBy (trim raw) ∧ Cause records o e) := by
  rcases exists_cause_of_compile h with
    ⟨before, raw, after, fault, hlines, hbefore, hraw, rfl⟩ | ⟨records, hdescribes, hcause⟩
  · cases hline
    have hlength : before.length + 1 ≤ (lines text.toList).length := by
      rw [hlines, List.length_append, List.length_cons]
      omega
    refine ⟨by omega, hlength, raw, by rw [hlines]; simp, Or.inl ⟨hraw, ?_, fault, rfl⟩⟩
    intro j hj l hl
    rw [hlines, List.getElem?_append_left hj] at hl
    exact hbefore l (List.mem_of_getElem? hl)
  · obtain ⟨record, hrecord⟩ := hcause.exists_record hline
    obtain ⟨k, raw, hraw, rfl, hspelled⟩ := hdescribes.exists_line _ hrecord
    have hlt := (List.getElem?_eq_some_iff.1 hraw).1
    refine ⟨by omega, by omega, raw, ?_, Or.inr ⟨records, record, hdescribes, hrecord, hspelled,
      hcause⟩⟩
    rwa [Nat.add_sub_cancel_left]

/-- A spur: what enters at `E` leaves at `Y`, but nothing enters at `Y` that would leave at `X`. -/
def spur : List LineRecord :=
  [⟨1, .terminal "E" "S" "X"⟩, ⟨2, .separators ⟨"S", "Y"⟩ ⟨"R", "Y"⟩⟩, ⟨3, .terminal "F" "R" "Y"⟩]

/-- The spur with a distance on line 4, which implies a pair that is no edge. -/
def measuredSpur : String :=
  "enter E -> S @ X\nsep S -> Y @ R -> Y\nenter F -> R @ Y\ndist E S 5mm"

theorem blamedLine_measuredSpur :
    (compile measuredSpur {}).result = .error (.orphanDistance 4 "R" "X") ∧
    (CompileError.orphanDistance 4 "R" "X").line = some 4 ∧
    1 ≤ 4 ∧ 4 ≤ (lines measuredSpur.toList).length ∧
      ∃ raw, (lines measuredSpur.toList)[3]? = some raw ∧
        ((Unreadable raw ∧
            (∀ j < 3, ∀ l, (lines measuredSpur.toList)[j]? = some l → ¬ Unreadable l) ∧
              ∃ fault, CompileError.orphanDistance 4 "R" "X" =
                .malformed 4 (String.ofList (trim raw)) fault) ∨
          ∃ records record, Describes measuredSpur records ∧ ⟨4, record⟩ ∈ records ∧
            record.SpelledBy (trim raw) ∧ Cause records {} (.orphanDistance 4 "R" "X")) := by
  have h : (compile measuredSpur {}).result = .error (.orphanDistance 4 "R" "X") := by
    rw [compile_eq_inserting]
    decide +kernel
  exact ⟨h, rfl, blamedLine_of_compile h rfl⟩

/-! ## The checks on a linked graph -/

/-- **Internal consistency.** No compilation ends in an asymmetric reverse or a foreign edge. In a
graph that is linked from a list of records, reverses come in pairs and every node owns its edges;
so the checks fail just for a stranded edge, and name the first one and the two nodes between which
its reverse edge would have to be. -/
theorem onlyStrandedEdges_of_check :
    (∀ text o e, (compile text o).result = .error e →
      (∀ name got, e ≠ .asymmetricReverse name got) ∧
        ∀ edge claimed owner, e ≠ .foreignEdge edge claimed owner) ∧
    ∀ records o r g, Registry.ofRecords records = .ok r → (r.link o).result = .ok g →
      g.Symmetric ∧ g.checkReverseSymmetry = .ok () ∧ g.checkEdgeOwnership = .ok () ∧
        ∀ err, g.check = .error err ↔ ∃ k edge a b, g.edge? k = some edge ∧
          g.reverseEdge? k = none ∧ (∀ j < k, ∃ r, g.reverseEdge? j = some r) ∧
          g.reverse? edge.dest = some a ∧ g.reverse? edge.src = some b ∧
          g.edgeBetween? a b = none ∧
            err = .strandedEdge (g.nameOf edge.src) (g.nameOf edge.dest) (g.nameOf a)
              (g.nameOf b) := by
  refine ⟨fun text o e h => ?_, fun records o r g hr hg => ?_⟩
  · rcases exists_cause_of_compile h with ⟨_, _, _, _, -, -, -, rfl⟩ | ⟨records, -, hcause⟩
    · exact ⟨nofun, nofun⟩
    · refine ⟨?_, ?_⟩
      · rintro name got rfl
        cases hcause
      · rintro edge claimed owner rfl
        cases hcause
  · have hd : r.Draws g records :=
      ⟨(Registry.reachable_ofRecords hr).valid, Registry.holds_ofRecords hr,
        Registry.wires_of_link hg⟩
    have hs := hd.mirrored.symmetric
    exact ⟨hs, hd.wellFormed.checkReverseSymmetry_eq_ok_iff.2 hs,
      hd.wellFormed.checkEdgeOwnership_eq_ok, fun err => hd.wellFormed.check_eq_error_iff hs⟩

/-- The first edge of the spur is stranded. -/
theorem onlyStrandedEdges_spur : ∃ r g, Registry.ofRecords spur = .ok r ∧
    (r.link {}).result = .ok g ∧ g.check = .error (.strandedEdge "E" "S" "R" "X") ∧
      g.checkReverseSymmetry = .ok () ∧ g.checkEdgeOwnership = .ok () ∧
        ∃ k edge a b, g.edge? k = some edge ∧ g.reverseEdge? k = none ∧
          (∀ j < k, ∃ r, g.reverseEdge? j = some r) ∧ g.reverse? edge.dest = some a ∧
          g.reverse? edge.src = some b ∧ g.edgeBetween? a b = none ∧
            CompileError.strandedEdge "E" "S" "R" "X" = .strandedEdge (g.nameOf edge.src)
              (g.nameOf edge.dest) (g.nameOf a) (g.nameOf b) := by
  have h : (Registry.ofRecords spur).toOption.map
      (fun r => (r.link {}).result.toOption.map Graph.check) =
        some (some (.error (.strandedEdge "E" "S" "R" "X"))) := by
    decide +kernel
  obtain ⟨r, hr, hlink⟩ := exists_of_toOption_map h
  obtain ⟨g, hg, hcheck⟩ := exists_of_toOption_map hlink
  obtain ⟨-, hsymmetric, howned, hiff⟩ := onlyStrandedEdges_of_check.2 spur {} r g hr hg
  exact ⟨r, g, hr, hg, hcheck, hsymmetric, howned, (hiff _).1 hcheck⟩

end TrackPlan
