import TrackPlan.Example.Layout
import TrackPlan.Format
import TrackPlan.Proofs.Document.Binary
import TrackPlan.Proofs.Document.Json
import TrackPlan.Proofs.Document.Ron
import TrackPlan.Proofs.Document.Toml.Tables
import TrackPlan.Proofs.Table.Document

/-!
# Track files read back

A table is written in every format, and the file is read as the table.

1. The bytes of a text are read as the text is (`Table.ofBytes?_textBytes`), and the text as the
   datum of the table.
2. A binary file has the header in front that its reader asks for (`Table.readBinary_writeBinary`).
3. `readsBack_of_compile` says it of the tables of compiled tracks, whose numbers have room.
-/

namespace TrackPlan

theorem fromUTF8?_toUTF8 (s : String) : String.fromUTF8? s.toUTF8 = some s := by
  simp only [String.fromUTF8?, String.toUTF8_eq_toByteArray, dif_pos s.isValidUTF8]
  rfl

namespace Header

theorem ofDatum?_toDatum (h : Header) : ofDatum? h.toDatum = some h := by
  rw [toDatum, ofDatum?, UInt32.ofNat_toNat, UInt32.ofNat_toNat]

theorem validate_current : current.validate = .ok () := by decide

theorem fits (h : Header) : Fits (2 ^ 63) shape h.toDatum :=
  .of_inStep <| .cons ⟨rfl, fits_word h.magic.toNat_lt⟩ <|
    .cons ⟨rfl, fits_word h.version.toNat_lt⟩ .nil

end Header

namespace Table

variable {t : Table} {cs : List Char} {f : Format}

theorem isRegular_shape : shape.isRegular = true := by decide +kernel

theorem isRegular_binaryShape : binaryShape.isRegular = true := by decide +kernel

/-- The bytes of a text are read as the text is. -/
theorem ofBytes?_textBytes (hf : f.isBinary = false) : ofBytes? (textBytes cs) f = ofText? cs f := by
  unfold textBytes
  cases f with
  | binary => cases hf
  | _ => simp only [ofBytes?, Json.charsOf, fromUTF8?_toUTF8, Option.bind_eq_bind, Option.bind_some,
      String.toList_ofList]

theorem decode_textBytes (hf : f.isBinary = false) (h : ofText? cs f = some t) :
    decode (textBytes cs) f = .ok t := by
  have hbytes := (ofBytes?_textBytes hf).trans h
  cases f with
  | binary => cases hf
  | _ => simp only [decode, hbytes]

/-- A binary file is read as its header and its table, whatever the header is. -/
theorem readBinary?_writeBinary (ht : t.InRange) (h : Header) :
    readBinary? (t.writeBinary h) = some (h, t) := by
  have hfits : Fits (2 ^ 63) binaryShape
      (.struct [("header", h.toDatum), ("track", t.toDatum)]) :=
    .of_inStep <| .cons ⟨rfl, h.fits⟩ <| .cons ⟨rfl, ht.fits⟩ .nil
  unfold readBinary? writeBinary
  rw [List.toList_toArray, Binary.read?_encode hfits isRegular_binaryShape]
  simp [Header.ofDatum?_toDatum, ofDatum?_toDatum]

/-- A table whose numbers have room is written in every format, and read back. -/
theorem InRange.exists_emit (h : t.InRange) (f : Format) :
    ∃ bytes, t.emit f = .ok bytes ∧ decode bytes f = .ok t := by
  cases f with
  | json =>
    refine ⟨_, rfl, decode_textBytes rfl ?_⟩
    rw [ofText?, Json.read?_render h.fits isRegular_shape, Option.bind_some, ofDatum?_toDatum]
  | ron =>
    have hdepth : shape.depth ≤ Ron.maxDepth := by decide
    refine ⟨_, rfl, decode_textBytes rfl ?_⟩
    rw [ofText?, Ron.read?_render h.fits isRegular_shape hdepth, Option.bind_some, ofDatum?_toDatum]
  | toml =>
    have hdepth : shape.depth ≤ Toml.maxDepth := by decide
    obtain ⟨cs, hcs, hread⟩ := Toml.exists_read?_render h.fits isRegular_shape hdepth
    refine ⟨textBytes cs, ?_, decode_textBytes rfl ?_⟩
    · unfold emit toDatum
      dsimp only
      rw [hcs]
    · rw [ofText?, hread, Option.bind_some]
      exact ofDatum?_toDatum t
  | binary =>
    refine ⟨_, rfl, ?_⟩
    rw [decode, readBinary, readBinary?_writeBinary h]
    dsimp only
    rw [Header.validate_current]
    rfl

end Table

/-- **Every format reads back.** The table of a compiled track, under any name, is written in every
format, and what is written is read as the table. The sensors of its calibration loop must not be
so far apart that TOML has no number for it. -/
theorem readsBack_of_compile {text : String} {o : Options} {t : Track}
    (h : (compile text o).result = .ok t)
    (hfar : ∀ l, t.loop = some l → ∀ s ∈ l.sensors, s.distance < 2 ^ 63) (name : String)
    (f : Format) :
    ∃ bytes, (Table.ofTrack name t).emit f = .ok bytes ∧
      Table.decode bytes f = .ok (Table.ofTrack name t) :=
  (Table.inRange_of_compile h hfar name).exists_emit f

/-- A triangle with a calibration loop, under a name that has to be quoted and escaped. -/
theorem readsBack_triangle : ∃ t, (compile Example.triangle {}).result = .ok t ∧
    t.loop.map (fun l => l.sensors.map LoopSensor.distance) = some [300, 100, 200] ∧
      (∀ l, t.loop = some l → ∀ s ∈ l.sensors, s.distance < 2 ^ 63) ∧
        ∃ bytes, (Table.ofTrack "a\n\"b\\\x01" t).emit .toml = .ok bytes ∧
          Table.decode bytes .toml = .ok (Table.ofTrack "a\n\"b\\\x01" t) := by
  have h : (compile Example.triangle {}).result.toOption.map
      (fun t => t.loop.map fun l => l.sensors.map LoopSensor.distance) =
        some (some [300, 100, 200]) := by
    rw [compile_eq_inserting]
    decide +kernel
  obtain ⟨t, ht, hdistances⟩ := exists_of_toOption_map h
  have hfar : ∀ l, t.loop = some l → ∀ s ∈ l.sensors, s.distance < 2 ^ 63 := by
    intro l hl s hs
    rw [hl, Option.map_some, Option.some.injEq] at hdistances
    have hmem : s.distance ∈ [300, 100, 200] := hdistances ▸ List.mem_map_of_mem hs
    have hbound : ∀ d ∈ [300, 100, 200], d < 2 ^ 63 := by decide
    exact hbound _ hmem
  exact ⟨t, ht, hdistances, hfar, readsBack_of_compile ht hfar _ .toml⟩

end TrackPlan
