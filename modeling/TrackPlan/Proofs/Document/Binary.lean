import TrackPlan.Document.Binary
import TrackPlan.Proofs.Document.Fits

/-!
# Bytes read back

The bytes of a datum are decoded as the datum, whatever its shape is (`Binary.decodeAll_encode`),
and so they are read as the datum by every regular shape that it fits.
-/

namespace TrackPlan.Binary

variable {fuel : Nat} {rest : List UInt8}

/-! ## Numbers and texts -/

theorem decodeNat_encodeWithin (n fuel : Nat) (rest : List UInt8) (h : n ≤ fuel) :
    decodeNat (encodeWithin fuel n ++ rest) = some (n, rest) := by
  have hlast : ∀ n < 128, decodeNat (UInt8.ofNat n :: rest) = some (n, rest) := by
    intro n hn
    have hbyte : (UInt8.ofNat n).toNat = n := by rw [UInt8.toNat_ofNat']; omega
    rw [decodeNat, hbyte, if_pos hn]
  induction fuel generalizing n with
  | zero => exact hlast n (by omega)
  | succ fuel ih =>
    rw [encodeWithin]
    split
    · next hn => exact hlast n hn
    · next hn =>
      have hbyte : (UInt8.ofNat (n % 128 + 128)).toNat = n % 128 + 128 := by
        rw [UInt8.toNat_ofNat']
        omega
      rw [List.cons_append, decodeNat, hbyte, if_neg (by omega), ih (n / 128) (by omega)]
      split
      · next heq =>
        -- The rest of the number is not zero, or there would be no rest.
        simp only [Option.some.injEq, Prod.mk.injEq] at heq
        omega
      · next heq => cases heq
      · next heq =>
        simp only [Option.some.injEq, Prod.mk.injEq] at heq ⊢
        exact ⟨by omega, heq.2.symm⟩

/-- The bytes of a number are decoded as the number. -/
theorem decodeNat_encodeNat (n : Nat) (rest : List UInt8) :
    decodeNat (encodeNat n ++ rest) = some (n, rest) :=
  decodeNat_encodeWithin n n rest (Nat.le_refl n)

theorem decodeChars_flatMap (cs : List Char) (rest : List UInt8) :
    decodeChars cs.length ((cs.flatMap fun c => encodeNat c.toNat) ++ rest) = some (cs, rest) := by
  induction cs with
  | nil => rfl
  | cons c cs ih =>
    have hvalid : c.toNat.isValidChar := c.valid
    rw [List.flatMap_cons, List.append_assoc, List.length_cons, decodeChars, decodeNat_encodeNat]
    simp only [Option.bind_eq_bind, Option.bind_some, if_pos hvalid, ih, Char.ofNat_toNat]
    rfl

/-- The bytes of a text are decoded as the text. -/
theorem decodeText_encodeText (s : String) (rest : List UInt8) :
    decodeText (encodeText s ++ rest) = some (s, rest) := by
  rw [encodeText, List.append_assoc, decodeText, decodeNat_encodeNat]
  simp [decodeChars_flatMap]

/-! ## Data -/

theorem encode_ne_nil (d : Datum) : encode d ≠ [] := by
  cases d with
  | flag b => cases b <;> simp [encode]
  | _ => simp [encode]

mutual

/-- The bytes of a datum are decoded as the datum. -/
theorem decode_encode (d : Datum) (fuel : Nat) (rest : List UInt8)
    (hf : 2 * (encode d).length ≤ fuel) : decode fuel (encode d ++ rest) = some (d, rest) := by
  have hpos := List.length_pos_of_ne_nil (encode_ne_nil d)
  obtain ⟨fuel, rfl⟩ : ∃ f, fuel = f + 1 := ⟨fuel - 1, by omega⟩
  match d with
  | .text s => rw [encode, List.cons_append, decode, decodeText_encodeText]; rfl
  | .number n => rw [encode, List.cons_append, decode, decodeNat_encodeNat]; rfl
  | .flag true => rfl
  | .flag false => rfl
  | .choice name => rw [encode, List.cons_append, decode, decodeText_encodeText]; rfl
  | .absent => rfl
  | .present d =>
    rw [encode, List.length_cons] at hf
    rw [encode, List.cons_append, decode, decode_encode d fuel rest (by omega)]
    rfl
  | .list items =>
    rw [encode, List.cons_append, List.length_cons, List.length_append] at hf
    have hitems := decodeItems_encodeItems items fuel rest (by omega)
    rw [encode, List.cons_append, List.cons_append, List.append_assoc, decode, decodeNat_encodeNat]
    simp [hitems]
  | .struct fields =>
    rw [encode, List.cons_append, List.length_cons, List.length_append] at hf
    have hfields := decodeFields_encodeFields fields fuel rest (by omega)
    rw [encode, List.cons_append, List.cons_append, List.append_assoc, decode, decodeNat_encodeNat]
    simp [hfields]

/-- The bytes of items are decoded as the items. -/
theorem decodeItems_encodeItems (ds : List Datum) (fuel : Nat) (rest : List UInt8)
    (hf : 2 * (encodeItems ds).length < fuel) :
    decodeItems fuel ds.length (encodeItems ds ++ rest) = some (ds, rest) := by
  obtain ⟨fuel, rfl⟩ : ∃ f, fuel = f + 1 := ⟨fuel - 1, by omega⟩
  match ds with
  | [] => rfl
  | d :: ds =>
    have hpos := List.length_pos_of_ne_nil (encode_ne_nil d)
    rw [encodeItems, List.length_append] at hf
    rw [encodeItems, List.append_assoc, List.length_cons, decodeItems,
      decode_encode d fuel _ (by omega)]
    simp [decodeItems_encodeItems ds fuel rest (by omega)]

/-- The bytes of fields are decoded as the fields. -/
theorem decodeFields_encodeFields (fs : List (String × Datum)) (fuel : Nat) (rest : List UInt8)
    (hf : 2 * (encodeFields fs).length < fuel) :
    decodeFields fuel fs.length (encodeFields fs ++ rest) = some (fs, rest) := by
  obtain ⟨fuel, rfl⟩ : ∃ f, fuel = f + 1 := ⟨fuel - 1, by omega⟩
  match fs with
  | [] => rfl
  | (name, d) :: fs =>
    have hpos := List.length_pos_of_ne_nil (encode_ne_nil d)
    rw [encodeFields, List.length_append, List.length_append] at hf
    rw [encodeFields, List.append_assoc, List.append_assoc, List.length_cons, decodeFields,
      decodeText_encodeText]
    simp [decode_encode d fuel _ (by omega), decodeFields_encodeFields fs fuel rest (by omega)]

end

/-- **Bytes.** The bytes of a datum are decoded as the datum. -/
theorem decodeAll_encode (d : Datum) : decodeAll (encode d) = some d := by
  have hread := decode_encode d (2 * (encode d).length + 2) [] (by omega)
  rw [List.append_nil] at hread
  rw [decodeAll, hread]

/-- A datum is shown as itself. -/
theorem shows_self (limit : Nat) : view.Shows limit fun d x => x = d where
  text h := h ▸ rfl
  number _ h := h ▸ rfl
  flag h := h ▸ rfl
  choice h := h ▸ rfl
  absent h := h ▸ rfl
  present := by
    rintro d x - rfl
    exact ⟨d, rfl, rfl⟩
  list := by
    rintro ds x - rfl
    exact ⟨ds, rfl, List.forall₂_same.2 fun _ _ => rfl⟩
  struct := by
    rintro fields x hn rfl
    refine ⟨fields, ?_, fun f hf => Or.inl ⟨f.2, lookup_eq_some_of_mem hn hf, rfl⟩⟩
    exact View.select_eq_self hn fun e he => List.mem_map_of_mem he

/-- **Bytes read back.** The bytes of a datum of a regular shape are read as the datum. -/
theorem read?_encode {limit : Nat} {s : Shape} {d : Datum} (h : Fits limit s d)
    (hs : s.isRegular = true) : read? s (encode d) = some d := by
  rw [read?, decodeAll_encode]
  exact (shows_self limit).read?_eq_some h hs rfl

end TrackPlan.Binary
