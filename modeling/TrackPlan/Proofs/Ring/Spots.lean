import TrackPlan.Example.Ring
import TrackPlan.Proofs.Record.Writing

/-!
# The nodes of a ring

A node of a ring is a spot: what it is to a segment, and the number of the segment. Spots have
different names (`Spot.name_injective`), since a number is read back from the digits it ends with.
-/

namespace TrackPlan.Example.Ring

open Text

/-- What a node is to the segment that it is numbered after. -/
inductive Stem where
  | f | r | ba | ma | bb | mb | p | pr | q | qr
  deriving DecidableEq, Repr

/-- The name without the number. -/
def Stem.text : Stem → String
  | f => "F"
  | r => "R"
  | ba => "BA"
  | ma => "MA"
  | bb => "BB"
  | mb => "MB"
  | p => "P"
  | pr => "PR"
  | q => "Q"
  | qr => "QR"

/-- What the reverse of a node is to the segment. -/
def Stem.back : Stem → Stem
  | f => r
  | r => f
  | ba => ma
  | ma => ba
  | bb => mb
  | mb => bb
  | p => pr
  | pr => p
  | q => qr
  | qr => q

@[simp] theorem Stem.back_back (s : Stem) : s.back.back = s := by cases s <;> rfl

/-- Whether the node is passed on the way around the ring. -/
def Stem.forward : Stem → Bool
  | f | ba | mb | p | q => true
  | r | ma | bb | pr | qr => false

theorem Stem.forward_back (s : Stem) : s.back.forward = !s.forward := by cases s <;> rfl

theorem Stem.isDigit_text (s : Stem) : s.text.toList.all (fun c => !c.isDigit) = true := by
  cases s <;> decide

theorem Stem.isWordChar_text (s : Stem) : s.text.toList.all isWordChar = true := by
  cases s <;> decide

theorem Stem.text_injective : Function.Injective Stem.text := by
  intro s s' h
  cases s <;> cases s' <;> first | rfl | exact absurd h (by decide)

/-- A node of a ring. -/
structure Spot where
  stem : Stem
  number : Nat
  deriving DecidableEq, Repr

namespace Spot

variable {a b : Spot}

/-- The name of the node. -/
def name (a : Spot) : String := named a.stem.text a.number

/-- The reverse of the node. -/
def back (a : Spot) : Spot := ⟨a.stem.back, a.number⟩

@[simp] theorem back_back (a : Spot) : a.back.back = a := by simp [back]

theorem toList_name (a : Spot) : a.name.toList = a.stem.text.toList ++ ofNat a.number := by
  have hname : a.name = a.stem.text ++ a.number.repr := rfl
  rw [hname, String.toList_append, ofNat]

/-- The stem is read back up to the first digit, and the number from there on. -/
theorem name_injective : Function.Injective name := by
  intro a b h
  have hstop : ∀ n, ∀ c ∈ (ofNat n).head?, (fun c : Char => !c.isDigit) c = false := by
    intro n c hc
    simp [isDigit_of_mem_ofNat (List.mem_of_mem_head? hc)]
  have hrun : ∀ s : Stem, ∀ c ∈ s.text.toList, (fun c : Char => !c.isDigit) c = true :=
    fun s => List.all_eq_true.1 s.isDigit_text
  have hlist : a.stem.text.toList ++ ofNat a.number = b.stem.text.toList ++ ofNat b.number := by
    rw [← toList_name, ← toList_name, h]
  have hstem : a.stem.text.toList = b.stem.text.toList := by
    rw [← takeWhile_append_of_stop (hrun a.stem) (hstop a.number), hlist,
      takeWhile_append_of_stop (hrun b.stem) (hstop b.number)]
  have hnumber : ofNat a.number = ofNat b.number := by
    rw [← dropWhile_append_of_stop (hrun a.stem) (hstop a.number), hlist,
      dropWhile_append_of_stop (hrun b.stem) (hstop b.number)]
  obtain ⟨s, i⟩ := a
  obtain ⟨s', i'⟩ := b
  obtain rfl := Stem.text_injective (String.toList_injective hstem)
  obtain rfl : i = i' := by rw [← decimal_ofNat i, hnumber, decimal_ofNat]
  rfl

@[simp] theorem name_inj : a.name = b.name ↔ a = b := name_injective.eq_iff

theorem isName (a : Spot) : IsName a.name := by
  refine ⟨?_, fun c hc => ?_⟩
  · rw [toList_name]
    exact List.append_ne_nil_of_right_ne_nil _ (ofNat_ne_nil a.number)
  · rw [toList_name, List.mem_append] at hc
    rcases hc with hc | hc
    · exact List.all_eq_true.1 a.stem.isWordChar_text c hc
    · exact isWordChar_of_isDigit (isDigit_of_mem_ofNat hc)

end Spot

end TrackPlan.Example.Ring
