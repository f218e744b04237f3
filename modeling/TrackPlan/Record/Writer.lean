import TrackPlan.Record.Basic

/-!
# Writing records

The plain spelling of a record: single blanks between words, one record a line.
-/

namespace TrackPlan

/-- The plain spelling of one half of a sensor record. -/
def SensorHalf.write (h : SensorHalf) : String := s!"{h.name} : {h.address} -> {h.ahead}"

/-- The plain spelling of one half of a separator record. -/
def SeparatorHalf.write (h : SeparatorHalf) : String := s!"{h.name} -> {h.ahead}"

namespace Record

/-- The plain spelling of a record. -/
def write : Record → String
  | sensors forward backward => s!"sensor {forward.write} @ {backward.write}"
  | separators forward backward => s!"sep {forward.write} @ {backward.write}"
  | switch branch number straight curved merge ahead =>
    s!"switch {branch} : {number} -> {straight}/({curved}) @ {merge} -> {ahead}"
  | terminal enter ahead exit => s!"enter {enter} -> {ahead} @ {exit}"
  | distance src dest millimeters => s!"dist {src} {dest} {millimeters}mm"
  | mutex edges => "mutex " ++ " : ".intercalate (edges.map fun (src, dest) => s!"{src} {dest}")
  | calibration node => s!"calib {node}"

/-- The plain spelling of records, each on a line that ends with a line feed. -/
def writeAll (records : List Record) : String :=
  String.join (records.map fun r => r.write ++ "\n")

end Record

end TrackPlan
