import DiceLang.Record
import DiceLang.Text.Fixed
import DiceLang.Value.Printer

/-! The text of records: a line for a roll with its throws, a table with statistics for a sample. -/

namespace DiceLang.Report

def line (s : String) : String := s ++ "\n"

def listText (h : Heap) (items : List Value) : String :=
  let (r, h) := h.newList items
  h.text (.list r)

def throwLine (h : Heap) (t : DiceRecord) : String :=
  line ("  d" ++ h.text t.die ++ " -> " ++ listText h t.results)

def roll (h : Heap) (name : String) (v : Value) (dice : List DiceRecord) : String :=
  line (name ++ ": " ++ h.text v) ++ String.join (dice.map (throwLine h))

def labelWidth (labels : List String) : Nat := (labels.map String.utf8ByteSize).foldl max 5

def row (width : Nat) (label count share atLeast atMost : String) : String :=
  let right (w : Nat) (s : String) : String := " " ++ Fixed.padLeft w ' ' s
  line ("  " ++ Fixed.padRight width label ++ right 9 count ++ right 8 share ++ right 8 atLeast ++
    right 8 atMost)

def percent (x : Float) : String := Fixed.text 2 (x * 100.0)

def counterRow (width : Nat) (label : String) (c : Counter) : String :=
  row width label (toString c.count) (percent c.relative) (percent c.relativeAtLeast)
    (percent c.relativeAtMost)

def orDash (h : Heap) (v : Option Value) : String := (v.map h.text).getD "-"

def statistics (h : Heap) (d : Distribution) : String :=
  line ("  mean " ++ Fixed.text 3 (d.mean h) ++ "  stddev " ++ Fixed.text 3 (d.stddev h) ++
    "  mode " ++ orDash h d.mode ++ "  median " ++ orDash h d.medianLow ++ " .. " ++
    orDash h d.medianHigh)

def table (h : Heap) (name : String) (d : Distribution) : String :=
  let d := d.aggregate h
  let labels := d.counters.map fun c => h.text c.value
  let width := labelWidth labels
  line name ++ row width "value" "count" "%" ">=%" "<=%" ++
    String.join (labels.zipWith (counterRow width) d.counters) ++ statistics h d

def record (h : Heap) (r : OutputRecord) : String :=
  match r.outcome with
  | .value v => roll h r.name v r.dice
  | .distribution d => table h r.name d

def records (h : Heap) (rs : List OutputRecord) : String :=
  "\n".intercalate (rs.map (record h))

end DiceLang.Report
