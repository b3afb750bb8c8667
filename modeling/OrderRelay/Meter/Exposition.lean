import OrderRelay.Meter.Readings
import OrderRelay.Number.Digits

/-!
# Exposition of readings

The lines in which readings are shown to a scraper: what each series tells, its kind, and its value.
Of a histogram only the number of samples is shown, as its last bucket and as its count.
-/

namespace OrderRelay

namespace Series

/-- The lines of a series with its value. -/
def lines (s : Series) (n : Int) : List String :=
  let value := " " ++ intText n
  ["# HELP " ++ s.name ++ " " ++ s.description, "# TYPE " ++ s.name ++ " " ++ s.kind.name]
    ++ (if s.kind = .histogram then
        [s.name ++ "_bucket\x7ble=\"+Inf\"\x7d" ++ value, s.name ++ "_count" ++ value]
      else [s.name ++ value])

end Series

/-- Whether a text comes before another or is the same, by the numbers of their characters. -/
def textLe (s t : String) : Bool := !(t < s)

/-- The lines of all series, sorted. -/
def Readings.lines (r : Readings) : List String :=
  (Series.all.flatMap fun s => s.lines (r.value s)).mergeSort textLe

end OrderRelay
