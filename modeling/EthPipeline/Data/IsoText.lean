import EthPipeline.Data.Json

/-!
# Dates and instants as texts

`datetime.isoformat` for an instant in UTC, and the same as pydantic writes it
into JSON, which says `Z` where Python says `+00:00`.
-/

/-- Year, month and day of a day counted from 1970-01-01. -/
def civil (day : ℤ) : ℤ × ℤ × ℤ :=
  -- eras of 400 years, and years that begin in March
  let z := day + 719468
  let era := z / 146097
  let dayOfEra := z % 146097
  let yearOfEra := (dayOfEra - dayOfEra / 1460 + dayOfEra / 36524 - dayOfEra / 146096) / 365
  let dayOfYear := dayOfEra - (365 * yearOfEra + yearOfEra / 4 - yearOfEra / 100)
  let shifted := (5 * dayOfYear + 2) / 153
  let month := if shifted < 10 then shifted + 3 else shifted - 9
  let year := yearOfEra + era * 400
  (if month ≤ 2 then year + 1 else year, month, dayOfYear - (153 * shifted + 2) / 5 + 1)

/-- `n` with zeros in front. -/
def padded (width : ℕ) (n : ℤ) : String :=
  let digits := toString n.toNat
  String.ofList (List.replicate (width - digits.length) '0') ++ digits

/-- `strftime("%Y-%m-%d")`. -/
def dateText (day : ℤ) : String :=
  let (year, month, dayOfMonth) := civil day
  padded 4 year ++ "-" ++ padded 2 month ++ "-" ++ padded 2 dayOfMonth

def instantText (zone : String) (t : Timestamp) : String :=
  let seconds := t / 1000000
  let micros := t % 1000000
  let ofDay := seconds % 86400
  dateText (seconds / 86400) ++ "T" ++ padded 2 (ofDay / 3600) ++ ":" ++
    padded 2 (ofDay / 60 % 60) ++ ":" ++ padded 2 (ofDay % 60) ++
      (if micros = 0 then "" else "." ++ padded 6 micros) ++ zone

/-- The text Python writes. -/
def IsoText.text (t : IsoText) : String := instantText "+00:00" t.instant

example : (isoformat 1700000000000001).text = "2023-11-14T22:13:20.000001+00:00" := by
  decide +kernel
