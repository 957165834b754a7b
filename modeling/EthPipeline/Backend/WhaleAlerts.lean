import EthPipeline.Data.Json

/-!
# Whale alerts in the backend

`decode_whale_alert` of `src/backend/main.py`: the payload of a message of the
whale-alerts topic, with `value_eth` filled in when it is missing, or nothing.
-/

namespace Backend

/-- A JSON object. -/
abbrev Payload := List (String × Json)

/-- `float(v) / 10**18`; `none` is an exception. -/
def ethOfWei (v : Json) : Option PyFloat := v.toFloat.map fun x => x.divBy (10 ^ 18)

/-- `data.setdefault(key, default)`. -/
def setdefault (data : Payload) (key : String) (default : Json) : Payload :=
  if (data.lookup key).isSome then data else data ++ [(key, default)]

/-- `decode_whale_alert`.  The default of `value_eth` is computed in any case, so
a `value` that is no number loses the message. -/
def decodeWhaleAlert : RawValue → Option Payload
  | .json (.obj data) =>
    (ethOfWei ((data.lookup "value").getD (.int 0))).map fun x =>
      setdefault data "value_eth" (.float x)
  | _ => none

end Backend
