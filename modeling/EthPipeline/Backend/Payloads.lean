import EthPipeline.Backend.Services
import EthPipeline.Backend.WhaleAlerts
import EthPipeline.Data.IsoText

/-!
# What the dashboard is sent

A whale reaches the dashboard twice: as the alert the consumer built, relayed by
the backend to the websocket, and as an entry of `GET /api/v1/whales`.  Both are
JSON objects; `json.dumps` and `json.loads` give back what they were given.

* `relay_eq_some`: the relayed alert is the one the consumer built.
* `lookup_relay`: its transaction is under `hash`, and there is no `tx_hash`.
-/

namespace Backend

open Consumer

def nullableText (s : Option String) : Json :=
  match s with
  | some s => .str s
  | none => .null

/-- The dictionary of `build_whale_alert_payload`. -/
def alertPayload (a : WhaleAlert) : Payload :=
  [("hash", .str a.hash), ("timestamp", .str a.timestamp.text), ("from_address", .str a.fromAddress),
    ("to_address", nullableText a.toAddress), ("value", .int a.value),
    ("value_eth", .float (.finite a.valueEth))]

/-- From a transaction to the websocket; `none` when there is no payload to send. -/
def relay (tx : TransactionModel) : Option Payload :=
  match buildWhaleAlertPayload tx with
  | .ok a => decodeWhaleAlert (.json (.obj (alertPayload a)))
  | .error _ => none

/-- A `WhaleTransaction` in the response of `GET /api/v1/whales`. -/
def WhaleTransaction.payload (w : WhaleTransaction) : Payload :=
  [("hash", .str w.hash), ("timestamp", .str (instantText "Z" w.timestamp)),
    ("from_address", .str w.fromAddress), ("to_address", .str w.toAddress),
    ("value_eth", .float w.valueEth), ("from_label", nullableText w.labels.fromLabel),
    ("to_label", nullableText w.labels.toLabel),
    ("from_category", nullableText w.labels.fromCategory),
    ("to_category", nullableText w.labels.toCategory)]

theorem decode_alertPayload {a : WhaleAlert} {data : Payload}
    (h : decodeWhaleAlert (.json (.obj (alertPayload a))) = some data) : data = alertPayload a := by
  unfold decodeWhaleAlert at h
  obtain ⟨x, -, rfl⟩ := Option.map_eq_some_iff.mp h
  rfl

theorem relay_eq_some {tx : TransactionModel} {data : Payload} (h : relay tx = some data) :
    ∃ a, buildWhaleAlertPayload tx = .ok a ∧ data = alertPayload a := by
  unfold relay at h
  cases hbuild : buildWhaleAlertPayload tx with
  | ok a =>
    rw [hbuild] at h
    exact ⟨a, rfl, decode_alertPayload h⟩
  | error e =>
    rw [hbuild] at h
    simp at h

/-- **The alert has no field `tx_hash`.** -/
theorem lookup_relay {tx : TransactionModel} {data : Payload} (h : relay tx = some data) :
    data.lookup "hash" = some (.str tx.hash) ∧ data.lookup "tx_hash" = none ∧
      data.lookup "type" = none := by
  obtain ⟨a, hbuild, rfl⟩ := relay_eq_some h
  refine ⟨?_, rfl, rfl⟩
  rw [← buildWhaleAlertPayload_hash hbuild]
  rfl

end Backend
