import EthPipeline.Backend.LoadCsv
import EthPipeline.Backend.Services
import EthPipeline.Frontend.TokenExplorer
import EthPipeline.Silver.TokenFlow

/-!
# The scale of a token

The raw value of a transfer is divided by a power of ten in three places: in
`WalletService.get_wallet_history`, in `build_token_flow` and in the card of
`TokenExplorer.tsx`.

* `oneScale_iff`: the three quantities are those of the decimals just when the
  decimals are not zero.
* `indivisible_token`: a token without decimals.
-/

namespace Frontend

open Backend Consumer Silver

/-- The quantity of `get_wallet_history`, in exact arithmetic. -/
def walletQuantity (row : TokenRow) : Option ℚ :=
  row.value.map fun value : ℤ => (value : ℚ) / 10 ^ decimalsOrDefault row.decimals

/-- The amount of `build_token_flow`, in exact arithmetic. -/
def flowAmount (row : Joined) : Option ℚ :=
  let ((((transfer, token), _), _), _) := row
  transfer.value.bind fun value : ℕ => token.decimals.map fun decimals : ℤ =>
    (value : ℚ) / 10 ^ decimals

/-! ### The quantities in doubles -/

/-- The quantity in doubles is the exact one, rounded once, where the value and the power of
ten are doubles. -/
theorem value_tokenTransferHistory {lower : String → String} {address : String} {row : TokenRow}
    {v : ℤ} (hv : row.value = some v) (hvalue : PyFloat.ofRat v = .finite v)
    (hpow : Binary64.ofInt (10 ^ decimalsOrDefault row.decimals) =
      some (10 ^ decimalsOrDefault row.decimals)) :
    (tokenTransferHistory lower address row).map (·.value) =
      (walletQuantity row).map PyFloat.ofRat := by
  have hamount : floatOfNumeric row.value = some (.finite v) := by
    rw [hv, ← hvalue]
    rfl
  have hdiv : divByPow (.finite v) (decimalsOrDefault row.decimals) =
      some (PyFloat.ofRat ((v : ℚ) / 10 ^ decimalsOrDefault row.decimals)) := by
    rw [divByPow, hpow]
    rfl
  rw [walletQuantity, hv, tokenTransferHistory, hamount, Option.bind_eq_bind, Option.bind_some,
    hdiv]
  rfl

theorem amount_flowRow {pow : ℤ → PyFloat} {row : Joined} {v : ℕ} {d : ℤ}
    (hv : row.1.1.1.1.value = some v) (hd : row.1.1.1.2.decimals = some d)
    (hvalue : PyFloat.ofRat v = .finite v) (hpow : pow d = .finite (10 ^ d)) :
    (flowRow pow row).amount = (flowAmount row).map PyFloat.ofRat := by
  obtain ⟨⟨⟨⟨transfer, token⟩, block⟩, fromLabel⟩, toLabel⟩ := row
  have hten : (10 : ℚ) ^ d ≠ 0 := zpow_ne_zero d (by decide)
  have hamount : tokenAmount pow transfer.value token.decimals =
      some (PyFloat.ofRat ((v : ℚ) / 10 ^ d)) := by
    rw [hv, hd, tokenAmount]
    simp only [Option.bind_eq_bind, Option.bind_some, hpow, hten, if_false, hvalue]
    rfl
  rw [flowAmount, hv, hd]
  exact hamount

/-! ### One scale -/

/-- A raw value `v` of a token whose decimals are known to be `d`. -/
structure OneScale (v d : ℕ) : Prop where
  loaded : ∀ (py : PyText) (text : String), py.isdigit text = true → py.int text = some d →
    loadedDecimals py text = some d
  wallet : ∀ (db : Database) (t : TokenTransferRow) (token : Token), t.value = some (v : ℤ) →
    db.tokens t.tokenAddress = some token → token.decimals = some d →
    walletQuantity (db.tokenRow t) = some ((v : ℚ) / 10 ^ d)
  flow : ∀ row : Joined, row.1.1.1.1.value = some v → row.1.1.1.2.decimals = some (d : ℤ) →
    flowAmount row = some ((v : ℚ) / 10 ^ d)
  explorer : ∀ (s : Explorer.State) (token : TokenSearchData), s.selectedToken = some token →
    token.decimals = some d → Explorer.rawTotalVolume24h s = v →
    Explorer.totalVolume24h s = v / 10 ^ d
  /-- The fallback is for unknown decimals. -/
  fallback : decimalsOrDefault (some d) = d ∧
    ∀ (s : Explorer.State) (token : TokenSearchData), s.selectedToken = some token →
      token.decimals = some d → Explorer.decimals s = d

theorem decimalsOrDefault_some_iff {d : ℕ} : decimalsOrDefault (some d) = d ↔ d ≠ 0 := by
  rw [decimalsOrDefault]
  split <;> omega

theorem decimals_eq {s : Explorer.State} {token : TokenSearchData}
    (hs : s.selectedToken = some token) :
    Explorer.decimals s = decimalsOrDefault token.decimals := by
  rw [Explorer.decimals, hs]
  rfl

theorem walletQuantity_tokenRow {db : Database} {t : TokenTransferRow} {token : Token} {v : ℤ}
    (hv : t.value = some v) (htoken : db.tokens t.tokenAddress = some token) :
    walletQuantity (db.tokenRow t) = some ((v : ℚ) / 10 ^ decimalsOrDefault token.decimals) := by
  have hvalue : (db.tokenRow t).value = some v := hv
  have hdecimals : (db.tokenRow t).decimals = token.decimals := by
    rw [Database.tokenRow, htoken]
    rfl
  rw [walletQuantity, hvalue, hdecimals]
  rfl

theorem flowAmount_eq {row : Joined} {v d : ℕ} (hv : row.1.1.1.1.value = some v)
    (hd : row.1.1.1.2.decimals = some (d : ℤ)) : flowAmount row = some ((v : ℚ) / 10 ^ d) := by
  rw [flowAmount, hv, hd, Option.bind_some, Option.map_some, zpow_natCast]

theorem loadedDecimals_eq {py : PyText} {text : String} {d : ℕ} (hdigits : py.isdigit text = true)
    (hint : py.int text = some d) : loadedDecimals py text = some d := by
  rw [loadedDecimals, if_pos hdigits, hint]

/-- **One quantity, one scale**, just when the known decimals are not zero. -/
theorem oneScale_iff (v d : ℕ) : OneScale v d ↔ d ≠ 0 := by
  constructor
  · intro h
    exact decimalsOrDefault_some_iff.mp h.fallback.1
  · intro hd
    have hscale : decimalsOrDefault (some d) = d := decimalsOrDefault_some_iff.mpr hd
    have hexplorer : ∀ (s : Explorer.State) (token : TokenSearchData),
        s.selectedToken = some token → token.decimals = some d → Explorer.decimals s = d := by
      intro s token hs hdecimals
      rw [decimals_eq hs, hdecimals, hscale]
    refine ⟨fun py text => loadedDecimals_eq, ?_, fun row => flowAmount_eq, ?_, hscale, hexplorer⟩
    · intro db t token hv htoken hdecimals
      rw [walletQuantity_tokenRow hv htoken, hdecimals, hscale]
      rfl
    · intro s token hs hdecimals hraw
      rw [Explorer.totalVolume24h, hexplorer s token hs hdecimals, hraw]

/-! ### A token without decimals -/

def indivisible : Database where
  stored := Tables.empty
  tokens _ := some ⟨some "NFT", some "Ticket", some 0⟩
  addressLabels _ := none

def oneTicket : TokenTransferRow := ⟨"0x1", 0, 0, "0xd1", "0xa1", "0xb1", some 1⟩

def joinedTicket : Joined :=
  ((((⟨some "0xd1", some "0xa1", some "0xb1", some 1, some "0x1", some 7⟩,
    ⟨some "0xd1", some "NFT", some "Ticket", some 0⟩), none), none), none)

def shownTicket : Explorer.State :=
  { Explorer.initial with
    selectedToken := some ⟨"0xd1", some "NFT", some "Ticket", some 0⟩
    trends := [⟨"2026-06-04T00:00:00Z", 1, 1⟩] }

/-- **A token without decimals**: one ticket is one in the Silver layer, and `10 ^ (-18)` in the
history of a wallet and on the card. -/
theorem indivisible_token :
    flowAmount joinedTicket = some 1 ∧
      walletQuantity (indivisible.tokenRow oneTicket) = some (1 / 10 ^ 18) ∧
      Explorer.totalVolume24h shownTicket = 1 / 10 ^ 18 ∧ ¬OneScale 1 0 := by
  refine ⟨by decide +kernel, by decide +kernel, by decide +kernel, fun h => ?_⟩
  have hwallet := h.wallet indivisible oneTicket _ rfl rfl rfl
  exact absurd hwallet (by decide +kernel)

end Frontend
